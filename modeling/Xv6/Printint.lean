import Mathlib.Data.Nat.Digits.Lemmas
import Xv6.Lib.Text

/-!
`printint` of `kernel/printf.c` and of `user/printf.c`, and `atoi` of `user/ulib.c`.
-/

namespace Xv6.Printint

open List
open Lib.Text (ch Halt)

/-- `do buf[i++] = digits[x % base]; while((x /= base) != 0);` with `k` cells of the buffer left:
the digits of `x`, the lowest one first. -/
def putDigits (digits : List UInt8) (base : ℕ) : ℕ → ℕ → Except Halt (List UInt8)
  | 0, _ => .error .undefined
  | k + 1, x => do
    let c ← (digits[x % base]?).elim (.error .undefined) .ok
    if x / base ≠ 0 then
      let buf ← putDigits digits base k (x / base)
      .ok (c :: buf)
    else .ok [c]

/-- The characters that are printed, where `neg` says that the number is negative. -/
def printWith (digits : List UInt8) (xx : BitVec 32) (base : ℕ) (neg : Bool) :
    Except Halt (List UInt8) := do
  let x := if neg then -xx else xx
  let buf ← putDigits digits base 16 x.toNat
  if neg then
    if buf.length < 16 then .ok (buf ++ [ch '-']).reverse else .error .undefined
  else .ok buf.reverse

namespace Kernel

def digits : List UInt8 := "0123456789abcdef".toList.map ch

/-- `if(sign && (sign = xx < 0))` -/
def printint (xx : BitVec 32) (base : ℕ) (sign : Bool) : Except Halt (List UInt8) :=
  printWith digits xx base (sign && decide (xx.toInt < 0))

end Kernel

namespace User

def digits : List UInt8 := "0123456789ABCDEF".toList.map ch

def printint (xx : BitVec 32) (base : ℕ) (sgn : Bool) : Except Halt (List UInt8) :=
  printWith digits xx base (sgn && decide (xx.toInt < 0))

end User

/-- The loop of `atoi`. -/
def atoiFrom (n : BitVec 32) : List UInt8 → BitVec 32
  | [] => n
  | c :: s =>
    if ch '0' ≤ c ∧ c ≤ ch '9' then atoiFrom (n * 10 + BitVec.ofNat 32 c.toNat - 48) s else n

/-- `atoi` of a string, in which no NUL stands before the end. -/
def atoi (s : List UInt8) : ℤ := (atoiFrom 0 s).toInt

/-! ### Numerals -/

/-- The digits of the numeral of `v`, the highest one first. -/
structure Numeral (base v : ℕ) (ds : List ℕ) : Prop where
  lt : ∀ d ∈ ds, d < base
  value : ds.foldl (fun n d => n * base + d) 0 = v
  lead : ds = [0] ∨ ∃ d t, ds = d :: t ∧ d ≠ 0

/-- What `printint` is asked to print. -/
def asked (xx : BitVec 32) (sign : Bool) : ℤ := if sign then xx.toInt else xx.toNat

variable {T : List UInt8} {ten : Char} {base k x : ℕ}

/-- The digits in the order in which the loop finds them. -/
def low (base x : ℕ) : List ℕ := if x = 0 then [0] else base.digits x

lemma low_of_lt (h : x < base) : low base x = [x] := by
  unfold low
  split
  · rename_i h0
    rw [h0]
  · exact Nat.digits_of_lt base x ‹_› h

lemma low_step (hb : 1 < base) (h : x / base ≠ 0) : low base x = x % base :: low base (x / base) := by
  have hx : x ≠ 0 := by
    rintro rfl
    exact h (Nat.zero_div base)
  rw [low, low, if_neg hx, if_neg h, Nat.digits_def' hb (Nat.pos_of_ne_zero hx)]

lemma length_low (hb : 1 < base) (hk : 0 < k) (hx : x < base ^ k) : (low base x).length ≤ k := by
  unfold low
  split
  · exact hk
  · exact (Nat.digits_length_le_iff hb x).mpr hx

lemma numeral_low (hb : 1 < base) (x : ℕ) : Numeral base x (low base x).reverse := by
  by_cases hx : x = 0
  · rw [hx, low, if_pos rfl]
    exact ⟨by simp; omega, by simp, .inl rfl⟩
  · rw [low, if_neg hx]
    have hne := Nat.digits_ne_nil_iff_ne_zero (b := base).mpr hx
    constructor
    case lt =>
      intro d hd
      exact Nat.digits_lt_base hb (mem_reverse.mp hd)
    case value =>
      rw [foldl_reverse]
      calc (base.digits x).foldr (fun d n => n * base + d) 0
          = (base.digits x).foldr (fun d n => d + base * n) 0 := by
            simp only [Nat.add_comm, Nat.mul_comm]
        _ = Nat.ofDigits base (base.digits x) := (Nat.ofDigits_eq_foldr base _).symm
        _ = x := Nat.ofDigits_digits base x
    case lead =>
      refine .inr ⟨_, (base.digits x).dropLast.reverse, ?_, Nat.getLast_digit_ne_zero base hx⟩
      rw [← reverse_concat, dropLast_append_getLast]

lemma putDigits_eq (hb : 1 < base) (ht : base ≤ T.length) (hk : 0 < k) (hx : x < base ^ k) :
    putDigits T base k x = .ok ((low base x).map fun d => T.getD d 0) := by
  induction k generalizing x with
  | zero => omega
  | succ k ih =>
    have hlt : x % base < T.length := (Nat.mod_lt x (by omega)).trans_le ht
    have hc : T[x % base]? = some (T.getD (x % base) 0) := by
      rw [getD_eq_getElem?_getD, List.getElem?_eq_getElem hlt]
      rfl
    rw [putDigits, hc]
    by_cases hdiv : x / base = 0
    · have hxb : x < base := (Nat.div_eq_zero_iff_lt (by omega)).mp hdiv
      rw [low_of_lt hxb, Nat.mod_eq_of_lt hxb]
      simp [hdiv, bind, Except.bind]
    · have hx' : x / base < base ^ k := Nat.div_lt_of_lt_mul (by rwa [Nat.pow_succ'] at hx)
      have hk : 0 < k := by
        refine Nat.pos_of_ne_zero fun hk => hdiv ?_
        rw [hk, Nat.pow_zero] at hx'
        exact Nat.lt_one_iff.mp hx'
      rw [low_step hb hdiv]
      simp [hdiv, ih hk hx', bind, Except.bind]

/-- The character of a digit, where `ten` is that of the digit ten. -/
def digit (ten : Char) (d : ℕ) : UInt8 :=
  UInt8.ofNat (if d < 10 then '0'.toNat + d else ten.toNat + (d - 10))

/-- The characters of the numeral of `v`. -/
def Prints (ten : Char) (base : ℕ) (v : ℤ) (out : List UInt8) : Prop :=
  ∃ ds, Numeral base v.natAbs ds ∧ out = (if v < 0 then [ch '-'] else []) ++ ds.map (digit ten)

lemma asked_lt (xx : BitVec 32) (sign : Bool) :
    asked xx sign < 0 ↔ (sign && decide (xx.toInt < 0)) = true := by
  cases sign with
  | true | false => simp [asked]

lemma natAbs_asked (xx : BitVec 32) (sign : Bool) : (asked xx sign).natAbs =
    (if (sign && decide (xx.toInt < 0)) = true then -xx else xx).toNat := by
  have hcond := BitVec.toInt_eq_toNat_cond xx
  have hneg := BitVec.toNat_neg xx
  have hlt := xx.isLt
  cases sign with
  | true =>
    simp only [asked, Bool.true_and, decide_eq_true_eq, if_true]
    split at hcond <;> split <;> omega
  | false => simp [asked]

lemma printWith_ok (ten : Char) (ht : T.length = 16) (hten : ∀ d < 16, T.getD d 0 = digit ten d)
    (hb : base = 10 ∨ base = 16) (xx : BitVec 32) (sign : Bool) :
    ∃ out, printWith T xx base (sign && decide (xx.toInt < 0)) = .ok out ∧
      Prints ten base (asked xx sign) out := by
  have hbase : 1 < base := by omega
  have hx : (asked xx sign).natAbs < base ^ 10 := by
    rw [natAbs_asked]
    have hpow : 2 ^ 32 ≤ base ^ 10 := by rcases hb with rfl | rfl <;> decide
    exact (BitVec.isLt _).trans_le hpow
  have hbuf := putDigits_eq (T := T) hbase (by omega) (show 0 < 16 by decide)
    (hx.trans_le (Nat.pow_le_pow_right (by omega) (by decide)))
  have hlen := length_low hbase (by decide) hx
  have hnum := numeral_low hbase (asked xx sign).natAbs
  have hchars : (low base (asked xx sign).natAbs).map (fun d => T.getD d 0) =
      (low base (asked xx sign).natAbs).map (digit ten) :=
    map_congr_left fun d hd => hten d ((hnum.lt d (mem_reverse.mpr hd)).trans_le (by omega))
  rw [printWith, ← natAbs_asked, hbuf, hchars]
  by_cases hneg : asked xx sign < 0
  · refine ⟨_, ?_, _, hnum, rfl⟩
    simp only [(asked_lt xx sign).mp hneg, if_true, bind, Except.bind, length_map]
    rw [if_pos (by omega), if_pos hneg, reverse_append, map_reverse]
    rfl
  · refine ⟨_, ?_, _, hnum, rfl⟩
    simp only [Bool.eq_false_iff.mpr (mt (asked_lt xx sign).mpr hneg), bind, Except.bind]
    rw [if_neg hneg, map_reverse]
    rfl

/-! ### Reading back -/

lemma atoiFrom_digits (ten : Char) (m : ℕ) (ds : List ℕ) (hds : ∀ d ∈ ds, d < 10) :
    atoiFrom (BitVec.ofNat 32 m) (ds.map (digit ten)) =
      BitVec.ofNat 32 (ds.foldl (fun n d => n * 10 + d) m) := by
  induction ds generalizing m with
  | nil => rfl
  | cons d ds ih =>
    have hd := hds d mem_cons_self
    have hchar : digit ten d = UInt8.ofNat (48 + d) := by
      rw [digit, if_pos hd]
      rfl
    have hdigit : ch '0' ≤ UInt8.ofNat (48 + d) ∧ UInt8.ofNat (48 + d) ≤ ch '9' := by
      interval_cases d <;> decide
    have hnext : BitVec.ofNat 32 m * 10 + BitVec.ofNat 32 (UInt8.ofNat (48 + d)).toNat - 48 =
        BitVec.ofNat 32 (m * 10 + d) := by
      have : (UInt8.ofNat (48 + d)).toNat = 48 + d := by
        rw [UInt8.toNat_ofNat']
        omega
      rw [this]
      bv_omega
    rw [map_cons, hchar, atoiFrom, if_pos hdigit, hnext,
      ih _ fun d' h' => hds d' (mem_cons_of_mem d h'), foldl_cons]

lemma Prints.atoi {v : ℤ} {out : List UInt8} (h : Prints ten 10 v out) (h0 : 0 ≤ v)
    (hv : v < 2 ^ 31) : atoi out = v := by
  obtain ⟨ds, hnum, rfl⟩ := h
  rw [if_neg (by omega), nil_append, Printint.atoi]
  have := atoiFrom_digits ten 0 ds hnum.lt
  rw [hnum.value] at this
  rw [show (0 : BitVec 32) = BitVec.ofNat 32 0 from rfl, this, BitVec.toInt_eq_toNat_cond,
    BitVec.toNat_ofNat]
  omega

/-- **`printint` prints the numeral of the number it is given**, in both versions and both modes,
and `atoi` reads decimal ones back. -/
theorem printint_exact (xx : BitVec 32) {base : ℕ} (hb : base = 10 ∨ base = 16) (sign : Bool) :
    (∃ out, Kernel.printint xx base sign = .ok out ∧
      Prints 'a' base (asked xx sign) out ∧
      (base = 10 → 0 ≤ asked xx sign → asked xx sign < 2 ^ 31 → atoi out = asked xx sign)) ∧
    ∃ out, User.printint xx base sign = .ok out ∧
      Prints 'A' base (asked xx sign) out ∧
      (base = 10 → 0 ≤ asked xx sign → asked xx sign < 2 ^ 31 → atoi out = asked xx sign) := by
  constructor
  · obtain ⟨out, hout, hp⟩ := printWith_ok (T := Kernel.digits) 'a' (by decide) (by decide) hb xx sign
    refine ⟨out, hout, hp, ?_⟩
    rintro rfl h0 hlt
    exact hp.atoi h0 hlt
  · obtain ⟨out, hout, hp⟩ := printWith_ok (T := User.digits) 'A' (by decide) (by decide) hb xx sign
    refine ⟨out, hout, hp, ?_⟩
    rintro rfl h0 hlt
    exact hp.atoi h0 hlt

theorem printint_exact_min :
    (∃ out, Kernel.printint 0x80000000 10 true = .ok out ∧
      Prints 'a' 10 (asked 0x80000000 true) out ∧
      ((10 : ℕ) = 10 → 0 ≤ asked 0x80000000 true → asked 0x80000000 true < 2 ^ 31 →
        atoi out = asked 0x80000000 true)) ∧
    ∃ out, User.printint 0x80000000 10 true = .ok out ∧
      Prints 'A' 10 (asked 0x80000000 true) out ∧
      ((10 : ℕ) = 10 → 0 ≤ asked 0x80000000 true → asked 0x80000000 true < 2 ^ 31 →
        atoi out = asked 0x80000000 true) :=
  printint_exact 0x80000000 (.inl rfl) true

end Xv6.Printint
