import Mathlib.Data.List.OfFn
import Mathlib.Tactic.Ring

/-!
Fixed-size byte buffers: single bytes, copies of a range, little-endian numbers.

A buffer of `n` bytes is a function on `Fin n`. `le f o k` is the number stored in the `k`
bytes from `o`, `putLe f o k v` stores one, and `copy f o m src` is the buffer after
`memmove(f + o, src, m)`.
-/

namespace Xv6.Lib.Bytes

variable {n : ℕ}

abbrev Buffer (n : ℕ) := Fin n → UInt8

/-- The byte at `i`, and `0` past the end. -/
def byte (f : Buffer n) (i : ℕ) : UInt8 := if h : i < n then f ⟨i, h⟩ else 0

lemma byte_of_lt (f : Buffer n) {i : ℕ} (h : i < n) : byte f i = f ⟨i, h⟩ := dif_pos h

@[simp] lemma byte_val (f : Buffer n) (i : Fin n) : byte f i = f i := by simp [byte]

lemma ext_byte {f g : Buffer n} (h : ∀ i < n, byte f i = byte g i) : f = g := by
  funext i
  simpa using h i i.isLt

def zeroes : Buffer n := fun _ => 0

@[simp] lemma byte_zeroes (i : ℕ) : byte (zeroes : Buffer n) i = 0 := by
  unfold byte zeroes; split <;> rfl

/-! ### Copies -/

/-- The buffer after copying `m` bytes of `src` to offset `o`. -/
def copy (f : Buffer n) (o m : ℕ) (src : ℕ → UInt8) : Buffer n := fun i =>
  if o ≤ i ∧ (i : ℕ) < o + m then src (i - o) else f i

section

variable {i o m : ℕ} (f : Buffer n)

lemma byte_copy (o m : ℕ) (src : ℕ → UInt8) (hi : i < n) :
    byte (copy f o m src) i = if o ≤ i ∧ i < o + m then src (i - o) else byte f i := by
  rw [byte_of_lt _ hi, byte_of_lt _ hi, copy]

lemma byte_copy_in (src : ℕ → UInt8) (hi : i < n) (h : o ≤ i) (h' : i < o + m) :
    byte (copy f o m src) i = src (i - o) := by
  rw [byte_copy f o m src hi, if_pos ⟨h, h'⟩]

lemma byte_copy_out (src : ℕ → UInt8) (h : ¬ (o ≤ i ∧ i < o + m)) :
    byte (copy f o m src) i = byte f i := by
  by_cases hi : i < n
  · rw [byte_copy f o m src hi, if_neg h]
  · simp [byte, hi]

@[simp] lemma copy_zero (o : ℕ) (src : ℕ → UInt8) : copy f o 0 src = f := by
  funext i
  rw [copy, if_neg]; omega

lemma copy_add (o m k : ℕ) (src : ℕ → UInt8) :
    copy (copy f o m src) (o + m) k (fun i => src (m + i)) = copy f o (m + k) src := by
  funext i
  simp only [copy]
  split_ifs with h1 h2 h2 h3 h4
  · congr 1; omega
  · omega
  · rfl
  · omega
  · omega
  · rfl

end

/-! ### Little-endian numbers -/

/-- The number in the `k` bytes from `o`. -/
def le (f : Buffer n) (o : ℕ) : ℕ → ℕ
  | 0 => 0
  | k + 1 => (byte f o).toNat + 256 * le f (o + 1) k

/-- Store the low `k` bytes of `v` at `o`. -/
def putLe (f : Buffer n) (o k v : ℕ) : Buffer n :=
  copy f o k fun i => UInt8.ofNat (v / 256 ^ i)

variable {o k v m p j : ℕ}

lemma le_congr {f g : Buffer n} (h : ∀ i, o ≤ i → i < o + k → byte f i = byte g i) :
    le f o k = le g o k := by
  induction k generalizing o with
  | zero => rfl
  | succ k ih =>
    rw [le, le, h o le_rfl (by omega), ih fun i h1 h2 => h i (by omega) (by omega)]

lemma le_lt (f : Buffer n) (o k : ℕ) : le f o k < 256 ^ k := by
  induction k generalizing o with
  | zero => simp [le]
  | succ k ih =>
    have h1 := ih (o + 1)
    have h2 : (byte f o).toNat < 256 := (byte f o).toNat_lt
    have h3 : 256 ^ (k + 1) = 256 * 256 ^ k := by ring
    rw [le, h3]; omega

lemma le_zeroes (o k : ℕ) : le (zeroes : Buffer n) o k = 0 := by
  induction k generalizing o with
  | zero => rfl
  | succ k ih => simp [le, ih]

lemma le_putLe_self (f : Buffer n) (v : ℕ) (h : o + k ≤ n) :
    le (putLe f o k v) o k = v % 256 ^ k := by
  induction k generalizing o v f with
  | zero => simp [le, Nat.mod_one]
  | succ k ih =>
    have htail : le (putLe f o (k + 1) v) (o + 1) k = le (putLe f (o + 1) k (v / 256)) (o + 1) k :=
      le_congr fun i h1 h2 => by
        unfold putLe
        rw [byte_copy_in _ _ (by omega) (by omega) (by omega),
          byte_copy_in _ _ (by omega) (by omega) (by omega), Nat.div_div_eq_div_mul,
          show i - o = (i - (o + 1)) + 1 by omega, pow_succ, Nat.mul_comm 256]
    have hhead : byte (putLe f o (k + 1) v) o = UInt8.ofNat v := by
      unfold putLe
      rw [byte_copy_in _ _ (by omega) le_rfl (by omega)]; simp
    have hbyte : (UInt8.ofNat v).toNat = v % 256 := by simp
    rw [le, hhead, htail, ih _ _ (by omega), hbyte, pow_succ, Nat.mul_comm (256 ^ k),
      Nat.mod_mul]

lemma le_putLe_of_lt (f : Buffer n) (h : o + k ≤ n) (hv : v < 256 ^ k) :
    le (putLe f o k v) o k = v := by
  rw [le_putLe_self f v h, Nat.mod_eq_of_lt hv]

lemma le_copy_out (f : Buffer n) (src : ℕ → UInt8) (h : p + k ≤ o ∨ o + m ≤ p) :
    le (copy f o m src) p k = le f p k :=
  le_congr fun i h1 h2 => byte_copy_out f src (by omega)

lemma le_putLe_of_disjoint (f : Buffer n) (v : ℕ) (h : p + j ≤ o ∨ o + k ≤ p) :
    le (putLe f o k v) p j = le f p j :=
  le_copy_out f _ h

end Xv6.Lib.Bytes
