import Mathlib.Algebra.Group.Nat.Defs
import Mathlib.Logic.Function.Basic

/-!
`memmove` of `kernel/string.c` and of `user/ulib.c`.

A pointer has 64 bits, and its arithmetic wraps. Which bytes a loop has overwritten before it reads
them depends on the distance of the two regions only.
-/

namespace Xv6.Memmove

open Function (update update_of_ne update_self)

abbrev Ptr := BitVec 64
abbrev Mem := Ptr → UInt8

/-- `while(n-- > 0) *d++ = *s++;` -/
def upwards (mem : Mem) (d s : Ptr) : ℕ → Mem
  | 0 => mem
  | n + 1 => upwards (update mem d (mem s)) (d + 1) (s + 1) n

/-- `while(n-- > 0) *--d = *--s;` -/
def downwards (mem : Mem) (d s : Ptr) : ℕ → Mem
  | 0 => mem
  | n + 1 => downwards (update mem (d - 1) (mem (s - 1))) (d - 1) (s - 1) n

namespace Kernel

def memmove (mem : Mem) (dst src : Ptr) (n : BitVec 32) : Mem :=
  if src < dst ∧ src + n.setWidth 64 > dst then
    downwards mem (dst + n.setWidth 64) (src + n.setWidth 64) n.toNat
  else upwards mem dst src n.toNat

end Kernel

namespace User

/-- Here `n` is an `int`: a negative one copies nothing. -/
def memmove (mem : Mem) (dst src : Ptr) (n : BitVec 32) : Mem :=
  if src > dst then upwards mem dst src n.toInt.toNat
  else downwards mem (dst + n.signExtend 64) (src + n.signExtend 64) n.toInt.toNat

end User

/-- `mem` with the `n` bytes at `s` moved to `d`. -/
def moved (mem : Mem) (d s : Ptr) (n : ℕ) : Mem :=
  fun a => if (a - d).toNat < n then mem (s + (a - d)) else mem a

variable {mem : Mem} {a d s x : Ptr} {n : ℕ}

lemma add_sub_self (d x : Ptr) : d + x - d = x := by
  rw [BitVec.add_comm, BitVec.add_sub_cancel]

lemma eq_sub_of_add (h : s + x = d) : x = d - s := by
  rw [← h, add_sub_self]

lemma sub_eq_of_add (h : s + a = d + x) : s - d = x - a := by
  grind

lemma toNat_sub_pos (h : a ≠ d) : 0 < (a - d).toNat := by
  bv_omega

lemma toNat_sub_succ (h : a ≠ d) : (a - (d + 1)).toNat = (a - d).toNat - 1 := by
  bv_omega

lemma toNat_sub_self_succ (d : Ptr) : (d - (d + 1)).toNat = 2 ^ 64 - 1 := by
  bv_omega

lemma toNat_ofNat_sub (hn : n < 2 ^ 64) (h : a.toNat < n) :
    (BitVec.ofNat 64 n - a).toNat = n - a.toNat := by
  bv_omega

lemma toNat_add_sub (hn : n < 2 ^ 64) : (d + BitVec.ofNat 64 n - d).toNat = n := by
  rw [add_sub_self, BitVec.toNat_ofNat, Nat.mod_eq_of_lt hn]

/-- Upwards, the source is read before it is overwritten unless the destination starts within it. -/
lemma upwards_eq (hn : n < 2 ^ 64) (h : d = s ∨ n ≤ (d - s).toNat) :
    upwards mem d s n = moved mem d s n := by
  induction n generalizing mem d s with
  | zero =>
    funext a
    simp [upwards, moved]
  | succ n ih =>
    have hnext : d + 1 = s + 1 ∨ n ≤ (d + 1 - (s + 1)).toNat := by
      rw [show d + 1 - (s + 1) = d - s by grind]
      exact h.imp (congrArg (· + 1)) Nat.le_of_succ_le
    rw [upwards, ih (by omega) hnext]
    funext a
    unfold moved
    by_cases had : a = d
    · subst had
      rw [toNat_sub_self_succ, if_neg (by omega), update_self, BitVec.sub_self, BitVec.add_zero]
      rfl
    · have hpos := toNat_sub_pos had
      rw [toNat_sub_succ had]
      by_cases hlt : (a - d).toNat < n + 1
      · have hsrc : s + 1 + (a - (d + 1)) = s + (a - d) := by grind
        have hne : s + (a - d) ≠ d := by
          -- a byte that was overwritten would be further from `s` than `a` from `d`
          intro heq
          have hdist := eq_sub_of_add heq
          rw [hdist] at hlt hpos
          rcases h with rfl | h
          · rw [BitVec.sub_self] at hpos
            exact absurd hpos (Nat.lt_irrefl 0)
          · omega
        rw [if_pos (by omega), if_pos hlt, hsrc, update_of_ne hne]
      · rw [if_neg (by omega), if_neg hlt, update_of_ne had]

lemma downwards_eq (hn : n < 2 ^ 64) (h : d = s ∨ n ≤ (s - d).toNat) :
    downwards mem (d + BitVec.ofNat 64 n) (s + BitVec.ofNat 64 n) n = moved mem d s n := by
  induction n generalizing mem with
  | zero =>
    funext a
    simp [downwards, moved]
  | succ n ih =>
    have hlast : ∀ p : Ptr, p + BitVec.ofNat 64 (n + 1) - 1 = p + BitVec.ofNat 64 n := by
      intro p
      rw [BitVec.ofNat_add]
      grind
    rw [downwards, hlast, hlast, ih (by omega) (h.imp_right Nat.le_of_succ_le)]
    funext a
    unfold moved
    by_cases hlt : (a - d).toNat < n
    · have hne : s + (a - d) ≠ d + BitVec.ofNat 64 n := by
        intro heq
        have hdist := sub_eq_of_add heq
        have hsub := toNat_ofNat_sub (by omega) hlt
        rw [← hdist] at hsub
        rcases h with rfl | h
        · rw [BitVec.sub_self, BitVec.toNat_zero] at hsub
          omega
        · omega
      rw [if_pos hlt, if_pos (by omega), update_of_ne hne]
    · rw [if_neg hlt]
      by_cases had : a = d + BitVec.ofNat 64 n
      · rw [had, update_self, toNat_add_sub (by omega), if_pos (by omega), add_sub_self]
      · have hfar : (a - d).toNat ≠ n := by
          intro heq
          refine had ?_
          rw [← heq, BitVec.ofNat_toNat, BitVec.setWidth_eq]
          grind
        rw [update_of_ne had, if_neg (by omega)]

/-- The `n` bytes at `dst` are those that were at `src`, and all other bytes are as they were. -/
structure Moved (mem mem' : Mem) (dst src : Ptr) (n : ℕ) : Prop where
  copied : ∀ i < n, mem' (dst + BitVec.ofNat 64 i) = mem (src + BitVec.ofNat 64 i)
  others : ∀ a, (∀ i < n, a ≠ dst + BitVec.ofNat 64 i) → mem' a = mem a

lemma moved_moved (hn : n < 2 ^ 64) : Moved mem (moved mem d s n) d s n := by
  constructor
  case copied =>
    intro i hi
    rw [moved, toNat_add_sub (by omega), if_pos hi, add_sub_self]
  case others =>
    intro a ha
    refine if_neg fun hlt => ha _ hlt ?_
    rw [BitVec.ofNat_toNat, BitVec.setWidth_eq]
    grind

/-- **Both versions of `memmove` copy overlapping regions**, whatever their relative position. -/
theorem memmove_moves (mem : Mem) (dst src : Ptr) (n : BitVec 32)
    (hdst : dst.toNat + n.toNat < 2 ^ 64) (hsrc : src.toNat + n.toNat < 2 ^ 64) :
    Moved mem (Kernel.memmove mem dst src n) dst src n.toNat ∧
      Moved mem (User.memmove mem dst src n) dst src n.toInt.toNat := by
  have hlt : n.toNat < 2 ^ 32 := n.isLt
  constructor
  · have hn : n.setWidth 64 = BitVec.ofNat 64 n.toNat := by bv_omega
    suffices Kernel.memmove mem dst src n = moved mem dst src n.toNat by
      rw [this]
      exact moved_moved (by omega)
    rw [Kernel.memmove, hn]
    split
    · exact downwards_eq (by omega) (by bv_omega)
    · exact upwards_eq (by omega) (by bv_omega)
  · have hcond := BitVec.toInt_eq_toNat_cond n
    suffices User.memmove mem dst src n = moved mem dst src n.toInt.toNat by
      rw [this]
      exact moved_moved (by split at hcond <;> omega)
    rw [User.memmove]
    split at hcond
    · have hint : n.toInt.toNat = n.toNat := by omega
      have hn : n.signExtend 64 = BitVec.ofNat 64 n.toNat := by
        have hmsb : n.msb = false := BitVec.msb_eq_false_iff_two_mul_lt.mpr (by omega)
        rw [BitVec.signExtend_eq_setWidth_of_msb_false hmsb]
        bv_omega
      rw [hint, hn]
      split
      · exact upwards_eq (by omega) (by bv_omega)
      · exact downwards_eq (by omega) (by bv_omega)
    · have hzero : n.toInt.toNat = 0 := by omega
      have hnone : moved mem dst src 0 = mem := by
        funext a
        simp [moved]
      rw [hzero, hnone, upwards, downwards, ite_self]

theorem memmove_moves_overlap :
    Moved (fun a => UInt8.ofNat a.toNat)
        (Kernel.memmove (fun a => UInt8.ofNat a.toNat) 0x1002 0x1000 4) 0x1002 0x1000 4 ∧
      Moved (fun a => UInt8.ofNat a.toNat)
        (User.memmove (fun a => UInt8.ofNat a.toNat) 0x1002 0x1000 4) 0x1002 0x1000 4 :=
  memmove_moves _ 0x1002 0x1000 4 (by decide) (by decide)

end Xv6.Memmove
