import Xv6.Param
import Mathlib.Data.Nat.Bitwise

/-!
Addresses and page-table entries: the macros of `kernel/riscv.h` and `kernel/memlayout.h`.

Addresses and entries are `uint64`, here natural numbers with the wrap written out. A flag
set is a number below `2 ^ 10`.
-/

namespace Xv6.Vm

abbrev PGSIZE : ℕ := 4096
/-- One beyond the highest virtual address. -/
abbrev MAXVA : ℕ := 2 ^ (9 + 9 + 9 + 12 - 1)
abbrev KERNBASE : ℕ := 0x80000000
abbrev PHYSTOP : ℕ := KERNBASE + 128 * 1024 * 1024
abbrev TRAMPOLINE : ℕ := MAXVA - PGSIZE
abbrev TRAPFRAME : ℕ := TRAMPOLINE - PGSIZE

abbrev PTE_V : ℕ := 1
abbrev PTE_R : ℕ := 2
abbrev PTE_W : ℕ := 4
abbrev PTE_X : ℕ := 8
abbrev PTE_U : ℕ := 16

/-- The wrap of `uint64`. -/
abbrev u64 (x : ℕ) : ℕ := x % 2 ^ 64

def pgRoundDown (a : ℕ) : ℕ := a / PGSIZE * PGSIZE

def pgRoundUp (sz : ℕ) : ℕ := pgRoundDown (u64 (sz + PGSIZE - 1))

def pa2pte (pa : ℕ) : ℕ := (pa >>> 12) <<< 10

def pte2pa (pte : ℕ) : ℕ := u64 ((pte >>> 10) <<< 12)

def pteFlags (pte : ℕ) : ℕ := pte &&& 0x3FF

def px (level va : ℕ) : ℕ := (va >>> (12 + 9 * level)) &&& 0x1FF

/-! ### Rounding -/

lemma pgRoundDown_page (k o : ℕ) (hk : k % 4096 = 0) (ho : o < 4096) :
    pgRoundDown (k + o) = k := by
  simp only [pgRoundDown, PGSIZE]; omega

lemma pgRoundUp_eq {sz : ℕ} (h : sz + 4095 < 2 ^ 64) :
    pgRoundUp sz = (sz + 4095) / 4096 * 4096 := by
  simp only [pgRoundUp, pgRoundDown, u64, PGSIZE]
  rw [Nat.mod_eq_of_lt (by omega)]
  omega

/-! ### Indices -/

lemma px_eq (level va : ℕ) : px level va = va / 4096 / 512 ^ level % 512 := by
  unfold px
  rw [show (0x1FF : ℕ) = 2 ^ 9 - 1 from rfl, Nat.and_two_pow_sub_one_eq_mod,
    Nat.shiftRight_eq_div_pow, pow_add, pow_mul, Nat.div_div_eq_div_mul]
  norm_num

lemma px_lt (level va : ℕ) : px level va < 512 := by
  rw [px_eq]; omega

/-! ### Entries -/

lemma pteFlags_eq (pte : ℕ) : pteFlags pte = pte % 1024 := by
  unfold pteFlags
  rw [show (0x3FF : ℕ) = 2 ^ 10 - 1 from rfl, Nat.and_two_pow_sub_one_eq_mod]

lemma pa2pte_eq (pa : ℕ) : pa2pte pa = pa / 4096 * 1024 := by
  unfold pa2pte
  rw [Nat.shiftRight_eq_div_pow, Nat.shiftLeft_eq]

lemma pa2pte_or (pa : ℕ) {f : ℕ} (hf : f < 1024) : pa2pte pa ||| f = pa2pte pa + f := by
  unfold pa2pte
  exact (Nat.shiftLeft_add_eq_or_of_lt (by simpa using hf) _).symm

lemma pte2pa_eq (pte : ℕ) : pte2pa pte = pte / 1024 * 4096 % 2 ^ 64 := by
  unfold pte2pa
  rw [Nat.shiftRight_eq_div_pow, Nat.shiftLeft_eq]

lemma pte2pa_or {pa f : ℕ} (hpa : pa % 4096 = 0) (hlt : pa < 2 ^ 64) (hf : f < 1024) :
    pte2pa (pa2pte pa ||| f) = pa := by
  rw [pa2pte_or pa hf, pte2pa_eq, pa2pte_eq]
  have h1 : (pa / 4096 * 1024 + f) / 1024 = pa / 4096 := by omega
  rw [h1]
  omega

lemma pteFlags_or (pa : ℕ) {f : ℕ} (hf : f < 1024) : pteFlags (pa2pte pa ||| f) = f := by
  rw [pa2pte_or pa hf, pteFlags_eq, pa2pte_eq]
  omega

lemma or_lt (pa : ℕ) {f : ℕ} (hlt : pa < 2 ^ 64) (hf : f < 1024) :
    pa2pte pa ||| f < 2 ^ 64 := by
  rw [pa2pte_or pa hf, pa2pte_eq]
  omega

lemma and_flag (pte : ℕ) {f : ℕ} (hf : f < 1024) : pte &&& f = pteFlags pte &&& f := by
  have h : 0x3FF &&& f = f := by
    rw [Nat.and_comm, show (0x3FF : ℕ) = 2 ^ 10 - 1 from rfl, Nat.and_two_pow_sub_one_eq_mod]
    exact Nat.mod_eq_of_lt hf
  unfold pteFlags
  rw [Nat.and_assoc, h]

lemma flags_or_lt {f g : ℕ} (hf : f < 1024) (hg : g < 1024) : f ||| g < 1024 :=
  Nat.or_lt_two_pow (n := 10) hf hg

lemma valid_or (pa : ℕ) {perm : ℕ} (hp : perm < 1024) :
    (pa2pte pa ||| (perm ||| PTE_V)) &&& PTE_V ≠ 0 := by
  have hlt : perm ||| PTE_V < 1024 := flags_or_lt hp (by decide)
  rw [and_flag _ (by decide), pteFlags_or pa hlt, Nat.and_one_is_mod, Nat.or_mod_two_eq_one.mpr]
  · decide
  · exact .inr rfl

/-! ### Clearing a flag -/

/-- `pte & ~PTE_U`. -/
def clearU (pte : ℕ) : ℕ := pte &&& (2 ^ 64 - 1 - PTE_U)

lemma clearU_le (pte : ℕ) : clearU pte ≤ pte := Nat.and_le_left

lemma pte2pa_clearU {pte : ℕ} (h : pte < 2 ^ 64) : pte2pa (clearU pte) = pte2pa pte := by
  have hm : (2 ^ 64 - 1 - PTE_U) >>> 10 = 2 ^ 54 - 1 := by decide
  have hs : clearU pte >>> 10 = pte >>> 10 := by
    unfold clearU
    rw [Nat.shiftRight_and_distrib, hm, Nat.and_two_pow_sub_one_eq_mod]
    refine Nat.mod_eq_of_lt ?_
    rw [Nat.shiftRight_eq_div_pow]
    omega
  unfold pte2pa
  rw [hs]

lemma pteFlags_clearU (pte : ℕ) : pteFlags (clearU pte) = pteFlags pte &&& 0x3EF := by
  unfold pteFlags clearU
  rw [Nat.and_assoc, Nat.and_assoc]
  congr 1

end Xv6.Vm
