import Xv6.Vm.Fork

/-!
`growproc` of `kernel/proc.c` and `sys_sbrk` of `kernel/sysproc.c`: the size of a process changes by
an `int`, which goes through an `uint`.
-/

namespace Xv6.Vm

open Lib.Bytes Lib.Wp Lib.Conc Lib.Own Lib.Conc.Prog

variable {T T' : Tree} {h h' : PageHeap} {ι : Type} [DecidableEq ι]
  {E : Stop → Phys → Prop} {p : ι} {x : Proc}

/-- `growproc`, with `n` given by its 32 bits. The result is whether it succeeds, and the entry. -/
def growproc (p : Proc) (n : ℕ) : Code (Bool × Proc) :=
  let sz := p.sz % 2 ^ 32
  if 0 < toInt32 n then do
    let sz1 ← uvmalloc p.pagetable sz ((sz + n) % 2 ^ 32)
    if sz1 % 2 ^ 32 = 0 then
      return (false, p)
    else
      return (true, { p with sz := sz1 % 2 ^ 32 })
  else if toInt32 n < 0 then do
    let sz1 ← uvmdealloc p.pagetable sz ((sz + n) % 2 ^ 32)
    return (true, { p with sz := sz1 % 2 ^ 32 })
  else
    return (true, { p with sz := sz })

def sysSbrk (p : Proc) (n : ℕ) : Code (ℤ × Proc) := do
  let addr := toInt32 p.sz
  let (ok, p) ← growproc p n
  return (if ok then addr else -1, p)

/-! ### What they do to memory -/

/-- The address space has another size: the pages of both sizes are as they were, and new ones are full
of zeroes. -/
structure Resized (x : Proc) (T : Tree) (h : PageHeap) (x' : Proc) (T' : Tree) (h' : PageHeap) : Prop where
  entry : x' = { x with sz := x'.sz }
  mem : x'.Mem T' h'
  moves : Moves (x.Foot T) h (x'.Foot T') h'
  low : ∀ v, v < pages x.sz → v < pages x'.sz →
    T'.pte v = T.pte v ∧ h' (pte2pa (T.pte v)) = h (pte2pa (T.pte v))
  same : x'.sz = x.sz → ∀ v, T'.pte v = T.pte v
  zero : ∀ v, pages x.sz ≤ v → v < pages x'.sz →
    pteFlags (T'.pte v) = UPERM ||| PTE_V ∧ h' (pte2pa (T'.pte v)) = some zeroes
  frame : h' x.trapframe = h x.trapframe

lemma Resized.root {x' : Proc} (R : Resized x T h x' T' h') : x'.pagetable = x.pagetable := by rw [R.entry]

lemma Resized.state {x' : Proc} (R : Resized x T h x' T' h') : x'.state = x.state := by rw [R.entry]

section Resize

variable {sz : ℕ}

lemma Proc.Mem.moved (M : x.Mem T h) (hm : Moves (Vm.Foot T (pages x.sz)) h (Vm.Foot T' (pages sz)) h') :
    ¬ Vm.Foot T' (pages sz) x.trapframe ∧ h' x.trapframe = h x.trapframe :=
  hm.apart M.frame.2.1 M.frame.2.2

lemma Proc.Mem.widened (M : x.Mem T h) (W : Widened T x.pagetable (pages x.sz) h (pages sz) T' h')
    (hle : x.sz ≤ sz) : Resized x T h { x with sz := sz } T' h' := by
  obtain ⟨hnot, hframe⟩ := M.moved W.moves
  have hpages := pages_mono hle
  refine ⟨rfl, ⟨M.root, W.space, ?_, M.frame.1, ?_, hnot⟩, W.moves.also _, fun v hv _ => ?_, ?_, W.zero, hframe⟩
  · refine M.tops.congr fun v hv => W.pte v ?_
    have := (isTop_lt hv).2
    have := W.space.le
    omega
  · rw [hframe]
    exact M.frame.2.1
  · exact ⟨W.pte v (by omega), W.kept v hv⟩
  · intro he v
    refine W.pte v ?_
    dsimp only at he
    rw [he]
    omega

lemma Proc.Mem.shrunk (M : x.Mem T h) (W : Shrunk T x.pagetable (pages x.sz) h (pages sz) T' h')
    (hle : sz ≤ x.sz) : Resized x T h { x with sz := sz } T' h' := by
  obtain ⟨hnot, hframe⟩ := M.moved W.moves
  have hpages := pages_mono hle
  have hpte : ∀ v, ¬ (pages sz ≤ v ∧ v < pages x.sz) → T'.pte v = T.pte v := by
    intro v hv
    rw [W.pte, unmapped]
    exact if_neg (by omega)
  refine ⟨rfl, ⟨M.root, W.space, ?_, M.frame.1, ?_, hnot⟩, W.moves.also _, fun v _ hv => ?_, ?_, ?_, hframe⟩
  · refine M.tops.congr fun v hv => hpte v ?_
    have := (isTop_lt hv).2
    have := M.space.le
    omega
  · rw [hframe]
    exact M.frame.2.1
  · exact ⟨hpte v (by dsimp only at hv; omega), W.kept v hv⟩
  · intro he v
    refine hpte v ?_
    dsimp only at he
    rw [he]
    omega
  · intro v h1 h2
    dsimp only at h2
    omega

end Resize

/-- The size that `growproc` leaves: nothing happens if the size would be negative. -/
def newSize (sz : ℕ) (n : ℤ) : ℤ := if 0 ≤ sz + n then sz + n else sz

lemma growproc_ok (M : x.Mem T h) (n : ℕ) :
    Ok E p (growproc x n) (fun r h' => ∃ T', Resized x T h r.2 T' h' ∧
      (r.1 = false → 0 < toInt32 n ∧ r.2.sz = x.sz) ∧ (r.1 = true → (r.2.sz : ℤ) = newSize x.sz (toInt32 n))) h := by
  have hsz := M.space.size_le rfl
  simp only [RAMPAGES] at hsz
  have hmod : x.sz % 2 ^ 32 = x.sz := Nat.mod_eq_of_lt (by omega)
  have hz : toInt32 n = (n % 2 ^ 32 : ℕ) ∧ n % 2 ^ 32 < 2 ^ 31 ∨
      toInt32 n = (n % 2 ^ 32 : ℕ) - 2 ^ 32 ∧ 2 ^ 31 ≤ n % 2 ^ 32 := by
    unfold toInt32
    split
    · exact .inl ⟨rfl, ‹_›⟩
    · exact .inr ⟨rfl, by omega⟩
  have hrefl : Resized x T h x T h := M.widened M.space.widened_refl le_rfl
  unfold growproc newSize
  dsimp only
  rw [hmod]
  generalize toInt32 n = z at hz
  split
  · rename_i hpos
    refine Safe.bind (M.space.uvmalloc_ok rfl _) ?_
    rintro r h' (⟨hlt, -, rfl⟩ | ⟨hle, rfl, hmax, T', W⟩ | ⟨hle, rfl, T', W⟩)
    · omega
    · simp only [RAMPAGES] at hmax
      rw [Nat.mod_mod, if_neg (by omega)]
      refine ⟨T', M.widened W hle, fun h0 => (by cases h0), fun _ => ?_⟩
      dsimp only
      split <;> omega
    · rw [Nat.zero_mod, if_pos rfl]
      exact ⟨T', M.widened W le_rfl, fun _ => ⟨hpos, rfl⟩, fun h0 => by cases h0⟩
  · split
    · rename_i hneg
      refine Safe.bind (M.space.uvmdealloc_ok rfl _) ?_
      rintro r h' ⟨rfl, T', W⟩
      have hle : min x.sz ((x.sz + n) % 2 ^ 32) ≤ x.sz := Nat.min_le_left _ _
      rw [Nat.mod_eq_of_lt (by omega : min x.sz ((x.sz + n) % 2 ^ 32) < 2 ^ 32)]
      refine ⟨T', M.shrunk W hle, fun h0 => (by cases h0), fun _ => ?_⟩
      dsimp only
      split <;> omega
    · refine ⟨T, hrefl, fun h0 => (by cases h0), fun _ => ?_⟩
      dsimp only
      split <;> omega

lemma fixed_growproc {n : ℕ} : Fixed (growproc x n) :=
  fixed_ite (fixed_uvmalloc.bind fun _ => fixed_ite (fixed_pure _) (fixed_pure _))
    (fixed_ite (fixed_uvmdealloc.bind fun _ => fixed_pure _) (fixed_pure _))

/-- **What `sbrk` does.** -/
theorem sysSbrk_ok (M : x.Mem T h) (n : ℕ) :
    Ok E p (sysSbrk x n) (fun r h' => ∃ T', Resized x T h r.2 T' h' ∧
      ((r.1 = -1 ∧ 0 < toInt32 n ∧ r.2.sz = x.sz) ∨ r.1 = x.sz ∧ (r.2.sz : ℤ) = newSize x.sz (toInt32 n))) h := by
  have hsz := M.space.size_le rfl
  simp only [RAMPAGES] at hsz
  refine Safe.bind (growproc_ok M n) ?_
  rintro ⟨ok, x'⟩ h' ⟨T', R, hfalse, htrue⟩
  refine ⟨T', R, ?_⟩
  cases ok with
  | false => exact .inl ⟨rfl, hfalse rfl⟩
  | true => exact .inr ⟨toInt32_of_lt (by omega), htrue rfl⟩

lemma fixed_sysSbrk {n : ℕ} : Fixed (sysSbrk x n) := fixed_growproc.bind fun _ => fixed_pure _

end Xv6.Vm
