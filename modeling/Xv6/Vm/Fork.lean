import Xv6.Vm.Proc

/-!
`uvmcopy` of `kernel/vm.c` and the memory side of `fork` of `kernel/proc.c`.
-/

namespace Xv6.Vm

open Lib.Bytes Lib.Wp Lib.Conc Lib.Own Lib.Conc.Prog Function

variable {T T' : Tree} {root n m q : ℕ} {h h' : PageHeap} {ι : Type} [DecidableEq ι]
  {E : Stop → Phys → Prop} {p : ι}

/-! ### `uvmcopy` -/

/-- After `i` rounds of `uvmcopy` from the address space `T`: the first pages have been copied to the
address space that was `U`. -/
structure Copied (T : Tree) (h : PageHeap) (U : Tree) (root i : ℕ) (U' : Tree) (h' : PageHeap) :
    Prop where
  space : Space U' root i h'
  moves : Moves (Foot U 0) h (Foot U' i) h'
  pte : ∀ v, i ≤ v → U'.pte v = U.pte v
  same : ∀ v < i, pteFlags (U'.pte v) = pteFlags (T.pte v) ∧
    h' (pte2pa (U'.pte v)) = h (pte2pa (T.pte v))

lemma or_one_of_odd {f : ℕ} (hodd : f % 2 = 1) : f ||| 1 = f := by
  refine Nat.eq_of_testBit_eq fun i => ?_
  rw [Nat.testBit_or]
  cases i with
  | zero => simp [Nat.testBit_zero, hodd]
  | succ i => simp [Nat.testBit_succ]

lemma leafPerm_flags {e : ℕ} (hleaf : e &&& PTE_V ≠ 0 ∧ pteFlags e ≠ PTE_V) :
    LeafPerm (pteFlags e) ∧ pteFlags e ||| PTE_V = pteFlags e := by
  have hlt : pteFlags e < 1024 := by
    rw [pteFlags_eq]
    omega
  have hor : pteFlags e ||| PTE_V = pteFlags e := by
    refine or_one_of_odd ?_
    have := hleaf.1
    rw [and_flag _ (by decide), Nat.and_one_is_mod] at this
    omega
  exact ⟨⟨hlt, by rw [hor]; exact hleaf.2⟩, hor⟩

lemma copy_page (c d : Page) :
    copy d 0 ((List.range PGSIZE).map fun i => byte c (0 + i)).length
      (fun i => ((List.range PGSIZE).map fun i => byte c (0 + i)).getD i 0) = c := by
  refine ext_byte fun i hi => ?_
  rw [byte_copy_in _ _ hi (Nat.zero_le i) (by simpa using hi), Nat.sub_zero,
    List.getD_eq_getElem _ _ (by simpa using hi), List.getElem_map, List.getElem_range, Nat.zero_add]

section Copy

variable {U U₁ U₂ : Tree} {r₁ i r : ℕ} {h₁ h₂ : PageHeap} {c : Page}

section

variable (C : Copied T h U root i U₁ h₁)

include C

lemma Copied.snoc (hr : Ram r) (hnone : h₁ r = none)
    (hleaf : T.pte i &&& PTE_V ≠ 0 ∧ pteFlags (T.pte i) ≠ PTE_V)
    (hc : h (pte2pa (T.pte i)) = some c) (G : Grown U₁ (update h₁ r (some c)) U₂ h₂)
    (S₂ : Space U₂ root (i + 1) h₂)
    (hp : U₂.pte = update U₁.pte i (pa2pte r ||| (pteFlags (T.pte i) ||| PTE_V)))
    (M : Moves (fun k => Foot U₁ i k ∨ k = r) (update h₁ r (some c)) (Foot U₂ (i + 1)) h₂) :
    Copied T h U root (i + 1) U₂ h₂ := by
  obtain ⟨hfoot, -⟩ := C.space.take hnone c
  obtain ⟨hperm, hor⟩ := leafPerm_flags hleaf
  refine ⟨S₂, (C.moves.trans (Moves.take hnone _)).trans M, fun v hv => ?_, fun v hv => ?_⟩
  · rw [hp, update_of_ne (by omega), C.pte v (by omega)]
  · rcases Nat.lt_succ_iff_lt_or_eq.mp hv with hv | rfl
    · obtain ⟨-, h2, h3⟩ := C.space.page v hv
      have hne : pte2pa (U₁.pte v) ≠ r := by
        rintro rfl
        exact h2 hnone
      rw [hp, update_of_ne (by omega), G.kept (by rw [update_of_ne hne]; exact h2) h3,
        update_of_ne hne]
      exact C.same v hv
    · have hpte : U₂.pte v = pa2pte r ||| (pteFlags (T.pte v) ||| PTE_V) := by
        rw [hp, update_self]
      rw [hpte, pte2pa_leaf hr hperm.1, hor, pteFlags_or r hperm.1,
        G.kept (by rw [update_self]; simp) fun hh => hfoot (.inl hh), update_self, hc]
      exact ⟨rfl, rfl⟩

lemma Copied.grow (hnone : h₁ r = none) (G : Grown U₁ (update h₁ r (some c)) U₂ h₂)
    (S₂ : Space U₂ root i h₂) (hp : U₂.pte = U₁.pte)
    (M : Moves (Foot U₁ i) (update h₁ r (some c)) (Foot U₂ i) h₂) :
    Copied T h U root i U₂ (update h₂ r none) := by
  obtain ⟨hfoot, -⟩ := C.space.take hnone c
  have hfoot₂ : ¬ Foot U₂ i r := by
    rintro (hk | hk)
    · exact G.not_has (by rw [update_self]; simp) (fun hh => hfoot (.inl hh)) hk
    · exact hfoot (.inr ((maps_congr (fun v _ => by rw [hp]) r).mp hk))
  refine ⟨S₂.frame fun k hk => update_of_ne ?_ _ _, ?_, fun v hv => ?_, fun v hv => ?_⟩
  · rintro rfl
    exact hfoot₂ hk
  · exact ((C.moves.trans (Moves.take hnone _)).trans (M.also _)).trans (Moves.give hfoot₂)
  · rw [hp, C.pte v hv]
  · obtain ⟨-, h2, h3⟩ := C.space.page v hv
    have hne : pte2pa (U₁.pte v) ≠ r := by
      rintro rfl
      exact h2 hnone
    rw [hp, update_of_ne hne, G.kept (by rw [update_of_ne hne]; exact h2) h3,
      update_of_ne hne]
    exact C.same v hv

lemma Copied.undo (SU : Space U root 0 h) (D : Shrunk U₁ root i h₁ 0 U₂ h₂) :
    Copied T h U root 0 U₂ h₂ := by
  refine ⟨D.space, C.moves.trans D.moves, fun v _ => ?_, fun v hv => absurd hv (by omega)⟩
  rw [D.pte, unmapped]
  split
  · have := C.space.le
    exact (SU.void v (Nat.zero_le v) (not_isTop (by omega))).symm
  · exact C.pte v (by omega)

lemma Copied.source (S : Space T r₁ n h) (hapart : ∀ k, Foot T n k → ¬ Foot U 0 k) {k : ℕ}
    (hk : Foot T n k) : h₁ k = h k :=
  (Moves.apart C.moves (S.foot_ne hk) (hapart k hk)).2

lemma Copied.step (S : Space T r₁ n h) (SU : Space U root 0 h)
    (hapart : ∀ k, Foot T n k → ¬ Foot U 0 k) (hi : i < n) {sz : ℕ} (hsz : 4096 * i < sz) :
    Ok E p (copyStep r₁ root sz (4096 * i)) (fun x h' => x.elim
      (fun a => a = 4096 * (i + 1) ∧ ∃ U', Copied T h U root (i + 1) U' h')
      (fun ok => ok = false ∧ ∃ U', Copied T h U root 0 U' h')) h₁ := by
  have hle := S.le
  have hdiv : 4096 * i / 4096 = i := by omega
  have hfoot : Foot T n (pte2pa (T.pte i)) := .inr ⟨i, Nat.zero_le i, by omega, rfl⟩
  have S₁ : Space T r₁ n h₁ := S.frame fun k hk => C.source S hapart hk
  -- the two ways to fail end in the same way
  have hundo : ∀ U₂ h₂, Copied T h U root i U₂ h₂ →
      Ok E p (do
        uvmunmap root 0 (4096 * i / PGSIZE) true
        return Sum.inr false) (fun (x : ℕ ⊕ Bool) h' => x.elim
          (fun a => a = 4096 * (i + 1) ∧ ∃ U', Copied T h U root (i + 1) U' h')
          (fun ok => ok = false ∧ ∃ U', Copied T h U root 0 U' h')) h₂ := by
    intro U₂ h₂ C₂
    have hunmap := C₂.space.unmap_last (E := E) (p := p) (Nat.zero_le i)
    rw [Nat.mul_zero, Nat.sub_zero] at hunmap
    rw [PGSIZE, hdiv]
    refine Safe.bind hunmap ?_
    rintro _ h₃ ⟨U₃, D⟩
    exact ⟨rfl, U₃, C₂.undo SU D⟩
  rw [copyStep, if_pos hsz]
  refine Safe.bind_read (S₁.holds.walk_read fun hmax => ?_) ?_
  · have := (lt_MAXVA (4096 * i)).mpr (by rw [hdiv]; exact lt_VPAGES (by omega))
    omega
  rintro x ⟨-, hx⟩
  rw [hdiv] at hx
  have hslot : T.slot i ≠ 0 := by
    intro h0
    have hz := S.holds.void _ (S.holds.slot_eq_zero.mp h0)
    exact (S.leaf i hi).1 (by rw [hz]; exact Nat.zero_and _)
  rw [hx]
  refine Safe.bind (panicIf_ok hslot) ?_
  rintro _ h₂ rfl
  refine Safe.bind_read (S₁.holds.load_slot hslot) fun e he => ?_
  rw [he]
  refine Safe.bind (panicIf_ok (S.leaf i hi).1) ?_
  rintro _ h₁ rfl
  refine Safe.bind kalloc_ok ?_
  rintro r h₂ (⟨rfl, rfl⟩ | ⟨hr, hnone, rfl⟩)
  · rw [if_pos rfl]
    exact hundo U₁ h₂ C
  rw [if_neg hr.ne_zero]
  obtain ⟨c, hc⟩ := Option.ne_none_iff_exists'.mp (S.foot_ne hfoot)
  have hne : pte2pa (T.pte i) ≠ r := by
    intro he
    have := C.source S hapart hfoot
    rw [he, hnone, ← he, hc] at this
    cases this
  have hc₂ : update h₁ r (some fun _ => 5) (pte2pa (T.pte i)) = some c := by
    rw [update_of_ne hne, C.source S hapart hfoot, hc]
  have hread := readBytes_ok (E := E) (p := p) (o := 0) hc₂ (by decide) PGSIZE
  rw [Nat.add_zero] at hread
  refine Safe.bind_read hread fun src hsrc => ?_
  refine Safe.bind (writeBytes_ok (o := 0) (k := r) (update_self ..) (by decide) src) ?_
  rintro _ h₂ rfl
  rw [hsrc, copy_page, update_idem]
  obtain ⟨hfoot₁, S₂⟩ := C.space.take hnone c
  obtain ⟨hperm, -⟩ := leafPerm_flags (S.leaf i hi)
  refine Safe.bind (S₂.mappages_next hr (by rw [update_self]; simp) hfoot₁ hperm (by omega)) ?_
  rintro ok h₃ ⟨U₃, G, ⟨rfl, S₃, hp, M⟩ | ⟨rfl, S₃, hp, M⟩⟩
  · rw [if_pos rfl]
    refine ⟨?_, U₃, C.snoc hr hnone (S.leaf i hi) hc G S₃ hp M⟩
    simp only [u64, PGSIZE, RAMPAGES] at *
    omega
  · rw [if_neg (by decide)]
    have hown : h₃ r ≠ none := by
      rw [G.kept (by rw [update_self]; simp) fun hh => hfoot₁ (.inl hh), update_self]
      simp
    refine Safe.bind (kfree_ok hown) ?_
    rintro _ h₄ rfl
    exact hundo U₃ _ (C.grow hnone G S₃ hp M)

end

/-- **What `uvmcopy` does.** All pages have been copied, or the other address space has no pages, as
before. -/
theorem Space.uvmcopy_ok (S : Space T r₁ n h) (SU : Space U root 0 h)
    (hapart : ∀ k, Foot T n k → ¬ Foot U 0 k) {sz : ℕ} (hsz : pages sz = n) :
    Ok E p (uvmcopy r₁ root sz) (fun ok h' =>
      ∃ U', Copied T h U root (if ok then n else 0) U' h') h := by
  have hle := S.le
  refine safe_loop (fun k a h' => ∃ i U', k = n - i ∧ i ≤ n ∧ a = 4096 * i ∧ Copied T h U root i U' h')
    (n := n) ⟨0, U, rfl, Nat.zero_le n, rfl, SU, Moves.refl _ _, fun _ _ => rfl,
      fun v hv => absurd hv (by omega)⟩ ?_ ?_
  · simp only [RAMPAGES, rounds] at *
    omega
  · rintro k a h₁ ⟨i, U₁, rfl, hi, rfl, C⟩
    by_cases hmore : 4096 * i < sz
    · have hlt : i < n := by
        unfold pages at hsz
        omega
      refine Safe.mono (C.step S SU hapart hlt hmore) ?_
      rintro x h₂ hx
      cases x with
      | inl a =>
        obtain ⟨rfl, U₂, C₂⟩ := hx
        exact ⟨n - (i + 1), by omega, i + 1, U₂, rfl, hlt, rfl, C₂⟩
      | inr ok =>
        obtain ⟨rfl, U₂, C₂⟩ := hx
        exact ⟨U₂, C₂⟩
    · rw [copyStep, if_neg hmore]
      have hin : i = n := by
        unfold pages at hsz
        omega
      exact ⟨U₁, hin ▸ C⟩

end Copy

/-! ### `fork` -/

/-- `fork` by process `me`: what it returns, and the new table. -/
def fork (proc : ℕ → Proc) (me pid : ℕ) : Code (ℤ × (ℕ → Proc)) := do
  let (found, proc) ← allocproc proc pid
  match found with
  | none => return (-1, proc)
  | some i => do
    let ok ← uvmcopy (proc me).pagetable (proc i).pagetable (proc me).sz
    if ok then do
      copyTrapframe (proc i).trapframe (proc me).trapframe
      return (pid, update proc i { proc i with
        sz := (proc me).sz, parent := me, name := (proc me).name, state := .runnable })
    else do
      let p ← freeproc (proc i)
      return (-1, update proc i p)

/-- What a successful `fork` by process `me`, whose address space is `T`, has made of slot `i`. -/
structure Forked (proc : ℕ → Proc) (me pid : ℕ) (T : Tree) (n : ℕ) (h : PageHeap) (i : ℕ) (U : Tree)
    (proc' : ℕ → Proc) (h' : PageHeap) : Prop where
  clean : (proc i).Clean
  others : ∀ j, j ≠ i → proc' j = proc j
  slot : (proc' i).state = .runnable ∧ (proc' i).pid = pid ∧ (proc' i).parent = me ∧
    (proc' i).sz = (proc me).sz ∧ (proc' i).name = (proc me).name
  space : Space U (proc' i).pagetable n h'
  tops : Tops U (proc' i).trapframe
  same : ∀ v < n, pteFlags (U.pte v) = pteFlags (T.pte v) ∧
    h' (pte2pa (U.pte v)) = h (pte2pa (T.pte v))
  frame : ¬ Foot U n (proc' i).trapframe
  regs : ∃ c c', h (proc me).trapframe = some c ∧ h' (proc' i).trapframe = some c' ∧
    ∀ o < TRAPSIZE, byte c' o = if A0 ≤ o ∧ o < A0 + 8 then 0 else byte c o
  moves : Moves Nothing h (fun k => Foot U n k ∨ k = (proc' i).trapframe) h'

lemma byte_regs (c d : Page) {o : ℕ} (ho : o < TRAPSIZE) :
    byte (putLe (copy d 0 ((List.range TRAPSIZE).map fun i => byte c (0 + i)).length
      fun i => ((List.range TRAPSIZE).map fun i => byte c (0 + i)).getD i 0) A0 8 0) o =
      if A0 ≤ o ∧ o < A0 + 8 then 0 else byte c o := by
  have hpage : o < PGSIZE := by
    simp only [TRAPSIZE, PGSIZE] at *
    omega
  rw [putLe, byte_copy _ _ _ _ hpage]
  split
  · rw [Nat.zero_div]
    rfl
  · rw [byte_copy_in _ _ hpage (Nat.zero_le o) (by simpa using ho), Nat.sub_zero,
      List.getD_eq_getElem _ _ (by simpa using ho), List.getElem_map, List.getElem_range, Nat.zero_add]

lemma copyTrapframe_ok {src dst : ℕ} {c d : Page} (hc : h src = some c) (hd : h dst = some d) :
    Ok E p (copyTrapframe dst src) (fun _ h' => ∃ c', h' = update h dst (some c') ∧
      ∀ o < TRAPSIZE, byte c' o = if A0 ≤ o ∧ o < A0 + 8 then 0 else byte c o) h := by
  refine Safe.bind_read (readBytes_ok (o := 0) hc (by decide) TRAPSIZE) fun regs hregs => ?_
  refine Safe.bind (writeBytes_ok (o := 0) hd (by decide) regs) ?_
  rintro _ h₁ rfl
  refine Safe.mono (store_ok (o := A0) (update_self ..) (by decide) 0) ?_
  rintro _ h₂ rfl
  rw [update_idem, hregs]
  exact ⟨_, rfl, fun o ho => byte_regs c d ho⟩

/-- **What `fork` does to memory.** -/
theorem fork_ok {proc : ℕ → Proc} {me pid : ℕ}
    (hclean : ∀ i, (proc i).state = .unused → (proc i).Clean) (hme : (proc me).state ≠ .unused)
    (S : Space T (proc me).pagetable n h) (hsz : pages (proc me).sz = n) {c : Page}
    (hframe : h (proc me).trapframe = some c) :
    Ok E p (fork proc me pid) (fun r h' =>
      (r.1 = -1 ∧ h' = h ∧ SlotsKept proc r.2) ∨
      (r.1 = pid ∧ ∃ i U, Forked proc me pid T n h i U r.2 h')) h := by
  refine Safe.bind (allocproc_ok hclean pid) ?_
  rintro ⟨found, proc₁⟩ h₁ (⟨rfl, rfl, hk⟩ | ⟨i, U, rfl, A⟩)
  · exact .inl ⟨rfl, rfl, hk⟩
  replace A : Alloced proc pid h i U proc₁ h₁ := A
  have hmei : me ≠ i := by
    rintro rfl
    exact hme A.clean.1
  have hproc : proc₁ me = proc me := by
    rw [A.table, update_of_ne hmei]
  have hslot : (proc₁ i).sz = 0 := by
    rw [A.table, update_self]
    exact A.clean.2.2.2
  obtain ⟨htf, hown, hnot⟩ := A.frame
  -- what the parent has is untouched so far
  have hold : ∀ k, h k ≠ none → ¬ (Foot U 0 k ∨ k = (proc₁ i).trapframe) ∧ h₁ k = h k :=
    fun k hk => Moves.apart A.moves hk not_false
  have S₁ : Space T (proc me).pagetable n h₁ := S.frame fun k hk => (hold k (S.foot_ne hk)).2
  have hapart : ∀ k, Foot T n k → ¬ Foot U 0 k :=
    fun k hk hu => (hold k (S.foot_ne hk)).1 (.inl hu)
  simp only [hproc]
  refine Safe.bind (S₁.uvmcopy_ok A.space hapart hsz) ?_
  rintro ok h₂ ⟨U₂, C⟩
  have htf₂ := Moves.apart C.moves hown hnot
  have htops : ∀ v, IsTop v → U₂.pte v = U.pte v := by
    intro v hv
    refine C.pte v ?_
    have := (isTop_lt hv).2
    have := S.le
    split <;> omega
  have hmoves : Moves Nothing h (fun k => Foot U₂ (if ok then n else 0) k ∨ k = (proc₁ i).trapframe) h₂ :=
    A.moves.trans (C.moves.also _)
  cases ok with
  | false =>
    rw [if_neg (by decide)]
    refine Safe.bind (freeproc_ok C.space (A.tops.congr htops) (by rw [hslot]; rfl) A.root htf
      (by rw [htf₂.2]; exact hown) htf₂.1) ?_
    rintro x h₃ ⟨hx, M⟩
    refine .inl ⟨rfl, ?_, ?_⟩
    · exact (hmoves.trans M).eq_of_none (fun _ => not_false) fun _ => not_false
    · have hupd : update proc₁ i x = update proc i x := by
        rw [A.table, update_idem]
      rw [hupd]
      exact slotsKept_update A.clean hx
  | true =>
    rw [if_pos rfl]
    have hparent : ∀ k, h k ≠ none → h₂ k = h k := by
      intro k hk
      exact (Moves.apart hmoves hk not_false).2
    have hc₂ : h₂ (proc me).trapframe = some c := by
      rw [hparent _ (by rw [hframe]; simp), hframe]
    obtain ⟨d, hd⟩ := Option.ne_none_iff_exists'.mp (htf₂.2 ▸ hown)
    refine Safe.bind (copyTrapframe_ok hc₂ hd) ?_
    rintro _ h₃ ⟨c', rfl, hregs⟩
    have hne : ∀ v < n, pte2pa (U₂.pte v) ≠ (proc₁ i).trapframe :=
      fun v hv he => htf₂.1 (.inr ⟨v, Nat.zero_le v, by simpa using hv, he⟩)
    refine .inr ⟨rfl, i, U₂, ?_⟩
    dsimp only
    refine ⟨A.clean, fun j hj => ?_, ?_, ?_, ?_, fun v hv => ?_, ?_, ?_, ?_⟩
    · rw [update_of_ne hj, A.table, update_of_ne hj]
    · rw [update_self]
      refine ⟨rfl, ?_, rfl, rfl, rfl⟩
      rw [A.table, update_self]
    · rw [update_self]
      refine C.space.frame fun k hk => update_of_ne ?_ _ _
      rintro rfl
      exact htf₂.1 hk
    · rw [update_self]
      exact A.tops.congr htops
    · rw [update_of_ne (hne v hv)]
      obtain ⟨h1, h2⟩ := C.same v hv
      rw [h2, (hold _ (S.page v hv).2.1).2]
      exact ⟨h1, rfl⟩
    · rw [update_self]
      exact htf₂.1
    · rw [update_self]
      exact ⟨c, c', hframe, update_self .., hregs⟩
    · rw [update_self]
      refine hmoves.trans (Moves.same fun k hk => update_of_ne (fun e => hk (.inr e)) _ _)

lemma fixed_fork {proc : ℕ → Proc} {me pid : ℕ} : Fixed (fork proc me pid) := by
  refine fixed_allocproc.bind fun r => ?_
  obtain ⟨found, proc'⟩ := r
  cases found with
  | none => exact fixed_pure _
  | some i =>
    exact fixed_uvmcopy.bind fun _ => fixed_ite ((fixed_readBytes.bind fun _ =>
      fixed_writeBytes.bind fun _ => fixed_store).bind fun _ => fixed_pure _)
      (fixed_freeproc.bind fun _ => fixed_pure _)

/-! ### What the two processes see -/

/-- The table `root` maps the user pages below `sz` as before, with the same contents. -/
def UserKept (s s' : Phys) (root sz : ℕ) : Prop := ∀ va, va / 4096 < pages sz →
  s'.pte root va = s.pte root va ∧ s'.mem (pte2pa (s.pte root va)) = s.mem (pte2pa (s.pte root va))

/-- Memory below `sz` has been copied from `root` to `new`. -/
structure CopiedTo (s s' : Phys) (root new sz : ℕ) : Prop where
  mapped : ∀ va, va / 4096 < pages sz → s'.pte new va &&& PTE_V ≠ 0 ∧
    pteFlags (s'.pte new va) = pteFlags (s.pte root va)
  contents : ∀ va, va / 4096 < pages sz →
    s'.mem (pte2pa (s'.pte new va)) = s.mem (pte2pa (s.pte root va))
  different : ∀ va wa, va / 4096 < pages sz → wa / 4096 < pages sz →
    pte2pa (s'.pte new va) ≠ pte2pa (s.pte root wa)
  isolated : Isolated s' root new

/-- Nothing is mapped for the user of `new`, and what was free is free, or a page of its table. -/
structure RolledBack (s s' : Phys) (new : ℕ) : Prop where
  unmapped : ∀ va < TRAPFRAME, s'.pte new va = 0
  hidden : ∀ a, ¬ s'.Accessible new a
  freed : ∀ k, s.Free k → s'.Free k ∨ ∃ a, k ∈ s'.nodes a 2 new

section Seen

variable {s s' : Phys} {ℓ : ι → PageHeap} {U : Tree} {new sz : ℕ}

omit [DecidableEq ι] in
lemma Space.seen (S : Space T root n (ℓ p)) (hO : Owned s ℓ) {va : ℕ} (hva : va / 4096 < n) :
    s.pte root va = T.pte (va / 4096) ∧
      ℓ p (pte2pa (T.pte (va / 4096))) = some (s.mem (pte2pa (T.pte (va / 4096)))) := by
  refine ⟨S.holds.pte_eq hO (S.lt_MAXVA hva), ?_⟩
  obtain ⟨c, hc⟩ := Option.ne_none_iff_exists'.mp (S.page _ hva).2.1
  rw [hc, hO.agree hc]

lemma Space.userKept (S : Space T root (pages sz) (ℓ p)) (hO : Owned s ℓ)
    (hO' : Owned s' (update ℓ p h')) (hsame : ∀ k, Foot T (pages sz) k → h' k = ℓ p k) :
    UserKept s s' root sz := by
  intro va hva
  have S' : Space T root (pages sz) (update ℓ p h' p) := by
    rw [update_self]
    exact S.frame hsame
  obtain ⟨h1, h2⟩ := S.seen hO hva
  obtain ⟨h3, h4⟩ := S'.seen hO' hva
  rw [update_self, hsame _ (foot_page T hva), h2] at h4
  rw [h1, h3]
  exact ⟨rfl, (Option.some.inj h4).symm⟩

lemma Space.copiedTo (S : Space T root (pages sz) (ℓ p)) (hO : Owned s ℓ)
    (SU : Space U new (pages sz) h') (hO' : Owned s' (update ℓ p h'))
    (hsame : ∀ k, Foot T (pages sz) k → h' k = ℓ p k)
    (hT : ∀ v, IsTop v → T.pte v &&& PTE_U = 0) (hU : ∀ v, IsTop v → U.pte v &&& PTE_U = 0)
    (hapart : ∀ k, Foot T (pages sz) k → ¬ Foot U (pages sz) k)
    (hcopy : ∀ v < pages sz, pteFlags (U.pte v) = pteFlags (T.pte v) ∧
      h' (pte2pa (U.pte v)) = ℓ p (pte2pa (T.pte v))) :
    CopiedTo s s' root new sz := by
  have S' : Space T root (pages sz) (update ℓ p h' p) := by
    rw [update_self]
    exact S.frame hsame
  have SU' : Space U new (pages sz) (update ℓ p h' p) := by
    rw [update_self]
    exact SU
  refine ⟨fun va hva => ?_, fun va hva => ?_, fun va wa hva hwa => ?_, ?_⟩
  · rw [(S.seen hO hva).1, (SU'.seen hO' hva).1]
    exact ⟨(SU.leaf _ hva).1, (hcopy _ hva).1⟩
  · obtain ⟨h1, h2⟩ := S.seen hO hva
    obtain ⟨h3, h4⟩ := SU'.seen hO' hva
    rw [update_self, (hcopy _ hva).2, h2] at h4
    rw [h1, h3]
    exact (Option.some.inj h4).symm
  · rw [(S.seen hO hwa).1, (SU'.seen hO' hva).1]
    intro he
    exact hapart _ (foot_page T hwa) (he ▸ foot_page U hva)
  · exact (S'.apart SU' hO' hT hU hapart).isolated

lemma Space.rolledBack (hO : Owned s ℓ) (SU : Space U new 0 h')
    (hO' : Owned s' (update ℓ p h')) (hk : SameKernel s s')
    (hU : ∀ v, IsTop v → U.pte v &&& PTE_U = 0) {F : ℕ → Prop} (hF : ∀ k, F k → ℓ p k ≠ none)
    (M : Moves F (ℓ p) (Foot U 0) h') : RolledBack s s' new := by
  have SU' : Space U new 0 (update ℓ p h' p) := by
    rw [update_self]
    exact SU
  refine ⟨fun va hva => ?_, fun a ha => ?_, fun k hfree => ?_⟩
  · have hmax : va < MAXVA := by
      simp only [TRAPFRAME, TRAMPOLINE, MAXVA, PGSIZE] at *
      omega
    rw [SU'.holds.pte_eq hO' hmax]
    refine SU.void _ (Nat.zero_le _) fun ht => ?_
    simp only [IsTop, TRAPFRAME, TRAMPOLINE, MAXVA, PGSIZE] at *
    omega
  · exact absurd (SU'.page_lt hO' hU ha) (by omega)
  · rw [hO.free_iff] at hfree
    rw [hO'.free_iff, hk.1]
    by_cases hhas : U.Has k
    · exact .inr (SU'.holds.has_nodes hO' hhas)
    · refine .inl ⟨hfree.1, fun q => ?_⟩
      by_cases hq : q = p
      · subst hq
        rw [update_self]
        have hnot : ¬ Foot U 0 k := by
          rintro (hh | hm)
          · exact hhas hh
          · exact maps_zero k hm
        rw [M.keep k (fun hf => hF k hf (hfree.2 q)) hnot]
        exact hfree.2 q
      · rw [update_of_ne hq]
        exact hfree.2 q

/-- **`fork` copies memory exactly, and rolls back.** Of a parent with the address space `T`:

- `uvmcopy` to a table without user pages gives the child a copy of every page, or leaves it without
  pages, with every page that was free either free again or in the child's table;
- when `fork` fails, the free pages are the ones before, and no slot has become used;
- when `uvmalloc` returns 0, every address is mapped as before. -/
theorem fork_exact (hO : Owned s ℓ) (S : Space T root (pages sz) (ℓ p)) {tf : ℕ} (t : Tops T tf) :
    (∀ U new, Space U new 0 (ℓ p) → (∀ v, IsTop v → U.pte v &&& PTE_U = 0) →
      (∀ k, Foot T (pages sz) k → ¬ Foot U 0 k) →
      ∃ ok s', run (uvmcopy root new sz) s = .ok ok s' ∧ UserKept s s' root sz ∧
        (ok = true → CopiedTo s s' root new sz) ∧ (ok = false → RolledBack s s' new)) ∧
    (∀ proc me pid, (∀ i, (proc i).state = .unused → (proc i).Clean) → (proc me).state ≠ .unused →
      (proc me).pagetable = root → (proc me).sz = sz → ℓ p (proc me).trapframe ≠ none →
      ∃ r proc' s', run (fork proc me pid) s = .ok (r, proc') s' ∧ UserKept s s' root sz ∧
        (r ≠ -1 → r = pid ∧ ∃ i, (proc i).state = .unused ∧ (∀ j, j ≠ i → proc' j = proc j) ∧
          (proc' i).state = .runnable ∧ (proc' i).sz = sz ∧
          CopiedTo s s' root (proc' i).pagetable sz) ∧
        (r = -1 → (∀ k, s'.Free k ↔ s.Free k) ∧ SlotsKept proc proc')) ∧
    (∀ newsz, ∃ r s', run (uvmalloc root sz newsz) s = .ok r s' ∧
      (r = 0 → ∀ a < MAXVA, s'.pte root a = s.pte root a)) := by
  have hT : ∀ v, IsTop v → T.pte v &&& PTE_U = 0 := fun v hv => t.no_user hv
  refine ⟨fun U new SU hU hapart => ?_, ?_, fun newsz => ?_⟩
  · obtain ⟨ok, s', h', hrun, hO', hk, U', C⟩ := hO.run (S.uvmcopy_ok SU hapart rfl) fixed_uvmcopy
    have hsame : ∀ k, Foot T (pages sz) k → ¬ Foot U' (if ok then pages sz else 0) k ∧ h' k = ℓ p k :=
      fun k hk => Moves.apart C.moves (S.foot_ne hk) (hapart k hk)
    have htops : ∀ v, IsTop v → U'.pte v &&& PTE_U = 0 := by
      intro v hv
      rw [C.pte v ?_]
      · exact hU v hv
      · have := (isTop_lt hv).2
        have := S.le
        split <;> omega
    refine ⟨ok, s', hrun, S.userKept hO hO' fun k hk => (hsame k hk).2, ?_, ?_⟩
    · rintro rfl
      exact S.copiedTo hO C.space hO' (fun k hk => (hsame k hk).2) hT htops
        (fun k hk => (hsame k hk).1) C.same
    · rintro rfl
      exact Space.rolledBack hO C.space hO' hk htops (fun k hk => SU.foot_ne hk) C.moves
  · rintro proc me pid hclean hme rfl hsz htf
    obtain ⟨c, hc⟩ := Option.ne_none_iff_exists'.mp htf
    obtain ⟨⟨r, proc'⟩, s', h', hrun, hO', hk, hQ⟩ :=
      hO.run (fork_ok hclean hme S (by rw [hsz]) hc) (@fixed_fork proc me pid)
    refine ⟨r, proc', s', hrun, ?_⟩
    rcases hQ with ⟨hr, rfl, hslots⟩ | ⟨hr, i, U, F⟩
    · refine ⟨S.userKept hO hO' fun _ _ => rfl, fun hne => absurd hr hne, fun _ => ⟨fun k => ?_, hslots⟩⟩
      rw [update_eq_self] at hO'
      exact hO.free_same hO' hk k
    · have hsame : ∀ k, Foot T (pages sz) k → ¬ Foot U (pages sz) k ∧ h' k = ℓ p k := by
        intro k hk
        obtain ⟨h1, h2⟩ := Moves.apart F.moves (S.foot_ne hk) not_false
        exact ⟨fun hf => h1 (.inl hf), h2⟩
      refine ⟨S.userKept hO hO' fun k hk => (hsame k hk).2, fun _ => ?_, fun h1 => ?_⟩
      · refine ⟨hr, i, F.clean.1, F.others, F.slot.1, F.slot.2.2.2.1.trans hsz, ?_⟩
        exact S.copiedTo hO F.space hO' (fun k hk => (hsame k hk).2) hT
          (fun v hv => F.tops.no_user hv) (fun k hk => (hsame k hk).1) F.same
      · dsimp only at hr
        omega
  · obtain ⟨r, s', h', hrun, hO', hk, hQ⟩ := hO.run (S.uvmalloc_ok rfl newsz) fixed_uvmalloc
    refine ⟨r, s', hrun, fun h0 a ha => ?_⟩
    have hmap : ∀ T' m, Space T' root m h' → (∀ v, T'.pte v = T.pte v) → s'.pte root a = s.pte root a := by
      intro T' m S' hpte
      rw [S.holds.pte_eq hO ha, ← hpte]
      exact Holds.pte_eq (p := p) (by rw [update_self]; exact S'.holds) hO' ha
    rcases hQ with ⟨hlt, hr, rfl⟩ | ⟨hle, hr, -, T', W⟩ | ⟨-, -, T', W⟩
    · exact hmap T _ S fun _ => rfl
    · refine hmap T' _ W.space fun v => W.pte v ?_
      have : newsz = 0 := by omega
      subst this
      unfold pages
      omega
    · exact hmap T' _ W.space fun v => W.pte v (by omega)

end Seen

/-- The small machine and its process table when the first process has forked. -/
def forkedPhys : Phys := after (fork firstProcs 0 2) firstPhys

def forkedProcs : ℕ → Proc := ((returned (fork firstProcs 0 2) firstPhys).map Prod.snd).getD firstProcs

lemma forked_run : run (fork firstProcs 0 2) firstPhys = .ok (2, forkedProcs) forkedPhys :=
  run_of_returned_fst (by decide +kernel) firstProcs

/-- The child gets the pid 2. -/
theorem fork_exact_first : run (fork firstProcs 0 2) firstPhys = .ok (2, forkedProcs) forkedPhys ∧
    UserKept firstPhys forkedPhys (firstProcs 0).pagetable (firstProcs 0).sz ∧
    ∃ i, (firstProcs i).state = .unused ∧ (∀ j, j ≠ i → forkedProcs j = firstProcs j) ∧
      (forkedProcs i).state = .runnable ∧ (forkedProcs i).sz = (firstProcs 0).sz ∧
      CopiedTo firstPhys forkedPhys (firstProcs 0).pagetable (forkedProcs i).pagetable
        (firstProcs 0).sz := by
  obtain ⟨ℓ, T, hO, F⟩ := first_started
  have hclean : ∀ i, (firstProcs i).state = .unused → (firstProcs i).Clean := by
    intro i hi
    have hne : i ≠ 0 := by
      rintro rfl
      rw [F.state] at hi
      cases hi
    rw [F.others i hne]
    exact clean_noProcs i
  have hused : (firstProcs 0).state ≠ .unused := by
    rw [F.state]
    decide
  obtain ⟨r, proc', s', hrun, hkept, hchild, -⟩ := (fork_exact hO F.mem.space F.mem.tops).2.1
    firstProcs 0 2 hclean hused rfl rfl F.mem.frame.2.1
  cases forked_run.symm.trans hrun
  exact ⟨forked_run, hkept, (hchild (by decide)).2⟩

attribute [irreducible] forkedPhys forkedProcs

end Xv6.Vm
