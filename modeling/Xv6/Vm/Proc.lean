import Xv6.Vm.Owner

/-!
Processes and their memory: `allocproc`, `freeproc` and `userinit` of `kernel/proc.c`, each run
by one process with no other in between.
-/

namespace Xv6.Vm

open Lib.Bytes Lib.Wp Lib.Conc Lib.Own Lib.Conc.Prog Function

variable {T T' : Tree} {root n m q : ℕ} {h h' : PageHeap} {ι : Type} [DecidableEq ι]
  {E : Stop → Phys → Prop} {p : ι}

/-! ### The process table -/

inductive ProcState
  | unused
  | sleeping
  | runnable
  | running
  | zombie
  deriving DecidableEq

/-- `struct proc`, as far as `allocproc`, `freeproc` and `fork` set it. -/
structure Proc where
  state : ProcState
  parent : ℕ
  chan : ℕ
  killed : ℕ
  xstate : ℕ
  pid : ℕ
  sz : ℕ
  pagetable : ℕ
  trapframe : ℕ
  name : List UInt8

def freeproc (p : Proc) : Code Proc := do
  doIf (p.trapframe ≠ 0) (kfree p.trapframe)
  doIf (p.pagetable ≠ 0) (procFreepagetable p.pagetable p.sz)
  return { p with
    trapframe := 0, pagetable := 0, sz := 0, pid := 0, parent := 0, name := [], chan := 0,
    killed := 0, xstate := 0, state := .unused }

/-- `allocproc`, with the process table and the next process number. The result is the slot that was
found and the new table. -/
def allocproc (proc : ℕ → Proc) (pid : ℕ) : Code (Option ℕ × (ℕ → Proc)) :=
  match (List.range NPROC).find? fun i => (proc i).state = .unused with
  | none => return (none, proc)
  | some i => do
    let trapframe ← kalloc
    let p := { proc i with pid := pid, trapframe := trapframe }
    if trapframe = 0 then
      return (none, update proc i p)
    else do
      let pagetable ← procPagetable trapframe
      let p := { p with pagetable := pagetable }
      if pagetable = 0 then do
        let p ← freeproc p
        return (none, update proc i p)
      else
        return (some i, update proc i p)

/-- The first program, which calls `exec("/init", ...)`. -/
def initcode : List UInt8 :=
  [0x17, 0x05, 0x00, 0x00, 0x13, 0x05, 0x45, 0x02,
   0x97, 0x05, 0x00, 0x00, 0x93, 0x85, 0x35, 0x02,
   0x93, 0x08, 0x70, 0x00, 0x73, 0x00, 0x00, 0x00,
   0x93, 0x08, 0x20, 0x00, 0x73, 0x00, 0x00, 0x00,
   0xef, 0xf0, 0x9f, 0xff, 0x2f, 0x69, 0x6e, 0x69,
   0x74, 0x00, 0x00, 0x24, 0x00, 0x00, 0x00, 0x00,
   0x00, 0x00, 0x00, 0x00]

/-- Where `epc` and `sp` are in a `struct trapframe`. -/
abbrev EPC : ℕ := 24
abbrev SP : ℕ := 48

/-- `userinit`: the slot of the first process, and the new table. It does not look whether there is
memory. -/
def userinit (proc : ℕ → Proc) (pid : ℕ) : Code (ℕ × (ℕ → Proc)) := do
  let (found, proc) ← allocproc proc pid
  match found with
  | none => liftM (throw .undefined : PhysM _)
  | some i => do
    uvminit (proc i).pagetable initcode
    store ((proc i).trapframe + EPC) 0
    store ((proc i).trapframe + SP) PGSIZE
    return (i, update proc i { proc i with
      sz := PGSIZE, name := "initcode".toUTF8.toList, state := .runnable })

/-! ### What `freeproc` and `allocproc` do to memory -/

/-- A slot that is not used has no memory. -/
def Proc.Clean (p : Proc) : Prop := p.state = .unused ∧ p.pagetable = 0 ∧ p.trapframe = 0 ∧ p.sz = 0

/-- The slot was not used and is not, and all others are as they were. -/
def SlotsKept (proc proc' : ℕ → Proc) : Prop :=
  ∀ i, proc' i = proc i ∨ (proc i).Clean ∧ (proc' i).Clean

variable {proc : ℕ → Proc} {x : Proc} {i k pid : ℕ}

lemma slotsKept_update (hi : (proc i).Clean) (hx : x.Clean) :
    SlotsKept proc (update proc i x) := by
  intro j
  by_cases hj : j = i
  · subst hj
    exact .inr ⟨hi, by rw [update_self]; exact hx⟩
  · exact .inl (update_of_ne hj _ _)

lemma freeproc_none (hroot : x.pagetable = 0) (htf : Ram x.trapframe)
    (hown : h x.trapframe ≠ none) :
    Ok E p (freeproc x) (fun x' h' => x'.Clean ∧ h' = update h x.trapframe none) h := by
  refine Safe.bind (safe_doIf (fun _ => kfree_ok hown) fun h0 => absurd htf.ne_zero h0) ?_
  rintro _ h₁ rfl
  refine Safe.bind (Q := fun _ h' => h' = update h x.trapframe none)
    (safe_doIf (fun h0 => absurd hroot h0) fun _ => rfl) ?_
  rintro _ h₂ rfl
  exact ⟨⟨rfl, rfl, rfl, rfl⟩, rfl⟩

lemma freeproc_ok (S : Space T x.pagetable n h) (t : Tops T x.trapframe)
    (hsz : pages x.sz = n) (hroot : Ram x.pagetable) (htf : Ram x.trapframe)
    (hown : h x.trapframe ≠ none) (hfoot : ¬ Foot T n x.trapframe) :
    Ok E p (freeproc x) (fun x' h' => x'.Clean ∧
      Moves (fun k => Foot T n k ∨ k = x.trapframe) h Nothing h') h := by
  refine Safe.bind (safe_doIf (fun _ => kfree_ok hown) fun h0 => absurd htf.ne_zero h0) ?_
  rintro _ h₁ rfl
  have S₁ : Space T x.pagetable n (update h x.trapframe none) := by
    refine S.frame fun k hk => update_of_ne ?_ _ _
    rintro rfl
    exact hfoot hk
  refine Safe.bind (safe_doIf (fun _ => S₁.procFreepagetable_ok t hsz)
    fun h0 => absurd hroot.ne_zero h0) ?_
  rintro _ h₂ M
  exact ⟨⟨rfl, rfl, rfl, rfl⟩, (Moves.give hfoot).trans M⟩

/-- What `allocproc` finds: a slot with a new address space and a trapframe. -/
structure Alloced (proc : ℕ → Proc) (pid : ℕ) (h : PageHeap) (i : ℕ) (T : Tree) (proc' : ℕ → Proc)
    (h' : PageHeap) : Prop where
  clean : (proc i).Clean
  table : proc' = update proc i
    { proc i with pid := pid, trapframe := (proc' i).trapframe, pagetable := (proc' i).pagetable }
  root : Ram (proc' i).pagetable
  frame : Ram (proc' i).trapframe ∧ h' (proc' i).trapframe ≠ none ∧ ¬ Foot T 0 (proc' i).trapframe
  space : Space T (proc' i).pagetable 0 h'
  tops : Tops T (proc' i).trapframe
  moves : Moves Nothing h (fun k => Foot T 0 k ∨ k = (proc' i).trapframe) h'

lemma allocproc_ok (hclean : ∀ i, (proc i).state = .unused → (proc i).Clean)
    (pid : ℕ) :
    Ok E p (allocproc proc pid) (fun r h' =>
      (r.1 = none ∧ h' = h ∧ SlotsKept proc r.2) ∨
      ∃ i T, r.1 = some i ∧ Alloced proc pid h i T r.2 h') h := by
  unfold allocproc
  cases hfind : (List.range NPROC).find? fun i => (proc i).state = .unused with
  | none => exact .inl ⟨rfl, rfl, fun i => .inl rfl⟩
  | some i =>
    have hi : (proc i).Clean := hclean i (by simpa using List.find?_some hfind)
    refine Safe.bind kalloc_ok ?_
    rintro tf h₁ (⟨rfl, rfl⟩ | ⟨htf, hnone, rfl⟩)
    · rw [if_pos rfl]
      exact .inl ⟨rfl, rfl, slotsKept_update hi ⟨hi.1, hi.2.1, rfl, hi.2.2.2⟩⟩
    rw [if_neg htf.ne_zero]
    refine Safe.bind (procPagetable_ok htf.lt_pow) ?_
    rintro root h₂ (⟨rfl, rfl⟩ | ⟨hroot, T, S, t, M⟩)
    · rw [if_pos rfl]
      refine Safe.bind (freeproc_none rfl htf (by rw [update_self]; simp)) ?_
      rintro x h₃ ⟨hx, rfl⟩
      refine .inl ⟨rfl, ?_, slotsKept_update hi hx⟩
      rw [update_idem, update_eq_self_iff]
      exact hnone.symm
    · rw [if_neg hroot.ne_zero]
      have happ := Moves.apart M (k := tf) (by rw [update_self]; simp) not_false
      refine .inr ⟨i, T, rfl, hi, ?_, ?_, ?_, ?_, ?_, ?_⟩
      · simp only [update_self]
      · simpa only [update_self] using hroot
      · simp only [update_self]
        refine ⟨htf, ?_, happ.1⟩
        rw [happ.2, update_self]
        simp
      · simpa only [update_self] using S
      · simpa only [update_self] using t
      · simp only [update_self]
        refine ((Moves.take (F := Nothing) hnone _).trans (M.also _)).congr (fun _ => Iff.rfl) ?_
        exact fun k => Iff.rfl

/-- The memory of a process: an address space of its size, and a page for its trapframe. -/
structure Proc.Mem (x : Proc) (T : Tree) (h : PageHeap) : Prop where
  root : Ram x.pagetable
  space : Space T x.pagetable (pages x.sz) h
  tops : Tops T x.trapframe
  frame : Ram x.trapframe ∧ h x.trapframe ≠ none ∧ ¬ Foot T (pages x.sz) x.trapframe

/-- The pages of a process. -/
def Proc.Foot (x : Proc) (T : Tree) (k : ℕ) : Prop := Vm.Foot T (pages x.sz) k ∨ k = x.trapframe

lemma Proc.Mem.foot_ne (M : x.Mem T h) (hk : x.Foot T k) : h k ≠ none := by
  rcases hk with hk | rfl
  · exact M.space.foot_ne hk
  · exact M.frame.2.1

lemma Proc.Mem.congr (M : x.Mem T h) (hf : ∀ k, x.Foot T k → h' k = h k) : x.Mem T h' where
  root := M.root
  space := M.space.frame fun k hk => hf k (.inl hk)
  tops := M.tops
  frame := ⟨M.frame.1, by rw [hf _ (.inr rfl)]; exact M.frame.2.1, M.frame.2.2⟩

lemma Proc.Mem.freeproc_ok (M : x.Mem T h) :
    Ok E p (freeproc x) (fun x' h' => x'.Clean ∧ Moves (x.Foot T) h Nothing h') h :=
  Vm.freeproc_ok M.space M.tops rfl M.root M.frame.1 M.frame.2.1 M.frame.2.2

/-! ### The first process -/

lemma memset_stops {Q : Unit → PageHeap → Prop} {b : UInt8} (hk : ¬ InRam k)
    (hE : ∀ s, E .undefined s) : Ok E p (memset k b) Q h := by
  refine safe_lift fun s ℓ hI hl => ?_
  simp only [wp_bind, wp_throwIf]
  exact ⟨fun _ => hE s, fun hn => absurd hk hn⟩

lemma Space.uvminit_ok (S : Space T root 0 h) (hE : ∀ e s, E e s) (src : List UInt8) :
    Ok E p (uvminit root src) (fun _ h' => ∃ T', Holds T' root h' ∧
      (∀ k, h k ≠ none → ¬ T.Has k → h' k = h k ∧ ¬ T'.Has k) ∧ (T'.pte 0 ≠ 0 →
        Space T' root 1 h' ∧ (∀ v, v ≠ 0 → T'.pte v = T.pte v) ∧
        Moves (Foot T 0) h (Foot T' 1) h')) h := by
  refine Safe.bind (panicIf_stops fun _ => hE _) ?_
  rintro _ h ⟨rfl, -⟩
  refine Safe.bind kalloc_ok ?_
  rintro r h₁ (⟨rfl, rfl⟩ | ⟨hr, hnone, rfl⟩)
  · exact Safe.bind (Q := fun _ _ => False) (memset_stops (by decide) fun _ => hE _ _)
      fun _ _ hf => absurd hf not_false
  refine Safe.bind (memset_ok (by rw [update_self]; simp) 0) ?_
  rintro _ h₁ rfl
  rw [update_idem]
  obtain ⟨hfoot, S₁⟩ := S.take hnone (fun _ => 0)
  refine Safe.bind (S₁.mappages_next hr (by rw [update_self]; simp) hfoot
    ⟨by decide, by decide⟩ (by decide)) ?_
  rintro ok h₂ ⟨T₂, G, hok⟩
  have hown : h₂ r = some fun _ => 0 := by
    rw [G.kept (by rw [update_self]; simp) fun hh => hfoot (.inl hh), update_self]
  refine Safe.mono (writeBytes_ok (o := 0) hown (by decide) src) ?_
  rintro _ h₃ rfl
  have hno : ¬ T₂.Has r :=
    G.not_has (by rw [update_self]; simp) fun hh => hfoot (.inl hh)
  have hkept : ∀ k, h k ≠ none → ¬ T.Has k →
      update h₂ r (some (copy (fun _ => 0) 0 src.length fun i => src.getD i 0)) k = h k ∧
        ¬ T₂.Has k := by
    intro k hk hn
    have hne : k ≠ r := by
      rintro rfl
      exact hk hnone
    have hk₁ : update h r (some fun _ => 0) k = h k := update_of_ne hne _ _
    rw [update_of_ne hne, ← hk₁]
    exact ⟨G.kept (by rw [hk₁]; exact hk) hn, G.not_has (by rw [hk₁]; exact hk) hn⟩
  rcases hok with ⟨-, S₂, hp, M⟩ | ⟨-, S₂, hp, M⟩
  · have S₃ := S₂.write hno (copy (fun _ => 0) 0 src.length fun i => src.getD i 0)
    refine ⟨T₂, S₃.holds, hkept, fun _ => ⟨S₃, fun v hv => ?_, ?_⟩⟩
    · rw [hp, update_of_ne hv]
    · refine ((Moves.take hnone _).trans M).trans (Moves.same fun k hk => update_of_ne ?_ _ _)
      rintro rfl
      refine hk (.inr ⟨0, le_rfl, by omega, ?_⟩)
      rw [hp, update_self, pte2pa_leaf hr (by decide)]
  · refine ⟨T₂, (S₂.write hno _).holds, hkept, fun h0 => absurd ?_ h0⟩
    rw [hp]
    exact S.void 0 le_rfl (not_isTop (by decide))

/-- What `userinit` makes, once its page is mapped. -/
structure Started (proc : ℕ → Proc) (h : PageHeap) (i : ℕ) (T : Tree) (proc' : ℕ → Proc)
    (h' : PageHeap) : Prop where
  clean : (proc i).Clean
  others : ∀ j, j ≠ i → proc' j = proc j
  state : (proc' i).state = .runnable
  sz : (proc' i).sz = PGSIZE
  mem : (proc' i).Mem T h'
  moves : Moves Nothing h ((proc' i).Foot T) h'

/-- **The first process.** If `userinit` returns and its page is mapped, the process has its memory. -/
theorem userinit_ok (hclean : ∀ i, (proc i).state = .unused → (proc i).Clean)
    (hE : ∀ e s, E e s) (pid : ℕ) :
    Ok E p (userinit proc pid) (fun r h' => ∃ T, Holds T (r.2 r.1).pagetable h' ∧
      (T.pte 0 ≠ 0 → Started proc h r.1 T r.2 h')) h := by
  refine Safe.bind (allocproc_ok hclean pid) ?_
  rintro ⟨found, proc₁⟩ h₁ (⟨hf, -⟩ | ⟨i, U, hf, A⟩)
  · cases hf
    exact safe_lift fun s ℓ _ _ => (wp_throw _ _ _ _).mpr (hE _ _)
  cases hf
  replace A : Alloced proc pid h i U proc₁ h₁ := A
  obtain ⟨htf, hown, hnot⟩ := A.frame
  refine Safe.bind (A.space.uvminit_ok hE initcode) ?_
  rintro _ h₂ ⟨T, H, hkept, hT⟩
  obtain ⟨htf₂, hno⟩ := hkept _ hown fun hh => hnot (.inl hh)
  obtain ⟨c, hc⟩ := Option.ne_none_iff_exists'.mp (htf₂ ▸ hown)
  refine Safe.bind (store_ok (o := EPC) hc (by decide) 0) ?_
  rintro _ h₃ rfl
  refine Safe.bind (store_ok (o := SP) (update_self ..) (by decide) PGSIZE) ?_
  rintro _ h₄ rfl
  rw [update_idem]
  generalize putLe (putLe c EPC 8 0) SP 8 PGSIZE = d
  refine ⟨T, ?_, fun h0 => ?_⟩
  · dsimp only
    rw [update_self]
    refine H.frame fun k hk => update_of_ne ?_ _ _
    rintro rfl
    exact hno hk
  obtain ⟨S, hpte, M⟩ := hT h0
  rw [← show pages PGSIZE = 1 by decide] at S M
  obtain ⟨hfoot, -⟩ := M.apart hown hnot
  have htops : Tops T (proc₁ i).trapframe := by
    refine A.tops.congr fun v hv => hpte v ?_
    have := (isTop_lt hv).2
    omega
  dsimp only
  refine ⟨A.clean, fun j hj => ?_, ?_, ?_, ?_, ?_⟩
  · rw [update_of_ne hj, A.table, update_of_ne hj]
  · rw [update_self]
  · rw [update_self]
  · rw [update_self]
    refine ⟨A.root, S.write hno d, htops, htf, ?_, hfoot⟩
    rw [update_self]
    simp
  · rw [update_self]
    have hsame : ∀ k, ¬ (Foot T (pages PGSIZE) k ∨ k = (proc₁ i).trapframe) →
        update h₂ (proc₁ i).trapframe (some d) k = h₂ k :=
      fun k hk => update_of_ne (fun he => hk (.inr he)) _ _
    exact (A.moves.trans (M.also _)).trans (Moves.same hsame)

lemma fixed_freeproc : Fixed (freeproc x) := by
  have hfree := @fixed_procFreepagetable x.pagetable x.sz
  unfold freeproc
  generalize procFreepagetable x.pagetable x.sz = free at *
  exact (fixed_doIf fixed_kfree).bind fun _ => (fixed_doIf hfree).bind fun _ => fixed_pure _

lemma fixed_allocproc : Fixed (allocproc proc pid) := by
  unfold allocproc
  split
  · exact fixed_pure _
  · exact fixed_kalloc.bind fun _ => fixed_ite (fixed_pure _) (fixed_procPagetable.bind fun _ =>
      fixed_ite (fixed_freeproc.bind fun _ => fixed_pure _) (fixed_pure _))

lemma fixed_userinit : Fixed (userinit proc pid) := by
  refine fixed_allocproc.bind fun r => ?_
  obtain ⟨found, proc'⟩ := r
  cases found with
  | none => exact fixed_lift fun s => (wp_throw _ _ _ _).mpr (SameKernel.refl s)
  | some i =>
    refine Fixed.bind ?_ fun _ => fixed_store.bind fun _ => fixed_store.bind fun _ => fixed_pure _
    exact (fixed_panicIf _).bind fun _ => fixed_kalloc.bind fun _ => fixed_memset.bind fun _ =>
      fixed_mappages.bind fun _ => fixed_writeBytes

/-! ### A small machine -/

/-- Sixteen free pages. -/
def sixteenPages : Phys where
  mem := fun k => putLe zeroes 0 8 (if k < 0x8040f000 then k + 4096 else 0)
  freelist := 0x80400000
  kend := 0x80400000
  trampoline := 0x80007000
  kend_ge := kernbase_le
  trampoline_lt := trampoline_fits

instance (mem : ℕ → Page) : ∀ hd free, Decidable (Chain mem hd free)
  | hd, [] => inferInstanceAs (Decidable (hd = 0))
  | hd, k :: free =>
    let _ := instDecidableChain mem (le (mem k) 0 8) free
    inferInstanceAs (Decidable (hd = k ∧ Chain mem (le (mem k) 0 8) free))

lemma freeOk_sixteenPages : FreeOk sixteenPages := by
  refine ⟨(List.range 16).map fun i => 0x80400000 + 4096 * i, by decide +kernel, by decide, ?_⟩
  intro k hk
  simp only [List.mem_map, List.mem_range] at hk
  obtain ⟨i, hi, rfl⟩ := hk
  refine ⟨by omega, by simp [sixteenPages], ?_⟩
  simp only [PHYSTOP, KERNBASE]
  omega

/-- The process table at boot. -/
def noProcs : ℕ → Proc := fun _ => ⟨.unused, 0, 0, 0, 0, 0, 0, 0, 0, []⟩

/-- The small machine and its process table when the first process has been made. -/
def firstPhys : Phys := after (userinit noProcs 1) sixteenPages

def firstProcs : ℕ → Proc := ((returned (userinit noProcs 1) sixteenPages).map Prod.snd).getD noProcs

lemma first_run : run (userinit noProcs 1) sixteenPages = .ok (0, firstProcs) firstPhys :=
  run_of_returned_fst (by decide +kernel) noProcs

lemma clean_noProcs (i : ℕ) : (noProcs i).Clean := ⟨rfl, rfl, rfl, rfl⟩

lemma first_mapped : firstPhys.pte (firstProcs 0).pagetable 0 ≠ 0 := by decide +kernel

attribute [irreducible] firstPhys firstProcs

lemma first_started : ∃ (ℓ : Who → PageHeap) (T : Tree), Owned firstPhys ℓ ∧
    Started noProcs (fun _ => none) 0 T firstProcs (ℓ true) := by
  obtain ⟨ℓ, hO, hnone⟩ := freeOk_sixteenPages.owned
  have hok := userinit_ok (E := any) (p := true) (h := ℓ true) (fun i _ => clean_noProcs i)
    (fun _ _ => trivial) 1
  obtain ⟨ℓ', hO', T, H, hT⟩ := hO.run_ok hok first_run
  have hpte : T.pte 0 ≠ 0 := by
    have heq := H.pte_eq hO' (show 0 < MAXVA by decide)
    rw [Nat.zero_div] at heq
    rw [← heq]
    exact first_mapped
  rw [hnone] at hT
  exact ⟨ℓ', T, hO', hT hpte⟩

end Xv6.Vm
