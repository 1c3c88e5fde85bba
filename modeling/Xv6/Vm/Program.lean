import Xv6.Vm.ArgStack
import Xv6.Vm.Fixed

/-!
The memory of a new program, from the file to the stack: what `exec` of `kernel/exec.c` does
with memory before it commits. If it gives up, all pages are free again.
-/

namespace Xv6.Vm

open Lib.Bytes Lib.Wp Lib.Conc Lib.Own Lib.Conc.Prog

variable {T T' T₀ : Tree} {root n m v sz : ℕ} {h h' h₀ : PageHeap} {ι : Type} [DecidableEq ι]
  {E : Stop → Phys → Prop} {p : ι} {img : ℕ → UInt8} {strs : List (List UInt8)} {data : List UInt8}

/-! ### The segments -/

/-- The program headers of a file, as `exec` reads them. -/
def fileHeaders (data : List UInt8) : List Phdr :=
  headers data (elfhdr (readi data 0 64)).phoff (elfhdr (readi data 0 64)).phnum

/-- A program that has been loaded from the file. -/
structure Program (data : List UInt8) (tf : ℕ) (h : PageHeap) (root sz entry : ℕ) (T : Tree)
    (h' : PageHeap) : Prop where
  ram : Ram root
  tops : Tops T tf
  moves : Moves Nothing h (Foot T (pages sz)) h'
  loaded : Loaded T root (pages sz) (image data (fileHeaders data)) h'
  mine : ∀ v < pages sz, Mine T v
  zero : ∀ a, sz ≤ a → image data (fileHeaders data) a = 0
  ends : sz = imageEnd (fileHeaders data)
  full : ∀ i < (elfhdr (readi data 0 64)).phnum,
    (headerAt data (elfhdr (readi data 0 64)).phoff i).length = PHSIZE
  good : ∀ ph ∈ fileHeaders data, ph.type = ELF_PROG_LOAD → ph.Good data
  entry : entry = (elfhdr (readi data 0 64)).entry

lemma Tops.of_mapped {tf : ℕ} (t : Tops T₀ tf) (M : Mapped T₀ h₀ root sz T h) : Tops T tf := t.congr M.tops

/-- **What loading a program does.** -/
theorem loadProgram_ok {tf : ℕ} (htf : tf < 2 ^ 64) (hdata : data.length < 2 ^ 32) :
    Ok E p (loadProgram data tf) (fun r h' => match r with
      | none => h' = h
      | some (root, sz, entry) => ∃ T, Program data tf h root sz entry T h') h := by
  unfold loadProgram
  dsimp only
  generalize hb : readi data 0 64 = bytes
  split
  · exact rfl
  split
  · exact rfl
  refine Safe.bind (procPagetable_ok htf) ?_
  rintro root h₁ (⟨rfl, rfl⟩ | ⟨hroot, T₀, S₀, t₀, M₀⟩)
  · rw [if_pos rfl]
    exact rfl
  rw [if_neg hroot.ne_zero]
  have M : Mapped T₀ h₁ root 0 T₀ h₁ := ⟨S₀, Moves.refl _ _, fun _ _ => rfl⟩
  refine Safe.bind (M.segments_ok (number_lt bytes 56 2) hdata) ?_
  rintro ⟨ok, sz⟩ h₂ ⟨T₂, ⟨rfl, M₂⟩ | ⟨rfl, hsz, hlen, hgood, G⟩⟩
  · dsimp only
    rw [if_neg (by decide)]
    refine Safe.bind (M₂.space.procFreepagetable_ok (t₀.of_mapped M₂) rfl) ?_
    rintro _ h₃ M₃
    exact ((M₀.trans M₂.moves).trans M₃).eq_of_none (fun _ => not_false) fun _ => not_false
  · dsimp only
    rw [if_pos rfl]
    have hfile : fileHeaders data = headers data (number bytes 32 8) (number bytes 56 2) := by
      rw [fileHeaders, hb]
      rfl
    refine ⟨T₂, hroot, t₀.of_mapped G.toMapped, M₀.trans G.moves, ?_, G.mine, ?_, ?_, ?_, ?_, ?_⟩
    · rw [hfile]
      exact G.loaded
    · rw [hfile]
      exact G.zero
    · rw [hfile]
      exact hsz
    · rw [hb]
      exact hlen
    · rw [hfile]
      exact hgood
    · rw [hb]

/-! ### The stack -/

/-- The address space of `exec`'s image. -/
structure Stacked (img : ℕ → UInt8) (root sz entry : ℕ) (strs : List (List UInt8)) (tf : ℕ)
    (h : PageHeap) (im : Image) (T : Tree) (h' : PageHeap) : Prop where
  table : im.pagetable = root
  size : im.sz = 4096 * (pages sz + 2)
  tops : Tops T tf
  moves : Moves Nothing h (Foot T (pages im.sz)) h'
  loaded : Loaded T root (pages im.sz) (stackImage img im.sz strs) h'
  mine : ∀ v < pages im.sz, v ≠ pages sz → Mine T v
  guard : T.pte (pages sz) &&& PTE_U = 0
  fit : argRoom strs ≤ PGSIZE
  sp : im.sp = im.sz - argRoom strs
  argc : im.argc = strs.length
  entry : im.entry = entry

section Stack

variable {tf entry root' : ℕ} {argv : List ℕ}

lemma not_new (hv : IsTop v) (S : Space T root n h) : ¬ (m ≤ v ∧ v < n) := by
  have := (isTop_lt hv).2
  have := S.le
  omega

lemma execBad_ok {h₁ : PageHeap} (S : Space T root (pages sz) h₁) (t : Tops T tf)
    (M : Moves Nothing h (Foot T (pages sz)) h₁) :
    Ok E p (execBad root sz) (fun r h' => r = none ∧ h' = h) h₁ := by
  refine Safe.bind (S.procFreepagetable_ok t rfl) ?_
  rintro _ h₂ M₂
  exact ⟨rfl, (M.trans M₂).eq_of_none (fun _ => not_false) fun _ => not_false⟩

/-- **What making the stack does.** -/
theorem execStack_ok {h₁ : PageHeap} (L : Loaded T root (pages sz) img h₁) (hm : ∀ v < pages sz, Mine T v)
    (hz : ∀ a, sz ≤ a → img a = 0) (t : Tops T tf) (M : Moves Nothing h (Foot T (pages sz)) h₁)
    (A : Args h argv strs) (hlen : ∀ str ∈ strs, str.length < 4096) (hmax : argv.length < MAXARG) :
    Ok E p (execStack root sz argv entry) (fun r h' => match r with
      | none => h' = h
      | some im => ∃ T', Stacked img root sz entry strs tf h im T' h') h₁ := by
  have hsz := L.space.size_le rfl
  rw [execStack_eq, pgRoundUp_pages hsz]
  have hmul : pages (4096 * pages sz) = pages sz := pages_mul _
  have hu : u64 (4096 * pages sz + 2 * PGSIZE) = 4096 * (pages sz + 2) := by
    have := L.space.le
    simp only [u64, PGSIZE, RAMPAGES] at *
    omega
  rw [hu]
  refine Safe.bind (L.space.uvmalloc_ok hmul _) ?_
  rintro r h₂ (⟨hlt, -⟩ | ⟨-, rfl, -, T₂, W⟩ | ⟨-, rfl, T₂, W⟩)
  · omega
  · rw [if_neg (by omega)]
    rw [pages_mul] at W
    have L₂ : Loaded T₂ root (pages sz + 2) img h₂ := by
      refine L.widen (fun a ha => hz a ?_) W
      unfold pages at ha
      omega
    have t₂ : Tops T₂ tf := t.congr fun v hv => W.pte v (not_new hv W.space)
    rw [show 4096 * (pages sz + 2) - 2 * PGSIZE = 4096 * pages sz by simp only [PGSIZE]; omega]
    refine Safe.bind (L₂.uvmclear_ok (by omega) (W.mine hm _ (by omega))) ?_
    rintro _ h₃ ⟨L₃, M₃⟩
    generalize hT₃ : T₂.set (pages sz) (clearU (T₂.pte (pages sz))) = T₃ at L₃ M₃
    have hpte : ∀ v, v ≠ pages sz → T₃.pte v = T₂.pte v := by
      intro v hv
      rw [← hT₃]
      exact Function.update_of_ne hv _ _
    have hguard : T₃.pte (pages sz) &&& PTE_U = 0 := by
      have hself : T₃.pte (pages sz) = clearU (T₂.pte (pages sz)) := by
        rw [← hT₃]
        exact Function.update_self ..
      rw [hself, and_flag _ (by decide), pteFlags_clearU, Nat.and_assoc]
      exact Nat.and_zero _
    have hmine : ∀ v < pages sz + 2, v ≠ pages sz → Mine T₃ v := by
      intro v hv hne
      rw [Mine, hpte v hne]
      exact W.mine hm v hv
    have t₃ : Tops T₃ tf := t₂.congr fun v hv => hpte v fun he =>
      not_new (m := v) hv W.space ⟨le_rfl, by omega⟩
    have M₁₃ : Moves Nothing h (Foot T₃ (pages sz + 2)) h₃ := (M.trans W.moves).trans M₃
    have hout := fun k hk => M₁₃.apart (A.owned k hk) not_false
    refine Safe.bind (L₃.argStack_ok (A.mono fun k hk => (hout k hk).2) (fun k hk => (hout k hk).1)
      (by omega) (hmine _ (by omega) (by omega)) hlen hmax) ?_
    rintro r h₄ ⟨K, hr⟩
    have hsize : pages (4096 * (pages sz + 2)) = pages sz + 2 := pages_mul _
    have M₄ := M₁₃.trans K.moves
    cases r with
    | none =>
      obtain ⟨-, img', L₄⟩ := hr
      rw [← hsize] at L₄ M₄
      refine (execBad_ok L₄.space t₃ M₄).mono ?_
      rintro r h₅ ⟨rfl, rfl⟩
      exact rfl
    | some r =>
      obtain ⟨sp, argc⟩ := r
      obtain ⟨hfit, rfl, rfl, L₄⟩ := hr
      refine ⟨T₃, rfl, rfl, t₃, ?_, ?_, ?_, hguard, hfit, rfl, rfl, rfl⟩ <;> dsimp only <;> rw [hsize]
      · exact M₄
      · exact L₄
      · exact hmine
  · rw [if_pos rfl]
    have t₂ : Tops T₂ tf := t.congr fun v hv => W.pte v (by omega)
    have M₂ := M.trans W.moves
    have S₂ := W.space
    rw [← hmul] at M₂ S₂
    refine (execBad_ok S₂ t₂ M₂).mono ?_
    rintro r h₃ ⟨rfl, rfl⟩
    exact rfl

end Stack

/-! ### Where the kernel is -/

lemma fixed_loadseg {va offset len : ℕ} : Fixed (loadseg root va data offset len) := by
  refine (fixed_panicIf _).bind fun _ => fixed_loop fixed_hang (fun i => ?_) _ _
  refine fixed_ite (fixed_walkaddr.bind fun pa => (fixed_panicIf _).bind fun _ => ?_) (fixed_pure _)
  exact fixed_writeBytes.bind fun _ => fixed_ite (fixed_pure _) (fixed_pure _)

lemma fixed_execBad : Fixed (execBad root sz) := by
  have hfree := @fixed_procFreepagetable root sz
  unfold execBad
  generalize procFreepagetable root sz = free at *
  exact hfree.bind fun _ => fixed_pure _

lemma fixed_loadProgram {tf : ℕ} : Fixed (loadProgram data tf) := by
  have hstep : ∀ pagetable phnum g, Fixed (segStep pagetable data phnum g) := by
    intro pagetable phnum g
    refine fixed_ite (fixed_ite (fixed_pure _) (fixed_ite (fixed_pure _) (fixed_ite (fixed_pure _)
      (fixed_ite (fixed_pure _) (fixed_uvmalloc.bind fun sz1 => ?_))))) (fixed_pure _)
    refine fixed_ite (fixed_pure _) (fixed_ite (fixed_pure _) (fixed_loadseg.bind fun ok => ?_))
    exact fixed_ite (fixed_pure _) (fixed_pure _)
  refine fixed_ite (fixed_pure _) (fixed_ite (fixed_pure _) (fixed_procPagetable.bind fun pagetable => ?_))
  refine fixed_ite (fixed_pure _) ((fixed_loop fixed_hang (hstep _ _) _ _).bind fun r => ?_)
  have hfree := @fixed_procFreepagetable pagetable r.2
  generalize procFreepagetable pagetable r.2 = free at *
  exact fixed_ite (fixed_pure _) (hfree.bind fun _ => fixed_pure _)

lemma fixed_pushArgs {base : ℕ} {argv : List ℕ} {sp : ℕ} {u : List ℕ} :
    Fixed (pushArgs root base argv sp u) := by
  induction argv generalizing sp u with
  | nil => exact fixed_pure _
  | cons arg argv ih =>
    refine fixed_ite (fixed_pure _) ((fixed_readBytes.bind fun _ => fixed_pure _).bind fun str => ?_)
    exact fixed_ite (fixed_pure _) (fixed_copyout.bind fun ok => fixed_ite ih (fixed_pure _))

lemma fixed_execStack {argv : List ℕ} {entry : ℕ} : Fixed (execStack root sz argv entry) := by
  have hbad := @fixed_execBad root
  have halloc := @fixed_uvmalloc root
  have hclear := @fixed_uvmclear root
  have hpush := @fixed_pushArgs root
  unfold execStack
  -- what the functions do is of no concern here, and their sizes are large numbers
  generalize execBad root = bad at *
  generalize uvmalloc root = alloc at *
  generalize uvmclear root = clear at *
  generalize pushArgs root = push at *
  refine halloc.bind fun sz1 => fixed_ite hbad (hclear.bind fun _ => hpush.bind fun r => ?_)
  cases r with
  | none => exact hbad
  | some r =>
    dsimp only
    split
    · exact hbad
    · exact fixed_copyout.bind fun ok => fixed_ite (fixed_pure _) hbad

end Xv6.Vm
