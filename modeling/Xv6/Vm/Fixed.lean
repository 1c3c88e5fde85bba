import Xv6.Vm.Exec

/-!
Where the kernel ends and where the trampoline is never changes: no function assigns them. So
the pages that the allocator knows stay the same ones.
-/

namespace Xv6.Vm

open Lib.Bytes Lib.Wp Lib.Conc Lib.Conc.Prog

/-- The two states have the same kernel. -/
def SameKernel (s s' : Phys) : Prop := s'.kend = s.kend ∧ s'.trampoline = s.trampoline

lemma SameKernel.refl (s : Phys) : SameKernel s s := ⟨rfl, rfl⟩

lemma SameKernel.trans {s s' s'' : Phys} (h : SameKernel s s') (h' : SameKernel s' s'') :
    SameKernel s s'' := ⟨h'.1.trans h.1, h'.2.trans h.2⟩

/-- The code leaves the kernel where it is, however it ends. -/
def Fixed {α : Type} (x : Code α) : Prop :=
  ∀ s, wp x.alone (fun _ s' => SameKernel s s') (fun _ s' => SameKernel s s') s

variable {α β : Type} {a b n pa : ℕ}

lemma fixed_pure (v : α) : Fixed (pure v : Code α) := fun s => SameKernel.refl s

lemma Fixed.bind {x : Code α} {f : α → Code β} (hx : Fixed x) (hf : ∀ v, Fixed (f v)) :
    Fixed (x >>= f) := by
  intro s
  rw [alone_bind, wp_bind]
  exact wp_mono (hx s) (fun v s' h => wp_mono (hf v s') (fun _ _ h' => h.trans h') fun _ _ h' => h.trans h')
    fun _ _ h => h

lemma fixed_lift {x : PhysM α}
    (h : ∀ s, wp x (fun _ s' => SameKernel s s') (fun _ s' => SameKernel s s') s) :
    Fixed (liftM x : Code α) := by
  intro s
  rw [show (liftM x : Code α).alone = x >>= pure from rfl, wp_bind]
  exact wp_mono (h s) (fun _ _ h => h) fun _ _ h => h

lemma fixed_doIf {c : Prop} [Decidable c] {x : Code Unit} (h : Fixed x) : Fixed (doIf c x) := by
  unfold doIf
  split
  · exact h
  · exact fixed_pure ()

lemma fixed_loop {A : Type} {out : Code α} {step : A → Code (A ⊕ α)} (hout : Fixed out)
    (hstep : ∀ v, Fixed (step v)) (k : ℕ) (v : A) : Fixed (loop out step k v) := by
  induction k generalizing v with
  | zero => exact hout
  | succ k ih =>
    rw [Prog.loop]
    refine (hstep v).bind fun r => ?_
    cases r with
    | inl v' => exact ih v'
    | inr r => exact fixed_pure r

lemma fixed_ite {c : Prop} [Decidable c] {x y : Code α} (hx : Fixed x) (hy : Fixed y) :
    Fixed (if c then x else y) := by
  split
  · exact hx
  · exact hy

/-! ### Memory -/

lemma fixed_panicIf {c : Prop} [Decidable c] (msg : String) : Fixed (panicIf c msg) :=
  fixed_lift fun s => (wp_throwIf _ _ _ _ _).mpr ⟨fun _ => SameKernel.refl s, fun _ => SameKernel.refl s⟩

lemma fixed_hang : Fixed (hang : Code α) := fixed_lift fun s => (wp_throw _ _ _ _).mpr (SameKernel.refl s)

lemma fixed_load : Fixed (load a) := fixed_lift fun s => by simp [SameKernel]

lemma fixed_store : Fixed (store a b) :=
  fixed_lift fun s => by simp [SameKernel, Phys.putWord, Phys.setPage]

variable {root va sz oldsz newsz q : ℕ} {alloc : Bool} {src : List UInt8}

lemma fixed_memset {c : UInt8} : Fixed (memset a c) := fixed_lift fun s => by simp [SameKernel, Phys.setPage]

lemma fixed_readBytes : Fixed (readBytes a n) := fixed_lift fun s => by simp [SameKernel]

lemma fixed_writeBytes : Fixed (writeBytes a src) :=
  fixed_lift fun s => by simp [SameKernel, Phys.setPage]

lemma fixed_kfree : Fixed (kfree pa) := by
  refine Fixed.bind (fixed_lift fun s => ?_) fun _ => fixed_memset.bind fun _ => fixed_lift fun s => ?_
  · simp [SameKernel]
  · simp [SameKernel, Phys.putWord, Phys.setPage]

lemma fixed_kalloc : Fixed kalloc := by
  refine Fixed.bind (fixed_lift fun s => ?_) fun r => (fixed_doIf fixed_memset).bind fun _ => fixed_pure r
  simp only [wp_bind, wp_get]
  split
  · exact SameKernel.refl s
  · simp [SameKernel]

/-! ### Page tables -/

lemma fixed_walkDown {l : ℕ} : Fixed (walkDown va alloc l q) := by
  induction l generalizing q with
  | zero => exact fixed_pure _
  | succ l ih =>
    refine fixed_load.bind fun _ => fixed_ite ih (fixed_ite ?_ (fixed_pure 0))
    exact fixed_kalloc.bind fun _ => fixed_ite (fixed_pure 0)
      (fixed_memset.bind fun _ => fixed_store.bind fun _ => ih)

lemma fixed_walk : Fixed (walk root va alloc) :=
  (fixed_panicIf _).bind fun _ => fixed_walkDown

lemma fixed_walkaddr : Fixed (walkaddr root va) :=
  fixed_ite (fixed_pure 0) (fixed_walk.bind fun _ => fixed_ite (fixed_pure 0)
    (fixed_load.bind fun _ => fixed_ite (fixed_pure 0) (fixed_ite (fixed_pure 0) (fixed_pure _))))

lemma fixed_mappages {size perm : ℕ} : Fixed (mappages root va size pa perm) :=
  fixed_loop fixed_hang (fun _ => fixed_walk.bind fun _ =>
    fixed_ite (fixed_pure _) (fixed_load.bind fun _ => (fixed_panicIf _).bind fun _ =>
      fixed_store.bind fun _ => fixed_ite (fixed_pure _) (fixed_pure _))) _ _

lemma fixed_uvmunmap {npages : ℕ} {do_free : Bool} : Fixed (uvmunmap root va npages do_free) :=
  (fixed_panicIf _).bind fun _ => fixed_loop fixed_hang (fun _ => fixed_ite
    (fixed_walk.bind fun _ => (fixed_panicIf _).bind fun _ => fixed_load.bind fun _ =>
      (fixed_panicIf _).bind fun _ => (fixed_panicIf _).bind fun _ => (fixed_doIf fixed_kfree).bind fun _ =>
        fixed_store.bind fun _ => fixed_pure _) (fixed_pure _)) _ _

lemma fixed_uvmcreate : Fixed uvmcreate :=
  fixed_kalloc.bind fun r => (fixed_doIf fixed_memset).bind fun _ => fixed_pure r

lemma fixed_uvmclear : Fixed (uvmclear root va) :=
  fixed_walk.bind fun _ => (fixed_panicIf _).bind fun _ => fixed_load.bind fun _ =>
    fixed_store

lemma fixed_uvmdealloc : Fixed (uvmdealloc root oldsz newsz) :=
  fixed_ite (fixed_pure _) ((fixed_doIf fixed_uvmunmap).bind fun _ => fixed_pure _)

lemma fixed_uvmalloc : Fixed (uvmalloc root oldsz newsz) :=
  fixed_ite (fixed_pure _) (fixed_loop fixed_hang (fun _ => fixed_ite (fixed_kalloc.bind fun _ =>
    fixed_ite (fixed_uvmdealloc.bind fun _ => fixed_pure _) (fixed_memset.bind fun _ =>
      fixed_mappages.bind fun _ => fixed_ite (fixed_pure _) (fixed_kfree.bind fun _ =>
        fixed_uvmdealloc.bind fun _ => fixed_pure _))) (fixed_pure _)) _ _)

lemma fixed_freewalk {depth : ℕ} : Fixed (freewalk depth q) := by
  induction depth generalizing q with
  | zero => exact fixed_hang
  | succ depth ih =>
    exact Fixed.bind (fixed_loop fixed_hang (fun _ => fixed_ite (fixed_load.bind fun _ => fixed_ite
      (ih.bind fun _ => fixed_store.bind fun _ => fixed_pure _)
      ((fixed_panicIf _).bind fun _ => fixed_pure _)) (fixed_pure _)) _ _) fun _ => fixed_kfree

lemma fixed_uvmfree : Fixed (uvmfree root sz) :=
  (fixed_doIf fixed_uvmunmap).bind fun _ => fixed_freewalk

lemma fixed_uvmcopy {old new : ℕ} : Fixed (uvmcopy old new sz) :=
  fixed_loop fixed_hang (fun _ => fixed_ite (fixed_walk.bind fun _ => (fixed_panicIf _).bind fun _ =>
    fixed_load.bind fun _ => (fixed_panicIf _).bind fun _ => fixed_kalloc.bind fun _ => fixed_ite
      (fixed_uvmunmap.bind fun _ => fixed_pure _) (fixed_readBytes.bind fun _ =>
        fixed_writeBytes.bind fun _ => fixed_mappages.bind fun _ => fixed_ite (fixed_pure _)
          (fixed_kfree.bind fun _ => fixed_uvmunmap.bind fun _ => fixed_pure _))) (fixed_pure _)) _ _

lemma fixed_procPagetable {trapframe : ℕ} : Fixed (procPagetable trapframe) := by
  unfold procPagetable
  generalize TRAMPOLINE = top, TRAPFRAME = below
  refine fixed_uvmcreate.bind fun r => fixed_ite (fixed_pure 0) ?_
  refine Fixed.bind (fixed_lift fun s => by simp [SameKernel]) fun _ => ?_
  refine fixed_mappages.bind fun _ => fixed_ite ?_ (fixed_uvmfree.bind fun _ => fixed_pure _)
  refine fixed_mappages.bind fun _ => fixed_ite (fixed_pure r) ?_
  exact fixed_uvmunmap.bind fun _ => fixed_uvmfree.bind fun _ => fixed_pure _

lemma fixed_procFreepagetable : Fixed (procFreepagetable root sz) := by
  unfold procFreepagetable
  generalize TRAMPOLINE = top, TRAPFRAME = below
  exact fixed_uvmunmap.bind fun _ => fixed_uvmunmap.bind fun _ => fixed_uvmfree

lemma fixed_copyout : Fixed (copyout root va src) :=
  fixed_loop fixed_hang (fun _ => fixed_ite (fixed_pure _) (fixed_walkaddr.bind fun _ =>
    fixed_ite (fixed_pure _) (fixed_writeBytes.bind fun _ => fixed_pure _))) _ _

end Xv6.Vm
