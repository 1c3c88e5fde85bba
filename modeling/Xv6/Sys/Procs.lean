import Xv6.Sys.Exec
import Xv6.Vm.Grow

/-!
The memory of all processes, over whole runs: processes are made by `userinit` and `fork`, replaced
by `exec`, resized by `sbrk` and freed, while they store to their memory and the kernel takes pages
for itself. No two of them ever share a page, and none is lost.
-/

namespace Xv6.Sys

open Lib.Bytes Lib.Wp Lib.Conc Lib.Own Vm Function

/-- Memory, the process table, and the pages that the kernel has taken for pipes and arguments. -/
structure World where
  phys : Phys
  proc : ℕ → Proc
  kept : List ℕ

/-- The slot is used. -/
abbrev Used (x : Proc) : Prop := x.state ≠ .unused

/-- What happens to the memory of processes. A store to user memory is one to the page that the
address is mapped to. -/
inductive Step (w : World) : World → Prop
  | userinit {pid i : ℕ} {proc' : ℕ → Proc} {s' : Phys}
      (hrun : run (userinit w.proc pid) w.phys = .ok (i, proc') s')
      (hmap : s'.pte (proc' i).pagetable 0 ≠ 0) : Step w { w with phys := s', proc := proc' }
  | fork {me pid : ℕ} {r : ℤ} {proc' : ℕ → Proc} {s' : Phys} (hme : Used (w.proc me))
      (hrun : run (fork w.proc me pid) w.phys = .ok (r, proc') s') :
      Step w { w with phys := s', proc := proc' }
  | exec {N i : ℕ} {t t' : Task N} {sb : Fs.Superblock} {data : File} {path : List UInt8}
      {argv : List ℕ} {r : ℤ} (hi : Used (w.proc i)) (hphys : t.phys = w.phys) (hproc : t.proc = w.proc i)
      (hspin : t.fs.spin t.fs.cur = []) (hop : t.fs.op t.fs.cur = false)
      (hcwd : t.fs.cwd t.fs.cur ≠ none) (hargv : ∀ k ∈ argv, k ∈ w.kept)
      (hstr : ∀ k ∈ argv, (strOf (w.phys.mem k)).length < 4096) (hmax : argv.length < MAXARG)
      (hrun : exec sb data path argv t = .ok r t') :
      Step w { w with phys := t'.phys, proc := update w.proc i t'.proc }
  | sbrk {i n : ℕ} {r : ℤ} {x' : Proc} {s' : Phys} (hi : Used (w.proc i))
      (hrun : run (sysSbrk (w.proc i) n) w.phys = .ok (r, x') s') :
      Step w { w with phys := s', proc := update w.proc i x' }
  | freeproc {i : ℕ} {x' : Proc} {s' : Phys} (hi : Used (w.proc i))
      (hrun : run (freeproc (w.proc i)) w.phys = .ok x' s') :
      Step w { w with phys := s', proc := update w.proc i x' }
  | entry {i : ℕ} {x' : Proc} (hi : Used (w.proc i)) (hx : Used x') (hsz : x'.sz = (w.proc i).sz)
      (hroot : x'.pagetable = (w.proc i).pagetable) (htf : x'.trapframe = (w.proc i).trapframe) :
      Step w { w with proc := update w.proc i x' }
  | userStore {i va : ℕ} {b : UInt8} {s' : Phys} (hi : Used (w.proc i))
      (hacc : w.phys.Accessible (w.proc i).pagetable va)
      (hrun : run (writeBytes (pte2pa (w.phys.pte (w.proc i).pagetable va) + va % 4096) [b]) w.phys =
        .ok () s') : Step w { w with phys := s' }
  | trap {i o v : ℕ} {s' : Phys} (hi : Used (w.proc i)) (ho : o < TRAPSIZE)
      (hrun : run (store ((w.proc i).trapframe + o) v) w.phys = .ok () s') : Step w { w with phys := s' }
  | kalloc {k : ℕ} {s' : Phys} (hrun : run kalloc w.phys = .ok k s') (hk : k ≠ 0) :
      Step w { w with phys := s', kept := k :: w.kept }
  | kfree {k : ℕ} {s' : Phys} (hk : k ∈ w.kept) (hrun : run (kfree k) w.phys = .ok () s') :
      Step w { w with phys := s', kept := w.kept.erase k }
  | kstore {k o : ℕ} {src : List UInt8} {s' : Phys} (hk : k ∈ w.kept) (ho : o < 4096)
      (hrun : run (writeBytes (k + o) src) w.phys = .ok () s') : Step w { w with phys := s' }

/-- The states that the machine can get to from one without processes. -/
inductive Reachable : World → Prop
  | boot {s : Phys} (hs : FreeOk s) : Reachable ⟨s, noProcs, []⟩
  | step {w w' : World} (hw : Reachable w) (hstep : Step w w') : Reachable w'

/-! ### The invariant -/

/-- The pages of a slot. -/
def Pages (x : Proc) (T : Tree) (k : ℕ) : Prop := Used x ∧ x.Foot T k

/-- Every process has its memory, and all pages in use are different ones. -/
structure Separate (proc : ℕ → Proc) (ks : List ℕ) (T : ℕ → Tree) (h : PageHeap) : Prop where
  clean : ∀ i, (proc i).state = .unused → (proc i).Clean
  mem : ∀ i, Used (proc i) → (proc i).Mem (T i) h
  apart : ∀ i j k, i ≠ j → Pages (proc i) (T i) k → ¬ Pages (proc j) (T j) k
  kernel : ∀ k ∈ ks, h k ≠ none ∧ ∀ i, ¬ Pages (proc i) (T i) k
  nodup : ks.Nodup

/-- Moreover, every page in use is a process's or the kernel's. -/
structure Whole (proc : ℕ → Proc) (ks : List ℕ) (T : ℕ → Tree) (h : PageHeap) : Prop extends
    Separate proc ks T h where
  all : ∀ k, h k ≠ none → k ∈ ks ∨ ∃ i, Pages (proc i) (T i) k

section

variable {proc : ℕ → Proc} {ks : List ℕ} {T : ℕ → Tree} {h h' : PageHeap} {i k : ℕ} {x' : Proc}
  {T' : Tree}

lemma pages_update {j : ℕ} : Pages (update proc i x' j) (update T i T' j) k ↔
    if j = i then Pages x' T' k else Pages (proc j) (T j) k := by
  by_cases he : j = i
  · subst he
    simp
  · simp [he]

section

variable {proc' : ℕ → Proc} (A : Whole proc ks T h)

include A

lemma Whole.owned (hk : Pages (proc i) (T i) k) : h k ≠ none :=
  (A.mem i hk.1).foot_ne hk.2

lemma Whole.change (M : Moves (Pages (proc i) (T i)) h (Pages x' T') h')
    (hx : Used x' → x'.Mem T' h') (hc : x'.state = .unused → x'.Clean) :
    Whole (update proc i x') ks (update T i T') h' := by
  have hother : ∀ j k, j ≠ i → Pages (proc j) (T j) k → ¬ Pages x' T' k ∧ h' k = h k :=
    fun j k hj hk => M.apart (A.owned hk) (A.apart j i k hj hk)
  refine ⟨⟨?_, fun j hj => ?_, fun j j' k hne hk hk' => ?_, fun k hk => ?_, A.nodup⟩, fun k hk => ?_⟩
  · exact (forall_update_iff proc fun _ y => y.state = .unused → y.Clean).mpr ⟨hc, fun j _ => A.clean j⟩
  · by_cases he : j = i
    · subst he
      rw [update_self] at hj
      rw [update_self, update_self]
      exact hx hj
    · rw [update_of_ne he] at hj
      rw [update_of_ne he, update_of_ne he]
      exact (A.mem j hj).congr fun k hk => (hother j k he ⟨hj, hk⟩).2
  · rw [pages_update] at hk hk'
    split at hk <;> rename_i he <;> split at hk' <;> rename_i he'
    · exact hne (he.trans he'.symm)
    · exact (hother j' k he' hk').1 hk
    · exact (hother j k he hk).1 hk'
    · exact A.apart j j' k hne hk hk'
  · obtain ⟨hown, hnot⟩ := A.kernel k hk
    obtain ⟨h1, h2⟩ := M.apart hown (hnot i)
    refine ⟨by rw [h2]; exact hown, fun j hj => ?_⟩
    rw [pages_update] at hj
    split at hj
    · exact h1 hj
    · exact hnot j hj
  · by_cases hnew : Pages x' T' k
    · exact .inr ⟨i, by rwa [pages_update, if_pos rfl]⟩
    by_cases hold : Pages (proc i) (T i) k
    · exact absurd (M.lost k hold hnew) hk
    rw [M.keep k hold hnew] at hk
    refine (A.all k hk).imp_right fun ⟨j, hj⟩ => ⟨j, ?_⟩
    rwa [pages_update, if_neg fun he : j = i => hold (he ▸ hj)]

lemma Whole.put {ks' : List ℕ} {v : Option Page} (hk : ∀ i, ¬ Pages (proc i) (T i) k)
    (hks : ∀ j, j ∈ ks' ↔ if j = k then v ≠ none else j ∈ ks) (hnd : ks'.Nodup) :
    Whole proc ks' T (update h k v) := by
  have hother : ∀ i j, Pages (proc i) (T i) j → update h k v j = h j := by
    intro i j hj
    refine update_of_ne ?_ _ _
    rintro rfl
    exact hk i hj
  refine ⟨⟨A.clean, fun i hi => (A.mem i hi).congr fun j hj => hother i j ⟨hi, hj⟩, A.apart,
    fun j hj => ?_, hnd⟩, fun j hj => ?_⟩
  · rw [hks] at hj
    rw [update_apply]
    split at hj <;> rename_i he
    · rw [if_pos he, he]
      exact ⟨hj, hk⟩
    · rw [if_neg he]
      exact A.kernel j hj
  · rw [update_apply] at hj
    rw [hks]
    split at hj <;> rename_i he
    · exact .inl (by rwa [if_pos he])
    · rw [if_neg he]
      exact A.all j hj

lemma Whole.slots (hs : SlotsKept proc proc') :
    Whole proc' ks T h := by
  have hpages : ∀ i k, Pages (proc' i) (T i) k → Pages (proc i) (T i) k := by
    intro i k hk
    rcases hs i with he | ⟨-, hc⟩
    · rwa [he] at hk
    · exact absurd hc.1 hk.1
  refine ⟨⟨fun i hi => ?_, fun i hi => ?_, fun i j k hne hk hk' => ?_, fun k hk => ?_, A.nodup⟩,
    fun k hk => (A.all k hk).imp_right fun ⟨i, hi⟩ => ⟨i, ?_⟩⟩
  · rcases hs i with he | ⟨-, hc⟩
    · rw [he] at hi ⊢
      exact A.clean i hi
    · exact hc
  · rcases hs i with he | ⟨-, hc⟩
    · rw [he] at hi ⊢
      exact A.mem i hi
    · exact absurd hc.1 hi
  · exact A.apart i j k hne (hpages i k hk) (hpages j k hk')
  · exact ⟨(A.kernel k hk).1, fun i hi => (A.kernel k hk).2 i (hpages i k hi)⟩
  · rcases hs i with he | ⟨hc, -⟩
    · rwa [he]
    · exact absurd hc.1 hi.1

lemma Whole.fresh (hi : (proc i).Clean) (ho : ∀ j, j ≠ i → proc' j = proc j)
    (M : Moves Nothing h ((proc' i).Foot T') h') (hx : (proc' i).Mem T' h') (hu : Used (proc' i)) :
    Whole proc' ks (update T i T') h' := by
  have hproc : proc' = update proc i (proc' i) := by
    funext j
    by_cases hj : j = i
    · subst hj
      rw [update_self]
    · rw [update_of_ne hj, ho j hj]
  rw [hproc]
  refine A.change (M.congr (fun k => ?_) fun k => ?_) (fun _ => hx) fun h0 => absurd h0 hu
  · exact ⟨fun hk => absurd hk not_false, fun hk => absurd hi.1 hk.1⟩
  · exact ⟨fun hk => ⟨hu, hk⟩, fun hk => hk.2⟩

lemma Whole.moved (hi : Used (proc i)) (hu : Used x')
    (M : Moves ((proc i).Foot (T i)) h (x'.Foot T') h') (hx : x'.Mem T' h') :
    Whole (update proc i x') ks (update T i T') h' := by
  refine A.change (M.congr (fun k => ?_) fun k => ?_) (fun _ => hx) fun h0 => absurd h0 hu
  · exact ⟨fun hk => ⟨hi, hk⟩, fun hk => hk.2⟩
  · exact ⟨fun hk => ⟨hu, hk⟩, fun hk => hk.2⟩

lemma Whole.write (hi : Used (proc i)) (hk : (proc i).Foot (T i) k) (hno : ¬ (T i).Has k)
    (c : Page) : Whole proc ks T (update h k (some c)) := by
  have hne : ∀ {j}, update h k (some c) j = h j ∨ j = k := by
    intro j
    by_cases hj : j = k
    · exact .inr hj
    · exact .inl (update_of_ne hj _ _)
  have hM : Moves ((proc i).Foot (T i)) h ((proc i).Foot (T i)) (update h k (some c)) :=
    Moves.same fun j hj => hne.resolve_right fun he => hj (he ▸ hk)
  have hmem := A.mem i hi
  have hnew : (proc i).Mem (T i) (update h k (some c)) := by
    refine ⟨hmem.root, hmem.space.write hno c, hmem.tops, hmem.frame.1, ?_, hmem.frame.2.2⟩
    rcases @hne (proc i).trapframe with he | he
    · rw [he]
      exact hmem.frame.2.1
    · rw [he, update_self]
      exact Option.some_ne_none c
  have hall := A.moved hi hi hM hnew
  rwa [update_eq_self, update_eq_self] at hall

end

end

/-! ### Whole runs -/

/-- There is a tree for every process. -/
def World.Good (w : World) : Prop :=
  ∃ (ℓ : Who → PageHeap) (T : ℕ → Tree), Owned w.phys ℓ ∧ Separate w.proc w.kept T (ℓ true)

/-- The kernel's image and the pages of the other owner are as they were. -/
def Others (s : Phys) (ℓ : Who → PageHeap) (s' : Phys) (ℓ' : Who → PageHeap) : Prop :=
  SameKernel s s' ∧ ℓ' false = ℓ false

section

variable {s s' : Phys} {w w' : World} {ℓ : Who → PageHeap} {T : ℕ → Tree}

lemma run_others {α : Type} {x : Code α} {Q : α → PageHeap → Prop} {a : α} (hO : Owned s ℓ)
    (hx : Ok any true x Q (ℓ true)) (hfix : Fixed x) (hrun : run x s = .ok a s') :
    ∃ ℓ', Owned s' ℓ' ∧ Others s ℓ s' ℓ' ∧ Q a (ℓ' true) := by
  have hboth := wp_and (hx.alone (fun _ => trivial) (fun _ => rfl) hO rfl) (hfix s)
  obtain ⟨⟨h', hO', hQ⟩, hk⟩ := wp_ok hboth hrun
  exact ⟨_, hO', ⟨hk, update_of_ne (by decide) _ _⟩, by rwa [update_self]⟩

/-- **Every step keeps processes apart** and loses no page. -/
theorem Step.whole (hstep : Step w w') (hO : Owned w.phys ℓ) (A : Whole w.proc w.kept T (ℓ true)) :
    ∃ ℓ' T', Owned w'.phys ℓ' ∧ Others w.phys ℓ w'.phys ℓ' ∧ Whole w'.proc w'.kept T' (ℓ' true) := by
  cases hstep with
  | @userinit pid i proc' s' hrun hmap =>
    have hok := userinit_ok (E := any) (p := true) (h := ℓ true) A.clean (fun _ _ => trivial) pid
    obtain ⟨ℓ', hO', hk, T', H, hT⟩ := run_others hO hok fixed_userinit hrun
    have hpte : T'.pte 0 ≠ 0 := by
      have heq := H.pte_eq hO' (show 0 < MAXVA by decide)
      rw [Nat.zero_div] at heq
      rw [← heq]
      exact hmap
    have S := hT hpte
    refine ⟨ℓ', _, hO', hk, A.fresh S.clean S.others S.moves S.mem ?_⟩
    show (proc' i).state ≠ _
    rw [S.state]
    decide
  | @fork me pid r proc' s' hme hrun =>
    have M := A.mem me hme
    obtain ⟨c, hc⟩ := Option.ne_none_iff_exists'.mp M.frame.2.1
    have hok : Ok any true (Vm.fork w.proc me pid) _ (ℓ true) := fork_ok A.clean hme M.space rfl hc
    obtain ⟨ℓ', hO', hk, hQ⟩ := run_others hO hok fixed_fork hrun
    rcases hQ with ⟨-, hh, hs⟩ | ⟨-, i, U, F⟩
    · exact ⟨ℓ', T, hO', hk, hh ▸ A.slots hs⟩
    · obtain ⟨c₁, c₂, -, hframe, -⟩ := F.regs
      have hown : ℓ' true (proc' i).trapframe ≠ none := hframe ▸ Option.some_ne_none c₂
      have hsz : pages (proc' i).sz = pages (w.proc me).sz := congrArg pages F.slot.2.2.2.1
      have hmem : (proc' i).Mem U (ℓ' true) := by
        refine ⟨F.space.holds.ram _ _ _ F.space.holds.root, hsz ▸ F.space, F.tops,
          (hO'.isPage hown).ram, hown, hsz ▸ F.frame⟩
      refine ⟨ℓ', _, hO', hk, A.fresh F.clean F.others ?_ hmem ?_⟩
      · refine F.moves.congr (fun _ => Iff.rfl) fun k => ?_
        rw [Proc.Foot, hsz]
      · show (proc' i).state ≠ _
        rw [F.slot.1]
        decide
  | @exec N i t t' sb data path argv r hi hphys hproc hspin hop hcwd hargv hstr hmax hrun =>
    have hargs : Args (ℓ true) argv (argv.map fun k => strOf (w.phys.mem k)) := by
      refine List.forall₂_map_right_iff.mpr (List.forall₂_same.mpr fun k hk => ?_)
      obtain ⟨c, hc⟩ := Option.ne_none_iff_exists'.mp (A.kernel k (hargv k hk)).1
      exact ⟨c, hc, by rw [hO.agree hc]⟩
    have st : Sits ℓ true t.phys t.fs.books (ℓ true) (w.proc i) t := by
      refine ⟨rfl, hspin, ?_, SameKernel.refl _, hproc⟩
      rw [update_eq_self, hphys]
      exact hO
    have hexec : wp (Sys.exec sb data path argv) _ _ t :=
      exec_ok st (A.mem i hi) hop hcwd hargs (by simpa using hstr) hmax
    have hk : ∀ h', SameKernel t.phys t'.phys → Others w.phys ℓ t'.phys (update ℓ true h') :=
      fun h' hk => ⟨hphys ▸ hk, update_of_ne (by decide) _ _⟩
    rcases wp_ok hexec hrun with ⟨-, st'⟩ | ⟨im, U, h', X, -, st'⟩
    · refine ⟨_, T, st'.owned, hk _ st'.kernel, ?_⟩
      dsimp only
      rw [st'.proc, update_eq_self, update_self]
      exact A
    · refine ⟨_, update T i U, st'.owned, hk _ st'.kernel, ?_⟩
      dsimp only
      rw [st'.proc, update_self]
      exact A.moved hi hi X.moves X.mem
  | @sbrk i n r x' s' hi hrun =>
    have hok := sysSbrk_ok (E := any) (p := true) (A.mem i hi) n
    obtain ⟨ℓ', hO', hk, T', R, -⟩ := run_others hO hok fixed_sysSbrk hrun
    refine ⟨ℓ', _, hO', hk, A.moved hi ?_ R.moves R.mem⟩
    have hstate : x'.state = (w.proc i).state := R.state
    rw [Used, hstate]
    exact hi
  | @freeproc i x' s' hi hrun =>
    have hok := (A.mem i hi).freeproc_ok (E := any) (p := true)
    obtain ⟨ℓ', hO', hk, hx, Mv⟩ := run_others hO hok fixed_freeproc hrun
    refine ⟨ℓ', update T i (T i), hO', hk, A.change (Mv.congr (fun k => ?_) fun k => ?_)
      (fun hu => absurd hx.1 hu) fun _ => hx⟩
    · exact ⟨fun hk => ⟨hi, hk⟩, fun hk => hk.2⟩
    · exact ⟨fun hk => absurd hk not_false, fun hk => absurd hx.1 hk.1⟩
  | @entry i x' hi hx hsz hroot htf =>
    have M := A.mem i hi
    have hfoot : ∀ k, (w.proc i).Foot (T i) k ↔ x'.Foot (T i) k := by
      intro k
      rw [Proc.Foot, Proc.Foot, hsz, htf]
    refine ⟨ℓ, update T i (T i), hO, ⟨.refl _, rfl⟩,
      A.moved hi hx ((Moves.refl _ _).congr (fun _ => Iff.rfl) hfoot) ?_⟩
    exact ⟨hroot ▸ M.root, by rw [hroot, hsz]; exact M.space, htf ▸ M.tops,
      by rw [htf, hsz]; exact M.frame⟩
  | @userStore i va b s' hi hacc hrun =>
    have M := A.mem i hi
    have hva : va / 4096 < pages (w.proc i).sz :=
      M.space.page_lt hO (fun v hv => M.tops.no_user hv) hacc
    obtain ⟨hpte, hpage⟩ := M.space.seen hO hva
    rw [hpte] at hrun
    have hok := writeBytes_ok (E := any) (p := true) hpage (Nat.mod_lt va (by decide)) [b]
    obtain ⟨ℓ', hO', hk, hh⟩ := run_others hO hok fixed_writeBytes hrun
    refine ⟨ℓ', T, hO', hk, ?_⟩
    rw [hh]
    exact A.write hi (.inl (foot_page _ hva)) (M.space.page _ hva).2.2 _
  | @trap i o v s' hi ho hrun =>
    have M := A.mem i hi
    obtain ⟨c, hc⟩ := Option.ne_none_iff_exists'.mp M.frame.2.1
    have hok := store_ok (E := any) (p := true) hc (ho.trans (by decide)) v
    obtain ⟨ℓ', hO', hk, hh⟩ := run_others hO hok fixed_store hrun
    refine ⟨ℓ', T, hO', hk, ?_⟩
    rw [hh]
    exact A.write hi (.inr rfl) (fun hhas => M.frame.2.2 (.inl hhas)) _
  | @kalloc k s' hrun hk =>
    have hok : Ok any true Vm.kalloc _ (ℓ true) := kalloc_ok
    obtain ⟨ℓ', hO', hs, ⟨h0, -⟩ | ⟨-, hnone, hh⟩⟩ := run_others hO hok fixed_kalloc hrun
    · exact absurd h0 hk
    refine ⟨ℓ', T, hO', hs, hh ▸ A.put (fun i hi => A.owned hi hnone) (fun j => ?_) ?_⟩
    · by_cases hj : j = k <;> simp [hj]
    · exact List.nodup_cons.mpr ⟨fun hj => (A.kernel k hj).1 hnone, A.nodup⟩
  | @kfree k s' hk hrun =>
    have hok := kfree_ok (E := any) (p := true) (A.kernel k hk).1
    obtain ⟨ℓ', hO', hs, hh⟩ := run_others hO hok fixed_kfree hrun
    refine ⟨ℓ', T, hO', hs, hh ▸ A.put (A.kernel k hk).2 (fun j => ?_) (A.nodup.erase k)⟩
    rw [A.nodup.mem_erase_iff]
    by_cases hj : j = k <;> simp [hj]
  | @kstore k o src s' hk ho hrun =>
    obtain ⟨c, hc⟩ := Option.ne_none_iff_exists'.mp (A.kernel k hk).1
    have hok := writeBytes_ok (E := any) (p := true) hc ho src
    obtain ⟨ℓ', hO', hs, hh⟩ := run_others hO hok fixed_writeBytes hrun
    refine ⟨ℓ', T, hO', hs, hh ▸ A.put (A.kernel k hk).2 (fun j => ?_) A.nodup⟩
    by_cases hj : j = k <;> simp [hj, hk]

/-- A run from boot keeps processes apart and loses no page. -/
lemma run_whole (hs : FreeOk s) (hrun : Relation.ReflTransGen Step ⟨s, noProcs, []⟩ w) :
    ∃ ℓ₀ ℓ T, Owned s ℓ₀ ∧ ℓ₀ true = (fun _ => none) ∧ Owned w.phys ℓ ∧ Others s ℓ₀ w.phys ℓ ∧
      Whole w.proc w.kept T (ℓ true) := by
  obtain ⟨ℓ₀, hO, hnone⟩ := hs.owned
  induction hrun with
  | refl =>
    have hno : ∀ i, ¬ Used (noProcs i) := fun i hi => hi rfl
    refine ⟨ℓ₀, ℓ₀, fun _ => Tree.empty 0, hO, hnone, hO, ⟨.refl _, rfl⟩, ⟨fun i _ => clean_noProcs i,
      fun i hi => absurd hi (hno i), fun i j k _ hk => absurd hk.1 (hno i), fun k hk => ?_,
      List.nodup_nil⟩, fun k hk => absurd (congrFun hnone k) hk⟩
    exact absurd hk (List.not_mem_nil)
  | tail _ hstep ih =>
    obtain ⟨ℓ₀, ℓ, T, h0, hnone, hO, hk, A⟩ := ih
    obtain ⟨ℓ', T', hO', hk', A'⟩ := hstep.whole hO A
    exact ⟨ℓ₀, ℓ', T', h0, hnone, hO', ⟨hk.1.trans hk'.1, hk'.2.trans hk.2⟩, A'⟩

/-- **No page is lost.** When every process has been freed and the kernel has given its pages back, the
pages that were free at boot are free again, and no others. -/
theorem no_page_lost (hs : FreeOk s) (hrun : Relation.ReflTransGen Step ⟨s, noProcs, []⟩ w)
    (hidle : ∀ i, ¬ Used (w.proc i)) (hkept : w.kept = []) (k : ℕ) : w.phys.Free k ↔ s.Free k := by
  obtain ⟨ℓ₀, ℓ, T, h0, hnone, hO, ⟨hk, hother⟩, A⟩ := run_whole hs hrun
  have htrue : ∀ k, ℓ true k = none := by
    intro k
    by_contra hne
    rcases A.all k hne with hm | ⟨i, hi⟩
    · rw [hkept] at hm
      exact List.not_mem_nil hm
    · exact hidle i hi.1
  rw [hO.free_iff, h0.free_iff, hk.1]
  refine and_congr_right fun _ => forall_congr' fun p => ?_
  cases p with
  | false => rw [hother]
  | true => rw [htrue, hnone]

end

lemma Reachable.run {w : World} (hw : Reachable w) :
    ∃ s, FreeOk s ∧ Relation.ReflTransGen Step ⟨s, noProcs, []⟩ w := by
  induction hw with
  | boot hs => exact ⟨_, hs, .refl⟩
  | step _ hstep ih =>
    obtain ⟨s, hs, hrun⟩ := ih
    exact ⟨s, hs, hrun.tail hstep⟩

/-- **Processes are apart in every state that can be reached.** -/
theorem Reachable.good {w : World} (hw : Reachable w) : w.Good := by
  obtain ⟨s, hs, hrun⟩ := hw.run
  obtain ⟨-, ℓ, T, -, -, hO, -, A⟩ := run_whole hs hrun
  exact ⟨ℓ, T, hO, A.toSeparate⟩

/-- The page that process `i` accesses at `a` is accessed at no address but those of that page of the
process, and is not one that the kernel has taken. -/
def World.OnlyAt (w : World) (i a : ℕ) : Prop :=
  pte2pa (w.phys.pte (w.proc i).pagetable a) ∉ w.kept ∧
    ∀ j b, Used (w.proc j) → w.phys.Accessible (w.proc j).pagetable b →
      pte2pa (w.phys.pte (w.proc j).pagetable b) = pte2pa (w.phys.pte (w.proc i).pagetable a) →
        j = i ∧ b / 4096 = a / 4096

/-- **No page is accessible twice** in any state that can be reached. -/
theorem page_only_at {w : World} (hw : Reachable w) {i a : ℕ} (hi : Used (w.proc i))
    (ha : w.phys.Accessible (w.proc i).pagetable a) : w.OnlyAt i a := by
  obtain ⟨ℓ, T, hO, A⟩ := hw.good
  have hseen : ∀ j b, Used (w.proc j) → w.phys.Accessible (w.proc j).pagetable b →
      b / 4096 < pages (w.proc j).sz ∧
      w.phys.pte (w.proc j).pagetable b = (T j).pte (b / 4096) ∧
      Pages (w.proc j) (T j) (pte2pa ((T j).pte (b / 4096))) := by
    intro j b hj hb
    have M := A.mem j hj
    have hlt := M.space.page_lt hO (fun v hv => M.tops.no_user hv) hb
    exact ⟨hlt, (M.space.seen hO hlt).1, hj, .inl (foot_page _ hlt)⟩
  obtain ⟨hlt, hpte, hpage⟩ := hseen i a hi ha
  rw [World.OnlyAt, hpte]
  refine ⟨fun hk => (A.kernel _ hk).2 i hpage, fun j b hj hb heq => ?_⟩
  obtain ⟨hlt', hpte', hpage'⟩ := hseen j b hj hb
  rw [hpte'] at heq
  have hji : j = i := by
    by_contra hne
    exact A.apart j i _ hne (heq ▸ hpage') hpage
  subst hji
  have hd := (A.mem j hj).space.distinct
  refine ⟨rfl, ?_⟩
  rcases Nat.lt_trichotomy (b / 4096) (a / 4096) with h | h | h
  · exact absurd heq (hd _ _ h hlt)
  · exact h
  · exact absurd heq.symm (hd _ _ h hlt')

/-! ### `sbrk` -/

/-- `sbrk(n)` by process `x` is exact: it returns -1 and nothing has changed, or it returns the old size,
the size has changed by `n`, pages of both sizes are as they were, and new ones are full of zeroes. -/
def SbrkExact (s : Phys) (x : Proc) (n r : ℤ) (s' : Phys) (x' : Proc) : Prop :=
  (r = -1 ∧ x' = x ∧ UserKept s s' x.pagetable x.sz ∧
    ∀ a < MAXVA, s'.pte x.pagetable a = s.pte x.pagetable a) ∨
  (r = x.sz ∧ (x'.sz : ℤ) = x.sz + n ∧ x' = { x with sz := x'.sz } ∧
    UserKept s s' x.pagetable (min x.sz x'.sz) ∧
    ∀ a, pages x.sz ≤ a / 4096 → a / 4096 < pages x'.sz →
      s'.Accessible x.pagetable a ∧ s'.userByte x.pagetable a = 0)

section Sbrk

variable {s s' : Phys} {ℓ ℓ' : Who → PageHeap} {x x' : Proc} {T T' : Tree}

lemma pages_min (a b : ℕ) : pages (min a b) = min (pages a) (pages b) := by
  rcases Nat.le_total a b with h | h
  · rw [Nat.min_eq_left h, Nat.min_eq_left (pages_mono h)]
  · rw [Nat.min_eq_right h, Nat.min_eq_right (pages_mono h)]

lemma Resized.userKept (R : Resized x T (ℓ true) x' T' (ℓ' true)) (M : x.Mem T (ℓ true)) (hO : Owned s ℓ)
    (hO' : Owned s' ℓ') : UserKept s s' x.pagetable (min x.sz x'.sz) := by
  intro va hva
  rw [pages_min, Nat.lt_min] at hva
  have hroot := R.root
  obtain ⟨h1, h2⟩ := M.space.seen hO hva.1
  obtain ⟨h3, h4⟩ := R.mem.space.seen hO' hva.2
  obtain ⟨hpte, hpage⟩ := R.low _ hva.1 hva.2
  rw [hroot] at h3
  rw [hpte, hpage, h2] at h4
  rw [h1, h3, hpte]
  exact ⟨rfl, (Option.some.inj h4).symm⟩

lemma Resized.zeroes (R : Resized x T (ℓ true) x' T' (ℓ' true)) (hO' : Owned s' ℓ') {a : ℕ}
    (h1 : pages x.sz ≤ a / 4096) (h2 : a / 4096 < pages x'.sz) :
    s'.Accessible x.pagetable a ∧ s'.userByte x.pagetable a = 0 := by
  have hroot := R.root
  obtain ⟨hflags, hzero⟩ := R.zero _ h1 h2
  obtain ⟨h3, h4⟩ := R.mem.space.seen hO' h2
  rw [hroot] at h3
  rw [hzero] at h4
  refine ⟨⟨R.mem.space.lt_MAXVA h2, ?_⟩, ?_⟩
  · rw [h3, and_flag _ (by decide), and_flag (f := PTE_U) _ (by decide), hflags]
    decide
  · rw [Phys.userByte, h3, ← Option.some.inj h4, byte_zeroes]

end Sbrk

/-- **When `sbrk` is exact.** In every state that can be reached, a call returns, and it is exact unless the
size would become negative. -/
theorem sbrk_exact {w : World} (hw : Reachable w) {i : ℕ} (hi : Used (w.proc i)) (n : ℕ) :
    ∃ r x' s', run (sysSbrk (w.proc i) n) w.phys = .ok (r, x') s' ∧
      (SbrkExact w.phys (w.proc i) (toInt32 n) r s' x' ↔ 0 ≤ (w.proc i).sz + toInt32 n) := by
  obtain ⟨ℓ, T, hO, A⟩ := hw.good
  have M := A.mem i hi
  obtain ⟨⟨r, x'⟩, s', h', hrun, hO', -, T', R, hr⟩ := hO.run (sysSbrk_ok M n) fixed_sysSbrk
  rw [← update_self true h' ℓ] at R
  replace R : Resized (w.proc i) (T i) (ℓ true) x' T' (update ℓ true h' true) := R
  have hkept := Resized.userKept R M hO hO'
  refine ⟨r, x', s', hrun, ?_⟩
  rcases hr with ⟨hr, hpos, hsz⟩ | ⟨hr, hsz⟩ <;> dsimp only at hr hsz
  · refine iff_of_true (.inl ⟨hr, ?_, ?_, fun a ha => ?_⟩) (by omega)
    · rw [R.entry, hsz]
    · rwa [hsz, Nat.min_self] at hkept
    · have H := R.mem.space.holds
      rw [R.root] at H
      rw [M.space.holds.pte_eq hO ha, H.pte_eq hO' ha, R.same hsz]
  · unfold newSize at hsz
    split at hsz
    · exact iff_of_true (.inr ⟨hr, hsz, R.entry, hkept, fun a => Resized.zeroes R hO'⟩) ‹_›
    · refine iff_of_false ?_ ‹_›
      rintro (⟨h1, -⟩ | ⟨-, h2, -⟩)
      · omega
      · omega

/-- The small machine with its first process. -/
def firstWorld : World := ⟨firstPhys, firstProcs, []⟩

lemma firstWorld_reachable : Reachable firstWorld :=
  .step (.boot freeOk_sixteenPages) (.userinit (w := ⟨sixteenPages, noProcs, []⟩) first_run first_mapped)

lemma firstWorld_used : Used (firstWorld.proc 0) := by
  obtain ⟨ℓ, T, -, F⟩ := first_started
  show (firstProcs 0).state ≠ _
  rw [F.state]
  decide

/-- The first process is made, and freed. -/
theorem no_page_lost_first : ∃ w, Relation.ReflTransGen Step ⟨sixteenPages, noProcs, []⟩ w ∧
    (∀ i, ¬ Used (w.proc i)) ∧ w.kept = [] ∧ ∀ k, w.phys.Free k ↔ sixteenPages.Free k := by
  obtain ⟨ℓ, T, hO, F⟩ := first_started
  obtain ⟨x', s', h', hr, -, -, hx, -⟩ := hO.run F.mem.freeproc_ok fixed_freeproc
  have hrun := (Relation.ReflTransGen.single
    (Step.userinit (w := ⟨sixteenPages, noProcs, []⟩) first_run first_mapped)).tail
      (.freeproc firstWorld_used hr)
  have hidle : ∀ i, ¬ Used (update firstProcs 0 x' i) := by
    refine (forall_update_iff _ fun _ y => ¬ Used y).mpr ⟨not_not.mpr hx.1, fun i hi => ?_⟩
    rw [F.others i hi]
    exact not_not.mpr rfl
  exact ⟨_, hrun, hidle, rfl, no_page_lost freeOk_sixteenPages hrun hidle rfl⟩

/-- The world when it has forked. -/
def forkedWorld : World := ⟨forkedPhys, forkedProcs, []⟩

/-- The first process and its child have a page of their own at address 0. -/
theorem page_only_at_forked :
    forkedWorld.phys.Accessible (forkedWorld.proc 0).pagetable 0 ∧ forkedWorld.OnlyAt 0 0 ∧
    forkedWorld.phys.Accessible (forkedWorld.proc 1).pagetable 0 ∧ forkedWorld.OnlyAt 1 0 := by
  have hreach : Reachable forkedWorld := .step firstWorld_reachable (.fork firstWorld_used forked_run)
  have h0 : forkedWorld.phys.Accessible (forkedWorld.proc 0).pagetable 0 := by decide +kernel
  have h1 : forkedWorld.phys.Accessible (forkedWorld.proc 1).pagetable 0 := by decide +kernel
  exact ⟨h0, page_only_at hreach (by decide +kernel) h0, h1, page_only_at hreach (by decide +kernel) h1⟩

/-- A process of 4096 bytes calls `sbrk(-4097)`: the size is returned, and stays. -/
theorem sbrk_below_zero : Reachable firstWorld ∧ Used (firstWorld.proc 0) ∧
    ∃ r x' s', run (sysSbrk (firstWorld.proc 0) (2 ^ 32 - 4097)) firstWorld.phys = .ok (r, x') s' ∧
      r = 4096 ∧ x'.sz = 4096 ∧
      ¬ SbrkExact firstWorld.phys (firstWorld.proc 0) (toInt32 (2 ^ 32 - 4097)) r s' x' := by
  have hrun : (returned (sysSbrk (firstProcs 0) (2 ^ 32 - 4097)) firstPhys).map
      (fun r => (r.1, r.2.sz, (firstProcs 0).sz)) = some (4096, 4096, 4096) := by decide +kernel
  obtain ⟨⟨r, x'⟩, hr, he⟩ := Option.map_eq_some_iff.mp hrun
  obtain ⟨rfl, hsz, hold⟩ : r = 4096 ∧ x'.sz = 4096 ∧ (firstProcs 0).sz = 4096 := by simpa using he
  have hn : toInt32 (2 ^ 32 - 4097) = -4097 := by decide
  refine ⟨firstWorld_reachable, firstWorld_used, _, x', _, run_of_returned hr, rfl, hsz, ?_⟩
  rintro (⟨h1, -⟩ | ⟨-, h2, -⟩)
  · omega
  · change (x'.sz : ℤ) = (firstProcs 0).sz + _ at h2
    omega

/-- The same process calls `sbrk(4096)`. -/
theorem sbrk_exact_first : ∃ r x' s', run (sysSbrk (firstWorld.proc 0) 4096) firstWorld.phys = .ok (r, x') s' ∧
    SbrkExact firstWorld.phys (firstWorld.proc 0) (toInt32 4096) r s' x' := by
  obtain ⟨r, x', s', hrun, hiff⟩ := sbrk_exact firstWorld_reachable firstWorld_used 4096
  have hn : toInt32 4096 = 4096 := by decide
  exact ⟨r, x', s', hrun, hiff.mpr (by omega)⟩

end Xv6.Sys
