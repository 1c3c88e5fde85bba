import Xv6.Fs.Ledger
import Xv6.Fs.Dir
import Xv6.Vm.Program
import Xv6.Vm.Fork

/-!
`exec` of `kernel/exec.c`, with what it does to the file system, to memory and to the process.

A process calls it with no other process in between. The file system may stop it, when it waits
for another process or panics; the code that deals with memory cannot.
-/

namespace Xv6.Sys

open Lib.Bytes Lib.Wp Lib.Conc Lib.Own Vm Function
open Fs (smallSb initPath smallWorld)

variable {N : ℕ} {α : Type}

/-- What a system call of one process works on: the file system, memory, and its entry in the process
table. -/
structure Task (N : ℕ) where
  fs : Fs.World N
  phys : Phys
  proc : Proc

abbrev SysM (N : ℕ) := EStateM (Fs.Halt ⊕ Stop) (Task N)

def fs (x : Fs.Code N α) : SysM N α :=
  onPart Task.fs (fun t s => { t with fs := s }) (x.alone.adaptExcept Sum.inl)

def vm (x : Code α) : SysM N α :=
  onPart Task.phys (fun t s => { t with phys := s }) (x.alone.adaptExcept Sum.inr)

/-- The contents of a file: `size` is a `uint`. -/
abbrev File := { bytes : List UInt8 // bytes.length < 2 ^ 32 }

/-- Where `a1` is in a `struct trapframe`. -/
abbrev A1 : ℕ := 120

/-- `safestrcpy(p->name, last, sizeof(p->name))`, where `last` is what comes after the last slash. -/
def progName (path : List UInt8) : List UInt8 :=
  ((path.reverse.takeWhile (· ≠ Fs.slash)).reverse).take 15

/-- Commit to the image. -/
def commit (path : List UInt8) (im : Image) : SysM N Unit := do
  let p := (← get).proc
  vm (store (p.trapframe + A1) im.sp)
  modify fun t => { t with proc := { t.proc with
    name := progName path, pagetable := im.pagetable, sz := im.sz } }
  vm (store (p.trapframe + EPC) im.entry)
  vm (store (p.trapframe + SP) im.sp)
  vm (procFreepagetable p.pagetable p.sz)

/-- `exec` as far as it can fail. -/
def prepare (sb : Fs.Superblock) (data : File) (path : List UInt8) (argv : List ℕ) :
    SysM N (Option Image) := do
  fs Fs.beginOp
  match ← fs (Fs.namei sb path) with
  | none => do
    fs (Fs.endOp sb)
    return none
  | some ip => do
    fs (Fs.ilock sb ip)
    let p := (← get).proc
    match ← vm (loadProgram data p.trapframe) with
    | none => do
      fs (Fs.dropInode sb ip)
      return none
    | some (pagetable, sz, entry) => do
      fs (Fs.dropInode sb ip)
      vm (execStack pagetable sz argv entry)

/-- `exec`, where `data` is what is in the file that `path` names. -/
def exec (sb : Fs.Superblock) (data : File) (path : List UInt8) (argv : List ℕ) : SysM N ℤ := do
  match ← prepare sb data path argv with
  | none => return -1
  | some im => do
    commit path im
    return im.argc

/-! ### The two parts of the state -/

/-- The file system stopped the call: it slept or panicked. -/
def InFs (e : Fs.Halt ⊕ Stop) (_ : Task N) : Prop := ∃ halt, e = .inl halt ∧ halt ≠ .undefined

section

variable {ι : Type} [DecidableEq ι] {ℓ : ι → PageHeap} {p : ι} {s₀ : Phys} {b b' : Fs.Books N}
  {h h' : PageHeap} {x : Proc} {t : Task N} {T : Tree}

/-- Where a call is: what the file system has in its books, the pages of the process, and its entry. -/
structure Sits (ℓ : ι → PageHeap) (p : ι) (s₀ : Phys) (b : Fs.Books N) (h : PageHeap) (x : Proc)
    (t : Task N) : Prop where
  books : t.fs.books = b
  spin : t.fs.spin t.fs.cur = []
  owned : Owned t.phys (update ℓ p h)
  kernel : SameKernel s₀ t.phys
  proc : t.proc = x

lemma Sits.fs_ok (st : Sits ℓ p s₀ b h x t) {y : Fs.Code N α} {Q : α → Fs.Books N → Prop}
    (hy : Fs.Booked y Q b) :
    wp (fs y) (fun a t' => ∃ b', Q a b' ∧ Sits ℓ p s₀ b' h x t') InFs t := by
  rw [← st.books] at hy
  rw [fs, wp_onPart, wp_adaptExcept]
  refine wp_mono (hy.wp st.spin) ?_ fun e _ he => ⟨e, rfl, he⟩
  rintro a s ⟨hspin, hQ⟩
  exact ⟨s.books, hQ, rfl, hspin, st.owned, st.kernel, st.proc⟩

lemma Sits.vm_ok (st : Sits ℓ p s₀ b h x t) {y : Code α} {Q : α → PageHeap → Prop}
    {E : Fs.Halt ⊕ Stop → Task N → Prop} (hy : Ok (fun _ _ => False) p y Q h) (hfix : Fixed y) :
    wp (vm y) (fun a t' => ∃ h', Q a h' ∧ Sits ℓ p s₀ b h' x t') E t := by
  have hy' : Ok (fun _ _ => False) p y Q (update ℓ p h p) := by rwa [update_self]
  obtain ⟨a, s, h', hrun, hO, hk, hQ⟩ := st.owned.run hy' hfix
  rw [update_idem] at hO
  rw [vm, wp_onPart, wp_adaptExcept]
  exact wp_of_eq hrun ⟨h', hQ, st.books, st.spin, hO, st.kernel.trans hk, st.proc⟩

/-! ### The new image -/

/-- The process that runs the new image. -/
def become (x : Proc) (path : List UInt8) (im : Image) : Proc :=
  { x with name := progName path, pagetable := im.pagetable, sz := im.sz }

/-- What a process has after `exec`. -/
structure Execed (data : List UInt8) (path : List UInt8) (strs : List (List UInt8)) (x : Proc) (T : Tree)
    (h : PageHeap) (im : Image) (U : Tree) (h' : PageHeap) : Prop where
  mem : (become x path im).Mem U h'
  moves : Moves (x.Foot T) h ((become x path im).Foot U) h'
  loaded : Loaded U im.pagetable (pages im.sz) (stackImage (image data (fileHeaders data)) im.sz strs) h'
  size : im.sz = 4096 * (pages (imageEnd (fileHeaders data)) + 2)
  mine : ∀ v < pages im.sz, v ≠ pages (imageEnd (fileHeaders data)) → Mine U v
  guard : U.pte (pages (imageEnd (fileHeaders data))) &&& PTE_U = 0
  full : ∀ i < (elfhdr (readi data 0 64)).phnum,
    (headerAt data (elfhdr (readi data 0 64)).phoff i).length = PHSIZE
  good : ∀ ph ∈ fileHeaders data, ph.type = ELF_PROG_LOAD → ph.Good data
  fit : argRoom strs ≤ PGSIZE
  sp : im.sp = im.sz - argRoom strs
  argc : im.argc = strs.length
  regs : ∃ c, h' x.trapframe = some (putLe (putLe (putLe c A1 8 im.sp) EPC 8 im.entry) SP 8 im.sp)

section Commit

variable {data : List UInt8} {path : List UInt8} {strs : List (List UInt8)} {im : Image}
  {root sz entry : ℕ} {T₁ U : Tree} {h₁ h₂ : PageHeap}

lemma kept_of_stacked (hx : x.Mem T h)
    (K : Stacked (image data (fileHeaders data)) root sz entry strs x.trapframe h im U h₂) {k : ℕ}
    (hk : x.Foot T k) : ¬ Foot U (pages im.sz) k ∧ h₂ k = h k := K.moves.apart (hx.foot_ne hk) not_false

lemma free_old_ok {d : Page} (hx : x.Mem T h) (P : Program data x.trapframe h root sz entry T₁ h₁)
    (K : Stacked (image data (fileHeaders data)) root sz entry strs x.trapframe h im U h₂)
    (hd : ∃ c, d = putLe (putLe (putLe c A1 8 im.sp) EPC 8 im.entry) SP 8 im.sp) :
    Ok (fun _ _ => False) p (procFreepagetable x.pagetable x.sz)
      (fun _ h' => Execed data path strs x T h im U h') (update h₂ x.trapframe (some d)) := by
  obtain ⟨hram, -, hnot⟩ := hx.frame
  have hnew := (kept_of_stacked hx K (.inr rfl)).1
  have hold : ∀ k, Foot T (pages x.sz) k → update h₂ x.trapframe (some d) k = h k := by
    intro k hk
    rw [update_of_ne (by rintro rfl; exact hnot hk)]
    exact (kept_of_stacked hx K (.inl hk)).2
  refine ((hx.space.frame hold).procFreepagetable_ok hx.tops rfl).mono ?_
  rintro _ h' M
  have hkeep : ∀ k, ¬ Foot T (pages x.sz) k → h' k = update h₂ x.trapframe (some d) k :=
    fun k hk => M.keep k hk not_false
  have htf : h' x.trapframe = some d := by rw [hkeep _ hnot, update_self]
  have himage : ∀ k, Foot U (pages im.sz) k → h' k = h₂ k := by
    intro k hk
    rw [hkeep k fun hold => (kept_of_stacked hx K (.inl hold)).1 hk]
    refine update_of_ne ?_ _ _
    rintro rfl
    exact hnew hk
  obtain ⟨c, rfl⟩ := hd
  have L := K.loaded.frame himage
  have hroot := P.ram
  rw [← K.table] at L hroot
  refine ⟨?_, ⟨?_, ?_, ?_⟩, L, ?_, ?_, ?_, P.full, P.good, K.fit, K.sp, K.argc, c, htf⟩
  · refine ⟨hroot, L.space, K.tops, hram, ?_, hnew⟩
    exact htf ▸ Option.some_ne_none _
  · intro k hk hk'
    rw [hkeep k fun hf => hk (.inl hf), update_of_ne fun he => hk (.inr he)]
    exact K.moves.keep k not_false fun hf => hk' (.inl hf)
  · intro k hk hk'
    exact M.lost k (hk.resolve_right fun he => hk' (.inr he)) not_false
  · intro k hk hk'
    exact K.moves.new k not_false (hk'.resolve_right fun he => hk (.inr he))
  · rw [← P.ends]
    exact K.size
  · rw [← P.ends]
    exact K.mine
  · rw [← P.ends]
    exact K.guard

lemma commit_ok {E : Fs.Halt ⊕ Stop → Task N → Prop} (st : Sits ℓ p s₀ b h₂ x t) (hx : x.Mem T h)
    (P : Program data x.trapframe h root sz entry T₁ h₁)
    (K : Stacked (image data (fileHeaders data)) root sz entry strs x.trapframe h im U h₂) :
    wp (commit path im) (fun _ t' => ∃ h', Execed data path strs x T h im U h' ∧
      Sits ℓ p s₀ b h' (become x path im) t') E t := by
  obtain ⟨-, hown, -⟩ := hx.frame
  have hsame := (kept_of_stacked hx K (.inr rfl)).2
  obtain ⟨c, hc⟩ := Option.ne_none_iff_exists'.mp (hsame ▸ hown)
  have hfix := @fixed_procFreepagetable x.pagetable x.sz
  have hfree : ∀ d : Page, (∃ c, d = putLe (putLe (putLe c A1 8 im.sp) EPC 8 im.entry) SP 8 im.sp) →
      Ok (fun _ _ => False) p (procFreepagetable x.pagetable x.sz)
        (fun _ h' => Execed data path strs x T h im U h') (update h₂ x.trapframe (some d)) :=
    fun d hd => free_old_ok hx P K hd
  rw [commit, wp_bind, wp_get, st.proc, wp_bind]
  generalize procFreepagetable x.pagetable x.sz = free at *
  refine wp_mono (st.vm_ok (store_ok (o := A1) hc (by decide) im.sp) fixed_store) ?_ fun _ _ h => h
  rintro _ t₁ ⟨h₃, rfl, st₁⟩
  rw [wp_bind, wp_modify, wp_bind]
  have st₂ : Sits ℓ p s₀ b (update h₂ x.trapframe (some (putLe c A1 8 im.sp)))
      (become x path im) { t₁ with proc := { t₁.proc with
        name := progName path, pagetable := im.pagetable, sz := im.sz } } := by
    refine ⟨st₁.books, st₁.spin, st₁.owned, st₁.kernel, ?_⟩
    rw [st₁.proc]
    rfl
  refine wp_mono (st₂.vm_ok (store_ok (o := EPC) (update_self ..) (by decide) im.entry)
    fixed_store) ?_ fun _ _ h => h
  rintro _ t₂ ⟨h₄, rfl, st₃⟩
  rw [wp_bind]
  refine wp_mono (st₃.vm_ok (store_ok (o := SP) (update_self ..) (by decide) im.sp)
    fixed_store) ?_ fun _ _ h => h
  rintro _ t₃ ⟨h₅, rfl, st₄⟩
  rw [update_idem, update_idem] at st₄
  exact st₄.vm_ok (hfree _ ⟨c, rfl⟩) hfix

end Commit

/-! ### All or nothing -/

variable {sb : Fs.Superblock} {data : File} {path : List UInt8} {argv : List ℕ} {strs : List (List UInt8)}

/-- What `exec` has done when it commits to the image. -/
def Prepared (data : List UInt8) (strs : List (List UInt8)) (x : Proc) (h : PageHeap) (im : Image)
    (U : Tree) (h₂ : PageHeap) : Prop :=
  ∃ root sz entry T₁ h₁, Program data x.trapframe h root sz entry T₁ h₁ ∧
    Stacked (image data (fileHeaders data)) root sz entry strs x.trapframe h im U h₂

section

variable (st : Sits ℓ p s₀ b h x t) (hx : x.Mem T h) (hop : b.op b.cur = false)
  (hcwd : b.cwd b.cur ≠ none) (A : Args h argv strs) (hlen : ∀ str ∈ strs, str.length < 4096)
  (hmax : argv.length < MAXARG)

include st hx hop hcwd A hlen hmax

lemma prepare_ok :
    wp (prepare sb data path argv) (fun r t' => match r with
      | none => Sits ℓ p s₀ b h x t'
      | some im => ∃ U h₂, Prepared data strs x h im U h₂ ∧ Sits ℓ p s₀ b h₂ x t') InFs t := by
  have hend : ∀ b', b' = b.enter.leave → b' = b := by
    rintro _ rfl
    exact Fs.Books.leave_enter hop
  rw [prepare, wp_bind]
  refine wp_mono (st.fs_ok Fs.booked_beginOp) ?_ fun _ _ h => h
  rintro _ t₁ ⟨_, rfl, st₁⟩
  rw [wp_bind]
  refine wp_mono (st₁.fs_ok (Fs.booked_namei (b := b.enter) sb hcwd path)) ?_ fun _ _ h => h
  rintro (_ | ip) t₂ ⟨_, rfl, st₂⟩
  · rw [wp_bind]
    refine wp_mono (st₂.fs_ok (Fs.booked_endOp sb)) ?_ fun _ _ h => h
    rintro _ t₃ ⟨b', hb, st₃⟩
    obtain rfl := hend b' hb
    exact st₃
  rw [wp_bind]
  refine wp_mono (st₂.fs_ok (Fs.booked_ilock sb)) ?_ fun _ _ h => h
  rintro _ t₃ ⟨_, ⟨hnone, rfl⟩, st₃⟩
  -- the inode is put and the transaction ends, whatever became of the program
  have hdrop : ∀ {h t}, Sits ℓ p s₀ ((b.enter.gets (some ip)).setLock ip
      (some (b.enter.gets (some ip)).cur)) h x t →
      wp (fs (Fs.dropInode sb ip)) (fun _ t' => Sits ℓ p s₀ b h x t') InFs t := by
    intro h t st
    refine wp_mono (st.fs_ok (Fs.booked_dropInode sb hnone)) ?_ fun _ _ h => h
    rintro _ t' ⟨b', hb, st'⟩
    obtain rfl := hend b' (hb.trans (congrArg Fs.Books.leave (b.enter.down_up ip)))
    exact st'
  rw [wp_bind, wp_get, st₃.proc, wp_bind]
  refine wp_mono (st₃.vm_ok (loadProgram_ok hx.frame.1.lt_pow data.2) fixed_loadProgram) ?_ fun _ _ h => h
  rintro (_ | ⟨root, sz, entry⟩) t₄ ⟨h₁, hload, st₄⟩
  · obtain rfl : h₁ = h := hload
    rw [wp_bind]
    refine wp_mono (hdrop st₄) ?_ fun _ _ h => h
    exact fun _ t₅ st₅ => st₅
  obtain ⟨T₁, P⟩ : ∃ T₁, Program data x.trapframe h root sz entry T₁ h₁ := hload
  rw [wp_bind]
  refine wp_mono (hdrop st₄) ?_ fun _ _ h => h
  intro _ t₅ st₅
  refine wp_mono (st₅.vm_ok (execStack_ok P.loaded P.mine P.zero P.tops P.moves A hlen hmax)
    fixed_execStack) ?_ fun _ _ h => h
  rintro (_ | im) t₆ ⟨h₂, hstack, st₆⟩
  · obtain rfl : h₂ = h := hstack
    exact st₆
  · obtain ⟨U, K⟩ := hstack
    exact ⟨U, h₂, ⟨root, sz, entry, T₁, h₁, P, K⟩, st₆⟩

/-- **What `exec` does.** It leaves all as it was, or the process has a new image. -/
theorem exec_ok :
    wp (exec sb data path argv) (fun r t' => (r = -1 ∧ Sits ℓ p s₀ b h x t') ∨
      ∃ im U h', Execed data path strs x T h im U h' ∧ r = im.argc ∧
        Sits ℓ p s₀ b h' (become x path im) t') InFs t := by
  rw [exec, wp_bind]
  refine wp_mono (prepare_ok st hx hop hcwd A hlen hmax) ?_ fun _ _ h => h
  rintro (_ | im) t₁ h₁
  · exact .inl ⟨rfl, h₁⟩
  obtain ⟨U, h₂, ⟨root, sz, entry, T₁, h₁, P, K⟩, st₁⟩ := h₁
  rw [wp_bind]
  refine wp_mono (commit_ok st₁ hx P K) ?_ fun _ _ h => h
  rintro _ t₂ ⟨h', X, st₂⟩
  exact .inr ⟨im, U, h', X, rfl, st₂⟩

end

/-- Nothing has changed for the process: its entry, its page table and memory, its trapframe, the free
pages, and what the file system has in its books: references and locks of inodes, transactions, open
files and working directories. -/
structure Unchanged (t t' : Task N) : Prop where
  proc : t'.proc = t.proc
  table : ∀ a < MAXVA, t'.phys.pte t.proc.pagetable a = t.phys.pte t.proc.pagetable a
  memory : UserKept t.phys t'.phys t.proc.pagetable t.proc.sz
  frame : t'.phys.mem t.proc.trapframe = t.phys.mem t.proc.trapframe
  free : ∀ k, t'.phys.Free k ↔ t.phys.Free k
  books : t'.fs.books = t.fs.books

lemma Sits.unchanged {t' : Task N} (hO : Owned t.phys ℓ) (hx : t.proc.Mem T (ℓ p))
    (st : Sits ℓ p t.phys t.fs.books (ℓ p) t.proc t') : Unchanged t t' := by
  have hO' := st.owned
  have hown := hx.frame.2.1
  obtain ⟨c, hc⟩ := Option.ne_none_iff_exists'.mp hown
  refine ⟨st.proc, fun a ha => ?_, hx.space.userKept hO hO' fun _ _ => rfl, ?_, ?_, st.books⟩
  all_goals rw [update_eq_self] at hO'
  · rw [hx.space.holds.pte_eq hO ha, hx.space.holds.pte_eq hO' ha]
  · rw [hO.agree hc, hO'.agree hc]
  · exact hO.free_same hO' st.kernel

/-- **`exec` is all or nothing.** Whatever is in the file and however many pages are free, `exec`
returns, unless the file system sleeps or panics; and when it returns -1 nothing has changed. -/
theorem exec_all_or_nothing (sb : Fs.Superblock) (data : File) (path : List UInt8) (hO : Owned t.phys ℓ)
    (hx : t.proc.Mem T (ℓ p)) (hspin : t.fs.spin t.fs.cur = []) (hop : t.fs.op t.fs.cur = false)
    (hcwd : t.fs.cwd t.fs.cur ≠ none) (A : Args (ℓ p) argv strs)
    (hlen : ∀ str ∈ strs, str.length < 4096) (hmax : argv.length < MAXARG) :
    (∃ halt t', exec sb data path argv t = .error (.inl halt) t' ∧ halt ≠ .undefined) ∨
    ∃ r t', exec sb data path argv t = .ok r t' ∧ (r = -1 → Unchanged t t') := by
  have st : Sits ℓ p t.phys t.fs.books (ℓ p) t.proc t := by
    refine ⟨rfl, hspin, ?_, SameKernel.refl _, rfl⟩
    rwa [update_eq_self]
  have hexec : wp (exec sb data path argv) _ _ t := exec_ok st hx hop hcwd A hlen hmax
  cases hrun : exec sb data path argv t with
  | error e t' =>
    obtain ⟨halt, rfl, hdef⟩ := wp_error hexec hrun
    exact .inl ⟨halt, t', rfl, hdef⟩
  | ok r t' =>
    refine .inr ⟨r, t', rfl, fun hr => ?_⟩
    rcases wp_ok hexec hrun with ⟨-, st'⟩ | ⟨im, U, h', X, hargc, -⟩
    · exact st'.unchanged hO hx
    · omega

lemma exec_of_prepare {im : Image} {t₁ : Task N} (st : Sits ℓ p s₀ b h x t) (hx : x.Mem T h)
    (hop : b.op b.cur = false) (hcwd : b.cwd b.cur ≠ none) (A : Args h argv strs)
    (hlen : ∀ str ∈ strs, str.length < 4096) (hmax : argv.length < MAXARG)
    (hrun : prepare sb data path argv t = .ok (some im) t₁) :
    ∃ t', exec sb data path argv t = .ok (im.argc : ℤ) t' := by
  have hprep : wp (prepare sb data path argv) _ _ t := prepare_ok st hx hop hcwd A hlen hmax
  obtain ⟨U, h₂, ⟨root, sz, entry, T₁, h₁, P, K⟩, st₁⟩ := wp_ok hprep hrun
  have hcommit : wp (exec sb data path argv) (fun r _ => r = (im.argc : ℤ)) (fun _ _ => False) t := by
    rw [exec, wp_bind]
    refine wp_of_eq hrun ?_
    rw [wp_bind]
    have hc : wp (commit path im) _ (fun _ _ => False) t₁ := commit_ok st₁ hx P K
    exact wp_mono hc (fun _ _ _ => rfl) fun _ _ h => h
  obtain ⟨r, t', hr, rfl⟩ := wp_run hcommit fun _ _ h => h
  exact ⟨t', hr⟩

end

/-! ### A small machine -/

section Small

/-- `sys_exec` puts an argument into a page. -/
def putArg : Code ℕ := do
  let page ← kalloc
  writeBytes page [104, 105, 0]
  return page

def argPage : ℕ := (returned putArg firstPhys).getD 0

def argPhys : Phys := after putArg firstPhys

lemma putArg_run : run putArg firstPhys = .ok argPage argPhys := by
  have hsome : (returned putArg firstPhys).isSome = true := by decide +kernel
  obtain ⟨k, hk⟩ := Option.isSome_iff_exists.mp hsome
  have hpage : argPage = k := by
    rw [argPage, hk]
    rfl
  rw [hpage]
  exact run_of_returned hk

lemma argPage_ne : argPage ≠ 0 := by decide +kernel

attribute [irreducible] argPage argPhys

lemma putArg_ok {h : PageHeap} : Ok any true putArg (fun r h' => r ≠ 0 →
    h r = none ∧ ∃ c, strOf c = [104, 105] ∧ h' = update h r (some c)) h := by
  refine Safe.bind kalloc_ok ?_
  rintro r h₁ (⟨rfl, -⟩ | ⟨hr, hnone, rfl⟩)
  · have hstop : Ok any true (writeBytes 0 [104, 105, 0]) (fun _ _ => True) h₁ := by
      refine safe_lift fun s ℓ hI hl => ?_
      simp only [wp_bind, wp_throwIf]
      exact ⟨fun _ => trivial, fun hn => absurd (by decide) hn⟩
    exact Safe.bind hstop fun _ _ _ h0 => absurd rfl h0
  · refine Safe.bind (writeBytes_ok (o := 0) (update_self ..) (by decide) _) ?_
    rintro _ h₂ rfl
    rw [update_idem]
    exact fun _ => ⟨hnone, _, by decide +kernel, rfl⟩

/-- The first process is about to call `exec`. -/
def smallTask : Task 1 := ⟨smallWorld, argPhys, firstProcs 0⟩

lemma small_ready : ∃ (ℓ : Who → PageHeap) (T : Tree), Owned smallTask.phys ℓ ∧
    smallTask.proc.Mem T (ℓ true) ∧ Args (ℓ true) [argPage] [[104, 105]] := by
  obtain ⟨ℓ, T, hO, F⟩ := first_started
  obtain ⟨ℓ', hO', hQ⟩ := hO.run_ok putArg_ok putArg_run
  obtain ⟨hnone, c, hc, hh⟩ := hQ argPage_ne
  refine ⟨ℓ', T, hO', ?_, .cons ⟨c, ?_, hc⟩ .nil⟩
  · rw [hh]
    refine F.mem.congr fun k hk => update_of_ne ?_ _ _
    rintro rfl
    exact F.mem.foot_ne hk hnone
  · rw [hh, update_self]

/-- A program of one segment: four bytes at address 0, which are at `off` in the file. The file says
that it has `phnum` segments. -/
def program (phnum off : ℕ) : List UInt8 :=
  numberBytes ELF_MAGIC 4 ++ List.replicate 28 0 ++ numberBytes 64 8 ++ List.replicate 16 0 ++
  numberBytes phnum 2 ++ List.replicate 6 0 ++
  numberBytes ELF_PROG_LOAD 4 ++ List.replicate 4 0 ++ numberBytes off 8 ++ List.replicate 16 0 ++
  numberBytes 4 8 ++ numberBytes 8 8 ++ List.replicate 8 0 ++ [1, 2, 3, 4]

/-- The second segment is missing. -/
def cutFile : File := ⟨program 2 120, by decide +kernel⟩

/-- `exec` of a file that is there and is no program. -/
lemma exec_refused {data : File} {f₁ f₂ f₃ f₄ : Fs.World N} {ip : ℕ} {s : Phys}
    (hbegin : Fs.beginOp.alone t.fs = .ok () f₁) (hname : (Fs.namei sb path).alone f₁ = .ok (some ip) f₂)
    (hlock : (Fs.ilock sb ip).alone f₂ = .ok () f₃)
    (hload : run (loadProgram data t.proc.trapframe) t.phys = .ok none s)
    (hdrop : (Fs.dropInode sb ip).alone f₃ = .ok () f₄) :
    ∃ t', exec sb data path argv t = .ok (-1) t' := by
  have hwp : wp (exec sb data path argv) (fun r _ => r = -1) (fun _ _ => False) t := by
    rw [exec, wp_bind, prepare, wp_bind, fs, wp_onPart, wp_adaptExcept]
    refine wp_of_eq hbegin ?_
    rw [wp_bind, fs, wp_onPart, wp_adaptExcept]
    refine wp_of_eq hname ?_
    rw [wp_bind, fs, wp_onPart, wp_adaptExcept]
    refine wp_of_eq hlock ?_
    rw [wp_bind, wp_get, wp_bind, vm, wp_onPart, wp_adaptExcept]
    refine wp_of_eq hload ?_
    rw [wp_bind, fs, wp_onPart, wp_adaptExcept]
    exact wp_of_eq hdrop rfl
  obtain ⟨r, t', hrun, rfl⟩ := wp_run hwp fun _ _ => not_false
  exact ⟨t', hrun⟩

/-- A program header that is not in the file. -/
lemma loadProgram_cut {data : File} {tf i : ℕ} {s : Phys} {ℓ : Who → PageHeap} (hO : Owned s ℓ) (htf : tf < 2 ^ 64)
    (hi : i < (elfhdr (readi data 0 64)).phnum)
    (hcut : (headerAt data (elfhdr (readi data 0 64)).phoff i).length ≠ PHSIZE) :
    ∃ s', run (loadProgram data tf) s = .ok none s' := by
  obtain ⟨r, s', h', hrun, -, -, hr⟩ := hO.run (p := true) (loadProgram_ok htf data.2) fixed_loadProgram
  cases r with
  | none => exact ⟨s', hrun⟩
  | some r =>
    obtain ⟨U, P⟩ := hr
    exact absurd (P.full i hi) hcut

/-- The first process calls `exec` of it. -/
theorem exec_all_or_nothing_cut :
    ∃ t', exec smallSb cutFile initPath [argPage] smallTask = .ok (-1) t' ∧ Unchanged smallTask t' := by
  obtain ⟨ℓ, T, hO, hx, A⟩ := small_ready
  obtain ⟨s, hload⟩ : ∃ s, run (loadProgram cutFile smallTask.proc.trapframe) smallTask.phys = .ok none s :=
    loadProgram_cut (i := 1) hO hx.frame.1.lt_pow (by decide +kernel) (by decide +kernel)
  obtain ⟨t', hrun⟩ : ∃ t', exec smallSb cutFile initPath [argPage] smallTask = .ok (-1) t' :=
    exec_refused (run_of_outcome (by decide +kernel)) (run_of_outcome (a := some 1) (by decide +kernel))
      (run_of_outcome (by decide +kernel)) hload (run_of_outcome (by decide +kernel))
  refine ⟨t', hrun, ?_⟩
  rcases exec_all_or_nothing smallSb cutFile initPath hO hx rfl rfl (by decide) A (by decide)
    (by decide) with ⟨halt, t₁, h1, -⟩ | ⟨r, t₁, h1, hun⟩
  · rw [hrun] at h1
    cases h1
  · rw [hrun] at h1
    cases h1
    exact hun rfl

end Small

end Xv6.Sys
