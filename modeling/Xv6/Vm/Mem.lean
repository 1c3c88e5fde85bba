import Xv6.Vm.Pte
import Xv6.Lib.Own

/-!
Physical memory and the page allocator of `kernel/kalloc.c`.

Memory is a page of bytes for each page address. The free list runs through the first words
of the free pages, as in the source. The kernel maps RAM at its own address, so a load or a
store outside of it is a fault or reaches a device.
-/

namespace Xv6.Vm

open Lib.Bytes Lib.Wp Lib.Conc Lib.Own Function

abbrev Page := Buffer PGSIZE

structure Phys where
  mem : ℕ → Page
  /-- First page of the free list, `0` for none. -/
  freelist : ℕ
  /-- First address after the kernel. -/
  kend : ℕ
  /-- The page with the code that enters and leaves the kernel. -/
  trampoline : ℕ
  kend_ge : KERNBASE ≤ kend
  trampoline_lt : trampoline < 2 ^ 64

lemma kernbase_le : KERNBASE ≤ 0x80400000 := by decide

lemma trampoline_fits : 0x80007000 < 2 ^ 64 := by decide

abbrev PhysM := EStateM Stop Phys

/-- Code whose loads and stores can be interleaved with those of other processes. -/
abbrev Code := Prog Stop Phys

def InRam (a : ℕ) : Prop := KERNBASE ≤ a ∧ a < PHYSTOP

instance (a : ℕ) : Decidable (InRam a) := inferInstanceAs (Decidable (_ ∧ _))

namespace Phys

/-- The page that address `a` is in. -/
def pageAt (s : Phys) (a : ℕ) : Page := s.mem (pgRoundDown a)

/-- The `uint64` at address `a`. -/
def word (s : Phys) (a : ℕ) : ℕ := le (s.pageAt a) (a % PGSIZE) 8

/-- Replace the page that address `a` is in. -/
def setPage (s : Phys) (a : ℕ) (c : Page) : Phys :=
  { s with mem := update s.mem (pgRoundDown a) c }

/-- Store a `uint64` at address `a`. -/
def putWord (s : Phys) (a v : ℕ) : Phys := s.setPage a (putLe (s.pageAt a) (a % PGSIZE) 8 v)

end Phys

/-! ### Loads and stores -/

def panicIf (c : Prop) [Decidable c] (msg : String) : Code Unit :=
  liftM (throwIf c (.panic msg) : PhysM Unit)

def load (a : ℕ) : Code ℕ := liftM (do
  let s ← get
  throwIf (¬ InRam a) .undefined
  return s.word a : PhysM ℕ)

def store (a v : ℕ) : Code Unit := liftM (do
  throwIf (¬ InRam a) .undefined
  modify fun s => s.putWord a v : PhysM Unit)

/-- `memset(pa, c, PGSIZE)` of a whole page. -/
def memset (pa : ℕ) (c : UInt8) : Code Unit := liftM (do
  throwIf (¬ InRam pa) .undefined
  modify fun s => s.setPage pa fun _ => c : PhysM Unit)

/-- The `n` bytes at `a`, which lie in one page. -/
def readBytes (a n : ℕ) : Code (List UInt8) := liftM (do
  let s ← get
  throwIf (¬ InRam a) .undefined
  return (List.range n).map fun i => byte (s.pageAt a) (a % PGSIZE + i) : PhysM (List UInt8))

/-- `memmove(a, src, n)` of bytes that stay in one page. -/
def writeBytes (a : ℕ) (src : List UInt8) : Code Unit := liftM (do
  throwIf (¬ InRam a) .undefined
  modify fun s => s.setPage a
    (copy (s.pageAt a) (a % PGSIZE) src.length fun i => src.getD i 0) : PhysM Unit)

/-! ### The allocator -/

/-- `kfree` while it holds `kmem.lock`. -/
def pushRun (pa : ℕ) : Code Unit := liftM (do
  throwIf (¬ InRam pa) .undefined
  modify fun s => { s.putWord pa s.freelist with freelist := pa } : PhysM Unit)

/-- `kalloc` while it holds `kmem.lock`. -/
def popRun : Code ℕ := liftM (do
  let s ← get
  if s.freelist = 0 then return 0
  throwIf (¬ InRam s.freelist) .undefined
  set { s with freelist := s.word s.freelist }
  return s.freelist : PhysM ℕ)

def checkFree (pa : ℕ) : Code Unit := liftM (do
  let s ← get
  throwIf (pa % PGSIZE ≠ 0 ∨ pa < s.kend ∨ PHYSTOP ≤ pa) (.panic "kfree") : PhysM Unit)

def kfree (pa : ℕ) : Code Unit := do
  checkFree pa
  -- fill with junk to catch dangling references
  memset pa 1
  pushRun pa

def kalloc : Code ℕ := do
  let r ← popRun
  doIf (r ≠ 0) (memset r 5)
  return r

/-! ### Who owns which page -/

abbrev PageHeap := Heap ℕ Page

/-- The pages that `kinit` frees. -/
def IsPage (kend k : ℕ) : Prop := k % 4096 = 0 ∧ kend ≤ k ∧ k < PHYSTOP

/-- The pages of the free list, in order. -/
def Chain (mem : ℕ → Page) : ℕ → List ℕ → Prop
  | hd, [] => hd = 0
  | hd, k :: free => hd = k ∧ Chain mem (le (mem k) 0 8) free

/-- Every page is free or has one owner, and owners know what is in their pages. -/
def Owned {ι : Type} (s : Phys) (ℓ : ι → PageHeap) : Prop :=
  ∃ free, Chain s.mem s.freelist free ∧ Owns s.mem free (IsPage s.kend) ℓ

variable {ι : Type} [DecidableEq ι] {E : Stop → Phys → Prop} {p : ι} {h : PageHeap} {α β : Type}

/-- Owner `p` with the pages of `h` can run the code, whatever the others do to theirs. -/
abbrev Ok (E : Stop → Phys → Prop) (p : ι) (x : Code α) (Q : α → PageHeap → Prop)
    (h : PageHeap) : Prop :=
  Safe Owned (fun _ _ => True) (fun _ s => s) E p x Q h

lemma chain_update {mem : ℕ → Page} {k : ℕ} {c : Page} {free : List ℕ} (hk : k ∉ free) (hd : ℕ) :
    Chain (update mem k c) hd free ↔ Chain mem hd free := by
  induction free generalizing hd with
  | nil => rfl
  | cons j free ih =>
    have hj : j ≠ k := fun e => hk (by simp [e])
    rw [Chain, Chain, update_of_ne hj, ih fun h => hk (by simp [h])]

section Facts

variable {s : Phys} {ℓ : ι → PageHeap} {k : ℕ} {c : Page}

omit [DecidableEq ι] in
lemma Owned.isPage (H : Owned s ℓ) (hk : ℓ p k ≠ none) : IsPage s.kend k := by
  obtain ⟨free, -, hO⟩ := H
  exact hO.mem_univ hk

omit [DecidableEq ι] in
lemma Owned.agree (H : Owned s ℓ) (hk : ℓ p k = some c) : s.mem k = c := by
  obtain ⟨free, -, hO⟩ := H
  exact hO.agree p k c hk

section

variable {o : ℕ} (hk : IsPage s.kend k) (ho : o < 4096)

include hk ho

lemma IsPage.inRam : InRam (k + o) := by
  have := s.kend_ge
  obtain ⟨h1, h2, h3⟩ := hk
  simp only [InRam, KERNBASE, PHYSTOP] at *
  omega

lemma IsPage.pageAt : s.pageAt (k + o) = s.mem k := by
  unfold Phys.pageAt
  rw [pgRoundDown_page k o hk.1 ho]

lemma IsPage.setPage :
    s.setPage (k + o) c = { s with mem := update s.mem k c } := by
  unfold Phys.setPage
  rw [pgRoundDown_page k o hk.1 ho]

lemma IsPage.mod : (k + o) % PGSIZE = o := by
  have := hk.1
  simp only [PGSIZE]
  omega

end

lemma Owned.write (H : Owned s ℓ) (hk : ℓ p k ≠ none) (c : Page) :
    Owned { s with mem := update s.mem k c }
      (update ℓ p (update (ℓ p) k (some c))) := by
  obtain ⟨free, hch, hO⟩ := H
  have hnot : k ∉ free := fun hf => hk (hO.apart k hf p)
  exact ⟨free, (chain_update hnot _).mpr hch, hO.write hk c⟩

end Facts

/-! ### What loads and stores do -/

section Specs

variable {k o : ℕ} {c : Page}

omit [DecidableEq ι] in
lemma heap_ne {ℓ : ι → PageHeap} (hk : h k = some c) (hl : ℓ p = h) : ℓ p k ≠ none := by
  simp [hl, hk]

lemma panicIf_ok {b : Prop} [Decidable b] {msg : String} (hb : ¬ b) :
    Ok E p (panicIf b msg) (fun _ h' => h' = h) h := by
  refine safe_lift fun s ℓ hI hl => ?_
  refine (wp_throwIf _ _ _ _ _).mpr ⟨fun hc => absurd hc hb, fun _ => ⟨h, ?_, rfl⟩⟩
  rw [← hl, update_eq_self]
  exact hI

lemma panicIf_stops {b : Prop} [Decidable b] {msg : String}
    (hE : b → ∀ s, E (.panic msg) s) :
    Ok E p (panicIf b msg) (fun _ h' => h' = h ∧ ¬ b) h := by
  refine safe_lift fun s ℓ hI hl => ?_
  refine (wp_throwIf _ _ _ _ _).mpr ⟨fun hc => hE hc s, fun hb => ⟨h, ?_, rfl, hb⟩⟩
  rw [← hl, update_eq_self]
  exact hI

lemma load_ok (hk : h k = some c) (ho : o < 4096) :
    Ok E p (load (k + o)) (fun v h' => v = le c o 8 ∧ h' = h) h := by
  refine safe_lift fun s ℓ hI hl => ?_
  have hpage := hI.isPage (heap_ne hk hl)
  simp only [wp_bind, wp_get, wp_throwIf, wp_pure, not_not]
  refine ⟨fun hn => absurd (hpage.inRam ho) hn, fun _ => ⟨h, ?_, ?_, rfl⟩⟩
  · rw [← hl, update_eq_self]; exact hI
  · rw [Phys.word, hpage.pageAt ho, hpage.mod ho, hI.agree (p := p) (by rw [hl]; exact hk)]

lemma store_ok (hk : h k = some c) (ho : o < 4096) (v : ℕ) :
    Ok E p (store (k + o) v)
      (fun _ h' => h' = update h k (some (putLe c o 8 v))) h := by
  refine safe_lift fun s ℓ hI hl => ?_
  have hne := heap_ne hk hl
  have hpage := hI.isPage hne
  simp only [wp_bind, wp_throwIf, wp_modify, not_not]
  refine ⟨fun hn => absurd (hpage.inRam ho) hn, fun _ => ⟨_, ?_, rfl⟩⟩
  rw [Phys.putWord, hpage.setPage ho, hpage.pageAt ho, hpage.mod ho,
    hI.agree (p := p) (by rw [hl]; exact hk), ← hl]
  exact hI.write hne _

lemma memset_ok (hk : h k ≠ none) (b : UInt8) :
    Ok E p (memset k b) (fun _ h' => h' = update h k (some fun _ => b)) h := by
  refine safe_lift fun s ℓ hI hl => ?_
  have hne : ℓ p k ≠ none := by rw [hl]; exact hk
  have hpage := hI.isPage hne
  simp only [wp_bind, wp_throwIf, wp_modify, not_not]
  refine ⟨fun hn => absurd (hpage.inRam (o := 0) (by omega)) hn, fun _ => ⟨_, ?_, rfl⟩⟩
  have hset := hpage.setPage (c := fun _ => b) (o := 0) (by omega)
  rw [Nat.add_zero] at hset
  rw [hset, ← hl]
  exact hI.write hne _

lemma readBytes_ok (hk : h k = some c) (ho : o < 4096) (n : ℕ) :
    Ok E p (readBytes (k + o) n)
      (fun bytes h' => bytes = (List.range n).map (fun i => byte c (o + i)) ∧ h' = h) h := by
  refine safe_lift fun s ℓ hI hl => ?_
  have hpage := hI.isPage (heap_ne hk hl)
  simp only [wp_bind, wp_get, wp_throwIf, wp_pure, not_not]
  refine ⟨fun hn => absurd (hpage.inRam ho) hn, fun _ => ⟨h, ?_, ?_, rfl⟩⟩
  · rw [← hl, update_eq_self]
    exact hI
  · rw [hpage.pageAt ho, hpage.mod ho, hI.agree (p := p) (by rw [hl]; exact hk)]

lemma writeBytes_ok (hk : h k = some c) (ho : o < 4096) (src : List UInt8) :
    Ok E p (writeBytes (k + o) src) (fun _ h' => h' = update h k
      (some (copy c o src.length fun i => src.getD i 0))) h := by
  refine safe_lift fun s ℓ hI hl => ?_
  have hne := heap_ne hk hl
  have hpage := hI.isPage hne
  simp only [wp_bind, wp_throwIf, wp_modify, not_not]
  refine ⟨fun hn => absurd (hpage.inRam ho) hn, fun _ => ⟨_, ?_, rfl⟩⟩
  rw [hpage.setPage ho, hpage.pageAt ho, hpage.mod ho, hI.agree (p := p) (by rw [hl]; exact hk), ← hl]
  exact hI.write hne _

/-- A page that the allocator can hand out. -/
def Ram (k : ℕ) : Prop := k % 4096 = 0 ∧ KERNBASE ≤ k ∧ k < PHYSTOP

lemma IsPage.ram {s : Phys} (hk : IsPage s.kend k) : Ram k :=
  ⟨hk.1, s.kend_ge.trans hk.2.1, hk.2.2⟩

lemma Ram.ne_zero (hk : Ram k) : k ≠ 0 := by
  have := hk.2.1
  simp only [KERNBASE] at this
  omega

lemma popRun_ok :
    Ok E p popRun (fun r h' => r = 0 ∧ h' = h ∨
      Ram r ∧ h r = none ∧ ∃ c, h' = update h r (some c)) h := by
  refine safe_lift fun s ℓ hI hl => ?_
  obtain ⟨free, hch, hO⟩ := hI
  simp only [wp_bind, wp_get]
  cases free with
  | nil =>
    have h0 : s.freelist = 0 := hch
    rw [if_pos h0]
    refine ⟨h, ?_, .inl ⟨rfl, rfl⟩⟩
    rw [← hl, update_eq_self]
    exact ⟨[], hch, hO⟩
  | cons k free =>
    obtain ⟨hk, hch⟩ := hch
    have hpage : IsPage s.kend k := (hO.all k).mpr (.inl (by simp))
    have hin := hpage.inRam (o := 0) (by omega)
    have hat := hpage.pageAt (o := 0) (by omega)
    have hmod := hpage.mod (o := 0) (by omega)
    rw [Nat.add_zero] at hin hat hmod
    rw [hk, if_neg hpage.ram.ne_zero]
    simp only [wp_bind, wp_throwIf, wp_set, wp_pure, not_not]
    refine ⟨fun hn => absurd hin hn, fun _ => ⟨_, ?_, .inr ⟨hpage.ram, ?_, s.mem k, rfl⟩⟩⟩
    · have hT := hO.take p (s.mem k)
      rw [update_eq_self, hl] at hT
      refine ⟨free, ?_, hT⟩
      rw [Phys.word, hat, hmod]
      exact hch
    · rw [← hl]; exact hO.apart k (by simp) p

lemma kalloc_ok :
    Ok E p kalloc (fun r h' => r = 0 ∧ h' = h ∨
      Ram r ∧ h r = none ∧ h' = update h r (some fun _ => 5)) h := by
  refine Safe.bind popRun_ok ?_
  rintro r h' (⟨rfl, rfl⟩ | ⟨hr, hnone, c, rfl⟩)
  · exact .inl ⟨rfl, rfl⟩
  · refine Safe.bind (safe_doIf (fun _ => memset_ok (by simp) 5)
      fun hn => absurd hr.ne_zero hn) ?_
    rintro _ h'' rfl
    exact .inr ⟨hr, hnone, update_idem _ _ _⟩

lemma checkFree_ok (hk : h k ≠ none) :
    Ok E p (checkFree k) (fun _ h' => h' = h) h := by
  refine safe_lift fun s ℓ hI hl => ?_
  have hpage := hI.isPage (p := p) (by rw [hl]; exact hk)
  have hno : ¬ (k % PGSIZE ≠ 0 ∨ k < s.kend ∨ PHYSTOP ≤ k) := by
    obtain ⟨h1, h2, h3⟩ := hpage
    simp only [PGSIZE]
    omega
  simp only [wp_bind, wp_get, wp_throwIf]
  refine ⟨fun hc => absurd hc hno, fun _ => ⟨h, ?_, rfl⟩⟩
  rw [← hl, update_eq_self]
  exact hI

omit [DecidableEq ι] in
lemma freelist_lt {s : Phys} {ℓ : ι → PageHeap} {free : List ℕ}
    (hch : Chain s.mem s.freelist free) (hO : Owns s.mem free (IsPage s.kend) ℓ) :
    s.freelist < 256 ^ 8 := by
  cases free with
  | nil =>
    rw [show s.freelist = 0 from hch]
    decide
  | cons j free =>
    have hj : IsPage s.kend j := (hO.all j).mpr (.inl (by simp))
    rw [hch.1]
    exact hj.2.2.trans (by decide)

lemma pushRun_ok (hk : h k = some c) :
    Ok E p (pushRun k) (fun _ h' => h' = update h k none) h := by
  refine safe_lift fun s ℓ hI hl => ?_
  have hne := heap_ne hk hl
  have hpage := hI.isPage hne
  have hin := hpage.inRam (o := 0) (by omega)
  have hat := hpage.pageAt (o := 0) (by omega)
  have hmod := hpage.mod (o := 0) (by omega)
  have hset := hpage.setPage (c := putLe (s.mem k) 0 8 s.freelist) (o := 0) (by omega)
  rw [Nat.add_zero] at hin hat hmod hset
  obtain ⟨free, hch, hO⟩ := hI
  simp only [wp_bind, wp_throwIf, wp_modify, not_not]
  refine ⟨fun hn => absurd hin hn, fun _ => ⟨_, ?_, rfl⟩⟩
  have hG := hO.give hne (putLe (s.mem k) 0 8 s.freelist)
  have hnot : k ∉ free := fun hf => hne (hO.apart k hf p)
  rw [Phys.putWord, hat, hmod, hset, ← hl]
  refine ⟨k :: free, ⟨rfl, ?_⟩, hG⟩
  show Chain (update s.mem k _) (le (update s.mem k _ k) 0 8) free
  rw [update_self, le_putLe_of_lt _ (by decide) (freelist_lt hch hO), chain_update hnot]
  exact hch

lemma kfree_ok (hk : h k ≠ none) :
    Ok E p (kfree k) (fun _ h' => h' = update h k none) h := by
  refine Safe.bind (checkFree_ok hk) ?_
  rintro _ h' rfl
  refine Safe.bind (memset_ok hk 1) ?_
  rintro _ h'' rfl
  refine (pushRun_ok (update_self _ _ _)).mono ?_
  rintro _ h3 rfl
  exact update_idem _ _ _

end Specs

end Xv6.Vm
