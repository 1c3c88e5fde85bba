import Xv6.Virtio.Program
import Mathlib.Algebra.Order.BigOperators.Group.Finset

/-!
What holds of the driver and of the device: who owns which descriptor, what the rings hold, and how
far each call is. There are eight descriptors and a request has three of them, so that there are at
most two requests that have not been handled: the indices modulo `NUM` are enough to tell them apart.
-/

namespace Xv6.Virtio

open Lib.Wp Lib.Conc

/-- How far a process is in `virtio_disk_rw`. -/
inductive Stage
  | idle
  /-- It has allocated some descriptors. -/
  | alloc (b : ℕ) (own : List ℕ)
  /-- The request is formatted. -/
  | ready (b : ℕ) (c : Idx)
  /-- It is in the avail ring. -/
  | placed (b : ℕ) (c : Idx)
  /-- It is available, with its number. -/
  | sent (b : ℕ) (c : Idx) (i : ℕ)
  /-- The process has found that it was completed. -/
  | found (b : ℕ) (c : Idx) (i : ℕ)
  /-- It has some descriptors left to free. -/
  | freeing (b i : ℕ) (own : List ℕ)

namespace Stage

def own : Stage → List ℕ
  | idle => []
  | alloc _ own => own
  | ready _ c => c.toList
  | placed _ c => c.toList
  | sent _ c _ => c.toList
  | found _ c _ => c.toList
  | freeing _ _ own => own

def buf : Stage → Option ℕ
  | idle => none
  | alloc b _ => some b
  | ready b _ => some b
  | placed b _ => some b
  | sent b _ _ => some b
  | found b _ _ => some b
  | freeing b _ _ => some b

def req : Stage → Option ℕ
  | sent _ _ i => some i
  | found _ _ i => some i
  | freeing _ i _ => some i
  | _ => none

/-- The process may be without the lock. -/
def Free : Stage → Prop
  | idle => True
  | alloc _ own => own = []
  | sent _ _ _ => True
  | _ => False

end Stage

/-- What a thread knows and owns. -/
structure Ghost where
  lock : Bool := false
  stage : Stage := .idle
  /-- There is an entry in the used ring to process. -/
  more : Bool := false
  hand : Hand := .out

def stages (ℓ : Thread → Ghost) : Thread → Stage := fun t => (ℓ t).stage

/-- Request `i` was completed, and the used entry for it processed. -/
def Handled (s : State) (i : ℕ) : Prop := ∃ k < s.handled, s.done k = i

/-- The links of the descriptors of a request. -/
structure Linked (desc : ℕ → Desc) (c : Idx) : Prop where
  flags0 : (desc c.i0).flags &&& VRING_DESC_F_NEXT ≠ 0
  next0 : (desc c.i0).next = c.i1
  flags1 : (desc c.i1).flags &&& VRING_DESC_F_NEXT ≠ 0
  next1 : (desc c.i1).next = c.i2
  flags2 : (desc c.i2).flags &&& VRING_DESC_F_NEXT = 0
  status : (desc c.i2).addr = .status c.i0

/-- The links from one descriptor to the next, to the end of a chain. -/
def Path (desc : ℕ → Desc) : List ℕ → Prop
  | [] => True
  | [d] => (desc d).flags &&& VRING_DESC_F_NEXT = 0
  | d :: e :: ds => (desc d).flags &&& VRING_DESC_F_NEXT ≠ 0 ∧ (desc d).next = e ∧
      Path desc (e :: ds)

/-- The device can still clear `b->disk` for this request. -/
def Waits (s : State) (b : ℕ) (c : Idx) : Prop := s.disk b = true ∧ s.info c.i0 = ⟨some b, 0⟩

/-- What a process knows at each stage. -/
def Staged (s : State) (p : ℕ) : Stage → Prop
  | .idle => True
  | .alloc _ _ => True
  | .ready b c => Linked s.desc c ∧ Waits s b c
  | .placed b c => Linked s.desc c ∧ Waits s b c ∧ s.ring (s.sent % NUM) = c.i0
  | .sent b c i => Linked s.desc c ∧ i < s.sent ∧ s.req i = ⟨p, b, c⟩ ∧ s.returned i = false ∧
      (¬ Handled s i → Waits s b c)
  | .found b c i => Linked s.desc c ∧ i < s.sent ∧ s.req i = ⟨p, b, c⟩ ∧ s.returned i = false ∧
      Handled s i
  | .freeing _ i own => Path s.desc own ∧ i < s.sent ∧ (s.req i).proc = p ∧ s.returned i = false ∧
      Handled s i

structure Locks (s : State) (ℓ : Thread → Ghost) : Prop where
  lock : ∀ t, s.lock = some t ↔ (ℓ t).lock = true
  stage : ∀ t, ¬ (ℓ t).stage.Free → (ℓ t).lock = true
  more : ∀ t, (ℓ t).more = true → (ℓ t).lock = true ∧ s.handled < s.completed
  hand : ∀ t, (ℓ t).hand ≠ .out → (ℓ t).lock = true ∧ s.hand = (ℓ t).hand

/-- The descriptors that are not free are those that some thread owns. -/
structure Descs (free : ℕ → Bool) (σ : Thread → Stage) : Prop where
  nodup : ∀ t, (σ t).own.Nodup
  lt : ∀ t, ∀ d ∈ (σ t).own, d < NUM
  unique : ∀ t u, ∀ d ∈ (σ t).own, d ∈ (σ u).own → u = t
  cover : ∀ d < NUM, free d = false ↔ ∃ t, d ∈ (σ t).own

structure Calls (s : State) (σ : Thread → Stage) : Prop where
  cpu : ∀ c, σ (.cpu c) = .idle
  buf : ∀ p, (σ (.proc p)).buf = s.call p
  unique : ∀ p q b, s.call p = some b → s.call q = some b → q = p
  staged : ∀ p, Staged s p (σ (.proc p))
  live : ∀ i < s.sent, s.returned i = false → (σ (.proc (s.req i).proc)).req = some i
  handled : ∀ i < s.sent, s.returned i = true → Handled s i
  fresh : ∀ i, s.sent ≤ i → s.returned i = false

/-- `κ` is whether completions come only when they are not acknowledged unseen. -/
structure Rings (κ : Prop) (s : State) : Prop where
  taken_le : s.taken ≤ s.sent
  availIdx : s.availIdx = s.sent % 2 ^ 16
  lastAvail : s.lastAvail = s.taken % 2 ^ 16
  ring : ∀ i, s.taken ≤ i → i < s.sent → s.ring (i % NUM) = (s.req i).idx.i0
  job : ∀ i j, s.job i = some j → i < s.taken ∧
    j = ⟨(s.req i).idx.i0, .status (s.req i).idx.i0⟩ ∧ ∀ k < s.completed, s.done k ≠ i
  done_lt : ∀ k < s.completed, s.done k < s.taken
  done_inj : ∀ k < s.completed, ∀ l < s.completed, s.done k = s.done l → k = l
  handled_le : s.handled ≤ s.completed
  usedIdx : s.usedIdx = s.handled % NUM
  usedId : s.usedId = s.completed % 2 ^ 16
  elems : ∀ k, s.handled ≤ k → k < s.completed → s.elems (k % NUM) = (s.req (s.done k)).idx.i0
  entry : ∀ k < s.handled, s.entry k = ((s.req (s.done k)).idx.i0, (s.req (s.done k)).buf)
  calm : κ → s.pending = false ∨ s.Deaf → s.handled = s.completed

structure Inv (κ : Prop) (s : State) (ℓ : Thread → Ghost) : Prop where
  locks : Locks s ℓ
  descs : Descs s.free (stages ℓ)
  calls : Calls s (stages ℓ)
  rings : Rings κ s

abbrev Ok (κ : Prop) {α : Type} (t : Thread) (x : Code α) (Q : α → Ghost → Prop) (l : Ghost) :
    Prop :=
  Safe (Inv κ) (fun _ _ => True) (fun _ s => s) (fun e _ => e = .hang) t x Q l

variable {κ : Prop} {s s' : State} {ℓ : Thread → Ghost} {l l' : Ghost} {t u : Thread} {p b c i k : ℕ}
  {σ : Thread → Stage}

/-! ### Counting -/

lemma Rings.not_handled (h : Rings κ s) (hk : k < s.completed) (hle : s.handled ≤ k) :
    ¬ Handled s (s.done k) := by
  rintro ⟨j, hj, hdone⟩
  have hle' := h.handled_le
  have := h.done_inj j (by omega) k hk hdone
  omega

lemma Rings.done_lt_sent (h : Rings κ s) (hk : k < s.completed) : s.done k < s.sent :=
  lt_of_lt_of_le (h.done_lt k hk) h.taken_le

lemma Rings.completed_le (h : Rings κ s) : s.completed ≤ s.taken := by
  have hmap : ∀ k ∈ Finset.range s.completed, s.done k ∈ Finset.range s.taken := by
    intro k hk
    exact Finset.mem_range.mpr (h.done_lt k (Finset.mem_range.mp hk))
  have hinj : Set.InjOn s.done (Finset.range s.completed) := by
    intro k hk l hl hdone
    exact h.done_inj k (Finset.mem_range.mp hk) l (Finset.mem_range.mp hl) hdone
  have := Finset.card_le_card_of_injOn s.done hmap hinj
  rwa [Finset.card_range, Finset.card_range] at this

lemma Descs.crowd {free : ℕ → Bool} (h : Descs free σ) {T : Finset Thread}
    (hT : ∀ t ∈ T, (σ t).own.length = 3) : T.card ≤ 2 := by
  have hdisj : (T : Set Thread).PairwiseDisjoint fun t => (σ t).own.toFinset := by
    intro t _ u _ hne
    refine Finset.disjoint_left.mpr fun d hd hd' => hne ?_
    exact (h.unique t u d (List.mem_toFinset.mp hd) (List.mem_toFinset.mp hd')).symm
  have hcard : (T.biUnion fun t => (σ t).own.toFinset).card = T.card * 3 := by
    rw [Finset.card_biUnion hdisj]
    refine Finset.sum_const_nat fun t ht => ?_
    rw [List.toFinset_card_of_nodup (h.nodup t), hT t ht]
  have hsub : (T.biUnion fun t => (σ t).own.toFinset) ⊆ Finset.range NUM := by
    intro d hd
    obtain ⟨t, -, hd⟩ := Finset.mem_biUnion.mp hd
    exact Finset.mem_range.mpr (h.lt t d (List.mem_toFinset.mp hd))
  have hle := Finset.card_le_card hsub
  rw [hcard, Finset.card_range] at hle
  simp only [NUM] at hle
  omega

lemma Staged.of_req {g : Stage} (h : Staged s p g) (hg : g.req = some i) :
    (s.req i).proc = p ∧ ((g = .sent (s.req i).buf (s.req i).idx i ∧ Linked s.desc (s.req i).idx ∧
      (¬ Handled s i → Waits s (s.req i).buf (s.req i).idx)) ∨ ¬ g.Free ∧ Handled s i) := by
  cases g with
  | sent b c j =>
    obtain ⟨hlink, -, hj, -, hw⟩ := h
    cases hg
    rw [hj]
    exact ⟨rfl, .inl ⟨rfl, hlink, hw⟩⟩
  | found b c j =>
    obtain ⟨-, -, hj, -, hh⟩ := h
    cases hg
    exact ⟨by rw [hj], .inr ⟨id, hh⟩⟩
  | freeing b j own =>
    obtain ⟨-, -, hj, -, hh⟩ := h
    cases hg
    exact ⟨hj, .inr ⟨id, hh⟩⟩
  | idle | alloc | ready | placed => cases hg

lemma Calls.waiting (h : Calls s σ) (hi : i < s.sent) (hn : ¬ Handled s i) :
    σ (.proc (s.req i).proc) = .sent (s.req i).buf (s.req i).idx i ∧
      Waits s (s.req i).buf (s.req i).idx := by
  have hret : s.returned i = false := by
    cases hr : s.returned i with
    | false => rfl
    | true => exact absurd (h.handled i hi hr) hn
  rcases ((h.staged _).of_req (h.live i hi hret)).2 with ⟨hg, -, hw⟩ | ⟨-, hh⟩
  · exact ⟨hg, hw hn⟩
  · exact absurd hh hn

open Classical in
lemma waiters (h : Inv κ s ℓ) : ∃ T : Finset Thread, T.card + s.handled = s.sent ∧
    ∀ t ∈ T, ∃ b c i, stages ℓ t = .sent b c i := by
  let old := (Finset.range s.handled).image s.done
  let new := Finset.range s.sent \ old
  have hle := h.rings.handled_le
  have hold : old ⊆ Finset.range s.sent := by
    intro i hi
    obtain ⟨k, hk, rfl⟩ := Finset.mem_image.mp hi
    have hk' := Finset.mem_range.mp hk
    exact Finset.mem_range.mpr (h.rings.done_lt_sent (by omega))
  have hcard : old.card = s.handled := by
    rw [Finset.card_image_of_injOn, Finset.card_range]
    intro k hk l hl hdone
    have hk' := Finset.mem_range.mp hk
    have hl' := Finset.mem_range.mp hl
    exact h.rings.done_inj k (by omega) l (by omega) hdone
  have hnew : ∀ i ∈ new, i < s.sent ∧ ¬ Handled s i := by
    intro i hi
    obtain ⟨h1, h2⟩ := Finset.mem_sdiff.mp hi
    refine ⟨Finset.mem_range.mp h1, ?_⟩
    rintro ⟨k, hk, hdone⟩
    exact h2 (Finset.mem_image.mpr ⟨k, Finset.mem_range.mpr hk, hdone⟩)
  refine ⟨new.image fun i => .proc (s.req i).proc, ?_, ?_⟩
  · rw [Finset.card_image_of_injOn]
    · have := Finset.card_sdiff_add_card_eq_card hold
      rw [hcard, Finset.card_range] at this
      exact this
    · intro i hi j hj hproc
      obtain ⟨hi1, hi2⟩ := hnew i hi
      obtain ⟨hj1, hj2⟩ := hnew j hj
      have h1 := (h.calls.waiting hi1 hi2).1
      have h2 := (h.calls.waiting hj1 hj2).1
      rw [show Thread.proc (s.req i).proc = .proc (s.req j).proc from hproc, h2] at h1
      exact (Stage.sent.inj h1).2.2.symm
  · intro t ht
    obtain ⟨i, hi, rfl⟩ := Finset.mem_image.mp ht
    obtain ⟨hi1, hi2⟩ := hnew i hi
    exact ⟨_, _, i, (h.calls.waiting hi1 hi2).1⟩

lemma Inv.sent_le (h : Inv κ s ℓ) : s.sent ≤ s.handled + 2 := by
  obtain ⟨T, hcard, hT⟩ := waiters h
  have := h.descs.crowd fun t ht => by
    obtain ⟨b, c, i, hst⟩ := hT t ht
    rw [hst]
    rfl
  omega

open Classical in
/-- A process with a request that is not yet available leaves room for one other request. -/
lemma Inv.sent_le_of_new (h : Inv κ s ℓ) {c : Idx} (hst : (ℓ t).stage = .ready b c) :
    s.sent ≤ s.handled + 1 := by
  obtain ⟨T, hcard, hT⟩ := waiters h
  have hnot : t ∉ T := by
    intro ht
    obtain ⟨b', c', i, hst'⟩ := hT t ht
    rw [show stages ℓ t = _ from hst] at hst'
    cases hst'
  have hown : ∀ u ∈ insert t T, (stages ℓ u).own.length = 3 := by
    intro u hu
    rcases Finset.mem_insert.mp hu with rfl | hu
    · rw [show stages ℓ u = _ from hst]
      rfl
    · obtain ⟨b', c', i, hst'⟩ := hT u hu
      rw [hst']
      rfl
  have := h.descs.crowd hown
  rw [Finset.card_insert_of_notMem hnot] at this
  omega

end Xv6.Virtio
