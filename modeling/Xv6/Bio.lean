import Mathlib.Data.Fintype.Card
import Xv6.Param
import Xv6.Lib.Ring

/-!
The buffer cache of `kernel/bio.c`: the buffers, the LRU list through their links, and the
critical sections of `bcache.lock`.

Each critical section is a function on the cache, so the sequential model and the model
with any number of processes run the same code.
-/

namespace Xv6.Bio

open Lib.Ring List

/-- `struct buf`; `lock` is the pid of the holder of the sleep-lock. `users` is history that
no function reads: the processes that have got the buffer and have not finished `brelse`. -/
structure Buf where
  valid : Bool
  dev : ℕ
  blockno : ℕ
  lock : Option ℕ
  refcnt : UInt32
  data : Block
  users : List ℕ

/-- A node of the LRU list; `none` is `&bcache.head`. -/
abbrev Node := Option (Fin NBUF)

structure Bcache where
  buf : Fin NBUF → Buf
  next : Node → Node
  prev : Node → Node

def Bcache.set (c : Bcache) (i : Fin NBUF) (f : Buf → Buf) : Bcache :=
  { c with buf := Function.update c.buf i (f (c.buf i)) }

/-- Buffer `i` is assigned to block `b` of device `dev`. -/
def Bcache.Has (c : Bcache) (dev b : ℕ) (i : Fin NBUF) : Prop :=
  (c.buf i).dev = dev ∧ (c.buf i).blockno = b

instance (c : Bcache) (dev b : ℕ) (i : Fin NBUF) : Decidable (c.Has dev b i) :=
  inferInstanceAs (Decidable (_ ∧ _))

/-- Link buffer `i` in behind the head. -/
def linkFront (c : Bcache) (i : Fin NBUF) : Bcache :=
  let f := pushFront i c.next c.prev
  { c with next := f.1, prev := f.2 }

def binit : Bcache :=
  (List.finRange NBUF).foldl linkFront
    { buf := fun _ => ⟨false, 0, 0, none, 0, Lib.Bytes.zeroes, []⟩
      next := fun _ => none
      prev := fun _ => none }

/-- `b->refcnt++` for process `pid`. -/
def getRef (pid : ℕ) (b : Buf) : Buf :=
  { b with refcnt := b.refcnt + 1, users := pid :: b.users }

/-- `b->dev = dev; b->blockno = blockno; b->valid = 0; b->refcnt = 1;` -/
def recycle (pid dev blockno : ℕ) (b : Buf) : Buf :=
  { b with dev := dev, blockno := blockno, valid := false, refcnt := 1, users := pid :: b.users }

/-- `b->refcnt--` of process `pid`. -/
def putRef (pid : ℕ) (b : Buf) : Buf :=
  { b with refcnt := b.refcnt - 1, users := b.users.erase pid }

def incRef (b : Buf) : Buf := { b with refcnt := b.refcnt + 1 }
def decRef (b : Buf) : Buf := { b with refcnt := b.refcnt - 1 }

/-- The critical section of `bget`. -/
def bgetCs (c : Bcache) (pid dev blockno : ℕ) : Except Stop (Fin NBUF × Bcache) :=
  match scan c.next (fun i => decide (c.Has dev blockno i)) NBUF (c.next none) with
  | none => .error .hang
  | some (some i) => .ok (i, c.set i (getRef pid))
  | some none =>
    -- not cached: recycle the least recently used unused buffer
    match scan c.prev (fun i => (c.buf i).refcnt == 0) NBUF (c.prev none) with
    | none => .error .hang
    | some (some i) => .ok (i, c.set i (recycle pid dev blockno))
    | some none => .error (.panic "bget: no buffers")

def toFront (c : Bcache) (i : Fin NBUF) : Bcache :=
  let u := unlink i c.next c.prev
  linkFront { c with next := u.1, prev := u.2 } i

/-- The critical section of `brelse`. -/
def brelseCs (c : Bcache) (pid : ℕ) (i : Fin NBUF) : Bcache :=
  let c' := c.set i (putRef pid)
  if (c'.buf i).refcnt = 0 then toFront c' i else c'

def bpin (c : Bcache) (i : Fin NBUF) : Bcache := c.set i incRef
def bunpin (c : Bcache) (i : Fin NBUF) : Bcache := c.set i decRef

/-! ### What the critical sections do to the buffers -/

@[simp] lemma set_buf_self (c : Bcache) (i : Fin NBUF) (f : Buf → Buf) :
    (c.set i f).buf i = f (c.buf i) := by simp [Bcache.set]

lemma set_buf_of_ne (c : Bcache) {i j : Fin NBUF} (f : Buf → Buf) (h : j ≠ i) :
    (c.set i f).buf j = c.buf j := by simp [Bcache.set, h]

lemma set_set (c : Bcache) (i : Fin NBUF) (f g : Buf → Buf) :
    (c.set i f).set i g = c.set i fun b => g (f b) := by simp [Bcache.set]

lemma set_congr (c : Bcache) {i : Fin NBUF} {f g : Buf → Buf} (h : f (c.buf i) = g (c.buf i)) :
    c.set i f = c.set i g := by simp [Bcache.set, h]

@[simp] lemma brelseCs_buf (c : Bcache) (pid : ℕ) (i : Fin NBUF) :
    (brelseCs c pid i).buf = (c.set i (putRef pid)).buf := by
  simp only [brelseCs]
  split <;> rfl

/-! ### The LRU list -/

/-- The links form a ring through all buffers. -/
def Linked (c : Bcache) : Prop := ∃ l, IsRing c.next c.prev l ∧ ∀ i, i ∈ l

lemma length_of_nodup {l : List (Fin NBUF)} (h : l.Nodup) : l.length ≤ NBUF := by
  simpa using h.length_le_card

lemma Linked.set {c : Bcache} (h : Linked c) (i : Fin NBUF) (f : Buf → Buf) :
    Linked (c.set i f) := h

lemma Linked.toFront {c : Bcache} (h : Linked c) (i : Fin NBUF) : Linked (toFront c i) := by
  obtain ⟨l, hr, hall⟩ := h
  refine ⟨i :: l.erase i, hr.moveFront (hall i), fun j => ?_⟩
  by_cases hj : j = i
  · simp [hj]
  · exact mem_cons_of_mem _ ((mem_erase_of_ne hj).mpr (hall j))

lemma Linked.brelseCs {c : Bcache} (h : Linked c) (pid : ℕ) (i : Fin NBUF) :
    Linked (brelseCs c pid i) := by
  simp only [Bio.brelseCs]
  split
  · exact (h.set i (putRef pid)).toFront i
  · exact h.set i (putRef pid)

lemma binit_buf (i : Fin NBUF) : binit.buf i = ⟨false, 0, 0, none, 0, Lib.Bytes.zeroes, []⟩ := by
  unfold binit
  generalize hc : (Bcache.mk (fun _ => ⟨false, 0, 0, none, 0, Lib.Bytes.zeroes, []⟩) _ _) = c
  have hb : c.buf i = ⟨false, 0, 0, none, 0, Lib.Bytes.zeroes, []⟩ := by rw [← hc]
  clear hc
  induction List.finRange NBUF generalizing c with
  | nil => exact hb
  | cons a l ih => exact ih _ hb

lemma linked_binit : Linked binit := by
  have key : ∀ (done todo : List (Fin NBUF)) (c : Bcache), IsRing c.next c.prev done →
      (∀ a ∈ todo, a ∉ done) → todo.Nodup →
      IsRing (todo.foldl linkFront c).next (todo.foldl linkFront c).prev (todo.reverse ++ done) := by
    intro done todo
    induction todo generalizing done with
    | nil => intro c h _ _; exact h
    | cons a t ih =>
      intro c h hd hnd
      obtain ⟨hat, hnd⟩ := nodup_cons.mp hnd
      rw [foldl_cons, reverse_cons, append_assoc, singleton_append]
      refine ih (a :: done) _ (h.pushFront (hd a (by simp))) (fun x hx hx' => ?_) hnd
      rcases mem_cons.mp hx' with rfl | hx'
      · exact hat hx
      · exact hd x (by simp [hx]) hx'
  refine ⟨(List.finRange NBUF).reverse ++ [], key [] _ _ ⟨by simp, rfl, rfl⟩ (by simp)
    (nodup_finRange _), by simp⟩

/-- The list read from the head along `f`. -/
def follow (f : Node → Node) : ℕ → Node → List (Fin NBUF)
  | _, none => []
  | 0, some _ => []
  | n + 1, some i => i :: follow f n (f (some i))

lemma follow_seg {f : Node → Node} {a : Node} {l : List (Fin NBUF)} (h : Seg f a l none)
    (n : ℕ) (hn : l.length ≤ n) : follow f n (f a) = l := by
  induction l generalizing a n with
  | nil =>
    have h' : f a = none := h
    rw [h']; cases n <;> rfl
  | cons b l ih =>
    obtain ⟨h1, h2⟩ := h
    obtain ⟨m, rfl⟩ : ∃ m, n = m + 1 := ⟨n - 1, by simp at hn; omega⟩
    rw [h1, follow, ih h2 m (by simpa using hn)]

/-- The LRU list from the most recent buffer on. -/
def forwards (c : Bcache) : List (Fin NBUF) := follow c.next NBUF (c.next none)
/-- The LRU list from the least recent buffer on. -/
def backwards (c : Bcache) : List (Fin NBUF) := follow c.prev NBUF (c.prev none)

/-- **Read in either direction, a well-linked list is every buffer once.** -/
theorem Linked.perm {c : Bcache} (h : Linked c) :
    (forwards c).Perm (List.finRange NBUF) ∧ backwards c = (forwards c).reverse := by
  obtain ⟨l, hr, hall⟩ := h
  have hf : forwards c = l := follow_seg hr.fwd NBUF (length_of_nodup hr.nodup)
  have hb : backwards c = l.reverse :=
    follow_seg hr.bwd NBUF (length_of_nodup (nodup_reverse.mpr hr.nodup))
  refine ⟨?_, by rw [hf, hb]⟩
  rw [hf, perm_ext_iff_of_nodup hr.nodup (nodup_finRange _)]
  exact fun i => ⟨fun _ => mem_finRange i, fun _ => hall i⟩

/-- **The three ways out of `bget`'s critical section.** -/
lemma bgetCs_cases {c : Bcache} (h : Linked c) (pid dev b : ℕ) :
    (∃ i, c.Has dev b i ∧ bgetCs c pid dev b = .ok (i, c.set i (getRef pid))) ∨
    ((∀ i, ¬ c.Has dev b i) ∧
      ∃ i, (c.buf i).refcnt = 0 ∧ bgetCs c pid dev b = .ok (i, c.set i (recycle pid dev b))) ∨
    ((∀ i, ¬ c.Has dev b i) ∧ (∀ i, (c.buf i).refcnt ≠ 0) ∧
      bgetCs c pid dev b = .error (.panic "bget: no buffers")) := by
  obtain ⟨l, hr, hall⟩ := h
  have hf := scan_seg (fun i => decide (c.Has dev b i)) hr.fwd NBUF (length_of_nodup hr.nodup)
  have hb := scan_seg (fun i => (c.buf i).refcnt == 0) hr.bwd NBUF
    (length_of_nodup (nodup_reverse.mpr hr.nodup))
  cases h1 : l.find? (fun i => decide (c.Has dev b i)) with
  | some i =>
    refine .inl ⟨i, by simpa using List.find?_some h1, ?_⟩
    simp only [bgetCs, hf, h1]
  | none =>
    have hno : ∀ i, ¬ c.Has dev b i := fun i => by simpa using List.find?_eq_none.mp h1 i (hall i)
    right
    cases h2 : l.reverse.find? (fun i => (c.buf i).refcnt == 0) with
    | some i =>
      refine .inl ⟨hno, i, by simpa using List.find?_some h2, ?_⟩
      simp only [bgetCs, hf, h1, hb, h2]
    | none =>
      refine .inr ⟨hno, fun i => ?_, ?_⟩
      · simpa using List.find?_eq_none.mp h2 i (by simpa using hall i)
      · simp only [bgetCs, hf, h1, hb, h2]

end Xv6.Bio
