import Mathlib.Data.List.Nodup
import Mathlib.Logic.Basic

/-!
A circular doubly linked list with a head, as two functions on its nodes.

A node is `some a` for an element and `none` for the head. `Seg f a l z` says that
following `f` from `a` passes through `l` and then arrives at `z`; the ring of `l` is the
segment from the head to the head along `next`, and the reversed one along `prev`.
-/

namespace Xv6.Lib.Ring

open Function List

variable {α : Type}

/-- Following `f` from `a` visits `l` in order and then arrives at `z`. -/
def Seg (f : Option α → Option α) : Option α → List α → Option α → Prop
  | a, [], z => f a = z
  | a, b :: l, z => f a = some b ∧ Seg f (some b) l z

/-- `next` and `prev` link the elements of `l`, each once, into a ring through the head. -/
structure IsRing (next prev : Option α → Option α) (l : List α) : Prop where
  nodup : l.Nodup
  fwd : Seg next none l none
  bwd : Seg prev none l.reverse none

variable {f next prev : Option α → Option α} {a z : Option α} {l l₁ l₂ : List α} {b : α}

lemma seg_append : Seg f a (l₁ ++ b :: l₂) z ↔ Seg f a l₁ (some b) ∧ Seg f (some b) l₂ z := by
  induction l₁ generalizing a with
  | nil => simp [Seg]
  | cons c l₁ ih => simp [Seg, ih, and_assoc]

lemma seg_congr {g : Option α → Option α}
    (h : ∀ x, (x = a ∨ ∃ b ∈ l, x = some b) → g x = f x) (hs : Seg f a l z) : Seg g a l z := by
  induction l generalizing a with
  | nil => simpa [Seg, h a (.inl rfl)] using hs
  | cons b l ih =>
    obtain ⟨h1, h2⟩ := hs
    refine ⟨by rw [h a (.inl rfl), h1], ih (fun x hx => h x (.inr ?_)) h2⟩
    rcases hx with rfl | ⟨c, hc, rfl⟩
    · exact ⟨b, by simp, rfl⟩
    · exact ⟨c, by simp [hc], rfl⟩

lemma seg_start (hs : Seg f a l none) : f a = l.head? := by
  cases l with
  | nil => exact hs
  | cons b l => exact hs.1

lemma IsRing.next_eq (h : IsRing next prev (l₁ ++ b :: l₂)) : next (some b) = l₂.head? :=
  seg_start (seg_append.mp h.fwd).2

lemma IsRing.prev_eq (h : IsRing next prev (l₁ ++ b :: l₂)) : prev (some b) = l₁.getLast? := by
  have h1 := h.bwd
  rw [reverse_append, reverse_cons, append_assoc, singleton_append] at h1
  rw [seg_start (seg_append.mp h1).2, List.head?_reverse]

/-- The node a segment from `a` through `l` leaves last. -/
def lastNode (a : Option α) (l : List α) : Option α := l.getLast?.elim a some

@[simp] lemma lastNode_nil (a : Option α) : lastNode a ([] : List α) = a := rfl

@[simp] lemma lastNode_cons (a : Option α) (b : α) (l : List α) :
    lastNode a (b :: l) = lastNode (some b) l := by
  cases h : l.getLast? with
  | none => simp_all [lastNode]
  | some c =>
    have : (b :: l).getLast? = some c := by
      rw [List.getLast?_cons, h]; rfl
    simp [lastNode, h, this]

@[simp] lemma lastNode_none (l : List α) : lastNode none l = l.getLast? := by
  cases h : l.getLast? <;> simp [lastNode, h]

lemma lastNode_mem : lastNode a l = a ∨ ∃ b ∈ l, lastNode a l = some b := by
  cases h : l.getLast? with
  | none => exact .inl (by simp [lastNode, h])
  | some b => exact .inr ⟨b, mem_of_getLast? h, by simp [lastNode, h]⟩

/-! ### Scanning -/

/-- `for (b = start; b != &head; b = step b) if (p b) break`, over at most `n` elements.
The answer is `none` when the loop has not come back to the head by then. -/
def scan (f : Option α → Option α) (p : α → Bool) : ℕ → Option α → Option (Option α)
  | _, none => some none
  | 0, some _ => none
  | n + 1, some a => if p a then some (some a) else scan f p n (f (some a))

lemma scan_seg (p : α → Bool) (hs : Seg f a l none) (n : ℕ) (hn : l.length ≤ n) :
    scan f p n (f a) = some (l.find? p) := by
  induction l generalizing a n with
  | nil =>
    have h : f a = none := hs
    rw [h]; cases n <;> rfl
  | cons b l ih =>
    obtain ⟨h1, h2⟩ := hs
    obtain ⟨m, rfl⟩ : ∃ m, n = m + 1 := ⟨n - 1, by simp at hn; omega⟩
    rw [h1, scan, List.find?_cons]
    cases hp : p b
    · simpa using ih h2 m (by simpa using hn)
    · rfl

/-! ### Moving an element to the front -/

variable [DecidableEq α]

/-- `b->next->prev = b->prev; b->prev->next = b->next;` -/
def unlink (b : α) (next prev : Option α → Option α) :
    (Option α → Option α) × (Option α → Option α) :=
  let prev' := update prev (next (some b)) (prev (some b))
  (update next (prev' (some b)) (next (some b)), prev')

/-- `b->next = head.next; b->prev = &head; head.next->prev = b; head.next = b;` -/
def pushFront (b : α) (next prev : Option α → Option α) :
    (Option α → Option α) × (Option α → Option α) :=
  let next' := update next (some b) (next none)
  let prev' := update prev (some b) none
  let prev'' := update prev' (next' none) (some b)
  (update next' none (some b), prev'')

lemma seg_retarget (w : Option α) (hnd : l.Nodup) (ha : ∀ b ∈ l, a ≠ some b) (hs : Seg f a l z) :
    Seg (update f (lastNode a l) w) a l w := by
  induction l generalizing a with
  | nil => simp [Seg]
  | cons c l ih =>
    obtain ⟨hc, hnd⟩ := nodup_cons.mp hnd
    rw [lastNode_cons]
    refine ⟨?_, ih hnd (fun b hb h => hc (by simpa [Option.some.inj h] using hb)) hs.2⟩
    rw [update_of_ne, hs.1]
    rcases lastNode_mem (a := some c) (l := l) with h | ⟨b, hb, h⟩ <;> rw [h]
    · exact ha c (by simp)
    · exact ha b (by simp [hb])

lemma seg_unlink (hnd : (l₁ ++ b :: l₂).Nodup) (ha : ∀ c ∈ l₁ ++ b :: l₂, a ≠ some c)
    (hs : Seg f a (l₁ ++ b :: l₂) z) :
    Seg (update f (lastNode a l₁) (f (some b))) a (l₁ ++ l₂) z := by
  induction l₁ generalizing a with
  | nil =>
    obtain ⟨h1, h2⟩ := hs
    cases l₂ with
    | nil => simpa [Seg] using h2
    | cons c l₂ =>
      refine ⟨by simpa using h2.1, seg_congr (fun x hx => ?_) h2.2⟩
      refine update_of_ne ?_ _ _
      rcases hx with rfl | ⟨d, hd, rfl⟩
      · exact (ha c (by simp)).symm
      · exact (ha d (by simp [hd])).symm
  | cons c l₁ ih =>
    obtain ⟨hc, hnd⟩ := nodup_cons.mp hnd
    rw [lastNode_cons]
    refine ⟨?_, ih hnd (fun d hd h => hc (by simpa [Option.some.inj h] using hd)) hs.2⟩
    rw [update_of_ne, hs.1]
    rcases lastNode_mem (a := some c) (l := l₁) with h | ⟨d, hd, h⟩ <;> rw [h]
    · exact ha c (by simp)
    · exact ha d (by simp [hd])

lemma IsRing.unlink (h : IsRing next prev (l₁ ++ b :: l₂)) :
    IsRing (unlink b next prev).1 (unlink b next prev).2 (l₁ ++ l₂) := by
  have hnd := h.nodup
  have hb : b ∉ l₂ := fun hb => by
    have := (nodup_append.mp hnd).2.1
    exact (nodup_cons.mp this).1 hb
  have hne : some b ≠ l₂.head? := fun hb' => hb (mem_of_mem_head? hb'.symm)
  have hp : update prev (next (some b)) (prev (some b)) (some b) = prev (some b) := by
    rw [h.next_eq, update_of_ne hne]
  refine ⟨?_, ?_, ?_⟩
  · exact hnd.sublist (List.Sublist.append_left (sublist_cons_self b l₂) l₁)
  · have := seg_unlink hnd (fun c _ => by simp) h.fwd
    rw [lastNode_none, ← h.prev_eq] at this
    simpa only [Ring.unlink, hp] using this
  · have hrev : (l₁ ++ b :: l₂).reverse = l₂.reverse ++ b :: l₁.reverse := by simp
    have hb := h.bwd
    rw [hrev] at hb
    have := seg_unlink (by rw [← hrev]; exact nodup_reverse.mpr hnd) (fun c _ => by simp) hb
    rw [lastNode_none, List.getLast?_reverse, ← h.next_eq, ← reverse_append] at this
    exact this

lemma IsRing.pushFront (h : IsRing next prev l) (hb : b ∉ l) :
    IsRing (pushFront b next prev).1 (pushFront b next prev).2 (b :: l) := by
  have hn : update next (some b) (next none) none = next none := by simp
  have hhead := seg_start h.fwd
  refine ⟨nodup_cons.mpr ⟨hb, h.nodup⟩, ?_, ?_⟩
  · refine ⟨by simp [Ring.pushFront], ?_⟩
    cases l with
    | nil => simpa [Seg, Ring.pushFront] using h.fwd
    | cons c l =>
      refine ⟨by simpa [Ring.pushFront] using h.fwd.1, seg_congr (fun x hx => ?_) h.fwd.2⟩
      have hx' : ∃ d ∈ c :: l, x = some d := by
        rcases hx with rfl | ⟨d, hd, rfl⟩
        · exact ⟨c, by simp, rfl⟩
        · exact ⟨d, by simp [hd], rfl⟩
      obtain ⟨d, hd, rfl⟩ := hx'
      have : d ≠ b := fun h => hb (h ▸ hd)
      simp [Ring.pushFront, this]
  · rw [reverse_cons, seg_append]
    have hne : some b ≠ next none := by
      rw [hhead]; exact fun h' => hb (mem_of_mem_head? h'.symm)
    refine ⟨?_, by simp [Seg, Ring.pushFront, hne]⟩
    have h1 := seg_retarget (some b) (nodup_reverse.mpr h.nodup) (fun c _ => by simp) h.bwd
    rw [lastNode_none, List.getLast?_reverse, ← hhead] at h1
    refine seg_congr (fun x hx => ?_) h1
    have hxb : x ≠ some b := by
      rcases hx with rfl | ⟨c, hc, rfl⟩
      · simp
      · intro h'; exact hb (by simpa [Option.some.inj h'] using hc)
    simp only [Ring.pushFront, hn, update_apply, hxb, if_false]

lemma IsRing.moveFront (h : IsRing next prev l) (hb : b ∈ l) :
    IsRing (Ring.pushFront b (Ring.unlink b next prev).1 (Ring.unlink b next prev).2).1
      (Ring.pushFront b (Ring.unlink b next prev).1 (Ring.unlink b next prev).2).2
      (b :: l.erase b) := by
  obtain ⟨l₁, l₂, rfl⟩ := append_of_mem hb
  have hnd := h.nodup
  have hb1 : b ∉ l₁ := fun hb' =>
    (nodup_append.mp hnd).2.2 b hb' b (by simp) rfl
  have hb2 : b ∉ l₂ := (nodup_cons.mp (nodup_append.mp hnd).2.1).1
  rw [erase_append_right _ hb1, erase_cons_head]
  exact h.unlink.pushFront (by simp [hb1, hb2])

end Xv6.Lib.Ring
