import Mathlib.Data.List.Basic
import Mathlib.Data.List.Nodup

/-!
Linked lists: what following the links from one element leads through.
-/

namespace Xv6.Lib.Chain

open List

variable {α : Type} {next next' : α → α} {a b c p : α} {l l' l₁ l₂ m : List α}

/-- Following `next` from `a` leads through the elements of `l` to `b`. -/
def Path (next : α → α) : α → List α → α → Prop
  | a, [], b => next a = b
  | a, c :: l, b => next a = c ∧ Path next c l b

lemma path_append : Path next a (l ++ c :: l') b ↔ Path next a l c ∧ Path next c l' b := by
  induction l generalizing a with
  | nil => exact Iff.rfl
  | cons d l ih =>
    change next a = d ∧ Path next d (l ++ c :: l') b ↔ (next a = d ∧ Path next d l c) ∧ _
    rw [ih, and_assoc]

namespace Path

lemma next_eq (h : Path next a l b) : next a = l.headD b := by
  cases l with
  | nil => exact h
  | cons c l => exact h.1

lemma take (h : Path next a (l ++ l') b) : Path next a l (l'.headD b) := by
  cases l' with
  | nil => rwa [append_nil] at h
  | cons c l' => exact (path_append.mp h).1

/-- Only the links of the elements on the path matter, and another element can take the place of
the first. -/
lemma congr (h : Path next a l b) (hc : next' c = next a) (hn : ∀ x ∈ l, next' x = next x) :
    Path next' c l b := by
  induction l generalizing a c with
  | nil => exact hc.trans h
  | cons d l ih =>
    refine ⟨hc.trans h.1, ih h.2 (hn d mem_cons_self) fun x hx => ?_⟩
    exact hn x (mem_cons_of_mem _ hx)

lemma next_mem (h : Path next a l b) {x : α} (hx : x ∈ a :: l) : next x ∈ l ++ [b] := by
  induction l generalizing a with
  | nil =>
    rw [mem_singleton] at hx
    rw [hx, h.next_eq]
    exact mem_singleton_self b
  | cons d l ih =>
    rcases mem_cons.mp hx with rfl | hx
    · rw [h.1]
      exact mem_cons_self
    · exact mem_cons_of_mem _ (ih h.2 hx)

end Path

/-! ### Rings -/

/-- From any element of `l`, following `next` leads around through the others. -/
def Ring (next : α → α) (l : List α) : Prop :=
  ∀ l₁ a l₂, l = l₁ ++ a :: l₂ → Path next a (l₂ ++ l₁) a

lemma Path.ring (h : Path next a l a) : Ring next (a :: l) := by
  rintro (_ | ⟨d, l₁⟩) c l₂ hl
  · obtain ⟨rfl, rfl⟩ := List.cons.inj hl
    rwa [append_nil]
  · rw [cons_append] at hl
    obtain ⟨rfl, rfl⟩ := List.cons.inj hl
    rw [path_append] at h ⊢
    exact h.symm

namespace Ring

lemma swap (h : Ring next (l₁ ++ l₂)) : Ring next (l₂ ++ l₁) := by
  cases l₂ with
  | nil => rwa [append_nil] at h
  | cons a l₂ => exact (h l₁ a l₂ rfl).ring

lemma congr (h : Ring next l) (hn : ∀ x ∈ l, next' x = next x) : Ring next' l := by
  rintro l₁ a l₂ rfl
  refine (h l₁ a l₂ rfl).congr (hn a (by simp)) fun x hx => hn x ?_
  rcases mem_append.mp hx with hx | hx <;> simp [hx]

lemma perm_pair (h : Ring next l) (hnd : l.Nodup) (ha : a ∈ l) (hb : next (next a) = a) :
    ∀ x ∈ l, x = a ∨ x = next a := by
  obtain ⟨l₁, l₂, rfl⟩ := append_of_mem ha
  have hpath := h l₁ a l₂ rfl
  have hnd' : (a :: (l₂ ++ l₁)).Nodup := by
    rw [← cons_append]
    exact nodup_append_comm.mp hnd
  have hmem : ∀ x ∈ l₁ ++ a :: l₂, x = a ∨ x ∈ l₂ ++ l₁ := by
    intro x hx
    simp only [mem_append, mem_cons] at hx ⊢
    tauto
  intro x hx
  rcases hmem x hx with rfl | hx
  · exact .inl rfl
  · right
    cases hl : l₂ ++ l₁ with
    | nil => simp [hl] at hx
    | cons d m =>
      rw [hl] at hpath hnd' hx
      cases m with
      | nil =>
        rw [hpath.1]
        exact mem_singleton.mp hx
      | cons e m =>
        have he : e = a := by rw [← hb, hpath.1, hpath.2.1]
        exact absurd (by simp [he]) (nodup_cons.mp hnd').1

lemma insert (h : Ring next (l₁ ++ l₂)) (hnd : (l₁ ++ l₂).Nodup) (hp : l₂ ++ l₁ = m ++ [p])
    (hc : next' c = next p) (hpc : next' p = c)
    (hother : ∀ x ∈ l₁ ++ l₂, x ≠ p → next' x = next x) : Ring next' (l₁ ++ c :: l₂) := by
  have hring := h.swap
  rw [hp] at hring
  have hpath : Path next p m p := by simpa using hring m p [] rfl
  have hnd' : (m ++ [p]).Nodup := by
    rw [← hp]
    exact nodup_append_comm.mp hnd
  have hpath' : Path next' c m p := by
    refine hpath.congr hc fun x hx => hother x ?_ ?_
    · have hx' : x ∈ l₂ ++ l₁ := by
        rw [hp]
        exact mem_append_left _ hx
      exact mem_append.mpr (mem_append.mp hx').symm
    · exact (nodup_append.mp hnd').2.2 x hx p (mem_singleton_self p)
  have hnew : Ring next' ([p] ++ c :: m) := (show Path next' p (c :: m) p from ⟨hpc, hpath'⟩).ring
  have hnew' := hnew.swap
  rw [cons_append, ← hp, ← cons_append] at hnew'
  exact hnew'.swap

lemma erase (h : Ring next (l₁ ++ c :: l₂)) (hnd : (l₁ ++ c :: l₂).Nodup)
    (hp : p ∈ l₁ ++ c :: l₂) (hpc : next p = c) (hne : l₂ ++ l₁ ≠ []) (hn : next' p = next c)
    (hother : ∀ x ∈ l₁ ++ l₂, x ≠ p → next' x = next x) :
    p ∈ l₁ ++ l₂ ∧ Ring next' (l₁ ++ l₂) := by
  obtain hnil | ⟨m, z, hm⟩ := eq_nil_or_concat' (l₂ ++ l₁)
  · exact absurd hnil hne
  have hpath := h l₁ c l₂ rfl
  rw [hm] at hpath
  obtain ⟨hcz, hzc⟩ : Path next c m z ∧ next z = c := path_append.mp hpath
  have hnd' : (c :: (m ++ [z])).Nodup := by
    rw [← hm, ← cons_append]
    exact nodup_append_comm.mp hnd
  have hmem : ∀ x, x ∈ m ++ [z] ↔ x ∈ l₁ ++ l₂ := by
    intro x
    rw [← hm, mem_append, mem_append, or_comm]
  -- the elements before the last one are not linked to `c`
  have hpz : p = z := by
    by_contra hpz
    have hp' : p ∈ c :: m := by
      have := (hmem p).mpr
      simp only [mem_append, mem_cons, not_mem_nil, or_false] at hp this ⊢
      tauto
    have hlink := hcz.next_mem hp'
    rw [hpc] at hlink
    exact (nodup_cons.mp hnd').1 hlink
  subst hpz
  refine ⟨(hmem p).mp (by simp), ?_⟩
  have hnew : Ring next' ([p] ++ m) := by
    refine (hcz.congr hn fun x hx => hother x ((hmem x).mp (by simp [hx])) ?_).ring
    have hnd'' := (nodup_cons.mp hnd').2
    exact (nodup_append.mp hnd'').2.2 x hx p (mem_singleton_self p)
  have hnew' := hnew.swap
  rw [← hm] at hnew'
  exact hnew'.swap

end Ring

end Xv6.Lib.Chain
