import Mathlib.Data.List.Basic

/-!
Texts: characters as bytes, how a program that reads a text can stop, and lines. A line ends with a
separator, and what comes after the last separator is not a line yet.
-/

namespace Xv6.Lib.Text

open List

def ch (c : Char) : UInt8 := UInt8.ofNat c.toNat

/-- It gives up with a message, does something without a meaning, or runs out of fuel. -/
inductive Halt
  | panic (msg : String)
  | undefined
  | hang
  deriving DecidableEq

/-! ### Lines -/

variable {α : Type} [DecidableEq α] {sep : α} {s t l : List α}

/-- An element in front of a text that was cut. -/
def push (sep a : α) : List (List α) × List α → List (List α) × List α
  | ([], r) => if a = sep then ([[]], r) else ([], a :: r)
  | (l :: ls, r) => if a = sep then ([] :: l :: ls, r) else ((a :: l) :: ls, r)

/-- The lines of a text, without their separators, and what is left. -/
def cut (sep : α) : List α → List (List α) × List α
  | [] => ([], [])
  | a :: s => push sep a (cut sep s)

def lines (sep : α) (s : List α) : List (List α) := (cut sep s).1

def rest (sep : α) (s : List α) : List α := (cut sep s).2

lemma push_sep (p : List (List α) × List α) : push sep sep p = ([] :: p.1, p.2) := by
  obtain ⟨_ | ⟨l, ls⟩, r⟩ := p <;> simp [push]

/-- A text is cut as far as it goes, and then what is left of it with what follows. -/
lemma cut_append (s t : List α) : cut sep (s ++ t) =
    (lines sep s ++ lines sep (rest sep s ++ t), rest sep (rest sep s ++ t)) := by
  induction s with
  | nil => rfl
  | cons a s ih =>
    rw [cons_append, cut, ih]
    simp only [lines, rest, cut]
    by_cases ha : a = sep
    · simp [ha, push_sep]
    · rcases hs : cut sep s with ⟨_ | ⟨l, ls⟩, r⟩
      · simp [push, ha, cut]
      · simp [push, ha]

lemma lines_append (s t : List α) :
    lines sep (s ++ t) = lines sep s ++ lines sep (rest sep s ++ t) := by
  rw [lines, cut_append]

lemma cut_of_notMem (h : sep ∉ s) : cut sep s = ([], s) := by
  induction s with
  | nil => rfl
  | cons a s ih =>
    obtain ⟨ha, hs⟩ := ne_and_not_mem_of_not_mem_cons h
    simp [cut, ih hs, push, Ne.symm ha]

lemma lines_of_notMem (h : sep ∉ s) : lines sep s = [] := by rw [lines, cut_of_notMem h]

lemma rest_of_notMem (h : sep ∉ s) : rest sep s = s := by rw [rest, cut_of_notMem h]

lemma cut_line (h : sep ∉ l) (s : List α) :
    cut sep (l ++ sep :: s) = (l :: lines sep s, rest sep s) := by
  induction l with
  | nil => rw [nil_append, cut, push_sep]; rfl
  | cons a l ih =>
    obtain ⟨ha, hl⟩ := ne_and_not_mem_of_not_mem_cons h
    simp [cut, ih hl, push, Ne.symm ha]

lemma lines_line (h : sep ∉ l) (s : List α) : lines sep (l ++ sep :: s) = l :: lines sep s := by
  rw [lines, cut_line h]

lemma rest_line (h : sep ∉ l) (s : List α) : rest sep (l ++ sep :: s) = rest sep s := by
  rw [rest, cut_line h]

lemma line_cases (sep : α) (s : List α) :
    sep ∉ s ∨ ∃ l t, sep ∉ l ∧ s = l ++ sep :: t := by
  by_cases h : sep ∈ s
  · obtain ⟨l, t, hs, hl⟩ := eq_append_cons_of_mem h
    exact .inr ⟨l, t, hl, hs⟩
  · exact .inl h

/-- What holds of a text without a separator, and of a line with a text, holds of every text. -/
lemma text_induction {P : List α → Prop} (sep : α) (hend : ∀ s, sep ∉ s → P s)
    (hline : ∀ l t, sep ∉ l → P t → P (l ++ sep :: t)) (s : List α) : P s := by
  induction hn : s.length using Nat.strongRecOn generalizing s with
  | ind n ih =>
    rcases line_cases sep s with h | ⟨l, t, hl, rfl⟩
    · exact hend s h
    · refine hline l t hl (ih t.length ?_ t rfl)
      rw [← hn, length_append, length_cons]
      omega

lemma notMem_rest (s : List α) : sep ∉ rest sep s := by
  induction s using text_induction sep with
  | hend s h => rwa [rest_of_notMem h]
  | hline l t hl ih => rwa [rest_line hl]

lemma length_rest_le (s : List α) : (rest sep s).length ≤ s.length := by
  induction s using text_induction sep with
  | hend s h => exact Nat.le_of_eq (congrArg List.length (rest_of_notMem h))
  | hline l t hl ih =>
    rw [rest_line hl, length_append, length_cons]
    omega

lemma mem_of_mem_rest {a : α} (h : a ∈ rest sep s) : a ∈ s := by
  induction s using text_induction sep with
  | hend s hs => rwa [rest_of_notMem hs] at h
  | hline l t hl ih =>
    rw [rest_line hl] at h
    exact mem_append_right _ (mem_cons_of_mem _ (ih h))

lemma length_line_lt (h : l ∈ lines sep s) : l.length < s.length := by
  induction s using text_induction sep with
  | hend s hs => rw [lines_of_notMem hs] at h; cases h
  | hline k t hk ih =>
    rw [lines_line hk] at h
    rw [length_append, length_cons]
    rcases mem_cons.mp h with rfl | h
    · omega
    · have := ih h
      omega

lemma length_lines (s : List α) : (lines sep s).length = s.count sep := by
  induction s using text_induction sep with
  | hend s h => rw [lines_of_notMem h, count_eq_zero_of_not_mem h, length_nil]
  | hline l t hl ih => simp [lines_line hl, ih, count_eq_zero_of_not_mem hl]

lemma lines_subset (h : l ∈ lines sep s) : l ⊆ s := by
  induction s using text_induction sep with
  | hend s hs => rw [lines_of_notMem hs] at h; cases h
  | hline k t hk ih =>
    rw [lines_line hk] at h
    rcases mem_cons.mp h with rfl | h
    · exact fun a ha => mem_append_left _ ha
    · exact fun a ha => mem_append_right _ (mem_cons_of_mem _ (ih h ha))

end Xv6.Lib.Text
