import Mathlib.Data.List.Pairwise
import Mathlib.Order.Basic

/-!
Stretches of numbers that partition a set.
-/

namespace Xv6.Lib.Spans

open List

/-- The numbers from `lo` up to, not including, `hi`. -/
structure Span where
  lo : ℕ
  hi : ℕ
  deriving DecidableEq

namespace Span

def Has (x : Span) (a : ℕ) : Prop := x.lo ≤ a ∧ a < x.hi

def length (x : Span) : ℕ := x.hi - x.lo

def Apart (x y : Span) : Prop := x.hi ≤ y.lo ∨ y.hi ≤ x.lo

instance (x y : Span) : Decidable (x.Apart y) := inferInstanceAs (Decidable (_ ∨ _))

lemma Apart.symm {x y : Span} (h : x.Apart y) : y.Apart x := Or.symm h

lemma apart_of_disjoint {x y : Span} (hx : x.lo < x.hi) (hy : y.lo < y.hi)
    (h : ∀ a, x.Has a → ¬ y.Has a) : x.Apart y := by
  unfold Apart
  by_contra hc
  rw [not_or] at hc
  by_cases hle : x.lo ≤ y.lo
  · exact h y.lo ⟨hle, by omega⟩ ⟨Nat.le_refl _, hy⟩
  · exact h x.lo ⟨Nat.le_refl _, hx⟩ ⟨by omega, by omega⟩

end Span

/-- The stretches of `l` partition the set `S`. Some of them may be empty, but no two start at
the same place. -/
structure Tiles (l : List Span) (S : ℕ → Prop) : Prop where
  le : ∀ x ∈ l, x.lo ≤ x.hi
  lo_ne : (l.map Span.lo).Nodup
  apart : l.Pairwise Span.Apart
  cover : ∀ a, S a ↔ ∃ x ∈ l, x.Has a

namespace Tiles

variable {l l' : List Span} {S : ℕ → Prop} {x y : Span} {m : ℕ}

lemma perm (h : Tiles l S) (hp : l.Perm l') : Tiles l' S := by
  refine ⟨fun x hx => h.le x (hp.mem_iff.mpr hx), ?_, ?_, fun a => ?_⟩
  · exact (hp.map _).nodup_iff.mp h.lo_ne
  · exact (hp.pairwise_iff fun hxy => hxy.symm).mp h.apart
  · rw [h.cover]
    constructor
    · rintro ⟨x, hx, ha⟩
      exact ⟨x, hp.mem_iff.mp hx, ha⟩
    · rintro ⟨x, hx, ha⟩
      exact ⟨x, hp.mem_iff.mpr hx, ha⟩

lemma lo_ne_of_mem (h : Tiles (x :: l) S) (hy : y ∈ l) : y.lo ≠ x.lo := by
  have hnd := h.lo_ne
  rw [map_cons, nodup_cons] at hnd
  rintro heq
  exact hnd.1 (heq ▸ mem_map_of_mem hy)

lemma join (h : Tiles (x :: y :: l) S) (hxy : x.hi = y.lo) : Tiles (⟨x.lo, y.hi⟩ :: l) S := by
  have hx := h.le x (by simp)
  have hy := h.le y (by simp)
  have hswap := h.perm (List.Perm.swap y x l)
  obtain ⟨hxl, hyl⟩ := pairwise_cons.mp h.apart
  obtain ⟨hyl, hl⟩ := pairwise_cons.mp hyl
  refine ⟨?_, ?_, pairwise_cons.mpr ⟨fun z hz => ?_, hl⟩, fun a => ?_⟩
  · rintro z hz
    rcases mem_cons.mp hz with rfl | hz
    · exact show x.lo ≤ y.hi by omega
    · exact h.le z (by simp [hz])
  · have hnd := hswap.lo_ne
    rw [map_cons, nodup_cons] at hnd
    exact hnd.2
  · have h1 : x.hi ≤ z.lo ∨ z.hi ≤ x.lo := hxl z (by simp [hz])
    have h2 : y.hi ≤ z.lo ∨ z.hi ≤ y.lo := hyl z hz
    have hle := h.le z (by simp [hz])
    have hne : z.lo ≠ y.lo := hswap.lo_ne_of_mem (by simp [hz])
    change y.hi ≤ z.lo ∨ z.hi ≤ x.lo
    omega
  · rw [h.cover]
    constructor
    · rintro ⟨z, hz, ha⟩
      simp only [mem_cons] at hz
      rcases hz with rfl | rfl | hz
      · exact ⟨_, mem_cons_self, ha.1, show a < y.hi by have := ha.2; omega⟩
      · exact ⟨_, mem_cons_self, show x.lo ≤ a by have := ha.1; omega, ha.2⟩
      · exact ⟨z, mem_cons_of_mem _ hz, ha⟩
    · rintro ⟨z, hz, ha⟩
      rcases mem_cons.mp hz with rfl | hz
      · obtain ⟨h1, h2⟩ := ha
        change x.lo ≤ a at h1
        change a < y.hi at h2
        by_cases hlt : a < x.hi
        · exact ⟨x, by simp, h1, hlt⟩
        · exact ⟨y, by simp, by omega, h2⟩
      · exact ⟨z, by simp [hz], ha⟩

lemma split (h : Tiles (x :: l) S) (h1 : x.lo < m) (h2 : m < x.hi) :
    Tiles (⟨m, x.hi⟩ :: ⟨x.lo, m⟩ :: l) S := by
  obtain ⟨hxl, hl⟩ := pairwise_cons.mp h.apart
  refine ⟨?_, ?_, ?_, fun a => ?_⟩
  · simp only [mem_cons]
    rintro z (rfl | rfl | hz)
    · exact Nat.le_of_lt h2
    · exact Nat.le_of_lt h1
    · exact h.le z (by simp [hz])
  · refine nodup_cons.mpr ⟨fun hmem => ?_, h.lo_ne⟩
    rcases mem_cons.mp hmem with heq | hmem
    · exact absurd heq (Nat.ne_of_gt h1)
    · obtain ⟨z, hz, heq⟩ := mem_map.mp hmem
      have hap := hxl z hz
      have hle := h.le z (by simp [hz])
      change z.lo = m at heq
      unfold Span.Apart at hap
      omega
  · refine pairwise_cons.mpr ⟨fun z hz => ?_, pairwise_cons.mpr ⟨fun z hz => ?_, hl⟩⟩
    · rcases mem_cons.mp hz with rfl | hz
      · exact .inr (Nat.le_refl _)
      · have := hxl z hz
        change x.hi ≤ z.lo ∨ z.hi ≤ m
        unfold Span.Apart at this
        omega
    · have := hxl z hz
      change m ≤ z.lo ∨ z.hi ≤ x.lo
      unfold Span.Apart at this
      omega
  · rw [h.cover]
    constructor
    · rintro ⟨z, hz, ha⟩
      rcases mem_cons.mp hz with rfl | hz
      · by_cases hlt : a < m
        · exact ⟨_, mem_cons_of_mem _ mem_cons_self, ha.1, hlt⟩
        · exact ⟨_, mem_cons_self, show m ≤ a by omega, ha.2⟩
      · exact ⟨z, by simp [hz], ha⟩
    · rintro ⟨z, hz, ha⟩
      simp only [mem_cons] at hz
      rcases hz with rfl | rfl | hz
      · exact ⟨x, by simp, Nat.le_trans (Nat.le_of_lt h1) ha.1, ha.2⟩
      · exact ⟨x, by simp, ha.1, Nat.lt_trans ha.2 h2⟩
      · exact ⟨z, by simp [hz], ha⟩

lemma add (h : Tiles l S) (hx : x.lo ≤ x.hi) (hnew : ∀ y ∈ l, x.Apart y ∧ y.lo ≠ x.lo) :
    Tiles (x :: l) fun a => x.Has a ∨ S a := by
  refine ⟨?_, ?_, pairwise_cons.mpr ⟨fun y hy => (hnew y hy).1, h.apart⟩, fun a => ?_⟩
  · rintro z hz
    rcases mem_cons.mp hz with rfl | hz
    · exact hx
    · exact h.le z hz
  · refine nodup_cons.mpr ⟨fun hmem => ?_, h.lo_ne⟩
    obtain ⟨y, hy, heq⟩ := mem_map.mp hmem
    exact (hnew y hy).2 heq
  · rw [h.cover]
    simp

end Tiles

end Xv6.Lib.Spans
