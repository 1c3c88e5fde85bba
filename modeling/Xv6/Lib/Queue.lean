import Mathlib.Data.List.Basic
import Mathlib.Data.Nat.ModEq
import Mathlib.Logic.Basic

/-!
A bounded queue in an array, with two counters that only grow.

The counters are numbers modulo `M` and the array has `n` slots; a counter is reduced modulo
`n` to give a slot. Since `n` divides `M`, the counters may wrap around at any time.
-/

namespace Xv6.Lib.Queue

open Function List

variable {α : Type}

/-- The array `data` with counters `r` and `w` holds the elements of `q`, oldest first. -/
structure Holds (n M : ℕ) (data : ℕ → α) (r w : ℕ) (q : List α) : Prop where
  read_lt : r < M
  length_le : q.length ≤ n
  write_eq : w = (r + q.length) % M
  slot : ∀ i (h : i < q.length), data ((r + i) % M % n) = q[i]

namespace Holds

variable {n M : ℕ} {data : ℕ → α} {r w : ℕ} {q : List α} {a : α}

lemma nil (hr : r < M) : Holds n M data r r ([] : List α) := by
  refine ⟨hr, Nat.zero_le n, ?_, fun i h => absurd h (by simp)⟩
  rw [length_nil, Nat.add_zero, Nat.mod_eq_of_lt hr]

section

variable (h : Holds n M data r w q)

include h

lemma count (hM : n < M) : (w + M - r) % M = q.length := by
  have hr := h.read_lt
  have hq := h.length_le
  by_cases hw : r + q.length < M
  · rw [h.write_eq, Nat.mod_eq_of_lt hw]
    calc (r + q.length + M - r) % M = (q.length + M) % M := by congr 1; omega
      _ = q.length := by rw [Nat.add_mod_right, Nat.mod_eq_of_lt (by omega)]
  · have hwrap : (r + q.length) % M = r + q.length - M := by
      rw [Nat.mod_eq_sub_mod (by omega), Nat.mod_eq_of_lt (by omega)]
    rw [h.write_eq, hwrap]
    calc (r + q.length - M + M - r) % M = q.length % M := by congr 1; omega
      _ = q.length := Nat.mod_eq_of_lt (by omega)

lemma length_eq_of_write {m : ℕ} (hM : n < M) (hm : m ≤ n) (hw : w = (r + m) % M) :
    q.length = m := by
  have hq := h.length_le
  have hmod : (r + q.length) % M = (r + m) % M := h.write_eq.symm.trans hw
  have hcancel : q.length % M = m % M := Nat.ModEq.add_left_cancel' r hmod
  rwa [Nat.mod_eq_of_lt (by omega), Nat.mod_eq_of_lt (by omega)] at hcancel

lemma full_iff (hM : n < M) : w = (r + n) % M ↔ q.length = n := by
  constructor
  · exact h.length_eq_of_write hM le_rfl
  · intro hq
    rw [← hq]
    exact h.write_eq

lemma empty_iff (hM : n < M) : r = w ↔ q = [] := by
  have hr : (r + 0) % M = r := by rw [Nat.add_zero, Nat.mod_eq_of_lt h.read_lt]
  constructor
  · intro hw
    apply eq_nil_of_length_eq_zero
    exact h.length_eq_of_write hM (Nat.zero_le n) (by rw [hr, hw])
  · rintro rfl
    rw [h.write_eq, length_nil, hr]

lemma put (hn : n ∣ M) (hlt : q.length < n) (a : α) :
    Holds n M (update data (w % n) a) r ((w + 1) % M) (q ++ [a]) := by
  refine ⟨h.read_lt, by simpa using Nat.succ_le_of_lt hlt, ?_, fun i hi => ?_⟩
  · rw [h.write_eq, length_append, length_singleton, Nat.mod_add_mod, Nat.add_assoc]
  · rw [length_append, length_singleton] at hi
    have hslot : ∀ k, (r + k) % M % n = (r + k) % n := fun k => Nat.mod_mod_of_dvd _ hn
    have hw : w % n = (r + q.length) % n := by rw [h.write_eq, hslot]
    by_cases hq : i = q.length
    · subst hq
      rw [hslot, hw, update_self]
      simp
    · -- two elements of a queue are never `n` apart
      have hne : (r + i) % n ≠ (r + q.length) % n := by
        intro heq
        have hcancel : i % n = q.length % n := Nat.ModEq.add_left_cancel' r heq
        rw [Nat.mod_eq_of_lt (by omega), Nat.mod_eq_of_lt hlt] at hcancel
        exact hq hcancel
      rw [hslot, hw, update_of_ne hne, ← hslot, getElem_append_left (by omega)]
      exact h.slot i (by omega)

end

lemma front (h : Holds n M data r w (a :: q)) : data (r % n) = a := by
  have hslot := h.slot 0 (by simp)
  rwa [Nat.add_zero, Nat.mod_eq_of_lt h.read_lt] at hslot

lemma get (h : Holds n M data r w (a :: q)) : Holds n M data ((r + 1) % M) w q := by
  have hM : 0 < M := by
    have := h.read_lt
    omega
  have hshift : ∀ k, ((r + 1) % M + k) % M = (r + (k + 1)) % M := by
    intro k
    rw [Nat.mod_add_mod]
    congr 1
    omega
  refine ⟨Nat.mod_lt _ hM, ?_, ?_, fun i hi => ?_⟩
  · have := h.length_le
    rw [length_cons] at this
    omega
  · rw [hshift, h.write_eq, length_cons]
  · rw [hshift]
    have hslot := h.slot (i + 1) (by rw [length_cons]; omega)
    rwa [getElem_cons_succ] at hslot

lemma eq_map (h : Holds n M data r w q) :
    q = (List.range q.length).map fun i => data ((r + i) % M % n) := by
  apply ext_getElem
  · simp
  · intro i h1 h2
    rw [getElem_map, getElem_range]
    exact (h.slot i h1).symm

lemma write_back (h : Holds n M data r w (q ++ [a])) : (w + M - 1) % M = (r + q.length) % M := by
  have hM : 0 < M := by
    have := h.read_lt
    omega
  have hw : w = (r + q.length + 1) % M := by
    rw [h.write_eq, length_append, length_singleton, Nat.add_assoc]
  rw [hw, Nat.add_sub_assoc (by omega), Nat.mod_add_mod]
  calc (r + q.length + 1 + (M - 1)) % M = (r + q.length + M) % M := by congr 1; omega
    _ = (r + q.length) % M := Nat.add_mod_right _ _

lemma last (h : Holds n M data r w (q ++ [a])) : data ((w + M - 1) % M % n) = a := by
  rw [h.write_back]
  simpa using h.slot q.length (by simp)

lemma left {q' : List α} (h : Holds n M data r w (q ++ q')) :
    Holds n M data r ((r + q.length) % M) q := by
  refine ⟨h.read_lt, ?_, rfl, fun i hi => ?_⟩
  · have := h.length_le
    rw [length_append] at this
    omega
  · have hslot := h.slot i (by rw [length_append]; omega)
    rwa [getElem_append_left hi] at hslot

lemma right {q' : List α} (h : Holds n M data r w (q ++ q')) :
    Holds n M data ((r + q.length) % M) w q' := by
  have hM : 0 < M := by
    have := h.read_lt
    omega
  refine ⟨Nat.mod_lt _ hM, ?_, ?_, fun i hi => ?_⟩
  · have := h.length_le
    rw [length_append] at this
    omega
  · rw [h.write_eq, length_append, Nat.mod_add_mod, Nat.add_assoc]
  · have hslot := h.slot (q.length + i) (by rw [length_append]; omega)
    rw [getElem_append_right (by omega)] at hslot
    rw [Nat.mod_add_mod, Nat.add_assoc]
    simpa using hslot

lemma unput (h : Holds n M data r w (q ++ [a])) : Holds n M data r ((w + M - 1) % M) q := by
  rw [h.write_back]
  exact h.left

end Holds

/-! ### A record of what several users did -/

/-- The entries of user `c`. -/
def part (l : List (ℕ × α)) (c : ℕ) : List α := (l.filter fun e => e.1 = c).map Prod.snd

variable {l : List (ℕ × α)} {c d : ℕ}

lemma part_append_self {as : List α} : part (l ++ as.map fun a => (c, a)) c = part l c ++ as := by
  unfold part
  rw [filter_append, map_append]
  congr 1
  rw [filter_eq_self.mpr (by simp), map_map]
  exact map_id as

lemma part_append_of_ne {as : List α} (hd : d ≠ c) :
    part (l ++ as.map fun a => (c, a)) d = part l d := by
  unfold part
  rw [filter_append, map_append]
  have hnone : (as.map fun a => (c, a)).filter (fun e => e.1 = d) = [] := by
    rw [filter_eq_nil_iff]
    intro e he
    obtain ⟨a, -, rfl⟩ := mem_map.mp he
    simpa using Ne.symm hd
  rw [hnone, map_nil, append_nil]

lemma part_eq_nil (h : ∀ e ∈ l, e.1 ≠ c) : part l c = [] := by
  unfold part
  rw [filter_eq_nil_iff.mpr, map_nil]
  simpa using h

end Xv6.Lib.Queue
