import Xv6.Lib.Conc

/-!
Cells that are free or have one of several owners.

Each owner has a heap, which says what is in the cells it owns. No cell has two owners, and
a free cell has none. So what an owner does to its own cells, takes from the free ones or
gives back to them does not concern the others.
-/

namespace Xv6.Lib.Own

open Function

variable {κ ν ι : Type}

/-- The cells an owner has, with what is in them. -/
abbrev Heap (κ ν : Type) := κ → Option ν

/-- The cells of `U` are free or have one owner. -/
structure Owns (cell : κ → ν) (free : List κ) (U : κ → Prop) (ℓ : ι → Heap κ ν) : Prop where
  agree : ∀ p k v, ℓ p k = some v → cell k = v
  excl : ∀ p q k, ℓ p k ≠ none → ℓ q k ≠ none → p = q
  nodup : free.Nodup
  apart : ∀ k ∈ free, ∀ p, ℓ p k = none
  all : ∀ k, U k ↔ k ∈ free ∨ ∃ p, ℓ p k ≠ none

variable {cell : κ → ν} {free : List κ} {U : κ → Prop} {ℓ : ι → Heap κ ν} {p : ι} {k : κ}

lemma Owns.mem_univ (H : Owns cell free U ℓ) (hk : ℓ p k ≠ none) : U k :=
  (H.all k).mpr (.inr ⟨p, hk⟩)

/-! ### Footprints -/

/-- The cells of `F` have become those of `F'`: cells of neither are as they were, cells that were
lost are nobody's, and cells that are new were nobody's. -/
structure Moves (F : κ → Prop) (h : Heap κ ν) (F' : κ → Prop) (h' : Heap κ ν) : Prop where
  keep : ∀ k, ¬ F k → ¬ F' k → h' k = h k
  lost : ∀ k, F k → ¬ F' k → h' k = none
  new : ∀ k, ¬ F k → F' k → h k = none

namespace Moves

variable {F F' F'' : κ → Prop} {h h' h'' : Heap κ ν}

lemma refl (F : κ → Prop) (h : Heap κ ν) : Moves F h F h where
  keep := fun _ _ _ => rfl
  lost := fun _ hk hn => absurd hk hn
  new := fun _ hn hk => absurd hk hn

lemma same (hf : ∀ k, ¬ F k → h' k = h k) : Moves F h F h' where
  keep := fun k hk _ => hf k hk
  lost := fun _ hk hn => absurd hk hn
  new := fun _ hn hk => absurd hk hn

lemma trans (M : Moves F h F' h') (M' : Moves F' h' F'' h'') : Moves F h F'' h'' where
  keep := fun k hk hk'' => by
    by_cases hk' : F' k
    · rw [M'.lost k hk' hk'', M.new k hk hk']
    · rw [M'.keep k hk' hk'', M.keep k hk hk']
  lost := fun k hk hk'' => by
    by_cases hk' : F' k
    · exact M'.lost k hk' hk''
    · rw [M'.keep k hk' hk'', M.lost k hk hk']
  new := fun k hk hk'' => by
    by_cases hk' : F' k
    · exact M.new k hk hk'
    · rw [← M.keep k hk hk', M'.new k hk' hk'']

lemma also (M : Moves F h F' h') (G : κ → Prop) :
    Moves (fun k => F k ∨ G k) h (fun k => F' k ∨ G k) h' where
  keep := fun k hk hk' => M.keep k (fun hf => hk (.inl hf)) fun hf => hk' (.inl hf)
  lost := fun k hk hk' => M.lost k (hk.resolve_right fun hg => hk' (.inr hg)) fun hf => hk' (.inl hf)
  new := fun k hk hk' => M.new k (fun hf => hk (.inl hf)) (hk'.resolve_right fun hg => hk (.inr hg))

lemma congr {G G' : κ → Prop} (M : Moves F h F' h') (hF : ∀ k, F k ↔ G k) (hF' : ∀ k, F' k ↔ G' k) :
    Moves G h G' h' where
  keep := fun k hk hk' => M.keep k (mt (hF k).mp hk) (mt (hF' k).mp hk')
  lost := fun k hk hk' => M.lost k ((hF k).mpr hk) (mt (hF' k).mp hk')
  new := fun k hk hk' => M.new k (mt (hF k).mp hk) ((hF' k).mpr hk')

lemma apart (M : Moves F h F' h') (hk : h k ≠ none) (hF : ¬ F k) : ¬ F' k ∧ h' k = h k := by
  have hF' : ¬ F' k := fun hf => hk (M.new k hF hf)
  exact ⟨hF', M.keep k hF hF'⟩

lemma eq_of_none (M : Moves F h F' h') (hF : ∀ k, ¬ F k) (hF' : ∀ k, ¬ F' k) : h' = h :=
  funext fun k => M.keep k (hF k) (hF' k)

end Moves

variable [DecidableEq κ] [DecidableEq ι]

namespace Moves

variable {F : κ → Prop} {h : Heap κ ν}

lemma take (hk : h k = none) (v : ν) :
    Moves F h (fun j => F j ∨ j = k) (update h k (some v)) where
  keep := fun j _ hj => update_of_ne (fun e => hj (.inr e)) _ _
  lost := fun j hj hn => absurd (.inl hj) hn
  new := fun j hj hn => by
    obtain rfl := hn.resolve_left hj
    exact hk

lemma give (hF : ¬ F k) : Moves (fun j => F j ∨ j = k) h F (update h k none) where
  keep := fun j hj _ => update_of_ne (fun e => hj (.inr e)) _ _
  lost := fun j hj hn => by
    obtain rfl := hj.resolve_left hn
    exact update_self ..
  new := fun j hj hn => absurd (.inl hn) hj

end Moves

lemma update_heap (ℓ : ι → Heap κ ν) (p q : ι) (k j : κ) (o : Option ν) :
    update ℓ p (update (ℓ p) k o) q j =
      if q = p ∧ j = k then o else ℓ q j := by
  by_cases hq : q = p
  · subst hq
    by_cases hj : j = k
    · subst hj; simp
    · simp [hj]
  · simp [hq]

namespace Owns

lemma take (H : Owns cell (k :: free) U ℓ) (p : ι) (v : ν) :
    Owns (update cell k v) free U
      (update ℓ p (update (ℓ p) k (some v))) where
  agree := fun q j x h => by
    rw [update_heap] at h
    by_cases hj : j = k
    · subst hj
      by_cases hq : q = p
      · simpa [hq] using h
      · rw [if_neg fun e => hq e.1, H.apart j (by simp) q] at h
        cases h
    · rw [if_neg fun e => hj e.2] at h
      rw [update_of_ne hj]
      exact H.agree q j x h
  excl := fun q r j hq hr => by
    have hnone := fun q => H.apart k (by simp) q
    rw [update_heap] at hq hr
    by_cases hj : j = k
    · subst hj
      by_cases hqp : q = p <;> by_cases hrp : r = p <;> simp_all
    · rw [if_neg fun e => hj e.2] at hq hr
      exact H.excl q r j hq hr
  nodup := (List.nodup_cons.mp H.nodup).2
  apart := fun j hj q => by
    have hne : j ≠ k := by
      rintro rfl
      exact (List.nodup_cons.mp H.nodup).1 hj
    rw [update_heap, if_neg fun e => hne e.2]
    exact H.apart j (by simp [hj]) q
  all := fun j => by
    rw [H.all j, List.mem_cons]
    by_cases hj : j = k
    · subst hj
      simp only [true_or, true_iff]
      exact .inr ⟨p, by simp⟩
    · simp only [hj, false_or]
      refine or_congr Iff.rfl (exists_congr fun q => ?_)
      rw [update_heap, if_neg fun e => hj e.2]

lemma give (H : Owns cell free U ℓ) (hk : ℓ p k ≠ none) (v : ν) :
    Owns (update cell k v) (k :: free) U
      (update ℓ p (update (ℓ p) k none)) where
  agree := fun q j x h => by
    rw [update_heap] at h
    split at h
    · cases h
    · rename_i hne
      have hj : j ≠ k := by
        rintro rfl
        exact hne ⟨H.excl q p j (by simp [h]) hk, rfl⟩
      rw [update_of_ne hj]
      exact H.agree q j x h
  excl := fun q r j hq hr => by
    rw [update_heap] at hq hr
    split at hq
    · exact absurd rfl hq
    · split at hr
      · exact absurd rfl hr
      · exact H.excl q r j hq hr
  nodup := List.nodup_cons.mpr ⟨fun hf => hk (H.apart k hf p), H.nodup⟩
  apart := fun j hj q => by
    rw [update_heap]
    split
    · rfl
    · rename_i hne
      rcases List.mem_cons.mp hj with rfl | hj
      · by_contra hq
        exact hne ⟨H.excl q p j hq hk, rfl⟩
      · exact H.apart j hj q
  all := fun j => by
    rw [H.all j, List.mem_cons]
    by_cases hj : j = k
    · subst hj
      simp only [true_or, iff_true]
      exact .inr ⟨p, hk⟩
    · simp only [hj, false_or]
      refine or_congr Iff.rfl (exists_congr fun q => ?_)
      rw [update_heap, if_neg fun e => hj e.2]

-- to write to a cell is to give it back and to take it again
lemma write (H : Owns cell free U ℓ) (hk : ℓ p k ≠ none) (v : ν) :
    Owns (update cell k v) free U (update ℓ p (update (ℓ p) k (some v))) := by
  have htake := (H.give hk v).take p v
  rwa [update_self, update_idem, update_idem, update_idem] at htake

end Owns

end Xv6.Lib.Own
