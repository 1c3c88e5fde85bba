import Xv6.Kern.State
import Mathlib.Data.List.Induction

/-!
What a sequence of deeds says about the mark `killed`: which processes are marked since they were
made, and what each call of `kill` has looked at and done.
-/

namespace Xv6.Kern

open List
open Function (update update_of_ne update_self)

/-- No call of `kill` has found the pid it looks for in the record of an UNUSED process. -/
def Fair (log : List Deed) : Prop := ∀ t want p, .looked t want p .unused want ∉ log

/-- Since process `p` was made, `kill` has marked it by its pid, or it has faulted. -/
def Marked (log : List Deed) (p pid : ℕ) : Prop :=
  ∃ a d b, log = a ++ d :: b ∧ .made p ∉ b ∧ (d = .faulted p ∨ ∃ t, d = .struck t pid p)

/-- What the calls of `kill` have done after one more deed. -/
def hunt (h : Thread → List Deed) (d : Deed) : Thread → List Deed := match d with
  | .looked t _ _ _ _ => update h t (h t ++ [d])
  | .struck t _ _ => update h t (h t ++ [d])
  | .answered t _ _ => update h t []
  | .made _ => h
  | .faulted _ => h

/-- What the call of `kill` that each thread is in has done so far. -/
def calls (log : List Deed) : Thread → List Deed := log.foldl hunt fun _ => []

/-- What a call of `kill` has done fits what it returns: it has found a process that is not UNUSED
and has the pid, or it has looked at all of them; and it has marked the process it found, and no
other. -/
structure Answered (t : Thread) (want : ℕ) (l : List Deed) (ok : Bool) : Prop where
  found : ok = true ↔ ∃ p st, .looked t want p st want ∈ l ∧ st ≠ .unused
  all : ok = false → ∀ p < NPROC, ∃ st pid, .looked t want p st pid ∈ l
  strikes : ok = true → ∃ p, .struck t want p ∈ l
  only : ∀ u pid p, .struck u pid p ∈ l → u = t ∧ pid = want ∧
    ∀ p' st, .looked t want p' st want ∈ l → p' = p

/-- Every answer of `kill` fits what the call has done. -/
def Truthful (log : List Deed) : Prop :=
  ∀ a t want ok b, log = a ++ .answered t want ok :: b → Answered t want (calls a t) ok

variable {log l : List Deed} {d : Deed} {t u : Thread} {p pid want n : ℕ} {st : PState}

lemma split_snoc {α : Type} {l a b : List α} {x y : α} (h : l ++ [x] = a ++ y :: b) :
    l = a ∧ x = y ∧ b = [] ∨ ∃ b', b = b' ++ [x] ∧ l = a ++ y :: b' := by
  rcases eq_nil_or_concat b with rfl | ⟨b', z, rfl⟩
  · obtain ⟨rfl, h1⟩ := append_inj' h rfl
    cases h1
    exact .inl ⟨rfl, rfl, rfl⟩
  · rw [concat_eq_append, ← cons_append, ← append_assoc] at h
    obtain ⟨h1, h2⟩ := append_inj' h rfl
    cases h2
    exact .inr ⟨b', by rw [concat_eq_append], h1⟩

lemma Fair.left (h : Fair (log ++ [d])) : Fair log :=
  fun t want p hm => h t want p (mem_append_left _ hm)

@[simp] lemma calls_snoc (log : List Deed) (d : Deed) : calls (log ++ [d]) = hunt (calls log) d := by
  simp [calls, foldl_append]

lemma mem_of_calls (h : d ∈ calls log t) : d ∈ log := by
  induction log using List.reverseRecOn with
  | nil => simp [calls] at h
  | append_singleton log d' ih =>
    have hall : ∀ u, d ∈ update (calls log) u (calls log u ++ [d']) t → d ∈ log ++ [d'] := by
      intro u hu
      by_cases htu : t = u
      · subst htu
        rw [update_self, mem_append] at hu
        exact mem_append.mpr (hu.imp_left ih)
      · rw [update_of_ne htu] at hu
        exact mem_append_left _ (ih hu)
    rw [calls_snoc] at h
    cases d' with
    | looked u want p st pid | struck u want p => exact hall u h
    | answered u want ok =>
      by_cases htu : t = u
      · subst htu
        simp [hunt] at h
      · rw [hunt, update_of_ne htu] at h
        exact mem_append_left _ (ih h)
    | made p | faulted p => exact mem_append_left _ (ih h)

lemma marked_snoc : Marked (log ++ [d]) p pid ↔
    (d = .faulted p ∨ ∃ t, d = .struck t pid p) ∨ d ≠ .made p ∧ Marked log p pid := by
  constructor
  · rintro ⟨a, d', b, hab, hb, hd⟩
    rcases split_snoc hab with ⟨-, rfl, -⟩ | ⟨b', rfl, rfl⟩
    · exact .inl hd
    · rw [mem_append, mem_singleton, not_or] at hb
      exact .inr ⟨fun h => hb.2 h.symm, a, d', b', rfl, hb.1, hd⟩
  · rintro (hd | ⟨hne, a, d', b, rfl, hb, hd⟩)
    · exact ⟨log, d, [], rfl, by simp, hd⟩
    · refine ⟨a, d', b ++ [d], by simp, ?_, hd⟩
      rw [mem_append, mem_singleton, not_or]
      exact ⟨hb, fun h => hne h.symm⟩

lemma marked_other (h1 : ∀ p, d ≠ .made p) (h2 : ∀ p, d ≠ .faulted p)
    (h3 : ∀ t want p, d ≠ .struck t want p) : Marked (log ++ [d]) p pid ↔ Marked log p pid := by
  rw [marked_snoc]
  constructor
  · rintro ((hd | ⟨t, hd⟩) | ⟨-, h⟩)
    · exact absurd hd (h2 p)
    · exact absurd hd (h3 t pid p)
    · exact h
  · exact fun h => .inr ⟨h1 p, h⟩

lemma Truthful.snoc (h : Truthful log)
    (hd : ∀ t want ok, d = .answered t want ok → Answered t want (calls log t) ok) :
    Truthful (log ++ [d]) := by
  intro a t want ok b hab
  rcases split_snoc hab with ⟨rfl, h1, -⟩ | ⟨b', -, rfl⟩
  · exact hd t want ok h1
  · exact h a t want ok b' rfl

/-! ### The search of `kill` -/

/-- A call of `kill` has looked at the processes below `n`, and found no one. -/
structure Searched (t : Thread) (want n : ℕ) (l : List Deed) : Prop where
  looks : ∀ d ∈ l, ∃ p st pid, d = .looked t want p st pid ∧ p < n ∧ pid ≠ want
  all : ∀ p < n, ∃ st pid, .looked t want p st pid ∈ l

lemma searched_nil : Searched t want 0 [] := ⟨by simp, fun p hp => absurd hp (by omega)⟩

lemma Searched.snoc (h : Searched t want n l) (hpid : pid ≠ want) :
    Searched t want (n + 1) (l ++ [.looked t want n st pid]) := by
  refine ⟨fun d hd => ?_, fun p hp => ?_⟩
  · rcases mem_append.mp hd with hd | hd
    · obtain ⟨p, st', pid', hd', hp, hpid'⟩ := h.looks d hd
      exact ⟨p, st', pid', hd', by omega, hpid'⟩
    · exact ⟨n, st, pid, mem_singleton.mp hd, by omega, hpid⟩
  · by_cases hpn : p = n
    · rw [hpn]
      exact ⟨st, pid, by simp⟩
    · obtain ⟨st', pid', hm⟩ := h.all p (by omega)
      exact ⟨st', pid', mem_append_left _ hm⟩

lemma Searched.missed (h : Searched t want NPROC l) : Answered t want l false := by
  refine ⟨⟨by simp, ?_⟩, fun _ => h.all, by simp, ?_⟩
  · rintro ⟨p, st, hm, -⟩
    obtain ⟨p', st', pid', heq, -, hpid⟩ := h.looks _ hm
    cases heq
    exact absurd rfl hpid
  · intro u pid p hm
    obtain ⟨p', st', pid', heq, -⟩ := h.looks _ hm
    cases heq

lemma Searched.found (h : Searched t want n l) (hst : st ≠ .unused) :
    Answered t want (l ++ [.looked t want n st want] ++ [.struck t want n]) true := by
  refine ⟨⟨fun _ => ⟨n, st, by simp, hst⟩, by simp⟩, by simp, fun _ => ⟨n, by simp⟩, ?_⟩
  intro u pid p hm
  simp only [append_assoc, cons_append, nil_append, mem_append, mem_cons,
    reduceCtorEq, not_mem_nil, or_false, false_or] at hm
  rcases hm with hm | hm
  · obtain ⟨p', st', pid', heq, -⟩ := h.looks _ hm
    cases heq
  · cases hm
    refine ⟨rfl, rfl, fun p' st' hm => ?_⟩
    simp only [append_assoc, cons_append, nil_append, mem_append, mem_cons,
      reduceCtorEq, not_mem_nil, or_false] at hm
    rcases hm with hm | hm
    · obtain ⟨p'', st'', pid'', heq, -, hpid⟩ := h.looks _ hm
      cases heq
      exact absurd rfl hpid
    · cases hm
      rfl

/-- What a call of `kill` has done when it returns. -/
def Hunted (t : Thread) (want : ℕ) (ok : Bool) (l : List Deed) : Prop := match ok with
  | false => Searched t want NPROC l
  | true => ∃ n st l', Searched t want n l' ∧
      l = l' ++ [.looked t want n st want] ++ [.struck t want n]

/-- The answer is right unless the call has found the pid in the record of an UNUSED process. -/
lemma Hunted.answered {ok : Bool} (h : Hunted t want ok l)
    (hf : ∀ p, .looked t want p .unused want ∉ l) : Answered t want l ok := by
  cases ok with
  | false => exact Searched.missed h
  | true =>
    obtain ⟨n, st, l', hs, rfl⟩ := h
    refine hs.found ?_
    rintro rfl
    exact hf n (by simp)

end Xv6.Kern
