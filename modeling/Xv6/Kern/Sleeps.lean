import Xv6.Kern.Told

/-!
How the actions of the kernel keep the invariant of those that wait for conditions.
-/

namespace Xv6.Kern

open Lib.Wp Lib.Conc
open Function (update update_eq_self update_of_ne update_self)

variable {e : Env} {s s' : State} {g g' : Thread → Run} {w : Thread → Wait} {i n p : ℕ}

namespace Sleeps

section

variable {W : Wait} (h : Sleeps e s g w)

include h

lemma waiting_self (hW : W.cond = (w (.proc p)).cond) :
    s.waiting = update s.waiting p W.cond := by
  rw [hW, ← h.waiting p, update_eq_self]

lemma waking_self (hW : W.sig.map Prod.fst = (w (.proc p)).sig.map Prod.fst) :
    s.waking = update s.waking p (W.sig.map Prod.fst) := by
  rw [hW, ← h.waking p, update_eq_self]

lemma frame (hcond : s'.cond = s.cond) (hwaiting : s'.waiting = s.waiting)
    (hwaking : s'.waking = s.waking)
    (hstate : ∀ i, (s'.proc i).state = .sleeping → (s.proc i).state = .sleeping)
    (hchan : ∀ i, (s.proc i).state ≠ .unused → (s.proc i).state ≠ .zombie →
      (s'.proc i).chan = (s.proc i).chan ∧ (s'.proc i).state ≠ .unused ∧
      (s'.proc i).state ≠ .zombie ∨ (w (.proc i)).chan = none ∧ (w (.proc i)).parked = none)
    (hpark : ∀ i n, (w (.proc i)).parked = some n → .proc i ∈ (g (.proc i)).locks →
      .proc i ∈ (g' (.proc i)).locks)
    (hpre : ∀ i n, (w (.proc i)).pre = some n → (e.lk n ∈ (g (.proc i)).locks ∨
      .proc i ∈ (g (.proc i)).locks) → (∃ c, s.live c = some i) → (e.lk n ∈ (g' (.proc i)).locks ∨
      .proc i ∈ (g' (.proc i)).locks) ∧ ∃ c, s'.live c = some i)
    (hsig : ∀ i n k, (w (.proc i)).sig = some (n, k) → e.lk n ∈ (g (.proc i)).locks →
      (∃ c, s.live c = some i) → e.lk n ∈ (g' (.proc i)).locks ∧ ∃ c, s'.live c = some i) :
    Sleeps e s' g' w := by
  have hgood : ∀ n i, Good s w n i → Good s' w n i := by
    intro n i hg
    rw [Good, hcond]
    exact hg
  constructor
  case waiting => simpa only [hwaiting] using h.waiting
  case waking => simpa only [hwaking] using h.waking
  case pre =>
    intro i n hi
    obtain ⟨h1, h2, h3⟩ := h.pre i n hi
    obtain ⟨h1', h2'⟩ := hpre i n hi h1 h2
    exact ⟨h1', h2', hgood n i h3⟩
  case parked =>
    intro i n hi
    refine ⟨hpark i n hi (h.parked i n hi).1, fun hs => ?_⟩
    have hs' := hstate i hs
    obtain ⟨h1, h2⟩ := (h.parked i n hi).2 hs'
    refine ⟨?_, hgood n i h2⟩
    rcases hchan i (by rw [hs']; simp) (by rw [hs']; simp) with hc | hc
    · rw [hc.1]
      exact h1
    · rw [hc.2] at hi
      cases hi
  case asleep =>
    intro i n hi hs
    exact h.asleep i n hi (hstate i hs)
  case sig =>
    intro i n k hi
    obtain ⟨h1, h2⟩ := h.sig i n k hi
    exact hsig i n k hi h1 h2
  case chan =>
    intro i ch hi
    obtain ⟨h1, h2, h3⟩ := h.chan i ch hi
    rcases hchan i h2 h3 with ⟨hc, hs⟩ | hc
    · rw [hc]
      exact ⟨h1, hs⟩
    · rw [hc.1] at hi
      cases hi
  case idle => exact h.idle

lemma keep (hcond : s'.cond = s.cond) (hwaiting : s'.waiting = s.waiting)
    (hwaking : s'.waking = s.waking) (hlive : s'.live = s.live)
    (hlocks : ∀ u, (g' u).locks = (g u).locks)
    (hstate : ∀ i, (s'.proc i).state = .sleeping → (s.proc i).state = .sleeping)
    (hchan : ∀ i, (s'.proc i).chan = (s.proc i).chan)
    (halive : ∀ i, (s.proc i).state ≠ .unused → (s.proc i).state ≠ .zombie →
      (s'.proc i).state ≠ .unused ∧ (s'.proc i).state ≠ .zombie) : Sleeps e s' g' w := by
  refine h.frame hcond hwaiting hwaking hstate (fun i h1 h2 => .inl ⟨hchan i, halive i h1 h2⟩)
    ?_ ?_ ?_
  · intro i n _ h1
    rw [hlocks]
    exact h1
  · intro i n _ h1 h2
    rw [hlocks, hlive]
    exact ⟨h1, h2⟩
  · intro i n k _ h1 h2
    rw [hlocks, hlive]
    exact ⟨h1, h2⟩

lemma idle_step (hproc : s'.proc = s.proc) (hcond : s'.cond = s.cond)
    (hwaiting : s'.waiting = s.waiting) (hwaking : s'.waking = s.waking) (hlive : s'.live = s.live)
    (hlocks : ∀ u, (g' u).locks = (g u).locks) : Sleeps e s' g' w := by
  refine h.keep hcond hwaiting hwaking hlive hlocks ?_ ?_ ?_
  · exact fun i => by rw [hproc]; exact id
  · exact fun i => by rw [hproc]
  · exact fun i h1 h2 => by rw [hproc]; exact ⟨h1, h2⟩

lemma act (hwaiting : s'.waiting = update s.waiting p W.cond)
    (hwaking : s'.waking = update s.waking p (W.sig.map Prod.fst))
    (hgood : ∀ n i, i ≠ p → ((w (.proc i)).pre = some n ∨ (w (.proc i)).parked = some n ∧
      (s'.proc i).state = .sleeping) → Good s w n i → Good s' (update w (.proc p) W) n i)
    (hstate : ∀ i, i ≠ p → (s'.proc i).state = .sleeping → (s.proc i).state = .sleeping)
    (hchan : ∀ i, i ≠ p → (s.proc i).state ≠ .unused → (s.proc i).state ≠ .zombie →
      (s'.proc i).chan = (s.proc i).chan ∧ (s'.proc i).state ≠ .unused ∧
      (s'.proc i).state ≠ .zombie)
    (hlive : ∀ i, i ≠ p → (∃ c, s.live c = some i) → ∃ c, s'.live c = some i)
    (hlocks : ∀ i, i ≠ p → (g' (.proc i)).locks = (g (.proc i)).locks)
    (hpre : ∀ n, W.pre = some n → (e.lk n ∈ (g' (.proc p)).locks ∨
      .proc p ∈ (g' (.proc p)).locks) ∧ (∃ c, s'.live c = some p) ∧
      Good s' (update w (.proc p) W) n p)
    (hparked : ∀ n, W.parked = some n → .proc p ∈ (g' (.proc p)).locks ∧
      ((s'.proc p).state = .sleeping → (s'.proc p).chan = some (e.chan n) ∧
      Good s' (update w (.proc p) W) n p))
    (hasleep : ∀ n, W.cond = some n → (s'.proc p).state = .sleeping → W.pre = some n ∨
      W.parked = some n)
    (hsig : ∀ n k, W.sig = some (n, k) → e.lk n ∈ (g' (.proc p)).locks ∧ ∃ c, s'.live c = some p)
    (hch : ∀ ch, W.chan = some ch → (s'.proc p).chan = some ch ∧ (s'.proc p).state ≠ .unused ∧
      (s'.proc p).state ≠ .zombie) :
    Sleeps e s' g' (update w (.proc p) W) := by
  have hself : update w (.proc p) W (.proc p) = W := update_self _ _ _
  have hne : ∀ i, i ≠ p → update w (.proc p) W (.proc i) = w (.proc i) :=
    fun i hi => update_of_ne (by simpa using hi) _ _
  constructor
  case waiting =>
    intro i
    rw [hwaiting]
    by_cases hip : i = p
    · rw [hip, hself, update_self]
    · rw [hne i hip, update_of_ne hip]
      exact h.waiting i
  case waking =>
    intro i
    rw [hwaking]
    by_cases hip : i = p
    · rw [hip, hself, update_self]
    · rw [hne i hip, update_of_ne hip]
      exact h.waking i
  case pre =>
    intro i n hi
    by_cases hip : i = p
    · rw [hip, hself] at hi
      rw [hip]
      exact hpre n hi
    · rw [hne i hip] at hi
      obtain ⟨h1, h2, h3⟩ := h.pre i n hi
      rw [hlocks i hip]
      exact ⟨h1, hlive i hip h2, hgood n i hip (.inl hi) h3⟩
  case parked =>
    intro i n hi
    by_cases hip : i = p
    · rw [hip, hself] at hi
      rw [hip]
      exact hparked n hi
    · rw [hne i hip] at hi
      refine ⟨by rw [hlocks i hip]; exact (h.parked i n hi).1, fun hs => ?_⟩
      have hs' := hstate i hip hs
      obtain ⟨h1, h2⟩ := (h.parked i n hi).2 hs'
      rw [(hchan i hip (by rw [hs']; simp) (by rw [hs']; simp)).1]
      exact ⟨h1, hgood n i hip (.inr ⟨hi, hs⟩) h2⟩
  case asleep =>
    intro i n hi hs
    by_cases hip : i = p
    · rw [hip, hself] at hi ⊢
      rw [hip] at hs
      exact hasleep n hi hs
    · rw [hne i hip] at hi ⊢
      exact h.asleep i n hi (hstate i hip hs)
  case sig =>
    intro i n k hi
    by_cases hip : i = p
    · rw [hip, hself] at hi
      rw [hip]
      exact hsig n k hi
    · rw [hne i hip] at hi
      obtain ⟨h1, h2⟩ := h.sig i n k hi
      rw [hlocks i hip]
      exact ⟨h1, hlive i hip h2⟩
  case chan =>
    intro i ch hi
    by_cases hip : i = p
    · rw [hip, hself] at hi
      rw [hip]
      exact hch ch hi
    · rw [hne i hip] at hi
      obtain ⟨h1, h2, h3⟩ := h.chan i ch hi
      obtain ⟨hc, hs⟩ := hchan i hip h2 h3
      rw [hc]
      exact ⟨h1, hs⟩
  case idle =>
    intro c
    rw [update_of_ne (by simp)]
    exact h.idle c

end

/-- What counts for those that wait depends on the conditions and on who wakes. -/
lemma good_of_sig {w' : Thread → Wait} (hcond : s'.cond n = s.cond n)
    (hsig : ∀ j k, (w (.proc j)).sig = some (n, k) → k ≤ i →
      ∃ j' k', (w' (.proc j')).sig = some (n, k') ∧ k' ≤ i) (hg : Good s w n i) :
    Good s' w' n i := by
  rcases hg with hg | ⟨j, k, hj, hk⟩
  · exact .inl (hcond.trans hg)
  · exact .inr (hsig j k hj hk)

end Sleeps

end Xv6.Kern
