import Xv6.Kern.Sleeps

/-!
How the actions of the kernel keep the invariants of those who sleep in `wait` and of those who are
marked as killed.
-/

namespace Xv6.Kern

open Lib.Conc
open Function (update update_eq_self update_of_ne update_self)

variable {s s' : State} {g g' : Thread → Run} {f : Thread → Family} {w : Thread → Watch}
  {v : Watch} {t : Thread}
  {i j p q : ℕ} {d : Deed}

/-- What an action does that neither begins nor ends a process, marks none as killed and lets none
fall asleep in `wait`. -/
structure Mild (s s' : State) : Prop where
  deeds : s'.deeds = s.deeds
  initproc : s'.initproc = s.initproc
  unused : ∀ j, (s'.proc j).state = .unused ↔ (s.proc j).state = .unused
  zombie : ∀ j, (s'.proc j).state = .zombie ↔ (s.proc j).state = .zombie
  parent : ∀ j, (s'.proc j).parent = (s.proc j).parent
  killed : ∀ j, (s'.proc j).killed = (s.proc j).killed
  pid : ∀ j, (s'.proc j).pid = (s.proc j).pid
  wait : ∀ p, InWait s' p → InWait s p

lemma Mild.of_proc (hproc : s'.proc = s.proc) (hinit : s'.initproc = s.initproc)
    (hdeeds : s'.deeds = s.deeds) (hwaiting : s'.waiting = s.waiting) : Mild s s' := by
  refine ⟨hdeeds, hinit, ?_, ?_, ?_, ?_, ?_, ?_⟩
  iterate 5 exact fun j => by rw [hproc]
  · intro p h
    rw [InWait, hproc, hwaiting] at h
    exact h

lemma Mild.of_setProc {F : Proc → Proc} (hstate : (F (s.proc j)).state = (s.proc j).state)
    (hparent : (F (s.proc j)).parent = (s.proc j).parent)
    (hkilled : (F (s.proc j)).killed = (s.proc j).killed)
    (hpid : (F (s.proc j)).pid = (s.proc j).pid)
    (hchan : (s.proc j).state = .sleeping → (F (s.proc j)).chan = (s.proc j).chan) :
    Mild s (s.setProc j F) := by
  have hs := State.setProc_proj Proc.state hstate
  refine ⟨rfl, rfl, fun i => by rw [hs], fun i => by rw [hs], State.setProc_proj Proc.parent hparent,
    State.setProc_proj Proc.killed hkilled, State.setProc_proj Proc.pid hpid, ?_⟩
  rintro i ⟨h1, h2, h3⟩
  rw [hs] at h1
  by_cases hi : i = j
  · subst hi
    rw [State.setProc_self, hchan h1] at h2
    exact ⟨h1, h2, h3⟩
  · rw [State.setProc_of_ne _ _ hi] at h2
    exact ⟨h1, h2, h3⟩

lemma Mild.told {h : Thread → Said} (hm : Mild s s') (ht : Told s f h) (hk : Kin s g f)
    (hlog : s'.log = s.log) (hx : ∀ i, (s'.proc i).xstate = (s.proc i).xstate) : Told s' f h :=
  ht.set hk hm.initproc hlog hm.unused
    (fun i _ _ => ⟨hm.unused i, hm.zombie i, hm.pid i, hm.parent i, hx i⟩) (.refl _)

@[simp] lemma needs_empty (k : Lock) : ¬ ({} : Watch).Needs k := by
  rintro (⟨_, _, ⟨⟩, _⟩ | ⟨_, ⟨⟩, _⟩ | ⟨_, _, ⟨⟩, _⟩)

@[simp] lemma needs_rest (v : Watch) (k : Lock) : ¬ v.rest.Needs k := by
  rintro (⟨_, _, ⟨⟩, _⟩ | ⟨_, ⟨⟩, _⟩ | ⟨_, _, ⟨⟩, _⟩)

lemma Watch.rest_of_needs (h : ∀ k, ¬ v.Needs k) : v.rest = v := by
  obtain ⟨clear, up, woke, deeds, named⟩ := v
  have h1 : clear = none := by
    rw [Option.eq_none_iff_forall_ne_some]
    rintro ⟨p, n⟩ rfl
    exact h _ (.inl ⟨p, n, rfl, rfl⟩)
  have h2 : woke = none := by
    rw [Option.eq_none_iff_forall_ne_some]
    rintro q rfl
    exact h _ (.inr (.inl ⟨q, rfl, rfl⟩))
  have h3 : named = none := by
    rw [Option.eq_none_iff_forall_ne_some]
    rintro ⟨p, pid⟩ rfl
    exact h _ (.inr (.inr ⟨p, pid, rfl, rfl⟩))
  rw [h1, h2, h3]
  rfl

/-- A process that may fall asleep in `wait`: no child is a zombie, and nobody has just woken it. -/
def MayWait (s : State) (w : Thread → Watch) (p : ℕ) : Prop :=
  (p ≠ s.initproc → ∀ j, (s.proc j).parent = some p → (s.proc j).state ≠ .zombie) ∧
    ∀ t, (w t).woke ≠ some p

namespace Watched

section

variable {c : ℕ} (h : Watched s g w)

include h

lemma needs_unique (hb : Base s g) (ht : s.thread c = t) {k : Lock} (hk : k ∈ (g t).locks)
    {u : Thread} (hu : (w u).Needs k) : u = t := by
  obtain ⟨hlock, c', hc'⟩ := h.held u k hu
  rw [← ht, hb.excl (ht.symm ▸ hk : k ∈ (g (s.thread c)).locks) (hc'.symm ▸ hlock)]
  exact hc'.symm

lemma may_wait (hb : Base s g) (hk : Kin s g f) (ht : s.thread c = .proc p)
    (hlock : .proc p ∈ (g (.proc p)).locks)
    (hclear : ∃ n, NPROC ≤ n ∧ (w (.proc p)).clear = some (p, n))
    (hwoke : (w (.proc p)).woke = none) : MayWait s w p := by
  obtain ⟨n, hn, hc⟩ := hclear
  refine ⟨fun hp j hj => ?_, fun u hu => ?_⟩
  · exact (h.clear _ p n hc).2 hp j (lt_of_lt_of_le (hk.lt_of_parent hj) hn) hj
  · -- the lock of the process is its own
    rw [h.needs_unique hb ht hlock (.inr (.inl ⟨p, hu, rfl⟩)), hwoke] at hu
    cases hu

lemma set (hinit : s'.initproc = s.initproc)
    (hkid : ∀ j p, p ≠ s.initproc → (s'.proc j).parent = some p → (s'.proc j).state = .zombie →
      (s.proc j).parent = some p ∧ (s.proc j).state = .zombie)
    (hup : ∀ j, (s.proc j).state ≠ .unused → (s.proc j).state ≠ .zombie →
      (s'.proc j).state ≠ .unused ∧ (s'.proc j).state ≠ .zombie ∧
      ((s'.proc j).parent = (s.proc j).parent ∨ (s'.proc j).parent = some s.initproc))
    (hwait : ∀ p, InWait s' p → InWait s p ∨ MayWait s w p)
    (hheld : ∀ t k, (w t).Needs k → k ∈ (g' t).locks ∧ ∃ c, s'.thread c = t) :
    Watched s' g' w := by
  constructor
  case held => exact hheld
  case calm =>
    intro p j hp hw hj hz
    rw [hinit] at hp
    obtain ⟨h1, h2⟩ := hkid j p hp hj hz
    rcases hwait p hw with hw | hw
    · exact h.calm p j hp hw h1 h2
    · exact hw.1 hp j h1 h2
  case clear =>
    intro t p n hc
    obtain ⟨rfl, hn⟩ := h.clear t p n hc
    refine ⟨rfl, fun hp j hjn hj hz => ?_⟩
    rw [hinit] at hp
    obtain ⟨h1, h2⟩ := hkid j p hp hj hz
    exact hn hp j hjn h1 h2
  case up =>
    intro t q hq
    obtain ⟨i, rfl, h1, h2, hpar⟩ := h.up t q hq
    obtain ⟨h3, h4, h5⟩ := hup i h1 h2
    refine ⟨i, rfl, h3, h4, ?_⟩
    rw [hinit]
    rcases h5 with h5 | h5
    · rw [h5]
      exact hpar
    · exact .inr h5
  case woke =>
    intro t q hq hw
    rcases hwait q hw with hw | hw
    · exact h.woke t q hq hw
    · exact hw.2 t hq

lemma mild (hm : Mild s s')
    (hheld : ∀ t k, (w t).Needs k → k ∈ (g' t).locks ∧ ∃ c, s'.thread c = t) :
    Watched s' g' w := by
  refine h.set hm.initproc (fun j p _ hj hz => ?_) (fun j h1 h2 => ?_)
    (fun p hw => .inl (hm.wait p hw)) hheld
  · rw [hm.parent] at hj
    exact ⟨hj, (hm.zombie j).mp hz⟩
  · exact ⟨fun h => h1 ((hm.unused j).mp h), fun h => h2 ((hm.zombie j).mp h), .inl (hm.parent j)⟩

lemma learn (hheld : ∀ k, v.Needs k → k ∈ (g t).locks ∧ ∃ c, s.thread c = t)
    (hclear : ∀ p n, v.clear = some (p, n) → t = .proc p ∧ (p ≠ s.initproc →
      ∀ j < n, (s.proc j).parent = some p → (s.proc j).state ≠ .zombie))
    (hup : ∀ q, v.up = some q → ∃ i, t = .proc i ∧ (s.proc i).state ≠ .unused ∧
      (s.proc i).state ≠ .zombie ∧ ((s.proc i).parent = some q ∨
      (s.proc i).parent = some s.initproc)) (hwoke : ∀ q, v.woke = some q → ¬ InWait s q) :
    Watched s g (update w t v) := by
  constructor
  case held =>
    intro u k hk
    obtain rfl | hu := eq_or_ne u t
    · rw [update_self] at hk
      exact hheld k hk
    · rw [update_of_ne hu] at hk
      exact h.held u k hk
  case calm => exact h.calm
  case clear =>
    intro u p n hc
    obtain rfl | hu := eq_or_ne u t
    · rw [update_self] at hc
      exact hclear p n hc
    · rw [update_of_ne hu] at hc
      exact h.clear u p n hc
  case up =>
    intro u q hq
    obtain rfl | hu := eq_or_ne u t
    · rw [update_self] at hq
      exact hup q hq
    · rw [update_of_ne hu] at hq
      exact h.up u q hq
  case woke =>
    intro u q hq
    by_cases hu : u = t
    · rw [hu, update_self] at hq
      exact hwoke q hq
    · rw [update_of_ne hu] at hq
      exact h.woke u q hq

lemma die (hb : Base s g) (ht : s.thread c = .proc p) (hup : (w (.proc p)).up = some q)
    (hwoke : (w (.proc p)).woke = some q) (hinit : s'.initproc = s.initproc)
    (hparent : ∀ j, (s'.proc j).parent = (s.proc j).parent)
    (hne : ∀ j, j ≠ p → (s'.proc j).state = (s.proc j).state)
    (hwait : ∀ q, InWait s' q → InWait s q) (hth : ∀ c, s'.thread c = s.thread c)
    (hg : ∀ u, u ≠ .proc p → (g' u).locks = (g u).locks) :
    Watched s' g' (update w (.proc p) {}) := by
  obtain ⟨i, hi, -, -, hpar⟩ := h.up _ q hup
  cases hi
  have hawake := h.woke _ q hwoke
  -- the parent of the new zombie is `initproc`, or the process that it has woken
  have hmine : ∀ r, r ≠ s.initproc → (s.proc p).parent = some r → r = q := by
    intro r hr hpr
    rcases hpar with hpar | hpar
    · rw [hpar] at hpr
      exact (Option.some.inj hpr).symm
    · rw [hpar] at hpr
      exact absurd (Option.some.inj hpr).symm hr
  constructor
  case held =>
    intro u k hu
    have hup : u ≠ .proc p := by
      rintro rfl
      rw [update_self] at hu
      exact needs_empty k hu
    rw [update_of_ne hup] at hu
    obtain ⟨h1, c', h2⟩ := h.held u k hu
    exact ⟨by rw [hg u hup]; exact h1, c', by rw [hth]; exact h2⟩
  case calm =>
    intro r j hr hw hj hz
    rw [hinit] at hr
    rw [hparent] at hj
    by_cases hjp : j = p
    · rw [hjp] at hj
      rw [hmine r hr hj] at hw
      exact hawake (hwait q hw)
    · rw [hne j hjp] at hz
      exact h.calm r j hr (hwait r hw) hj hz
  case clear =>
    intro u r n hu
    have hup : u ≠ .proc p := by
      rintro rfl
      rw [update_self] at hu
      cases hu
    rw [update_of_ne hup] at hu
    obtain ⟨rfl, hn⟩ := h.clear u r n hu
    refine ⟨rfl, fun hr j hjn hj hz => ?_⟩
    rw [hinit] at hr
    rw [hparent] at hj
    by_cases hjp : j = p
    · -- the parent would need the lock that the new zombie holds
      rw [hjp] at hj
      have hrq := hmine r hr hj
      refine hup (h.needs_unique hb ht (h.held _ (.proc q) (.inr (.inl ⟨q, hwoke, rfl⟩))).1
        (.inl ⟨r, n, hu, ?_⟩))
      rw [hrq]
    · rw [hne j hjp] at hz
      exact hn hr j hjn hj hz
  case up =>
    intro u r hu
    have hup : u ≠ .proc p := by
      rintro rfl
      rw [update_self] at hu
      cases hu
    rw [update_of_ne hup] at hu
    obtain ⟨i, rfl, h1, h2, h3⟩ := h.up u r hu
    have hip : i ≠ p := fun hip => hup (by rw [hip])
    refine ⟨i, rfl, ?_⟩
    rw [hne i hip, hparent, hinit]
    exact ⟨h1, h2, h3⟩
  case woke =>
    intro u r hu hw
    by_cases hup : u = .proc p
    · rw [hup, update_self] at hu
      cases hu
    · rw [update_of_ne hup] at hu
      exact h.woke u r hu (hwait r hw)

end

end Watched

namespace Marks

section

variable {x : Proc} (h : Marks s w)

include h

lemma set (hdeeds : s'.deeds = s.deeds)
    (hunused : ∀ j, (s'.proc j).state = .unused ↔ (s.proc j).state = .unused)
    (hkilled : ∀ j, (s'.proc j).killed = (s.proc j).killed)
    (hpid : ∀ j, (s.proc j).state ≠ .unused → (s'.proc j).pid = (s.proc j).pid)
    (hnamed : ∀ t p pid, (w t).named = some (p, pid) → (s'.proc p).pid = (s.proc p).pid) :
    Marks s' w := by
  constructor
  case calls => simpa only [hdeeds] using h.calls
  case answers => simpa only [hdeeds] using h.answers
  case free => simpa only [hdeeds, hunused, hkilled] using h.free
  case mark =>
    intro hf j hj
    rw [hdeeds] at hf
    rw [ne_eq, hunused] at hj
    rw [hdeeds, hkilled, hpid j hj]
    exact h.mark hf j hj
  case named =>
    intro t p pid hn
    rw [hdeeds, ne_eq, hunused, hnamed t p pid hn]
    exact h.named t p pid hn

lemma mild (hm : Mild s s') : Marks s' w :=
  h.set hm.deeds hm.unused hm.killed (fun j _ => hm.pid j) fun _ p _ _ => hm.pid p

lemma learn (hdeeds : v.deeds = (w t).deeds)
    (hnamed : ∀ p pid, v.named = some (p, pid) → (s.proc p).pid = pid ∧ (Fair s.deeds →
      (s.proc p).state ≠ .unused)) :
    Marks s (update w t v) := by
  have hd := update_proj (g := w) (t := t) Watch.deeds hdeeds
  constructor
  case calls => simpa only [hd] using h.calls
  case answers => exact h.answers
  case free => exact h.free
  case mark => exact h.mark
  case named =>
    intro u p pid hu
    by_cases hut : u = t
    · rw [hut, update_self] at hu
      exact hnamed p pid hu
    · rw [update_of_ne hut] at hu
      exact h.named u p pid hu

lemma emit (hdeeds : s'.deeds = s.deeds ++ [d])
    (hcalls : hunt (Kern.calls s.deeds) d = update (Kern.calls s.deeds) t v.deeds)
    (hanswer : Fair s'.deeds → ∀ u want ok, d = .answered u want ok →
      Answered u want (Kern.calls s.deeds u) ok)
    (hfree : Fair s'.deeds → ∀ j, (s'.proc j).state = .unused → (s'.proc j).killed = false)
    (hmark : Fair s'.deeds → ∀ j, (s'.proc j).state ≠ .unused → ((s'.proc j).killed = true ↔
      Marked s'.deeds j (s'.proc j).pid))
    (hother : ∀ u p pid, u ≠ t → (w u).named = some (p, pid) → (s'.proc p).pid = (s.proc p).pid ∧
      ((s.proc p).state ≠ .unused → (s'.proc p).state ≠ .unused))
    (hnamed : ∀ p pid, v.named = some (p, pid) → (s'.proc p).pid = pid ∧ (Fair s'.deeds →
      (s'.proc p).state ≠ .unused)) :
    Marks s' (update w t v) := by
  have hfair : Fair s'.deeds → Fair s.deeds := by
    rw [hdeeds]
    exact Fair.left
  constructor
  case calls =>
    intro u
    rw [hdeeds, calls_snoc, hcalls]
    by_cases hu : u = t
    · rw [hu, update_self, update_self]
    · rw [update_of_ne hu, update_of_ne hu]
      exact h.calls u
  case answers =>
    intro hf
    have := (h.answers (hfair hf)).snoc (hanswer hf)
    rwa [hdeeds]
  case free => exact hfree
  case mark => exact hmark
  case named =>
    intro u p pid hu
    by_cases hut : u = t
    · rw [hut, update_self] at hu
      exact hnamed p pid hu
    · rw [update_of_ne hut] at hu
      obtain ⟨h1, h2⟩ := h.named u p pid hu
      obtain ⟨h3, h4⟩ := hother u p pid hut hu
      exact ⟨h3.trans h1, fun hf => h4 (h2 (hfair hf))⟩

lemma note (hproc : s'.proc = s.proc) (hdeeds : s'.deeds = s.deeds ++ [d]) (h1 : ∀ p, d ≠ .made p)
    (h2 : ∀ p, d ≠ .faulted p) (h3 : ∀ t want p, d ≠ .struck t want p)
    (hcalls : hunt (Kern.calls s.deeds) d = update (Kern.calls s.deeds) t v.deeds)
    (hanswer : Fair s'.deeds → ∀ u want ok, d = .answered u want ok →
      Answered u want (Kern.calls s.deeds u) ok)
    (hnamed : ∀ p pid, v.named = some (p, pid) → (s.proc p).pid = pid ∧ (Fair s'.deeds →
      (s.proc p).state ≠ .unused)) :
    Marks s' (update w t v) := by
  refine h.emit hdeeds hcalls hanswer ?_ ?_ ?_ ?_
  · intro hf j
    rw [hproc]
    rw [hdeeds] at hf
    exact h.free hf.left j
  · intro hf j
    rw [hproc, hdeeds, marked_other h1 h2 h3]
    rw [hdeeds] at hf
    exact h.mark hf.left j
  · intro u p pid _ _
    rw [hproc]
    exact ⟨rfl, id⟩
  · rw [hproc]
    exact hnamed

lemma hit (hdeeds : s'.deeds = s.deeds ++ [d])
    (hproc : s'.proc = update s.proc j { s.proc j with killed := true })
    (hd : d = .faulted j ∨ ∃ t, d = .struck t (s.proc j).pid j)
    (hthere : Fair s.deeds → (s.proc j).state ≠ .unused)
    (hcalls : hunt (Kern.calls s.deeds) d = update (Kern.calls s.deeds) t v.deeds)
    (hnamed : v.named = (w t).named) : Marks s' (update w t v) := by
  obtain ⟨hself, hne⟩ := Function.eq_update_iff.mp hproc
  have hsame : ∀ i, (s'.proc i).pid = (s.proc i).pid ∧ (s'.proc i).state = (s.proc i).state := by
    intro i
    by_cases hi : i = j
    · rw [hi, hself]
      exact ⟨rfl, rfl⟩
    · rw [hne i hi]
      exact ⟨rfl, rfl⟩
  have hfair : Fair s'.deeds → Fair s.deeds := by
    rw [hdeeds]
    exact Fair.left
  refine h.emit hdeeds hcalls ?_ ?_ ?_ ?_ ?_
  · rintro - u want ok rfl
    rcases hd with hd | ⟨t, hd⟩ <;> cases hd
  · intro hf i hi
    by_cases hij : i = j
    · rw [(hsame i).2, hij] at hi
      exact absurd hi (hthere (hfair hf))
    · rw [hne i hij] at hi ⊢
      exact h.free (hfair hf) i hi
  · intro hf i hi
    rw [hdeeds, marked_snoc, (hsame i).1]
    by_cases hij : i = j
    · rw [hij, hself]
      exact ⟨fun _ => .inl hd, fun _ => rfl⟩
    · rw [hne i hij] at hi ⊢
      rw [h.mark (hfair hf) i hi]
      constructor
      · refine fun hm => .inr ⟨?_, hm⟩
        rcases hd with rfl | ⟨t, rfl⟩ <;> simp
      · rintro ((rfl | ⟨t', rfl⟩) | ⟨-, hm⟩)
        · rcases hd with hd | ⟨t, hd⟩
          · cases hd
            exact absurd rfl hij
          · cases hd
        · rcases hd with hd | ⟨t, hd⟩
          · cases hd
          · exact absurd (Deed.struck.inj hd).2.2 hij
        · exact hm
  · intro u p pid _ _
    rw [(hsame p).1, (hsame p).2]
    exact ⟨rfl, id⟩
  · intro p pid hp
    rw [(hsame p).1, (hsame p).2]
    rw [hnamed] at hp
    obtain ⟨h1, h2⟩ := h.named t p pid hp
    exact ⟨h1, fun hf => h2 (hfair hf)⟩

lemma begin (hdeeds : s'.deeds = s.deeds ++ [.made j]) (hproc : s'.proc = update s.proc j x)
    (hst : (s.proc j).state = .unused)
    (hx : x.state ≠ .unused ∧ x.killed = (s.proc j).killed ∧ x.pid = (s.proc j).pid) :
    Marks s' w := by
  obtain ⟨hself, hne⟩ := Function.eq_update_iff.mp hproc
  have hfair : Fair s'.deeds → Fair s.deeds := by
    rw [hdeeds]
    exact Fair.left
  have : Marks s' (update w (.proc 0) (w (.proc 0))) := h.emit hdeeds ?_ ?_ ?_ ?_ ?_ ?_
  · rwa [update_eq_self] at this
  · rw [hunt, ← h.calls, update_eq_self]
  · rintro - u want ok ⟨⟩
  · intro hf i hi
    by_cases hij : i = j
    · rw [hij, hself] at hi
      exact absurd hi hx.1
    · rw [hne i hij] at hi ⊢
      exact h.free (hfair hf) i hi
  · intro hf i hi
    rw [hdeeds, marked_snoc]
    by_cases hij : i = j
    · rw [hij, hself, hx.2.1, h.free (hfair hf) j hst]
      simp
    · rw [hne i hij] at hi ⊢
      rw [h.mark (hfair hf) i hi]
      simp [Ne.symm hij]
  · intro u p pid _ hp
    by_cases hpj : p = j
    · rw [hpj, hself]
      exact ⟨hx.2.2, fun _ => hx.1⟩
    · rw [hne p hpj]
      exact ⟨rfl, id⟩
  · intro p pid hp
    obtain ⟨h1, h2⟩ := h.named _ p pid hp
    by_cases hpj : p = j
    · rw [hpj, hself]
      rw [hpj] at h1
      exact ⟨hx.2.2.trans h1, fun _ => hx.1⟩
    · rw [hne p hpj]
      exact ⟨h1, fun hf => h2 (hfair hf)⟩

/-- The record of process `j`, whom nobody wants to kill, becomes that of an UNUSED one. -/
lemma clear (hdeeds : s'.deeds = s.deeds) (hproc : s'.proc = update s.proc j x)
    (hx : x.state = .unused ∧ x.killed = false)
    (hnamed : ∀ t p pid, (w t).named = some (p, pid) → p ≠ j) : Marks s' w := by
  obtain ⟨hself, hne⟩ := Function.eq_update_iff.mp hproc
  constructor
  case calls => simpa only [hdeeds] using h.calls
  case answers => simpa only [hdeeds] using h.answers
  case free =>
    intro hf i hi
    rw [hdeeds] at hf
    by_cases hij : i = j
    · rw [hij, hself]
      exact hx.2
    · rw [hne i hij] at hi ⊢
      exact h.free hf i hi
  case mark =>
    intro hf i hi
    rw [hdeeds] at hf ⊢
    have hij : i ≠ j := by
      rintro rfl
      rw [hself] at hi
      exact hi hx.1
    rw [hne i hij] at hi ⊢
    exact h.mark hf i hi
  case named =>
    intro t p pid hp
    rw [hdeeds, hne p (hnamed t p pid hp)]
    exact h.named t p pid hp

end

end Marks

end Xv6.Kern
