import Xv6.Kern.Kin

/-!
How the actions of the kernel keep the invariant of the history.
-/

namespace Xv6.Kern

open Lib.Wp Lib.Conc
open Function (update update_of_ne update_self)

variable {s s' : State} {g : Thread → Run} {f f' : Thread → Family} {h : Thread → Said}
  {t u : Thread} {i j p np : ℕ} {b : Busy} {v : Proc}

/-- Two records that the history does not tell apart. -/
structure Alike (q q' : Proc) : Prop where
  unused : q'.state = .unused ↔ q.state = .unused
  zombie : q'.state = .zombie ↔ q.state = .zombie
  pid : q'.pid = q.pid
  parent : q'.parent = q.parent
  xstate : q'.xstate = q.xstate

lemma Alike.refl (q : Proc) : Alike q q := ⟨Iff.rfl, Iff.rfl, rfl, rfl, rfl⟩

lemma Fits.congr {h' : Thread → Said} {L : Life} (hf : Fits s h j L)
    (hq : Alike (s.proc j) (s'.proc j)) (hinit : s'.initproc = s.initproc)
    (hh : (h' (.proc j)).exiting = (h (.proc j)).exiting) : Fits s' h' j L := by
  obtain ⟨h1, h2, h3, h4, h5, h6⟩ := hf
  constructor
  case pid => rw [h1, hq.pid]
  case parent => rwa [hinit, hq.parent]
  case root => rwa [hinit]
  case gone => rw [h4, hq.zombie]
  case status => rwa [hq.zombie, hq.xstate]
  case exiting =>
    rw [ne_eq, hq.zombie, hh]
    exact h6

/-- Nobody's record is about to be freed for whom the history is open, if he is alive. -/
lemma Kin.kept (hk : Kin s g f) (h1 : (s.proc j).state ≠ .unused)
    (h2 : (s.proc j).state ≠ .zombie) : Kept f j :=
  fun u b hu hb => absurd hb (hk.not_busy h1 h2 u b hu)

/-- Two views of who works on which record that differ in its contents only. -/
structure SameBusy (f f' : Thread → Family) : Prop where
  busy : ∀ u, (f' u).busy.map (fun b => (b.slot, b.reaped)) =
    (f u).busy.map (fun b => (b.slot, b.reaped))
  empty : ∀ u, (f' u).empty = (f u).empty

namespace SameBusy

lemma refl (f : Thread → Family) : SameBusy f f := ⟨fun _ => rfl, fun _ => rfl⟩

lemma symm (hf : SameBusy f f') : SameBusy f' f := ⟨fun u => (hf.busy u).symm, fun u => (hf.empty u).symm⟩

lemma mem (hf : SameBusy f f') (hu : (f' u).busy = some b) :
    ∃ b', (f u).busy = some b' ∧ b'.slot = b.slot ∧ b'.reaped = b.reaped := by
  have := hf.busy u
  rw [hu, Option.map_some] at this
  obtain ⟨b', hb', hbb⟩ := Option.map_eq_some_iff.mp this.symm
  exact ⟨b', hb', (Prod.mk.inj hbb).1, (Prod.mk.inj hbb).2⟩

lemma kept (hf : SameBusy f f') (hk : Kept f' j) : Kept f j := by
  intro u b hu hb
  obtain ⟨b', hb', hs, hr⟩ := hf.symm.mem hu
  rw [← hr]
  exact hk u b' hb' (hs.trans hb)

lemma update {F : Family} (hb : F.busy.map (fun b => (b.slot, b.reaped)) =
      (f t).busy.map fun b => (b.slot, b.reaped)) (he : F.empty = (f t).empty) :
    SameBusy f (update f t F) :=
  ⟨update_proj (g := f) (fun x => x.busy.map fun b => (b.slot, b.reaped)) hb,
    update_proj (g := f) Family.empty he⟩

end SameBusy

namespace Told

section

variable {F : Family} {H : Said} {status pid c : ℕ} (ht : Told s f h)

include ht

lemma fits_of_lives {L : Life} (hL : lives s.log j = some L) :
    Fits s h j L ∧ (s.proc j).state ≠ .unused := by
  have hst : (s.proc j).state ≠ .unused := by
    intro hu
    rw [ht.unused j hu] at hL
    cases hL
  have hkept : Kept f j := by
    rintro u b hu rfl
    by_contra hr
    rw [ht.reaped u b hu (by simpa using hr)] at hL
    cases hL
  obtain ⟨L', hL', hf⟩ := ht.fits j hst hkept
  rw [hL, Option.some.injEq] at hL'
  rw [hL']
  exact ⟨hf, hst⟩

lemma still_reaped (hlog : s'.log = s.log) (hf' : SameBusy f f') (u : Thread) (b : Busy)
    (hu : (f' u).busy = some b) (hr : b.reaped = true) : lives s'.log b.slot = none := by
  obtain ⟨b', hb', hs, hr'⟩ := hf'.mem hu
  rw [hlog, ← hs]
  exact ht.reaped u b' hb' (hr'.trans hr)

/-- A change of records that the history does not see: of records that stay alike, of those
of UNUSED processes, and of those that `wait` has returned. -/
lemma set (hk : Kin s g f) (hinit : s'.initproc = s.initproc) (hlog : s'.log = s.log)
    (hunused : ∀ i, (s'.proc i).state = .unused ↔ (s.proc i).state = .unused)
    (halike : ∀ i, (s.proc i).state ≠ .unused → Kept f i → Alike (s.proc i) (s'.proc i))
    (hf' : SameBusy f f') : Told s' f' h := by
  constructor
  case legal => simpa only [hinit, hlog] using ht.legal
  case due => simpa only [hlog] using ht.due
  case unused => simpa only [hlog, hunused] using ht.unused
  case reaped => exact ht.still_reaped hlog hf'
  case fits =>
    intro j hj hkept
    have hj' : (s.proc j).state ≠ .unused := fun hu => hj ((hunused j).mpr hu)
    obtain ⟨L, hL, hf⟩ := ht.fits j hj' (hf'.kept hkept)
    exact ⟨L, by rw [hlog]; exact hL, hf.congr (halike j hj' (hf'.kept hkept)) hinit rfl⟩
  case xstate =>
    intro i v hi
    obtain ⟨h1, h2, h3⟩ := ht.xstate i v hi
    have ha := halike i h2 (hk.kept h2 h3)
    rw [ha.xstate, ne_eq, ha.unused, ne_eq, ha.zombie]
    exact ⟨h1, h2, h3⟩
  case empty => simpa only [hf'.empty, hlog] using ht.empty

lemma clear (hk : Kin s g f) (hinit : s'.initproc = s.initproc) (hlog : s'.log = s.log)
    (hbusy : (f t).busy = some b) (hnone : lives s.log b.slot = none)
    (hne : ∀ i, i ≠ b.slot → s'.proc i = s.proc i) (hself : (s'.proc b.slot).state = .unused)
    (hf' : SameBusy f f') : Told s' f' h := by
  have hw := hk.busy t b hbusy
  constructor
  case legal => simpa only [hinit, hlog] using ht.legal
  case due => simpa only [hlog] using ht.due
  case unused =>
    intro j hj
    rw [hlog]
    by_cases hjb : j = b.slot
    · rw [hjb]
      exact hnone
    · rw [hne j hjb] at hj
      exact ht.unused j hj
  case reaped => exact ht.still_reaped hlog hf'
  case fits =>
    intro j hj hkept
    have hjb : j ≠ b.slot := by
      rintro rfl
      exact hj hself
    rw [hne j hjb] at hj
    obtain ⟨L, hL, hf⟩ := ht.fits j hj (hf'.kept hkept)
    exact ⟨L, by rw [hlog]; exact hL, hf.congr (by rw [hne j hjb]; exact .refl _) hinit rfl⟩
  case xstate =>
    intro i v hi
    obtain ⟨h1, h2, h3⟩ := ht.xstate i v hi
    have hib : i ≠ b.slot := by
      rintro rfl
      rw [hw.val] at h2 h3
      exact hw.state.elim h2 h3
    rw [hne i hib]
    exact ⟨h1, h2, h3⟩
  case empty => simpa only [hf'.empty, hlog] using ht.empty

lemma learn (hbusy : ∀ b, F.busy = some b → b.reaped = false)
    (hold : ∀ b, (f t).busy = some b → b.reaped = true → (s.proc b.slot).state = .unused)
    (hempty : F.empty = true → (f t).empty = true) : Told s (update f t F) h := by
  constructor
  case legal => exact ht.legal
  case due => exact ht.due
  case unused => exact ht.unused
  case reaped =>
    intro u b hu hr
    by_cases hut : u = t
    · rw [hut, update_self] at hu
      rw [hbusy b hu] at hr
      cases hr
    · rw [update_of_ne hut] at hu
      exact ht.reaped u b hu hr
  case fits =>
    intro j hj hkept
    refine ht.fits j hj fun u b hu hb => ?_
    by_cases hut : u = t
    · rw [hut] at hu
      by_contra hr
      exact hj (hb ▸ hold b hu (by simpa using hr))
    · exact hkept u b (by rw [update_of_ne hut]; exact hu) hb
  case xstate => exact ht.xstate
  case empty =>
    intro u hu
    by_cases hut : u = t
    · rw [hut, update_self] at hu
      exact ht.empty t (hempty hu)
    · rw [update_of_ne hut] at hu
      exact ht.empty u hu

section

variable (hinit : s'.initproc = s.initproc)

include hinit

/-- The history grows by an event about one process, and nothing else changes. -/
lemma emit {e : Event} {k : ℕ} {h' : Thread → Said} (hlog : s'.log = s.log ++ [e])
    (hrec : ∀ i, i ≠ k → record (lives s.log) e i = lives s.log i)
    (hne : ∀ i, i ≠ k → s'.proc i = s.proc i)
    (hexit : ∀ i, i ≠ k → (h' (.proc i)).exiting = (h (.proc i)).exiting)
    (hbusy : ∀ u b, b.slot ≠ k → ((f' u).busy = some b ↔ (f u).busy = some b))
    (hempty : ∀ u, (f' u).empty = false)
    (hok : Allowed s.initproc (lives s.log) (Kern.due s.log) e)
    (hdue : ∀ i, answer (Kern.due s.log) e i = (h' (.proc i)).due)
    (hxstate : ∀ i v, (h' (.proc i)).xstate = some v →
      (s'.proc i).xstate = v ∧ (s'.proc i).state ≠ .unused ∧ (s'.proc i).state ≠ .zombie)
    (hunused : (s'.proc k).state = .unused → record (lives s.log) e k = none)
    (hreaped : ∀ u b, (f' u).busy = some b → b.slot = k → b.reaped = true →
      record (lives s.log) e k = none)
    (hfits : (s'.proc k).state ≠ .unused → Kept f' k →
      ∃ L, record (lives s.log) e k = some L ∧ Fits s' h' k L) : Told s' f' h' := by
  have hlives : ∀ i, i ≠ k → lives s'.log i = lives s.log i := by
    intro i hi
    rw [hlog, lives_snoc, hrec i hi]
  have hself : record (lives s.log) e k = lives s'.log k := by rw [hlog, lives_snoc]
  simp only [hself] at hunused hreaped hfits
  constructor
  case legal =>
    rw [hinit, hlog]
    exact ht.legal.snoc hok
  case due =>
    intro i
    rw [hlog, due_snoc]
    exact hdue i
  case unused =>
    intro j hj
    by_cases hjk : j = k
    · rw [hjk] at hj ⊢
      exact hunused hj
    · rw [hne j hjk] at hj
      rw [hlives j hjk]
      exact ht.unused j hj
  case reaped =>
    intro u b hu hr
    by_cases hbk : b.slot = k
    · rw [hbk]
      exact hreaped u b hu hbk hr
    · rw [hlives _ hbk]
      exact ht.reaped u b ((hbusy u b hbk).mp hu) hr
  case fits =>
    intro j hj hkept
    by_cases hjk : j = k
    · rw [hjk] at hj hkept ⊢
      exact hfits hj hkept
    · rw [hne j hjk] at hj
      have hkept' : Kept f j := fun u b hu hb =>
        hkept u b ((hbusy u b (hb ▸ hjk)).mpr hu) hb
      obtain ⟨L, hL, hf⟩ := ht.fits j hj hkept'
      refine ⟨L, (hlives j hjk).trans hL, hf.congr ?_ hinit (hexit j hjk)⟩
      rw [hne j hjk]
      exact .refl _
  case xstate => exact hxstate
  case empty =>
    intro u hu
    rw [hempty] at hu
    cases hu

lemma emit_wait {e : Event} (hlog : s'.log = s.log ++ [e])
    (hproc : s'.proc = s.proc) (hrec : record (lives s.log) e = lives s.log)
    (hok : Allowed s.initproc (lives s.log) (Kern.due s.log) e)
    (hdue : answer (Kern.due s.log) e = update (Kern.due s.log) p H.due)
    (hexit : H.exiting = (h (.proc p)).exiting) (hx : H.xstate = (h (.proc p)).xstate)
    (hempty : ∀ u, (f u).empty = false) : Told s' f (update h (.proc p) H) := by
  have he := update_proj (g := h) (t := .proc p) Said.exiting hexit
  have hxs := update_proj (g := h) (t := .proc p) Said.xstate hx
  refine ht.emit (k := p) hinit hlog (fun _ _ => by rw [hrec]) (fun _ _ => by rw [hproc])
    (fun _ _ => he _) (fun _ _ _ => Iff.rfl) hempty hok ?due
    (by simpa only [hxs, hproc] using ht.xstate) (by rw [hproc, hrec]; exact ht.unused p) ?reaped ?fits
  case due =>
    intro i
    rw [hdue]
    by_cases hip : i = p
    · rw [hip, update_self, update_self]
    · rw [update_of_ne hip, update_of_ne (by simpa using hip)]
      exact ht.due i
  case reaped =>
    rintro u b hu rfl hr
    rw [hrec]
    exact ht.reaped u b hu hr
  case fits =>
    rw [hproc, hrec]
    intro hj hkept
    obtain ⟨L, hL, hf⟩ := ht.fits p hj hkept
    exact ⟨L, hL, hf.congr (by rw [hproc]; exact .refl _) hinit (he _)⟩

lemma emit_exiting (hk : Kin s g f) (hp : (s.proc p).state ≠ .unused)
    (hp' : (s.proc p).state ≠ .zombie) (hpi : p ≠ s.initproc) (hnone : (h (.proc p)).exiting = none)
    (hlog : s'.log = s.log ++ [.exiting p status]) (hproc : s'.proc = s.proc)
    (hH : H.exiting = some status ∧ H.due = (h (.proc p)).due ∧ H.xstate = (h (.proc p)).xstate) :
    Told s' f (update h (.proc p) H) := by
  have hd := update_proj (g := h) (t := .proc p) Said.due hH.2.1
  have hxs := update_proj (g := h) (t := .proc p) Said.xstate hH.2.2
  obtain ⟨L, hL, hf⟩ := ht.fits p hp (hk.kept hp hp')
  have hexit := hf.exiting hp'
  rw [hnone] at hexit
  have hgone : L.gone = false := by
    have := mt hf.gone.mp hp'
    simpa using this
  refine ht.emit hinit hlog (fun _ hi => update_of_ne hi _ _) (fun _ _ => by rw [hproc])
    (fun _ hi => by rw [update_of_ne (by simpa using hi)]) (fun _ _ _ => Iff.rfl) ?empty
    ⟨hpi, L, hL, hexit, hgone⟩ (fun i => by rw [hd]; exact ht.due i)
    (by simpa only [hxs, hproc] using ht.xstate) ?unused ?reaped ?fits
  case empty => exact fun u => Bool.eq_false_iff.mpr fun hu => hp ((hk.empty u hu).2 p)
  case unused =>
    rw [hproc]
    exact fun hu => absurd hu hp
  case reaped => exact fun u b hu hb _ => absurd hb (hk.not_busy hp hp' u b hu)
  case fits =>
    intro _ _
    refine ⟨{ L with exiting := some status }, by rw [record, update_self, hL, Option.map_some], ?_⟩
    obtain ⟨h1, h2, h3, h4, h5, h6⟩ := hf
    refine ⟨by rw [hproc]; exact h1, by rw [hproc, hinit]; exact h2, by rw [hinit]; exact h3,
      by rw [hproc]; exact h4, ?_, ?_⟩
    · rw [hproc]
      intro hz
      exact absurd hz hp'
    · intro _
      rw [update_self, hH.1]

lemma set_xstate (hp : (s.proc p).state ≠ .unused) (hp' : (s.proc p).state ≠ .zombie)
    (hlog : s'.log = s.log) (hproc : s'.proc = update s.proc p v)
    (hv : v.state = (s.proc p).state ∧ v.pid = (s.proc p).pid ∧ v.parent = (s.proc p).parent ∧
      v.xstate = status)
    (hH : H.exiting = (h (.proc p)).exiting ∧ H.due = (h (.proc p)).due ∧ H.xstate = some status) :
    Told s' f (update h (.proc p) H) := by
  obtain ⟨hself, hne⟩ := Function.eq_update_iff.mp hproc
  have hstate : ∀ i, (s'.proc i).state = (s.proc i).state := by
    intro i
    by_cases hi : i = p
    · rw [hi, hself, hv.1]
    · rw [hne i hi]
  have he := update_proj (g := h) (t := .proc p) Said.exiting hH.1
  have hd := update_proj (g := h) (t := .proc p) Said.due hH.2.1
  constructor
  case legal => simpa only [hinit, hlog] using ht.legal
  case due => simpa only [hlog, hd] using ht.due
  case unused => simpa only [hlog, hstate] using ht.unused
  case reaped => simpa only [hlog] using ht.reaped
  case fits =>
    intro j
    rw [hstate]
    intro hj hkept
    obtain ⟨L, hL, hf⟩ := ht.fits j hj hkept
    refine ⟨L, by rw [hlog]; exact hL, ?_⟩
    by_cases hjp : j = p
    · subst hjp
      obtain ⟨h1, h2, h3, h4, h5, h6⟩ := hf
      refine ⟨by rw [hself, hv.2.1]; exact h1, by rw [hself, hv.2.2.1, hinit]; exact h2,
        by rw [hinit]; exact h3, by rw [hstate]; exact h4, ?_, ?_⟩
      · rw [hstate]
        exact fun hz => absurd hz hp'
      · rw [hstate, he]
        exact h6
    · exact hf.congr (by rw [hne j hjp]; exact .refl _) hinit (he _)
  case xstate =>
    intro i x hi
    rw [hstate]
    by_cases hip : i = p
    · rw [hip, update_self, hH.2.2, Option.some.injEq] at hi
      rw [hip, hself, hv.2.2.2]
      exact ⟨hi, hp, hp'⟩
    · rw [update_of_ne (by simpa using hip)] at hi
      rw [hne i hip]
      exact ht.xstate i x hi
  case empty => simpa only [hlog] using ht.empty

lemma emit_forked (hk : Kin s g f) (hb : Base s g) (hc : s.thread c = t)
    (hbusy : (f t).busy = some b) (hst : b.val.state = .unused) (hpid : v.pid = pid)
    (hwho : (b.slot = s.initproc ∧ p = s.initproc ∧ (f t).empty = true) ∨
      (∃ P, lives s.log p = some P ∧ P.exiting = none ∧ P.gone = false) ∧ v.parent = some p)
    (hv : v.state = .runnable) (hF : F.busy = none ∧ F.empty = false)
    (hsaid : (h (.proc b.slot)).exiting = none)
    (hlog : s'.log = s.log ++ [.forked b.slot pid p]) (hproc : s'.proc = update s.proc b.slot v) :
    Told s' (update f t F) h := by
  have hw := hk.busy t b hbusy
  obtain ⟨hself, hne⟩ := Function.eq_update_iff.mp hproc
  have hnone : lives s.log b.slot = none := ht.unused _ (by rw [hw.val]; exact hst)
  have hother : ∀ u b', u ≠ t → (f u).busy = some b' → b'.slot ≠ b.slot := fun u b' hut hu hbb =>
    hut (hk.busy_unique hb hc (hbb ▸ hw.lock) hu)
  refine ht.emit hinit hlog (fun _ hi => update_of_ne hi _ _) hne (fun _ _ => rfl) ?busy ?empty
    ⟨hnone, ?ok⟩ ht.due ?xstate ?unused ?reaped ?fits
  case busy =>
    intro u b' hb'
    by_cases hut : u = t
    · rw [hut, update_self, hF.1, hbusy]
      constructor
      · rintro ⟨⟩
      · rintro ⟨⟩
        exact absurd rfl hb'
    · rw [update_of_ne hut]
  case empty =>
    intro u
    by_cases hut : u = t
    · rw [hut, update_self, hF.2]
    · rw [update_of_ne hut, Bool.eq_false_iff]
      intro hu
      rcases hwho with ⟨-, -, h3⟩ | ⟨⟨P, hP, -⟩, -⟩
      · exact hut ((hk.empty u hu).1.trans (hk.empty t h3).1.symm)
      · exact (ht.fits_of_lives hP).2 ((hk.empty u hu).2 p)
  case ok =>
    rcases hwho with ⟨h1, h2, h3⟩ | ⟨h1, -⟩
    · refine .inl ⟨h1, h2, fun j => ?_⟩
      exact ht.unused j ((hk.empty t h3).2 j)
    · exact .inr h1
  case xstate =>
    intro i x hi
    have hx := ht.xstate i x hi
    have hib : i ≠ b.slot := by
      rintro rfl
      rw [hw.val] at hx
      exact hx.2.1 hst
    rw [hne i hib]
    exact hx
  case unused =>
    rw [hself, hv]
    rintro ⟨⟩
  case reaped =>
    intro u b' hu hb' _
    have hut : u ≠ t := by
      rintro rfl
      rw [update_self, hF.1] at hu
      cases hu
    rw [update_of_ne hut] at hu
    exact absurd hb' (hother u b' hut hu)
  case fits =>
    intro _ _
    refine ⟨{ pid := pid, born := p, parent := p }, update_self _ _ _, ?_⟩
    constructor
    case pid => rw [hself, hpid]
    case parent =>
      intro hji
      rw [hself]
      rcases hwho with ⟨h1, -, -⟩ | ⟨-, h2⟩
      · rw [hinit] at hji
        exact absurd h1 hji
      · exact h2
    case root =>
      intro hji
      rw [hinit] at hji
      rcases hwho with ⟨-, h2, -⟩ | ⟨⟨P, hP, -⟩, -⟩
      · rw [hji]
        exact h2
      · -- `initproc` exists already
        have := (hk.init p (ht.fits_of_lives hP).2).1
        rw [← hji, hw.val] at this
        exact absurd hst this
    case gone => rw [hself, hv]; simp
    case status =>
      rw [hself, hv]
      intro hz
      cases hz
    case exiting => exact fun _ => hsaid.symm

lemma emit_gave (hk : Kin s g f) (hpar : (s.proc j).parent = some p)
    (hst : (s.proc j).state ≠ .unused) (hkept : ∀ u b, (f u).busy = some b → b.slot ≠ j)
    (hexit : (h (.proc p)).exiting ≠ none)
    (hlog : s'.log = s.log ++ [.gave j s.initproc]) (hproc : s'.proc = update s.proc j v)
    (hv : v.state = (s.proc j).state ∧ v.pid = (s.proc j).pid ∧ v.xstate = (s.proc j).xstate ∧
      v.parent = some s.initproc) (hf' : ∀ u, (f' u).busy = (f u).busy)
    (hempty : ∀ u, (f' u).empty = (f u).empty) :
    Told s' f' h := by
  obtain ⟨hself, hne⟩ := Function.eq_update_iff.mp hproc
  have hji : j ≠ s.initproc := by
    rintro rfl
    rw [hk.root] at hpar
    cases hpar
  obtain ⟨L, hL, hf⟩ := ht.fits j hst fun u b hu hb => absurd hb (hkept u b hu)
  obtain ⟨hp1, hp2, -⟩ := hk.alive j p hpar
  obtain ⟨P, hP, hfp⟩ := ht.fits p hp1 (hk.kept hp1 hp2)
  have hLp : L.parent = p := by
    have := hf.parent hji
    rw [hpar] at this
    exact (Option.some.inj this).symm
  have hgone : P.gone = false := by
    have := mt hfp.gone.mp hp2
    simpa using this
  refine ht.emit hinit hlog (fun _ hi => update_of_ne hi _ _) hne (fun _ _ => rfl)
    (fun u b _ => by rw [hf']) ?empty ⟨rfl, L, P, hL, hLp ▸ hP, ?ok, hgone⟩ ht.due ?xstate
    ?unused ?reaped ?fits
  case empty =>
    intro u
    rw [hempty, Bool.eq_false_iff]
    exact fun hu => hst ((hk.empty u hu).2 j)
  case ok =>
    rw [hfp.exiting hp2]
    exact hexit
  case xstate =>
    intro i x hi
    by_cases hij : i = j
    · rw [hij, hself, hv.1, hv.2.2.1, ← hij]
      exact ht.xstate i x hi
    · rw [hne i hij]
      exact ht.xstate i x hi
  case unused =>
    rw [hself, hv.1]
    exact fun hu => absurd hu hst
  case reaped =>
    intro u b hu hb _
    rw [hf'] at hu
    exact absurd hb (hkept u b hu)
  case fits =>
    intro _ _
    refine ⟨{ L with parent := s.initproc },
      by rw [record, update_self, hL, Option.map_some], ?_⟩
    obtain ⟨h1, h2, h3, h4, h5, h6⟩ := hf
    constructor
    case pid => rw [hself, hv.2.1, ← h1]
    case parent =>
      intro _
      rw [hself, hv.2.2.2]
    case root =>
      intro h
      rw [hinit] at h
      exact absurd h hji
    case gone => rw [hself, hv.1]; exact h4
    case status => rw [hself, hv.1, hv.2.2.1]; exact h5
    case exiting => rw [hself, hv.1]; exact h6

lemma emit_exited (hk : Kin s g f) (hp : (s.proc p).state ≠ .unused)
    (hp' : (s.proc p).state ≠ .zombie) (hpi : p ≠ s.initproc)
    (hno : ∀ j, (s.proc j).parent ≠ some p) (hexit : (h (.proc p)).exiting = some status)
    (hx : (h (.proc p)).xstate = some status) (hH : H.due = (h (.proc p)).due ∧ H.xstate = none)
    (hlog : s'.log = s.log ++ [.exited p]) (hproc : s'.proc = update s.proc p v)
    (hv : v.state = .zombie ∧ v.pid = (s.proc p).pid ∧ v.xstate = (s.proc p).xstate ∧
      v.parent = (s.proc p).parent) (hf' : ∀ u, (f' u).busy = (f u).busy)
    (hempty : ∀ u, (f' u).empty = true → (f u).empty = true) :
    Told s' f' (update h (.proc p) H) := by
  obtain ⟨hself, hne⟩ := Function.eq_update_iff.mp hproc
  have hd := update_proj (g := h) (t := .proc p) Said.due hH.1
  obtain ⟨L, hL, hf⟩ := ht.fits p hp (hk.kept hp hp')
  have hLexit : L.exiting = some status := (hf.exiting hp').trans hexit
  have hgone : L.gone = false := by
    have := mt hf.gone.mp hp'
    simpa using this
  refine ht.emit hinit hlog (fun _ hi => update_of_ne hi _ _) hne
    (fun _ hi => by rw [update_of_ne (by simpa using hi)]) (fun u b _ => by rw [hf']) ?empty
    ⟨⟨L, status, hL, hLexit, hgone⟩, ?ok⟩ (fun i => by rw [hd]; exact ht.due i) ?xstate
    ?unused ?reaped ?fits
  case empty =>
    exact fun u => Bool.eq_false_iff.mpr fun hu => hp ((hk.empty u (hempty u hu)).2 p)
  case ok =>
    intro c C hC
    obtain ⟨hfc, -⟩ := ht.fits_of_lives hC
    by_cases hci : c = s.initproc
    · rw [hfc.root hci, hci]
      exact Ne.symm hpi
    · intro hCp
      exact hno c (by rw [hfc.parent hci, hCp])
  case xstate =>
    intro i x hi
    have hip : i ≠ p := by
      rintro rfl
      rw [update_self, hH.2] at hi
      cases hi
    rw [update_of_ne (by simpa using hip)] at hi
    rw [hne i hip]
    exact ht.xstate i x hi
  case unused =>
    rw [hself, hv.1]
    rintro ⟨⟩
  case reaped =>
    intro u b hu hb _
    rw [hf'] at hu
    exact absurd hb (hk.not_busy hp hp' u b hu)
  case fits =>
    intro _ _
    refine ⟨{ L with gone := true }, by rw [record, update_self, hL, Option.map_some], ?_⟩
    obtain ⟨h1, h2, h3, h4, h5, h6⟩ := hf
    constructor
    case pid => rw [hself, hv.2.1, ← h1]
    case parent => rw [hself, hv.2.2.2, hinit]; exact h2
    case root => rw [hinit]; exact h3
    case gone => rw [hself, hv.1]; simp
    case status =>
      intro _
      rw [hself, hv.2.2.1, (ht.xstate p status hx).1]
      exact hLexit
    case exiting =>
      intro hz
      rw [hself, hv.1] at hz
      exact absurd rfl hz

lemma emit_reaped (hk : Kin s g f) (hb : Base s g) (hc : s.thread c = .proc p)
    (hbusy : (f (.proc p)).busy = some b) (hreap : b.reaped = false) (hst : b.val.state = .zombie)
    (hpar : b.val.parent = some p) (hpid : b.val.pid = pid) (hx : b.val.xstate = status)
    (hp : (s.proc p).state ≠ .unused) (hp' : (s.proc p).state ≠ .zombie)
    (hexit : (h (.proc p)).exiting = none) (hdue : (h (.proc p)).due = none)
    (hH : H.due = some (some pid) ∧ H.exiting = (h (.proc p)).exiting ∧
      H.xstate = (h (.proc p)).xstate)
    (hF : F.busy = some { b with reaped := true } ∧ F.empty = (f (.proc p)).empty)
    (hlog : s'.log = s.log ++ [.reaped p b.slot pid status]) (hproc : s'.proc = s.proc) :
    Told s' (update f (.proc p) F) (update h (.proc p) H) := by
  have hw := hk.busy _ b hbusy
  have he := update_proj (g := h) (t := .proc p) Said.exiting hH.2.1
  have hxs := update_proj (g := h) (t := .proc p) Said.xstate hH.2.2
  have hji : b.slot ≠ s.initproc := by
    intro hji
    have := hk.root
    rw [← hji, hw.val, hpar] at this
    cases this
  have hother : ∀ u b', u ≠ .proc p → (f u).busy = some b' → b'.slot ≠ b.slot :=
    fun u b' hut hu hbb => hut (hk.busy_unique hb hc (hbb ▸ hw.lock) hu)
  have hstz : (s.proc b.slot).state = .zombie := by rw [hw.val, hst]
  have hkept : Kept f b.slot := by
    intro u b' hu hbb
    by_cases hut : u = .proc p
    · rw [hut, hbusy] at hu
      cases hu
      exact hreap
    · exact absurd hbb (hother u b' hut hu)
  obtain ⟨L, hL, hf⟩ := ht.fits b.slot (by rw [hstz]; simp) hkept
  obtain ⟨P, hP, hfp⟩ := ht.fits p hp (hk.kept hp hp')
  have hPg : P.gone = false := by
    have := mt hfp.gone.mp hp'
    simpa using this
  refine ht.emit hinit hlog (fun _ hi => update_of_ne hi _ _) (fun _ _ => by rw [hproc])
    (fun _ _ => he _) ?busy ?empty
    ⟨(ht.due p).trans hdue, ⟨P, hP, (hfp.exiting hp').trans hexit, hPg⟩, L, hL, ?pid, ?parent,
      ?status, hf.gone.mpr hstz⟩ ?due (by simpa only [hxs, hproc] using ht.xstate)
    (fun _ => update_self _ _ _) (fun _ _ _ _ _ => update_self _ _ _) ?fits
  case busy =>
    intro u b' hb'
    by_cases hut : u = .proc p
    · rw [hut, update_self, hF.1, hbusy]
      constructor
      · rintro ⟨⟩
        exact absurd rfl hb'
      · rintro ⟨⟩
        exact absurd rfl hb'
    · rw [update_of_ne hut]
  case empty =>
    intro u
    rw [update_proj (g := f) (t := .proc p) Family.empty hF.2, Bool.eq_false_iff]
    exact fun hu => hp ((hk.empty u hu).2 p)
  case pid => rw [hf.pid, hw.val, hpid]
  case parent =>
    have := hf.parent hji
    rw [hw.val, hpar] at this
    exact (Option.some.inj this).symm
  case status => rw [hf.status hstz, hw.val, hx]
  case due =>
    intro i
    rw [answer]
    by_cases hip : i = p
    · rw [hip, update_self, update_self, hH.1]
    · rw [update_of_ne hip, update_of_ne (by simpa using hip)]
      exact ht.due i
  case fits =>
    intro _ hkept'
    have := hkept' (.proc p) { b with reaped := true } (by rw [update_self, hF.1]) rfl
    cases this

end

lemma set_init (hempty : ∀ j, (s.proc j).state = .unused) (hlog0 : s.log = [])
    (hlog : s'.log = s.log) (hproc : s'.proc = s.proc) (hf' : SameBusy f f') : Told s' f' h := by
  constructor
  case legal =>
    rw [hlog, hlog0]
    exact legal_nil _
  case due => simpa only [hlog] using ht.due
  case unused => simpa only [hlog, hproc] using ht.unused
  case reaped => exact ht.still_reaped hlog hf'
  case fits =>
    intro j hj
    rw [hproc] at hj
    exact absurd (hempty j) hj
  case xstate => simpa only [hproc] using ht.xstate
  case empty => simpa only [hf'.empty, hlog] using ht.empty

end

end Told

end Xv6.Kern
