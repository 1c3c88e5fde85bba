import Xv6.Kern.Base

/-!
How the actions of the kernel keep the invariant of parents and children.
-/

namespace Xv6.Kern

open Lib.Wp Lib.Conc
open Function (update update_eq_self update_of_ne update_self)

variable {s s' : State} {g g' : Thread → Run} {f : Thread → Family} {t u : Thread} {i j p : ℕ}
  {b : Busy}

lemma Works.keep {r : Run} (hw : Works s u r b) (hth : ∀ c, s'.thread c = s.thread c)
    (hctx : s'.ctx = s.ctx) (hinit : s'.initproc = s.initproc)
    (hval : s'.proc b.slot = s.proc b.slot) : Works s' u r b := by
  obtain ⟨hslot, hlock, hcur, hv, hst, hpar, hready, hfirst⟩ := hw
  exact ⟨hslot, hlock, by simpa only [hth] using hcur, hval.trans hv, hst, hpar, by rwa [hctx],
    by rwa [hinit]⟩

/-- A record that a thread works on has no parent but the thread. -/
lemma Works.of_parent {r : Run} (hw : Works s u r b) (hpar : (s.proc b.slot).parent = some p) :
    u = .proc p := by
  rw [hw.val] at hpar
  rcases hw.parent with h0 | ⟨i, rfl, h1⟩
  · rw [h0] at hpar
    cases hpar
  · rw [h1] at hpar
    cases hpar
    rfl

namespace Kin

section

variable {c : ℕ} {F : Family} {z : State} {v : Proc} (h : Kin s g f)

include h

lemma busy_unique (hb : Base s g) (ht : s.thread c = t) (hk : .proc b.slot ∈ (g t).locks)
    (hu : (f u).busy = some b) : u = t := by
  obtain ⟨c', hc'⟩ := (h.busy u b hu).current
  have hlock := (h.busy u b hu).lock
  rw [← ht, hb.excl (ht.symm ▸ hk : .proc b.slot ∈ (g (s.thread c)).locks) (hc'.symm ▸ hlock)]
  exact hc'.symm

/-- Nobody works on the record of a process that is neither UNUSED nor a ZOMBIE. -/
lemma not_busy (h1 : (s.proc j).state ≠ .unused) (h2 : (s.proc j).state ≠ .zombie) (u : Thread)
    (b : Busy) (hu : (f u).busy = some b) : b.slot ≠ j := by
  rintro rfl
  have hw := h.busy u b hu
  rw [hw.val] at h1 h2
  exact hw.state.elim h1 h2

lemma lt_of_state (h1 : (s.proc j).state ≠ .unused) : j < NPROC := by
  by_contra hj
  exact h1 (h.range j (by omega)).1

lemma lt_of_parent (h1 : (s.proc j).parent = some p) : j < NPROC := by
  by_contra hj
  rw [(h.range j (by omega)).2] at h1
  cases h1

lemma frame (hproc : s'.proc = s.proc) (hinit : s'.initproc = s.initproc)
    (hbusy : ∀ u b, (f u).busy = some b → .proc b.slot ∈ (g' u).locks ∧ (∃ c, s'.thread c = u) ∧
      (b.ready = true → s'.ctx b.slot = .forkret)) :
    Kin s' g' f := by
  constructor
  case busy =>
    intro u b hu
    have hw := h.busy u b hu
    obtain ⟨h1, h2, h3⟩ := hbusy u b hu
    exact ⟨hw.slot, h1, h2, by rw [hproc]; exact hw.val, hw.state, hw.parent, h3,
      by rw [hinit]; exact hw.first⟩
  case kid => simpa only [hproc] using h.kid
  case nokids => simpa only [hproc, hinit] using h.nokids
  case alive => simpa only [hproc] using h.alive
  case has => simpa only [hproc, hinit] using h.has
  case init => simpa only [hproc, hinit] using h.init
  case root => simpa only [hproc, hinit] using h.root
  case clean => simpa only [hproc] using h.clean
  case range => simpa only [hproc] using h.range
  case empty => simpa only [hproc] using h.empty

/-- A change of records that keeps who is there, who is a zombie and who is whose parent. The
thread that acts may work on a record of its own. -/
lemma set (hth : ∀ c, s'.thread c = s.thread c) (hinit : s'.initproc = s.initproc)
    (hctx : s'.ctx = s.ctx)
    (hunused : ∀ i, (s'.proc i).state = .unused ↔ (s.proc i).state = .unused)
    (hzombie : ∀ i, (s'.proc i).state = .zombie ↔ (s.proc i).state = .zombie)
    (hparent : ∀ i, (s'.proc i).parent = (s.proc i).parent)
    (hother : ∀ u b, u ≠ t → (f u).busy = some b → s'.proc b.slot = s.proc b.slot)
    (hkid : F.kid = (f t).kid) (hnokids : F.nokids = (f t).nokids) (hempty : F.empty = (f t).empty)
    (hslot : F.busy.map Busy.slot = (f t).busy.map Busy.slot)
    (hbusy : ∀ b, F.busy = some b → s'.proc b.slot = b.val ∧ (b.ready = true →
      s.ctx b.slot = .forkret) ∧ (b.first = true → t = .sched 0 ∧ s.initproc = b.slot)) :
    Kin s' g (update f t F) := by
  have hk := update_proj (g := f) (t := t) Family.kid hkid
  have hn := update_proj (g := f) (t := t) Family.nokids hnokids
  have he := update_proj (g := f) (t := t) Family.empty hempty
  have hs := update_proj (g := f) (t := t) (fun x => x.busy.map Busy.slot) hslot
  constructor
  case busy =>
    intro u b hu
    by_cases hut : u = t
    · subst hut
      rw [update_self] at hu
      rw [hu, Option.map_some] at hslot
      obtain ⟨b', hb', hbs⟩ := Option.map_eq_some_iff.mp hslot.symm
      have hw := h.busy u b' hb'
      obtain ⟨hv, hr, hfi⟩ := hbusy b hu
      have hval : b'.val = s.proc b.slot := by rw [← hw.val, hbs]
      have hst := hw.state
      have hpar := hw.parent
      rw [hval] at hst hpar
      refine ⟨hbs ▸ hw.slot, hbs ▸ hw.lock, by simpa only [hth] using hw.current, hv, ?_, ?_, ?_, ?_⟩
      · rw [← hv]
        exact hst.imp (hunused _).mpr (hzombie _).mpr
      · rw [← hv, hparent]
        exact hpar
      · rw [hctx]
        exact hr
      · rw [hinit]
        exact hfi
    · rw [update_of_ne hut] at hu
      exact (h.busy u b hu).keep hth hctx hinit (hother u b hut hu)
  case kid => simpa only [hk, hparent] using h.kid
  case nokids => simpa only [hn, hparent, hinit] using h.nokids
  case alive => simpa only [hparent, ne_eq, hunused, hzombie] using h.alive
  case has => simpa only [hparent, ne_eq, hunused, hinit] using h.has
  case init => simpa only [ne_eq, hunused, hzombie, hinit] using h.init
  case root => simpa only [hparent, hinit] using h.root
  case clean =>
    intro i hi hno
    rw [hparent]
    refine h.clean i ((hunused i).mp hi) fun u b hu hbi => ?_
    have := hs u
    rw [hu, Option.map_some] at this
    obtain ⟨b', hb', hbs⟩ := Option.map_eq_some_iff.mp this
    exact hno u b' hb' (hbs.trans hbi)
  case range => simpa only [hparent, hunused] using h.range
  case empty => simpa only [he, hunused] using h.empty

/-- A change of records that keeps who is there, by a thread that works on no record. -/
lemma set_quiet (hth : ∀ c, z.thread c = s.thread c) (hinit : z.initproc = s.initproc)
    (hctx : z.ctx = s.ctx) (hunused : ∀ i, (z.proc i).state = .unused ↔ (s.proc i).state = .unused)
    (hzombie : ∀ i, (z.proc i).state = .zombie ↔ (s.proc i).state = .zombie)
    (hparent : ∀ i, (z.proc i).parent = (s.proc i).parent)
    (hbusy : ∀ u b, (f u).busy = some b → z.proc b.slot = s.proc b.slot) : Kin z g f := by
  have := h.set (t := .proc 0) (F := f (.proc 0)) hth hinit hctx hunused hzombie hparent
    (fun u b _ => hbusy u b) rfl rfl rfl rfl (fun b hb => ⟨(hbusy _ b hb).trans (h.busy _ b hb).val,
      (h.busy _ b hb).ready, (h.busy _ b hb).first⟩)
  rwa [update_eq_self] at this

lemma learn (hbusy : ∀ b, F.busy = some b → Works s t (g t) b)
    (hkid : ∀ i j, t = .proc i → F.kid = some j → (s.proc j).parent = some i)
    (hnokids : ∀ i, t = .proc i → 0 < F.nokids → i ≠ s.initproc ∧
      ∀ j < F.nokids, (s.proc j).parent ≠ some i) (hempty : F.empty = true → (f t).empty = true)
    (hclean : ∀ b, (f t).busy = some b → (∀ b', F.busy = some b' → b'.slot ≠ b.slot) →
      (s.proc b.slot).state = .unused → (s.proc b.slot).parent = none) :
    Kin s g (update f t F) := by
  constructor
  case busy =>
    intro u b hu
    by_cases hut : u = t
    · subst hut
      rw [update_self] at hu
      exact hbusy b hu
    · rw [update_of_ne hut] at hu
      exact h.busy u b hu
  case kid =>
    intro i j hij
    by_cases hit : Thread.proc i = t
    · rw [hit, update_self] at hij
      exact hkid i j hit.symm hij
    · rw [update_of_ne hit] at hij
      exact h.kid i j hij
  case nokids =>
    intro i
    by_cases hit : Thread.proc i = t
    · rw [hit, update_self]
      exact hnokids i hit.symm
    · rw [update_of_ne hit]
      exact h.nokids i
  case alive => exact h.alive
  case has => exact h.has
  case init => exact h.init
  case root => exact h.root
  case clean =>
    intro j hj hno
    by_cases hold : ∃ b, (f t).busy = some b ∧ b.slot = j
    · obtain ⟨b, hb, rfl⟩ := hold
      refine hclean b hb (fun b' hb' => hno t b' ?_) hj
      rw [update_self]
      exact hb'
    · refine h.clean j hj fun u b hu hbj => ?_
      by_cases hut : u = t
      · subst hut
        exact hold ⟨b, hu, hbj⟩
      · exact hno u b (by rw [update_of_ne hut]; exact hu) hbj
  case range => exact h.range
  case empty =>
    intro u hu
    by_cases hut : u = t
    · subst hut
      rw [update_self] at hu
      exact h.empty u (hempty hu)
    · rw [update_of_ne hut] at hu
      exact h.empty u hu

section

variable (hth : ∀ c, z.thread c = s.thread c) (hinit : z.initproc = s.initproc) (hctx : z.ctx = s.ctx)

include hth hinit hctx

/-- The record of process `j` becomes `v`, and thread `t` knows `F` afterwards. -/
lemma put (hproc : z.proc = update s.proc j v) (hj : j < NPROC)
    (hF : ∀ b, F.busy = some b → Works z t (g t) b)
    (hother : ∀ u b, u ≠ t → (f u).busy = some b → b.slot ≠ j)
    (hdone : ∀ b, (f t).busy = some b → b.slot = j)
    (hkids : F.kid = (f t).kid ∨ F.kid = none)
    (hkid : ∀ i, (update f t F (.proc i)).kid = some j → v.parent = some i)
    (hnokids : F.nokids = (f t).nokids ∨ F.nokids = 0)
    (hpar : ∀ i, 0 < (f (.proc i)).nokids → v.parent = some i → (s.proc j).parent = some i)
    (halive : ∀ q, v.parent = some q →
      (z.proc q).state ≠ .unused ∧ (z.proc q).state ≠ .zombie ∧ q ≠ j)
    (hstay : ∀ k, (s.proc k).parent = some j → v.state = (s.proc j).state)
    (hhas : v.state ≠ .unused → j ≠ s.initproc → v.parent ≠ none)
    (init : ∀ k, (z.proc k).state ≠ .unused →
      (z.proc z.initproc).state ≠ .unused ∧ (z.proc z.initproc).state ≠ .zombie)
    (hroot : s.initproc = j → v.parent = none)
    (hclean : v.state = .unused → v.parent = none ∨ ∃ b, F.busy = some b ∧ b.slot = j)
    (hempty : F.empty = true → (f t).empty = true)
    (hunused : ∀ u, (f u).empty = true → (update f t F u).empty = true → v.state = .unused) :
    Kin z g (update f t F) := by
  obtain ⟨hself, hne⟩ := Function.eq_update_iff.mp hproc
  constructor
  case init => exact init
  case busy =>
    intro u b hu
    by_cases hut : u = t
    · rw [hut, update_self] at hu
      rw [hut]
      exact hF b hu
    · rw [update_of_ne hut] at hu
      exact (h.busy u b hu).keep hth hctx hinit (hne _ (hother u b hut hu))
  case kid =>
    intro i k hk
    by_cases hkj : k = j
    · rw [hkj] at hk ⊢
      rw [hself]
      exact hkid i hk
    · rw [hne k hkj]
      by_cases hit : Thread.proc i = t
      · rw [hit, update_self] at hk
        refine h.kid i k ?_
        rw [hit, ← hk]
        exact (hkids.resolve_right (by rw [hk]; simp)).symm
      · rw [update_of_ne hit] at hk
        exact h.kid i k hk
  case nokids =>
    intro i hi
    have hsame : (update f t F (.proc i)).nokids = (f (.proc i)).nokids := by
      by_cases hit : Thread.proc i = t
      · rw [hit, update_self] at hi ⊢
        exact hnokids.resolve_right (by omega)
      · rw [update_of_ne hit]
    rw [hsame] at hi ⊢
    obtain ⟨h1, h2⟩ := h.nokids i hi
    rw [hinit]
    refine ⟨h1, fun k hk => ?_⟩
    by_cases hkj : k = j
    · rw [hkj, hself]
      exact fun hv => h2 k hk (hkj ▸ hpar i hi hv)
    · rw [hne k hkj]
      exact h2 k hk
  case alive =>
    intro k q hk
    by_cases hkj : k = j
    · rw [hkj, hself] at hk
      rw [hkj]
      exact halive q hk
    · rw [hne k hkj] at hk
      by_cases hqj : q = j
      · rw [hqj] at hk ⊢
        rw [hself, hstay k hk]
        exact h.alive k j hk
      · rw [hne q hqj]
        exact h.alive k q hk
  case has =>
    intro k
    rw [hinit]
    by_cases hkj : k = j
    · rw [hkj, hself]
      exact hhas
    · rw [hne k hkj]
      exact h.has k
  case root =>
    rw [hinit]
    by_cases hij : s.initproc = j
    · rw [hij, hself]
      exact hroot hij
    · rw [hne _ hij]
      exact h.root
  case clean =>
    intro k hk hno
    by_cases hkj : k = j
    · rw [hkj, hself] at hk ⊢
      refine (hclean hk).resolve_right ?_
      rintro ⟨b, hb, hbj⟩
      refine hno t b ?_ (hbj.trans hkj.symm)
      rw [update_self]
      exact hb
    · rw [hne k hkj] at hk ⊢
      refine h.clean k hk fun u b hu => ?_
      by_cases hut : u = t
      · rw [hut] at hu
        rw [hdone b hu]
        exact Ne.symm hkj
      · exact hno u b (by rw [update_of_ne hut]; exact hu)
  case range =>
    intro k hk
    rw [hne k (by omega)]
    exact h.range k hk
  case empty =>
    intro u hu
    have hu' : (f u).empty = true := by
      by_cases hut : u = t
      · rw [hut, update_self] at hu
        rw [hut]
        exact hempty hu
      · rwa [update_of_ne hut] at hu
    refine ⟨(h.empty u hu').1, fun k => ?_⟩
    by_cases hkj : k = j
    · rw [hkj, hself]
      exact hunused u hu' hu
    · rw [hne k hkj]
      exact (h.empty u hu').2 k

lemma adopt (hb : Base s g) (ht : s.thread c = .proc p) (hbusy : (f (.proc p)).busy = some b)
    (hst : b.val.state = .unused) (hpar : b.val.parent = none)
    (hp : (s.proc p).state ≠ .unused ∧ (s.proc p).state ≠ .zombie)
    (hkids : (f (.proc p)).nokids = 0) (hproc : z.proc = update s.proc b.slot v)
    (hv : v.state = .unused ∧ v.parent = some p) :
    Kin z g (update f (.proc p) { f (.proc p) with busy := some { b with val := v } }) := by
  have hw := h.busy _ b hbusy
  have hpb : p ≠ b.slot := by
    rintro rfl
    rw [hw.val] at hp
    exact hp.1 hst
  have hstate : ∀ i, (z.proc i).state = (s.proc i).state := by
    rw [hproc]
    exact update_proj Proc.state (by rw [hv.1, hw.val, hst])
  refine h.put hth hinit hctx hproc hw.slot ?F ?other ?done (.inl rfl) ?kid (.inl rfl) ?par ?alive
    (fun _ _ => by rw [hv.1, hw.val, hst]) (fun hu => absurd hv.1 hu)
    (by simpa only [hstate, hinit] using h.init) ?root (fun _ => .inr ⟨_, rfl, rfl⟩) id
    fun _ _ _ => hv.1
  case F =>
    rintro b' ⟨⟩
    exact ⟨hw.slot, hw.lock, by simpa only [hth] using hw.current,
      (Function.eq_update_iff.mp hproc).1, .inl hv.1, .inr ⟨p, rfl, hv.2⟩,
      by rw [hctx]; exact hw.ready, by rw [hinit]; exact hw.first⟩
  case other => exact fun u b' hut hu hbb => hut (h.busy_unique hb ht (hbb ▸ hw.lock) hu)
  case done =>
    intro b' hb'
    rw [hbusy] at hb'
    cases hb'
    rfl
  case kid =>
    intro i hi
    rw [update_proj (g := f) Family.kid (by rfl)] at hi
    have := h.kid i _ hi
    rw [hw.val, hpar] at this
    cases this
  case par =>
    rw [hv.2]
    rintro i hi ⟨⟩
    rw [hkids] at hi
    exact absurd hi (lt_irrefl _)
  case alive =>
    rw [hv.2]
    rintro q ⟨⟩
    rw [hstate]
    exact ⟨hp.1, hp.2, hpb⟩
  case root =>
    intro hib
    have := (h.init p hp.1).1
    rw [hib, hw.val] at this
    exact absurd hst this

/-- The process whose record is set up starts to exist, and the record is no longer worked
on. -/
lemma begin (hb : Base s g) (ht : s.thread c = t) (hbusy : (f t).busy = some b)
    (hst : b.val.state = .unused) (hv : v.state = .runnable ∧ v.parent = b.val.parent)
    (hwho : b.slot = s.initproc ∧ (f t).empty = true ∨ b.val.parent ≠ none ∧
      ∃ i, (s.proc i).state ≠ .unused)
    (hproc : z.proc = update s.proc b.slot v) :
    Kin z g (update f t { f t with busy := none, empty := false }) := by
  have hw := h.busy _ b hbusy
  obtain ⟨hself, hne⟩ := Function.eq_update_iff.mp hproc
  -- the parent stays, and a process that is there before is another one
  have hpar : v.parent = (s.proc b.slot).parent := by rw [hv.2, hw.val]
  have hthere : ∀ i, (s.proc i).state ≠ .unused → i ≠ b.slot := by
    rintro i hi rfl
    rw [hw.val] at hi
    exact hi hst
  refine h.put hth hinit hctx hproc hw.slot (by rintro b' ⟨⟩) ?other ?done (.inl rfl) ?kid (.inl rfl)
    (fun i _ hi => hpar ▸ hi) ?alive ?stay ?has ?init ?root (by rw [hv.1]; rintro ⟨⟩)
    (by rintro ⟨⟩) ?unused
  case other => exact fun u b' hut hu hbb => hut (h.busy_unique hb ht (hbb ▸ hw.lock) hu)
  case done =>
    intro b' hb'
    rw [hbusy] at hb'
    cases hb'
    rfl
  case kid =>
    intro i hi
    rw [update_proj (g := f) Family.kid (by rfl)] at hi
    rw [hpar]
    exact h.kid i _ hi
  case alive =>
    intro q hq
    have hq := h.alive _ q (hpar ▸ hq)
    rw [hne q (hthere q hq.1)]
    exact hq
  case stay => exact fun k hk => absurd rfl (hthere _ (h.alive k _ hk).1)
  case has =>
    intro _ hbi
    rcases hwho with ⟨h1, -⟩ | ⟨h1, -⟩
    · exact absurd h1 hbi
    · rw [hv.2]
      exact h1
  case init =>
    intro j _
    rw [hinit]
    rcases hwho with ⟨hbi, -⟩ | ⟨-, i, hi⟩
    · rw [← hbi, hself, hv.1]
      simp
    · have hii := h.init i hi
      rw [hne _ (hthere _ hii.1)]
      exact hii
  case root =>
    intro hib
    rw [hpar, ← hib]
    exact h.root
  case unused =>
    intro u hu hu'
    exfalso
    by_cases hut : u = t
    · rw [hut, update_self] at hu'
      cases hu'
    · rcases hwho with ⟨-, he⟩ | ⟨-, i, hi⟩
      · exact hut ((h.empty u hu).1.trans (h.empty t he).1.symm)
      · exact hi ((h.empty u hu).2 i)

lemma clear (hb : Base s g) (ht : s.thread c = t) (hbusy : (f t).busy = some b)
    (hkid : (f t).kid = none) (hv : v.state = .unused ∧ v.parent = none)
    (hproc : z.proc = update s.proc b.slot v) :
    Kin z g (update f t { f t with busy := some { b with val := v } }) := by
  have hw := h.busy _ b hbusy
  obtain ⟨hself, hne⟩ := Function.eq_update_iff.mp hproc
  have hlive : ∀ q, (s.proc q).state ≠ .unused → (s.proc q).state ≠ .zombie → q ≠ b.slot := by
    rintro q h1 h2 rfl
    rw [hw.val] at h1 h2
    exact hw.state.elim h1 h2
  refine h.put hth hinit hctx hproc hw.slot ?F ?other ?done (.inl rfl) ?kid (.inl rfl) ?par ?alive ?stay
    (fun hu => absurd hv.1 hu) ?init (fun _ => hv.2) (fun _ => .inl hv.2) id fun _ _ _ => hv.1
  case F =>
    rintro b' ⟨⟩
    exact ⟨hw.slot, hw.lock, by simpa only [hth] using hw.current, hself, .inl hv.1,
      .inl hv.2, by rw [hctx]; exact hw.ready, by rw [hinit]; exact hw.first⟩
  case other => exact fun u b' hut hu hbb => hut (h.busy_unique hb ht (hbb ▸ hw.lock) hu)
  case done =>
    intro b' hb'
    rw [hbusy] at hb'
    cases hb'
    rfl
  case kid =>
    intro i hi
    rw [update_proj (g := f) Family.kid (by rfl)] at hi
    obtain rfl := hw.of_parent (h.kid i _ hi)
    rw [hkid] at hi
    cases hi
  case par | alive =>
    rw [hv.2]
    intros
    contradiction
  case stay =>
    intro k hk
    obtain ⟨h1, h2, -⟩ := h.alive k _ hk
    exact absurd rfl (hlive _ h1 h2)
  case init =>
    intro j hj
    have hjb : j ≠ b.slot := by
      rintro rfl
      rw [hself, hv.1] at hj
      exact hj rfl
    rw [hne j hjb] at hj
    have hii := h.init j hj
    rw [hinit, hne _ (hlive _ hii.1 hii.2)]
    exact hii

lemma give (hkid : (f (.proc p)).kid = some j) (hbusy : (f (.proc p)).busy = none)
    (hv : v.state = (s.proc j).state ∧ v.parent = some s.initproc)
    (hproc : z.proc = update s.proc j v) :
    Kin z g (update f (.proc p) { f (.proc p) with kid := none }) := by
  have hpar := h.kid p j hkid
  have hstate : ∀ i, (z.proc i).state = (s.proc i).state := by
    rw [hproc]
    exact update_proj Proc.state hv.1
  have hinit' := h.init p (h.alive j p hpar).1
  have hij : s.initproc ≠ j := by
    rintro hij
    have := h.root
    rw [hij, hpar] at this
    cases this
  have hbj : ∀ u b, (f u).busy = some b → b.slot ≠ j := by
    rintro u b hu rfl
    obtain rfl := (h.busy u b hu).of_parent hpar
    rw [hbusy] at hu
    cases hu
  refine h.put hth hinit hctx hproc (h.lt_of_parent hpar) (fun b hb => by cases hbusy.symm.trans hb)
    (fun u b _ => hbj u b) (fun b hb => by cases hbusy.symm.trans hb) (.inr rfl) ?kid (.inl rfl) ?par
    ?alive (fun _ _ => hv.1) (fun _ _ => by rw [hv.2]; simp)
    (by simpa only [hstate, hinit] using h.init) (fun h => absurd h hij) ?clean id
    fun u hu _ => by rw [hv.1]; exact (h.empty u hu).2 j
  case kid =>
    intro i hi
    by_cases hip : i = p
    · rw [hip, update_self] at hi
      cases hi
    · rw [update_of_ne (by simpa using hip)] at hi
      have := h.kid i j hi
      rw [hpar] at this
      exact absurd (Option.some.inj this).symm hip
  case par =>
    rw [hv.2]
    rintro i hi ⟨⟩
    exact absurd rfl (h.nokids _ hi).1
  case alive =>
    rw [hv.2]
    rintro q ⟨⟩
    rw [hstate]
    exact ⟨hinit'.1, hinit'.2, hij⟩
  case clean =>
    intro hu
    have := h.clean j (hv.1 ▸ hu) hbj
    rw [hpar] at this
    cases this

lemma die (hi : (s.proc i).state ≠ .unused) (hi' : (s.proc i).state ≠ .zombie)
    (hno : (f (.proc i)).nokids = NPROC)
    (hF : F.busy = none ∧ F.kid = none ∧ F.nokids = 0 ∧ F.empty = false)
    (hbusy : (f (.proc i)).busy = none) (hv : v.state = .zombie ∧ v.parent = (s.proc i).parent)
    (hproc : z.proc = update s.proc i v) :
    Kin z g (update f (.proc i) F) := by
  obtain ⟨-, hne⟩ := Function.eq_update_iff.mp hproc
  obtain ⟨hni, hnok⟩ := h.nokids i (by rw [hno]; decide)
  rw [hno] at hnok
  refine h.put hth hinit hctx hproc (h.lt_of_state hi) (by rw [hF.1]; rintro b ⟨⟩)
    (fun u b _ => h.not_busy hi hi' u b) (fun b hb => by cases hbusy.symm.trans hb) (.inr hF.2.1) ?kid
    (.inr hF.2.2.1) (fun j _ hj => hv.2 ▸ hj) ?alive
    (fun k hk => absurd hk (hnok k (h.lt_of_parent hk))) (fun _ hii => by rw [hv.2]; exact h.has i hi hii)
    ?init (fun hii => absurd hii.symm hni) (by rw [hv.1]; rintro ⟨⟩)
    (by rw [hF.2.2.2]; rintro ⟨⟩) fun u hu _ => absurd ((h.empty u hu).2 i) hi
  case kid =>
    intro j hj
    by_cases hji : j = i
    · rw [hji, update_self, hF.2.1] at hj
      cases hj
    · rw [update_of_ne (by simpa using hji)] at hj
      rw [hv.2]
      exact h.kid j i hj
  case alive =>
    intro q hq
    have hq := h.alive i q (hv.2 ▸ hq)
    rw [hne q hq.2.2]
    exact hq
  case init =>
    intro j hj
    rw [hinit, hne _ (Ne.symm hni)]
    exact h.init i hi

end

lemma set_init (hempty : ∀ j, (s.proc j).state = .unused) (hnokids : ∀ i, (f (.proc i)).nokids = 0)
    (hpar : (s.proc b.slot).parent = none) (ht : t = .sched 0) (hbusy : (f t).busy = some b)
    (hF : F.busy = some b.setFirst ∧ F.empty = (f t).empty) (hth : ∀ c, s'.thread c = s.thread c)
    (hinit : s'.initproc = b.slot) (hctx : s'.ctx = s.ctx) (hproc : s'.proc = s.proc) :
    Kin s' g (update f t F) := by
  have hne : ∀ i, update f t F (.proc i) = f (.proc i) :=
    fun i => update_of_ne (by rw [ht]; simp) _ _
  have he := update_proj (g := f) (t := t) Family.empty hF.2
  constructor
  case busy =>
    intro u b' hu
    by_cases hut : u = t
    · rw [hut, update_self, hF.1] at hu
      cases hu
      rw [hut]
      obtain ⟨hslot, hlock, hcur, hv, hst, hpar, hready, -⟩ := h.busy t b hbusy
      exact ⟨hslot, hlock, by simpa only [hth] using hcur, by rw [hproc]; exact hv, hst, hpar,
        by rw [hctx]; exact hready, fun _ => ⟨ht, hinit⟩⟩
    · rw [update_of_ne hut] at hu
      obtain ⟨hslot, hlock, hcur, hv, hst, hpar, hready, hfirst⟩ := h.busy u b' hu
      exact ⟨hslot, hlock, by simpa only [hth] using hcur, by rw [hproc]; exact hv, hst, hpar,
        by rw [hctx]; exact hready, fun hf => absurd ((hfirst hf).1.trans ht.symm) hut⟩
  case kid => simpa only [hproc, hne] using h.kid
  case nokids =>
    intro i hi
    rw [hne, hnokids] at hi
    exact absurd hi (lt_irrefl _)
  case alive => simpa only [hproc] using h.alive
  case has | init =>
    intro i hi
    rw [hproc] at hi
    exact absurd (hempty i) hi
  case root => rw [hproc, hinit, hpar]
  case clean =>
    intro j hj hno
    rw [hproc] at hj ⊢
    refine h.clean j hj fun u b' hu => ?_
    by_cases hut : u = t
    · rw [hut, hbusy] at hu
      cases hu
      exact hno t b.setFirst (by rw [update_self]; exact hF.1)
    · exact hno u b' (by rw [update_of_ne hut]; exact hu)
  case range => simpa only [hproc] using h.range
  case empty => simpa only [hproc, he] using h.empty

end

end Kin

end Xv6.Kern
