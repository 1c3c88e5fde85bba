import Xv6.Kern.Files

/-!
Making processes: `allocproc`, `freeproc`, `fork` and `userinit` keep the invariant.
-/

namespace Xv6.Kern

open Lib.Wp Lib.Conc Vm
open Function (update update_eq_self update_of_ne update_self)

variable {e : Env} {s s' : State} {ℓ : Thread → Ghost} {t : Thread} {l l' : Ghost}
  {i j p np : ℕ} {b : Busy} {F : Proc → Proc}

/-! ### Records that a thread works on -/

lemma Inv.learn {G : Family} (h : Inv e s ℓ) (ht : turn t s) (hl : ℓ t = l)
    (hbusy : ∀ b, G.busy = some b → Works s t l.run b ∧ b.reaped = false)
    (hkid : ∀ i j, t = .proc i → G.kid = some j → (s.proc j).parent = some i)
    (hnokids : ∀ i, t = .proc i → 0 < G.nokids → i ≠ s.initproc ∧
      ∀ j < G.nokids, (s.proc j).parent ≠ some i)
    (hempty : G.empty = true → l.family.empty = true)
    (hold : ∀ b, l.family.busy = some b → (b.reaped = true → (s.proc b.slot).state = .unused) ∧
      ((∀ b', G.busy = some b' → b'.slot ≠ b.slot) → (s.proc b.slot).state = .unused →
        (s.proc b.slot).parent = none)) :
    Inv e s (update ℓ t (l.setFamily G)) := by
  constructor
  case base =>
    rw [part_same hl Ghost.run]
    exact h.base
  case kin =>
    rw [part_same hl Ghost.run, part]
    refine h.kin.learn (fun b hb => ?_) hkid hnokids (by rw [hl]; exact hempty) ?_
    · rw [hl]
      exact (hbusy b hb).1
    · intro b hb
      rw [hl] at hb
      exact (hold b hb).2
  case told =>
    rw [part, part_same hl Ghost.said]
    refine h.told.learn (fun b hb => (hbusy b hb).2) (fun b hb => ?_) (by rw [hl]; exact hempty)
    rw [hl] at hb
    exact (hold b hb).1
  case sleeps =>
    rw [part_same hl Ghost.run, part_same hl Ghost.wait]
    exact h.sleeps
  case watched =>
    rw [part_same hl Ghost.run, part_same hl Ghost.watch]
    exact h.watched
  case marks =>
    rw [part_same hl Ghost.watch]
    exact h.marks
  case dead => exact h.dead_update ht rfl fun i hi => by tauto
  case fresh => exact h.fresh_update ht rfl

lemma Inv.learn_busy {ob : Option Busy} (h : Inv e s ℓ) (ht : turn t s) (hl : ℓ t = l)
    (hbusy : ∀ b, ob = some b → Works s t l.run b ∧ b.reaped = false)
    (hold : ∀ b, l.family.busy = some b → (b.reaped = true → (s.proc b.slot).state = .unused) ∧
      ((∀ b', ob = some b' → b'.slot ≠ b.slot) → (s.proc b.slot).state = .unused →
        (s.proc b.slot).parent = none)) :
    Inv e s (update ℓ t (l.setBusy ob)) := by
  refine h.learn ht hl hbusy ?_ ?_ id hold
  · intro i j hti hk
    subst hti
    exact h.kin.kid i j (by rw [hl]; exact hk)
  · intro i hti hk
    subst hti
    have := h.kin.nokids i (by rw [hl]; exact hk)
    rw [hl] at this
    exact this

/-- A thread finds an UNUSED process, with its lock held: it can work on the record. -/
lemma getProc_find (hp : p < NPROC) (hk : .proc p ∈ l.run.locks) (hbusy : l.family.busy = none) :
    Ok e t (getProc p) (fun q l' => q.state = .unused ∧ q.parent = none ∧
      l' = l.setBusy (some { slot := p, val := q }) ∨ q.state ≠ .unused ∧ l' = l) l := by
  refine safe_turn fun s ℓ h hl ht => ?_
  simp only [wp_map, wp_get]
  by_cases hs : (s.proc p).state = .unused
  · have hpar : (s.proc p).parent = none :=
      h.kin.clean p hs (h.not_busy ht hl hk (by rw [hbusy]; simp))
    refine ⟨_, ?_, .inl ⟨hs, hpar, rfl⟩⟩
    refine h.learn_busy ht hl ?_ (by rw [hbusy]; simp)
    rintro b ⟨⟩
    exact ⟨⟨hp, hk, ⟨_, ht⟩, rfl, .inl hs, .inl hpar, by simp, by simp⟩, rfl⟩
  · refine ⟨l, ?_, .inr ⟨hs, rfl⟩⟩
    rw [← hl, update_eq_self]
    exact h

lemma release_busy (hb : l.family.busy = some b) (hr : b.reaped = true → b.val.state = .unused)
    (hpar : b.val.state = .unused → b.val.parent = none)
    (hc : CanRelease e t (l.setBusy none) (.proc b.slot)) :
    Ok e t (release (.proc b.slot)) (fun _ l' => l' = (l.setBusy none).unlock (.proc b.slot)) l := by
  refine safe_move (r := l.setBusy none) (fun s ℓ h hl ht => ?_) (release_ok hc)
  have hw := h.works hl hb
  refine h.learn_busy ht hl (by simp) ?_
  intro b' hb'
  rw [hb] at hb'
  cases hb'
  rw [hw.val]
  exact ⟨hr, fun _ => hpar⟩

/-- A change of the record that the thread works on, for all parts but the two it may be about. -/
lemma Inv.set_busy {G : Family} {H : Said} (h : Inv e s ℓ) (ht : turn t s) (hl : ℓ t = l)
    (hb : l.family.busy = some b)
    (hproc : s'.proc = update s.proc b.slot (F b.val))
    (hcpu : s'.cpu = s.cpu) (hheld : s'.held = s.held) (hlive : s'.live = s.live)
    (hctx : s'.ctx = s.ctx) (hcond : s'.cond = s.cond) (hwaiting : s'.waiting = s.waiting)
    (hwaking : s'.waking = s.waking) (hinit : s'.initproc = s.initproc)
    (hfree : l.run.on ≠ some b.slot ∧ l.run.seen ≠ some b.slot ∧ l.run.pick ≠ some b.slot)
    (hst : l.run.st = .running)
    (hnew : (F b.val).state ≠ .sleeping)
    (hzombie : (F b.val).state = .zombie → b.val.state = .zombie ∧ (F b.val).parent = b.val.parent)
    (hmade : (F b.val).state ≠ .unused → s.ctx b.slot ≠ .zero)
    (hkin : Kin s' (fun u => (ℓ u).run) (update (fun u => (ℓ u).family) t G))
    (htold : Told s' (update (fun u => (ℓ u).family) t G)
      (update (fun u => (ℓ u).said) t H))
    (hmarks : Marks s' fun u => (ℓ u).watch) :
    Inv e s' (update ℓ t { l with family := G, said := H }) := by
  have hw := h.works hl hb
  obtain ⟨hself, hne⟩ := Function.eq_update_iff.mp hproc
  have hnr : (s.proc b.slot).state ≠ .running := by
    rw [hw.val]
    rcases hw.state with h1 | h1 <;> rw [h1] <;> simp
  have htb : t ≠ .proc b.slot := by
    rintro rfl
    exact hnr ((h.state_eq ht hl).trans hst)
  constructor
  case base =>
    rw [part_same hl Ghost.run]
    refine h.base.set_off ht htb (by rw [hl]; exact hfree) (by rw [hl]; exact hw.lock) hnr hlive hheld
      hcpu hctx (fun i hi => by rw [hne i hi]) ?_
    rw [hself]
    exact hmade
  case kin =>
    rw [part_same hl Ghost.run, part]
    exact hkin
  case told =>
    rw [part, part]
    exact htold
  case sleeps =>
    rw [part_same hl Ghost.run, part_same hl Ghost.wait]
    refine h.sleeps.frame hcond hwaiting hwaking (fun i hi => ?_) (fun i h1 h2 => .inl ?_)
      (fun _ _ _ => id) (fun i n _ h1 h2 => ⟨h1, by rw [hlive]; exact h2⟩)
      fun i n m _ h1 h2 => ⟨h1, by rw [hlive]; exact h2⟩
    · by_cases hib : i = b.slot
      · rw [hib, hself] at hi
        exact absurd hi hnew
      · rw [← hne i hib]
        exact hi
    · have hib : i ≠ b.slot := by
        rintro rfl
        rw [hw.val] at h1 h2
        exact hw.state.elim h1 h2
      rw [hne i hib]
      exact ⟨rfl, h1, h2⟩
  case watched =>
    rw [part_same hl Ghost.run, part_same hl Ghost.watch]
    refine h.watched.set hinit (fun i p _ hi hz => ?_) (fun i h1 h2 => ?_) (fun i hi => .inl ?_) ?_
    · by_cases hib : i = b.slot
      · rw [hib, hself] at hi hz
        obtain ⟨h1, h2⟩ := hzombie hz
        rw [hib, hw.val, ← h2]
        exact ⟨hi, h1⟩
      · rw [hne i hib] at hi hz
        exact ⟨hi, hz⟩
    · have hib : i ≠ b.slot := by
        rintro rfl
        rw [hw.val] at h1 h2
        exact hw.state.elim h1 h2
      rw [hne i hib]
      exact ⟨h1, h2, .inl rfl⟩
    · have hib : i ≠ b.slot := by
        rintro rfl
        exact hnew (hself ▸ hi.1)
      rw [InWait, hne i hib, hwaiting] at hi
      exact hi
    · intro u k hk
      simpa only [State.thread, hlive] using h.watched.held u k hk
  case marks =>
    rw [part_same hl Ghost.watch]
    exact hmarks
  case dead =>
    refine h.dead_update ht hlive fun i hi => ?_
    by_cases hib : i = b.slot
    · rw [hib, hw.val]
      exact hw.state.imp_right .inl
    · rw [hne i hib] at hi
      tauto
  case fresh => exact h.fresh_update ht hctx

lemma Inv.life (hI : Inv e s ℓ) (ht : turn (.proc p) s) (hl : ℓ (.proc p) = l)
    (hst : l.run.st = .running) :
    ∃ L, lives s.log p = some L ∧ L.exiting = l.said.exiting ∧ L.gone = false := by
  have hs : (s.proc p).state = .running := (hI.state_eq ht hl).trans hst
  obtain ⟨L, hL, hf⟩ := hI.told.fits p (by rw [hs]; simp)
    (hI.kin.kept (by rw [hs]; simp) (by rw [hs]; simp))
  refine ⟨L, hL, ?_, ?_⟩
  · rw [hf.exiting (by rw [hs]; simp), hl]
  · have := mt hf.gone.mp (by rw [hs]; simp)
    simpa using this

/-- A thread that works on a record, and knew `l` before. -/
def Ghost.tend (l : Ghost) (b : Busy) : Ghost := (l.lock (.proc b.slot)).setBusy (some b)

lemma Ghost.tend_busy (l : Ghost) (b : Busy) : (l.tend b).family.busy = some b := rfl

lemma Plain.free (h : Plain l) (j : ℕ) :
    l.run.on ≠ some j ∧ l.run.seen ≠ some j ∧ l.run.pick ≠ some j := by
  rw [h.on, h.seen, h.pick]
  simp

lemma Inv.tend_other (hI : Inv e s ℓ) (ht : turn t s) (hl : ℓ t = l.tend b) (u : Thread)
    (b' : Busy) (hut : u ≠ t) (hu : (ℓ u).family.busy = some b') : b'.slot ≠ b.slot := by
  intro hbb
  have hw := hI.works hl (Ghost.tend_busy l b)
  exact hut (hI.kin.busy_unique hI.base ht (by rw [hl, hbb]; exact hw.lock) hu)

lemma Inv.tend_unnamed (hI : Inv e s ℓ) (ht : turn t s) (hl : ℓ t = l.tend b)
    (hn : l.watch.named = none) (u : Thread) (j pid : ℕ)
    (hu : (ℓ u).watch.named = some (j, pid)) : j ≠ b.slot := by
  rintro rfl
  have hw := hI.works hl (Ghost.tend_busy l b)
  have hut := hI.watched.needs_unique hI.base ht (by rw [hl]; exact hw.lock)
    (.inr (.inr ⟨b.slot, pid, hu, rfl⟩))
  rw [hut, hl] at hu
  change l.watch.named = _ at hu
  rw [hn] at hu
  cases hu

lemma allocpid_ok : Ok e t allocpid (fun _ l' => l' = l) l := by
  refine quiet_ok fun s => ?_
  simp only [wp_bind, wp_get, wp_set, wp_pure]
  exact ⟨rfl, rfl, rfl, rfl, rfl, rfl, rfl, rfl, rfl, rfl, rfl⟩

section

variable (h : Plain l)

include h

/-- A thread changes the record that it works on: what is left to see is who is there, what the
history says and who is marked. -/
lemma tend_write {g : State → State} {G : Family}
    (hg : ∀ s, g s = { s.setProc b.slot F with log := (g s).log, deeds := (g s).deeds })
    (hrest : ∀ s ℓ, Inv e s ℓ → turn t s → ℓ t = l.tend b → Works s t (l.tend b).run b →
      (g s).proc = update s.proc b.slot (F b.val) →
      ((F b.val).state ≠ .sleeping ∧ ((F b.val).state = .zombie →
        b.val.state = .zombie ∧ (F b.val).parent = b.val.parent) ∧
        ((F b.val).state ≠ .unused → s.ctx b.slot ≠ .zero)) ∧
      Kin (g s) (fun u => (ℓ u).run) (update (fun u => (ℓ u).family) t G) ∧
      Told (g s) (update (fun u => (ℓ u).family) t G) (fun u => (ℓ u).said) ∧
      Marks (g s) fun u => (ℓ u).watch) :
    Ok e t (write g) (fun _ l' => l' = (l.tend b).setFamily G) (l.tend b) := by
  refine write_ok fun s ℓ hI hl ht => ?_
  have hw := hI.works hl (Ghost.tend_busy l b)
  have hproc : (g s).proc = update s.proc b.slot (F b.val) := by
    rw [hg, ← hw.val]
    rfl
  obtain ⟨⟨hnew, hzombie, hmade⟩, hkin, htold, hmarks⟩ := hrest s ℓ hI ht hl hw hproc
  refine hI.set_busy (H := (l.tend b).said) ht hl (Ghost.tend_busy l b) hproc (by rw [hg]; rfl)
    (by rw [hg]; rfl) (by rw [hg]; rfl) (by rw [hg]; rfl) (by rw [hg]; rfl) (by rw [hg]; rfl)
    (by rw [hg]; rfl) (by rw [hg]; rfl) (h.free _) h.st hnew hzombie hmade hkin ?_ hmarks
  have hsaid : update (fun u => (ℓ u).said) t (l.tend b).said = fun u => (ℓ u).said := by
    rw [← hl]
    exact update_eq_self _ _
  rw [hsaid]
  exact htold

lemma tend_set (hF : ∀ q, (F q).state = q.state ∧ (F q).parent = q.parent ∧ (F q).killed = q.killed)
    (hpid : b.val.state ≠ .unused → (F b.val).pid = b.val.pid)
    (hq : b.val.state = .unused ∨ b.reaped = true) :
    Ok e t (setProc b.slot F) (fun _ l' => l' = l.tend (b.set F)) (l.tend b) := by
  refine tend_write (G := (l.tend b).family.setBusy (some (b.set F))) (F := F) h (fun _ => rfl) ?_
  intro s ℓ hI ht hl hw hproc
  have hval : s.proc b.slot = b.val := hw.val
  have hstate := State.setProc_proj (s := s) (j := b.slot) Proc.state (hF _).1
  have hne : ∀ i, i ≠ b.slot → (s.setProc b.slot F).proc i = s.proc i :=
    fun i hi => State.setProc_of_ne _ _ hi
  refine ⟨⟨?_, ?_, ?_⟩, ?_, ?_, ?_⟩
  · rw [(hF _).1]
    rcases hw.state with h1 | h1 <;> rw [h1] <;> simp
  · rw [(hF _).1]
    exact fun hz => ⟨hz, (hF _).2.1⟩
  · rw [(hF _).1, ← hval]
    exact hI.base.made _
  · refine hI.kin.set (fun _ => rfl) rfl rfl (fun i => by rw [hstate]) (fun i => by rw [hstate])
      (State.setProc_proj Proc.parent (hF _).2.1)
      (fun u b' hut hu => hne _ (hI.tend_other ht hl u b' hut hu)) (by rw [hl]; rfl) (by rw [hl]; rfl)
      (by rw [hl]; rfl) (by rw [hl]; rfl) ?_
    rintro b' ⟨⟩
    exact ⟨by rw [hproc]; exact update_self _ _ _, hw.ready, hw.first⟩
  · refine hI.told.set hI.kin rfl rfl (fun i => by rw [hstate]) (fun i hi hkept => ?_)
      (.update (by simp only [hl]; rfl) (by simp only [hl]; rfl))
    have hib : i ≠ b.slot := by
      rintro rfl
      rcases hq with hq | hq
      · rw [hval] at hi
        exact hi hq
      · have := hkept t b (show (ℓ t).family.busy = some b by rw [hl]; rfl) rfl
        rw [hq] at this
        cases this
    rw [hne i hib]
    exact .refl _
  · refine hI.marks.set rfl (fun i => by rw [hstate]) (State.setProc_proj Proc.killed (hF _).2.2)
      (fun i hi => ?_) ?_
    · by_cases hib : i = b.slot
      · rw [hib, hval] at hi
        rw [hib, State.setProc_self, hval, hpid hi]
      · rw [hne i hib]
    · intro u j pid hu
      rw [hne j (hI.tend_unnamed ht hl h.named u j pid hu)]

lemma tend_clear (hkid : l.family.kid = none)
    (hF : ∀ q, (F q).state = .unused ∧ (F q).parent = none ∧ (F q).killed = false)
    (hq : b.val.state = .unused ∨ b.reaped = true) :
    Ok e t (setProc b.slot F) (fun _ l' => l' = l.tend (b.set F)) (l.tend b) := by
  refine tend_write (G := (l.tend b).family.setBusy (some (b.set F))) (F := F) h (fun _ => rfl) ?_
  intro s ℓ hI ht hl hw hproc
  have hbusy : (ℓ t).family.busy = some b := by rw [hl]; rfl
  refine ⟨⟨?_, ?_, ?_⟩, ?_, ?_, ?_⟩
  · rw [(hF _).1]
    simp
  · rw [(hF _).1]
    rintro ⟨⟩
  · rw [(hF _).1]
    exact fun hn => absurd rfl hn
  · have := hI.kin.clear (z := s.setProc b.slot F) (fun _ => rfl) rfl rfl hI.base ht hbusy
      (by rw [hl]; exact hkid) ⟨(hF b.val).1, (hF b.val).2.1⟩ hproc
    simp only [hl] at this
    exact this
  · have hnone : lives s.log b.slot = none := by
      rcases hq with hq | hq
      · exact hI.told.unused _ (by rw [hw.val]; exact hq)
      · exact hI.told.reaped t b hbusy hq
    refine hI.told.clear hI.kin rfl rfl hbusy hnone (fun i hi => State.setProc_of_ne _ _ hi) ?_
      (.update (by simp only [hl]; rfl) (by simp only [hl]; rfl))
    rw [State.setProc_self, (hF _).1]
  · exact hI.marks.clear rfl hproc ⟨(hF _).1, (hF _).2.2⟩ (hI.tend_unnamed ht hl h.named)

lemma tend_adopt (hkids : l.family.nokids = 0) (hst : b.val.state = .unused)
    (hpar : b.val.parent = none) :
    Ok e (.proc p) (setProc b.slot fun q => { q with parent := some p })
      (fun _ l' => l' = l.tend (b.set fun q => { q with parent := some p })) (l.tend b) := by
  refine tend_write (G := (l.tend b).family.setBusy (some (b.set _)))
    (F := fun q => { q with parent := some p }) h (fun _ => rfl) ?_
  intro s ℓ hI ht hl hw hproc
  have hfield {α : Type} (X : Proc → α) := State.setProc_proj (s := s) (j := b.slot)
    (F := fun q => { q with parent := some p }) X
  refine ⟨⟨?_, ?_, ?_⟩, ?_, ?_, ?_⟩
  · change b.val.state ≠ .sleeping
    rw [hst]
    simp
  · change b.val.state = .zombie → _
    rw [hst]
    rintro ⟨⟩
  · exact fun hn => absurd hst hn
  · have hp : (s.proc p).state = .running := (hI.state_eq ht hl).trans h.st
    have := hI.kin.adopt (z := s.setProc b.slot fun q => { q with parent := some p })
      (fun _ => rfl) rfl rfl hI.base ht (by rw [hl]; rfl) hst hpar (by rw [hp]; simp)
      (by rw [hl]; exact hkids) hproc ⟨hst, rfl⟩
    simp only [hl] at this
    exact this
  · refine hI.told.set hI.kin rfl rfl (fun i => by rw [hfield Proc.state rfl]) (fun i hi _ => ?_)
      (.update (by simp only [hl]; rfl) (by simp only [hl]; rfl))
    have hib : i ≠ b.slot := by
      rintro rfl
      rw [hw.val] at hi
      exact hi hst
    rw [State.setProc_of_ne _ _ hib]
    exact .refl _
  · exact hI.marks.set rfl (fun i => by rw [hfield Proc.state rfl]) (hfield Proc.killed rfl)
      (fun i _ => hfield Proc.pid rfl i) fun _ i _ _ => hfield Proc.pid rfl i

lemma setContext_ok (hst : b.val.state = .unused) :
    Ok e t (setContext b.slot) (fun _ l' => l' = l.tend b.setReady) (l.tend b) := by
  refine write_ok fun s ℓ hI hl ht => ?_
  have hw := hI.works hl (Ghost.tend_busy l b)
  have hval : s.proc b.slot = b.val := hw.val
  have htb : t ≠ .proc b.slot := by
    rintro rfl
    have := (hI.state_eq ht hl).trans h.st
    rw [hval, hst] at this
    cases this
  have hon := hI.base.off_cpu ht htb (by rw [hl]; exact h.free _) (by rw [hl]; exact hw.lock)
    (by rw [hval, hst]; simp)
  have hnl := hI.base.not_live hon
  have hfresh : ℓ (.proc b.slot) = .fresh b.slot := hI.dead _ hnl (by rw [hval]; exact .inl hst)
  have hother : ∀ i, i ≠ b.slot → update s.ctx b.slot .forkret i = s.ctx i :=
    fun i hi => update_of_ne hi _ _
  constructor
  case base =>
    rw [part_same hl Ghost.run]
    exact hI.base.set_context hon rfl rfl rfl rfl rfl
  case kin =>
    rw [part_same hl Ghost.run, part]
    have hbusy : (ℓ t).family.busy = some b := by rw [hl]; rfl
    -- first the context, then the mark that it is set up
    have hkin : Kin { s with ctx := update s.ctx b.slot .forkret }
        (fun u => (ℓ u).run) fun u => (ℓ u).family := by
      refine hI.kin.frame rfl rfl fun u b' hu => ?_
      have hw' := hI.kin.busy u b' hu
      refine ⟨hw'.lock, hw'.current, fun hr => ?_⟩
      by_cases hbb : b'.slot = b.slot
      · rw [hbb]
        exact update_self _ _ _
      · exact (hother _ hbb).trans (hw'.ready hr)
    refine hkin.set (fun _ => rfl) rfl rfl (fun _ => Iff.rfl) (fun _ => Iff.rfl) (fun _ => rfl)
      (fun _ _ _ _ => rfl) (by rw [hl]; rfl) (by rw [hl]; rfl) (by rw [hl]; rfl) (by rw [hl]; rfl) ?_
    rintro b' ⟨⟩
    exact ⟨hval, fun _ => update_self _ _ _, hw.first⟩
  case told =>
    rw [part, part_same hl Ghost.said]
    exact hI.told.set hI.kin rfl rfl (fun _ => Iff.rfl) (fun _ _ _ => .refl _)
      (.update (by simp only [hl]; rfl) (by simp only [hl]; rfl))
  case sleeps =>
    rw [part_same hl Ghost.run, part_same hl Ghost.wait]
    exact hI.sleeps.idle_step rfl rfl rfl rfl rfl fun _ => rfl
  case watched =>
    rw [part_same hl Ghost.run, part_same hl Ghost.watch]
    exact hI.watched.mild (.of_proc rfl rfl rfl rfl) hI.watched.held
  case marks =>
    rw [part_same hl Ghost.watch]
    exact hI.marks.mild (.of_proc rfl rfl rfl rfl)
  case dead => exact hI.dead_update ht rfl fun i hi => by tauto
  case fresh =>
    intro i hi
    by_cases hib : i = b.slot
    · rw [hib, update_of_ne (Ne.symm htb)]
      exact hfresh
    · have hi' : s.ctx i = .forkret := by
        rw [← hother i hib]
        exact hi
      exact hI.fresh_update ht rfl i hi'

/-- The process whose record is set up starts to exist, as a child of `p` or as the first one. -/
lemma startChild_ok (hst : b.val.state = .unused) (hready : b.ready = true)
    (hwho : ∀ s ℓ, Inv e s ℓ → turn t s → ℓ t = l.tend b →
      (b.slot = s.initproc ∧ p = s.initproc ∧ l.family.empty = true) ∨
      (∃ P, lives s.log p = some P ∧ P.exiting = none ∧ P.gone = false) ∧ b.val.parent = some p) :
    Ok e t (startChild p b.slot b.val.pid)
      (fun _ l' => l' = (l.tend b).setFamily (l.tend b).family.begin) (l.tend b) := by
  refine tend_write (G := (l.tend b).family.begin) (F := fun q => { q with state := .runnable }) h
    (fun _ => rfl) ?_
  intro s ℓ hI ht hl hw hproc
  have hctx : s.ctx b.slot = .forkret := hw.ready hready
  have hbusy : (ℓ t).family.busy = some b := by rw [hl]; rfl
  have hwho' := hwho s ℓ hI ht hl
  refine ⟨⟨by simp, by simp, fun _ => ?_⟩, ?_, ?_, ?_⟩
  · rw [hctx]
    simp
  · have := hI.kin.begin (z := { s.setProc b.slot fun q => { q with state := .runnable } with
      log := s.log ++ [.forked b.slot b.val.pid p], deeds := s.deeds ++ [.made b.slot] })
      (v := { b.val with state := .runnable }) (fun _ => rfl) rfl rfl hI.base ht hbusy hst ⟨rfl, rfl⟩ ?_
      hproc
    · simp only [hl] at this
      exact this
    · rw [hl]
      rcases hwho' with ⟨h1, -, h2⟩ | ⟨⟨P, hP, -⟩, hpar⟩
      · exact .inl ⟨h1, h2⟩
      · refine .inr ⟨by rw [hpar]; simp, p, fun hu => ?_⟩
        rw [hI.told.unused p hu] at hP
        cases hP
  · refine hI.told.emit_forked (v := { b.val with state := .runnable }) rfl hI.kin hI.base ht hbusy
      hst rfl (by rw [hl]; exact hwho') rfl ⟨rfl, rfl⟩ ?_ rfl hproc
    rw [hI.fresh _ hctx]
    rfl
  · exact hI.marks.begin rfl hproc (by rw [hw.val]; exact hst) ⟨by simp, by rw [hw.val], by rw [hw.val]⟩

/-! ### `allocproc` and `freeproc` -/

/-- The lock of the record is given up, and the thread knows what it knew before. -/
lemma Plain.untend (hk : .proc b.slot ∉ l.run.locks)
    (hr : b.reaped = true → b.val.state = .unused)
    (hpar : b.val.state = .unused → b.val.parent = none) (hsig : l.wait.sig = none) :
    Ok e t (release (.proc b.slot)) (fun _ l' => l' = l) (l.tend b) := by
  have hback : (l.tend b).setBusy none = l.lock (.proc b.slot) := by
    obtain ⟨run, ⟨busy, kid, nokids, empty⟩, said, wait, watch⟩ := l
    cases h.busy
    rfl
  refine (release_busy (Ghost.tend_busy l b) hr hpar ?_).mono ?_
  · rw [hback]
    exact (h.lock _).canRelease (Finset.mem_insert_self _ _) (by simp [hsig])
      fun hn => hk (h.needs _ hn)
  · rintro _ l' rfl
    rw [hback]
    exact Ghost.lock_unlock hk

lemma freeproc_ok (hkid : l.family.kid = none)
    (hq : b.val.state = .unused ∨ b.reaped = true) :
    Ok e t (freeproc b.slot) (fun _ l' => ∃ b', l' = l.tend b' ∧ b'.slot = b.slot ∧
      b'.val.state = .unused ∧ b'.val.parent = none) (l.tend b) := by
  refine getProc_then fun q => ?_
  refine then_ok doVm_ok fun _ => ?_
  refine then_ok (tend_set h (fun _ => ⟨rfl, rfl, rfl⟩) (fun _ => rfl) hq) fun _ => ?_
  refine then_ok doVm_ok fun _ => ?_
  refine then_ok (tend_set (b := b.set _) h (fun _ => ⟨rfl, rfl, rfl⟩) (fun _ => rfl) hq) fun _ => ?_
  refine Safe.mono (tend_clear (b := (b.set _).set _) h hkid (fun _ => ⟨rfl, rfl, rfl⟩) ?_) ?_
  · exact hq
  · rintro _ l' rfl
    exact ⟨_, rfl, rfl, rfl, rfl⟩

/-- A record that `allocproc` has found, and the pid it gets. -/
structure Blank (b : Busy) : Prop where
  state : b.val.state = .unused
  parent : b.val.parent = none
  reaped : b.reaped = false

lemma findStep_ok (hsig : l.wait.sig = none) :
    Ok e t (findStep p) (fun r l' => match r with
      | .inl q => q = p + 1 ∧ p < NPROC ∧ l' = l
      | .inr none => l' = l
      | .inr (some q) => ∃ b, b.slot = q ∧ Blank b ∧ .proc q ∉ l.run.locks ∧ l' = l.tend b) l := by
  unfold findStep
  split
  · rename_i hlt
    refine acquire_then fun hk => ?_
    refine Safe.bind (getProc_find hlt (Finset.mem_insert_self _ _) h.busy) ?_
    rintro q l' (⟨hst, hpar, rfl⟩ | ⟨hst, rfl⟩)
    · rw [if_pos hst]
      exact ⟨{ slot := p, val := q }, rfl, ⟨hst, hpar, rfl⟩, hk, rfl⟩
    · rw [if_neg hst]
      refine h.unlock_then hk (by simp [hsig]) ?_
      exact ⟨rfl, hlt, rfl⟩
  · exact rfl

lemma findUnused_ok (hsig : l.wait.sig = none) :
    Ok e t findUnused (fun r l' => match r with
      | none => l' = l
      | some q => ∃ b, b.slot = q ∧ Blank b ∧ .proc q ∉ l.run.locks ∧ l' = l.tend b) l := by
  refine safe_loop (J := fun n p l' => n + p = NPROC ∧ l' = l) (n := NPROC) ⟨rfl, rfl⟩ (by omega) ?_
  rintro n p l' ⟨hnp, rfl⟩
  refine (findStep_ok h hsig).mono ?_
  intro r l' hr
  cases r with
  | inl q =>
    obtain ⟨rfl, hlt, rfl⟩ := hr
    exact ⟨n - 1, by omega, by omega, rfl⟩
  | inr o =>
    cases o with
    | none | some q => exact hr

/-- What `allocproc` returns: nothing, or a process whose record is set up. -/
def Allocated (l : Ghost) (r : Option ℕ) (l' : Ghost) : Prop :=
  match r with
  | none => l' = l
  | some q => ∃ b, b.slot = q ∧ Blank b ∧ b.ready = true ∧ .proc q ∉ l.run.locks ∧ l' = l.tend b

lemma setUp_ok (hkid : l.family.kid = none) (hsig : l.wait.sig = none)
    (hb : Blank b) (hk : .proc b.slot ∉ l.run.locks) :
    Ok e t (setUp b.slot) (Allocated l) (l.tend b) := by
  refine then_ok allocpid_ok fun pid => ?_
  refine then_ok (tend_set h (fun _ => ⟨rfl, rfl, rfl⟩) (fun hu => absurd hb.state hu)
    (.inl hb.state)) fun _ => ?_
  refine vm_then fun trapframe => ?_
  refine then_ok (tend_set (b := b.set _) h (fun _ => ⟨rfl, rfl, rfl⟩) (fun _ => rfl) (.inl hb.state)) fun _ => ?_
  split
  · refine then_ok (h.untend (b := (b.set _).set _) hk (fun _ => hb.state) (fun _ => hb.parent) hsig)
      fun _ => rfl
  · refine vm_then fun pagetable => ?_
    refine then_ok (tend_set (b := (b.set _).set _) h (fun _ => ⟨rfl, rfl, rfl⟩) (fun _ => rfl) (.inl hb.state))
      fun _ => ?_
    split
    · refine Safe.bind (freeproc_ok (b := ((b.set _).set _).set _) h hkid (.inl hb.state)) ?_
      rintro _ l' ⟨b', rfl, hslot, hst, hpar⟩
      change b'.slot = b.slot at hslot
      rw [← hslot] at hk ⊢
      exact then_ok (h.untend hk (fun _ => hst) (fun _ => hpar) hsig) fun _ => rfl
    · refine then_ok (setContext_ok (b := ((b.set _).set _).set _) h hb.state) fun _ => ?_
      refine ⟨(((b.set _).set _).set _).setReady, rfl, ⟨?_, ?_, ?_⟩, rfl, hk, rfl⟩
      · exact hb.state
      · exact hb.parent
      · exact hb.reaped

lemma allocproc_ok (hkid : l.family.kid = none) (hsig : l.wait.sig = none) :
    Ok e t allocproc (Allocated l) l := by
  refine Safe.bind (findUnused_ok h hsig) ?_
  intro r l' hr
  cases r with
  | none => exact hr
  | some q =>
    obtain ⟨b, rfl, hb, hk, rfl⟩ := hr
    exact setUp_ok h hkid hsig hb hk

/-! ### `fork` -/

lemma dupFiles_ok (hst : b.val.state = .unused) :
    Ok e t (dupFiles p b.slot) (fun _ l' => ∃ ofile,
      l' = l.tend (b.set fun q => { q with ofile := ofile })) (l.tend b) := by
  refine safe_forUp (J := fun _ l' => ∃ ofile, l' = l.tend (b.set fun q => { q with ofile := ofile }))
    (Nat.zero_le NOFILE) (by omega) ⟨b.val.ofile, rfl⟩ (fun j l' _ => ⟨by simp, rfl⟩) ?_
  rintro fd l' - ⟨ofile, rfl⟩
  refine getProc_then fun q => ?_
  cases q.ofile fd with
  | none => exact ⟨ofile, rfl⟩
  | some f =>
    refine then_ok filedup_ok fun _ => ?_
    refine Safe.mono (tend_set (b := b.set _) h (fun _ => ⟨rfl, rfl, rfl⟩) (fun _ => rfl) (.inl ?_)) ?_
    · exact hst
    · rintro _ l' rfl
      exact ⟨_, rfl⟩

lemma fork_ok (hkid : l.family.kid = none) (hkids : l.family.nokids = 0)
    (hempty : l.family.empty = false) (hsig : l.wait.sig = none) (hexit : l.said.exiting = none) :
    Ok e (.proc p) fork (fun _ l' => l' = l) l := by
  refine myproc_then ?_
  refine Safe.bind (allocproc_ok h hkid hsig) ?_
  intro r l' hr
  cases r with
  | none => exact hr
  | some q =>
    obtain ⟨b, rfl, hb, hready, hk, rfl⟩ := hr
    refine getProc_then fun q => ?_
    refine Safe.bind (getProc_ok b.slot) ?_
    rintro n l' ⟨⟨s, ℓ, hI, hl, -, rfl⟩, rfl⟩
    have hn : s.proc b.slot = b.val := (hI.works hl (Ghost.tend_busy l b)).val
    rw [hn]
    refine vm_then fun ok => ?_
    cases ok with
    | true =>
      refine then_ok (tend_set h (fun _ => ⟨rfl, rfl, rfl⟩) (fun _ => rfl) (.inl hb.state)) fun _ => ?_
      refine then_ok (tend_adopt (b := b.set _) h hkids hb.state hb.parent) fun _ => ?_
      refine vm_then fun _ => ?_
      refine Safe.bind (dupFiles_ok (b := (b.set _).set _) h hb.state) ?_
      rintro _ l' ⟨ofile, rfl⟩
      refine then_ok (startChild_ok (b := ((b.set _).set _).set _) h hb.state hready
        fun s ℓ hI ht hl => ?_) fun _ => ?_
      · obtain ⟨P, hP, hPe, hPg⟩ := hI.life ht hl h.st
        exact .inr ⟨⟨P, hP, hPe.trans hexit, hPg⟩, rfl⟩
      refine of_ghost (r := l.lock (.proc b.slot)) ?_ (h.unlock_then hk (by simp [hsig]) rfl)
      obtain ⟨run, ⟨busy, kid, nokids, empty⟩, said, wait, watch⟩ := l
      cases h.busy
      cases hempty
      rfl
    | false =>
      refine Safe.bind (freeproc_ok h hkid (.inl hb.state)) ?_
      rintro _ l' ⟨b', rfl, hslot, hst, hpar⟩
      rw [← hslot] at hk ⊢
      exact then_ok (h.untend hk (fun _ => hst) (fun _ => hpar) hsig) fun _ => rfl

end

/-! ### `userinit` -/

lemma setInit_ok (hempty : l.family.empty = true) (hpar : b.val.parent = none) :
    Ok e (.sched 0) (write fun s => { s with initproc := b.slot })
      (fun _ l' => l' = l.tend b.setFirst) (l.tend b) := by
  refine write_ok fun s ℓ hI hl ht => ?_
  have hw := hI.works hl (Ghost.tend_busy l b)
  have hbusy : (ℓ (.sched 0)).family.busy = some b := by rw [hl]; rfl
  have hem : (ℓ (.sched 0)).family.empty = true := by rw [hl]; exact hempty
  have hun := (hI.kin.empty _ hem).2
  -- no process runs, so each starts afresh
  have hfresh : ∀ i, ℓ (.proc i) = .fresh i := by
    intro i
    refine hI.dead i (fun c hc => ?_) (.inl (hun i))
    obtain ⟨h1, h2⟩ := hI.base.st c i hc
    rw [hun i] at h1
    exact h2 h1.symm
  constructor
  case base =>
    rw [part_same hl Ghost.run]
    exact hI.base.frame rfl rfl rfl rfl fun _ => rfl
  case kin =>
    rw [part_same hl Ghost.run, part]
    exact hI.kin.set_init hun (fun i => by rw [hfresh]; rfl) (by rw [hw.val]; exact hpar) rfl hbusy
      ⟨rfl, by rw [hl]; rfl⟩ (fun _ => rfl) rfl rfl rfl
  case told =>
    rw [part, part_same hl Ghost.said]
    exact hI.told.set_init hun (hI.told.empty _ hem) rfl rfl
      (.update (by simp only [hl]; rfl) (by simp only [hl]; rfl))
  case sleeps =>
    rw [part_same hl Ghost.run, part_same hl Ghost.wait]
    exact hI.sleeps.idle_step rfl rfl rfl rfl rfl fun _ => rfl
  case watched =>
    rw [part_same hl Ghost.run, part_same hl Ghost.watch]
    refine ⟨hI.watched.held, ?_, ?_, ?_, hI.watched.woke⟩
    · intro i j _ hw
      have := hun i
      rw [show (s.proc i).state = .sleeping from hw.1] at this
      cases this
    · intro u i n hc
      refine ⟨(hI.watched.clear u i n hc).1, fun _ j _ _ hz => ?_⟩
      have := hun j
      rw [show (s.proc j).state = .zombie from hz] at this
      cases this
    · intro u q hq
      obtain ⟨i, -, h1, -⟩ := hI.watched.up u q hq
      exact absurd (hun i) h1
  case marks =>
    rw [part_same hl Ghost.watch]
    exact hI.marks.set rfl (fun _ => Iff.rfl) (fun _ => rfl) (fun _ _ => rfl) fun _ _ _ _ => rfl
  case dead => exact hI.dead_update ht rfl fun i hi => by tauto
  case fresh => exact hI.fresh_update ht rfl

lemma userinit_ok {initcode : List UInt8} (h : Plain l) (hkid : l.family.kid = none)
    (hempty : l.family.empty = true) (hsig : l.wait.sig = none) :
    Ok e (.sched 0) (userinit initcode) (fun _ l' => l' = l.setFamily l.family.begin) l := by
  refine Safe.bind (allocproc_ok h hkid hsig) ?_
  intro r l' hr
  cases r with
  | none => exact crash_ok _
  | some q =>
    obtain ⟨b, rfl, hb, hready, hk, rfl⟩ := hr
    refine then_ok (setInit_ok hempty hb.parent) fun _ => ?_
    refine Safe.bind (getProc_ok b.slot) ?_
    rintro n l' ⟨⟨s, ℓ, hI, hl, -, rfl⟩, rfl⟩
    have hn : s.proc b.slot = b.val := (hI.works hl (Ghost.tend_busy l _)).val
    rw [hn]
    refine vm_then fun _ => ?_
    refine then_ok (tend_set (b := b.setFirst) h (fun _ => ⟨rfl, rfl, rfl⟩) (fun _ => rfl) (.inl hb.state)) fun _ => ?_
    refine vm_then fun _ => ?_
    refine vm_then fun _ => ?_
    refine then_ok (startChild_ok (b := b.setFirst.set _) h hb.state hready fun s ℓ hI _ hl => ?_)
      fun _ => ?_
    · have hinit := ((hI.works hl (Ghost.tend_busy l _)).first rfl).2.symm
      exact .inl ⟨hinit, hinit, hempty⟩
    have hp : Plain (l.setFamily l.family.begin) :=
      { h with busy := rfl }
    exact hp.unlock_ok hk (by simp [Ghost.setFamily, hsig])

end Xv6.Kern
