import Xv6.Kern.Births

/-!
Processes that end: `exit` and `wait` keep the invariant.
-/

namespace Xv6.Kern

open Lib.Wp Lib.Conc Vm
open Function (update update_eq_self update_idem update_of_ne update_self)

variable {e : Env} {s s' : State} {ℓ : Thread → Ghost} {t : Thread} {l l' : Ghost}
  {i j p np n status : ℕ} {b : Busy} {k : Lock}

/-! ### `exit` -/

lemma Inv.tell {H : Said} (hI : Inv e s ℓ) (ht : turn (.proc p) s) (hl : ℓ (.proc p) = l)
    (ev : Event) (htold : Told { s with log := s.log ++ [ev] } (fun u => (ℓ u).family)
      (update (fun u => (ℓ u).said) (.proc p) H)) :
    Inv e { s with log := s.log ++ [ev] } (update ℓ (.proc p) (l.setSaid H)) := by
  refine hI.mild ht hl rfl rfl (fun _ _ _ => rfl) rfl rfl ?_ ?_ ?_ (.of_proc rfl rfl rfl rfl) rfl
  · rw [part_same hl Ghost.run]
    exact hI.base.frame rfl rfl rfl rfl fun _ => rfl
  · rw [part]
    exact htold
  · rw [part_same hl Ghost.run, part_same hl Ghost.wait]
    exact hI.sleeps.idle_step rfl rfl rfl rfl rfl fun _ => rfl

lemma Inv.not_init (hI : Inv e s ℓ) (ht : turn (.proc p) s) (hl : ℓ (.proc p) = l)
    (hst : l.run.st = .running) (hexit : l.said.exiting ≠ none) : p ≠ s.initproc := by
  rintro rfl
  obtain ⟨L, hL, hLe, -⟩ := hI.life ht hl hst
  rw [← hLe] at hexit
  exact hexit (hI.told.legal.init_stays hL)

lemma startExit_ok (hst : l.run.st = .running) (hexit : l.said.exiting = none) :
    Ok e (.proc p) (startExit p status)
      (fun _ l' => l' = l.setSaid (l.said.setExiting status)) l := by
  refine safe_turn fun s ℓ hI hl ht => ?_
  simp only [wp_bind, wp_get, wp_throwIf, wp_set]
  refine ⟨fun _ => trivial, fun hp => ⟨_, ?_, rfl⟩⟩
  have hs : (s.proc p).state = .running := (hI.state_eq ht hl).trans hst
  refine hI.tell ht hl _ (hI.told.emit_exiting rfl hI.kin (by rw [hs]; simp) (by rw [hs]; simp) hp
    (by rw [hl]; exact hexit) rfl rfl ⟨rfl, ?_, ?_⟩)
  · rw [hl]
    rfl
  · rw [hl]
    rfl

lemma getProc_kid (hst : l.run.st = .running) (hbusy : l.family.busy = none)
    (hexit : l.said.exiting ≠ none) (hj : l.family.nokids = j) :
    Ok e (.proc p) (getProc j) (fun q l' =>
      q.parent = some p ∧ l' = l.setFamily (l.family.setKid (some j)) ∨
      q.parent ≠ some p ∧ l' = l.setFamily (l.family.setNokids (j + 1))) l := by
  refine safe_turn fun s ℓ hI hl ht => ?_
  simp only [wp_map, wp_get]
  have hni := hI.not_init ht hl hst hexit
  have hno : ∀ k < j, (s.proc k).parent ≠ some p := by
    intro k hk
    have := hI.kin.nokids p (by rw [hl, hj]; omega)
    rw [hl, hj] at this
    exact this.2 k hk
  by_cases hq : (s.proc j).parent = some p
  · refine ⟨_, ?_, .inl ⟨hq, rfl⟩⟩
    refine hI.learn ht hl (by simp [Family.setKid, hbusy]) ?_ ?_ id (by rw [hbusy]; simp)
    · rintro i k ⟨⟩ ⟨⟩
      exact hq
    · rintro i ⟨⟩ -
      refine ⟨hni, fun k hk => hno k ?_⟩
      rw [← hj]
      exact hk
  · refine ⟨_, ?_, .inr ⟨hq, rfl⟩⟩
    refine hI.learn ht hl (by simp [Family.setNokids, hbusy]) ?_ ?_ id (by rw [hbusy]; simp)
    · rintro i k ⟨⟩ hk
      exact hI.kin.kid p k (by rw [hl]; exact hk)
    · rintro i ⟨⟩ -
      refine ⟨hni, fun k hk => ?_⟩
      change k < j + 1 at hk
      by_cases hkj : k = j
      · rw [hkj]
        exact hq
      · exact hno k (by omega)

lemma Inv.give (hI : Inv e s ℓ) (ht : turn (.proc p) s) (hl : ℓ (.proc p) = l)
    (hbusy : l.family.busy = none) (hexit : l.said.exiting ≠ none)
    (hkid : l.family.kid = some j) :
    Inv e { s.setProc j fun q => { q with parent := some s.initproc } with
      log := s.log ++ [.gave j s.initproc] }
      (update ℓ (.proc p) (l.setFamily (l.family.setKid none))) := by
  set z : State := { s.setProc j fun q => { q with parent := some s.initproc } with
    log := s.log ++ [.gave j s.initproc] }
  have hpar := hI.kin.kid p j (by rw [hl]; exact hkid)
  have hself : z.proc j = { s.proc j with parent := some s.initproc } := update_self ..
  have hne : ∀ i, i ≠ j → z.proc i = s.proc i := fun i hi => update_of_ne hi ..
  have hfield {α : Type} (X : Proc → α) := State.setProc_proj (s := s) (j := j)
    (F := fun q => { q with parent := some s.initproc }) X
  have hstate := hfield Proc.state rfl
  have hchan := hfield Proc.chan rfl
  -- nobody else works on a child of this process
  have hnb : ∀ u b, (ℓ u).family.busy = some b → b.slot ≠ j := by
    rintro u b hu rfl
    obtain rfl := (hI.kin.busy u b hu).of_parent hpar
    rw [hl, hbusy] at hu
    cases hu
  have hun : (s.proc j).state ≠ .unused := by
    intro hu
    rw [hI.kin.clean j hu hnb] at hpar
    cases hpar
  have hb := update_proj (g := fun u => (ℓ u).family) (t := .proc p)
    (r := (l.setFamily (l.family.setKid none)).family) Family.busy (by rw [hl]; rfl)
  have hem := update_proj (g := fun u => (ℓ u).family) (t := .proc p)
    (r := (l.setFamily (l.family.setKid none)).family) Family.empty (by rw [hl]; rfl)
  constructor
  case base =>
    rw [part_same hl Ghost.run]
    exact hI.base.frame rfl rfl rfl rfl hstate
  case kin =>
    rw [part_same hl Ghost.run, part]
    have := hI.kin.give (z := z) (v := { s.proc j with parent := some s.initproc })
      (fun _ => rfl) rfl rfl (by rw [hl]; exact hkid) (by rw [hl]; exact hbusy) ⟨rfl, rfl⟩ rfl
    simp only [hl] at this
    exact this
  case told =>
    rw [part, part_same hl Ghost.said]
    exact hI.told.emit_gave (v := { s.proc j with parent := some s.initproc }) rfl hI.kin hpar hun
      hnb (by rw [hl]; exact hexit) rfl rfl ⟨rfl, rfl, rfl, rfl⟩ hb hem
  case sleeps =>
    rw [part_same hl Ghost.run, part_same hl Ghost.wait]
    refine hI.sleeps.keep rfl rfl rfl rfl (fun _ => rfl) (fun i => (hstate i).symm.trans) hchan
      fun i h1 h2 => ?_
    exact ⟨fun hu => h1 ((hstate i).symm.trans hu), fun hz => h2 ((hstate i).symm.trans hz)⟩
  case watched =>
    rw [part_same hl Ghost.run, part_same hl Ghost.watch]
    refine hI.watched.set rfl (fun i q hq hi hz => ?_) (fun i h1 h2 => ?_) (fun i hw => .inl ?_)
      hI.watched.held
    · have hij : i ≠ j := by
        rintro rfl
        rw [show _ = some s.initproc from congrArg Proc.parent hself] at hi
        exact hq (Option.some.inj hi).symm
      have hrec := hne i hij
      exact ⟨(congrArg Proc.parent hrec).symm.trans hi, (congrArg Proc.state hrec).symm.trans hz⟩
    · refine ⟨fun hu => h1 ((hstate i).symm.trans hu), fun hz => h2 ((hstate i).symm.trans hz), ?_⟩
      by_cases hij : i = j
      · rw [hij]
        exact .inr (congrArg Proc.parent hself)
      · exact .inl (congrArg Proc.parent (hne i hij))
    · obtain ⟨h1, h2, h3⟩ := hw
      exact ⟨(hstate i).symm.trans h1, (hchan i).symm.trans h2, h3⟩
  case marks =>
    rw [part_same hl Ghost.watch]
    refine hI.marks.set rfl (fun i => ?_) (hfield Proc.killed rfl) (fun i _ => hfield Proc.pid rfl i)
      fun _ i _ _ => hfield Proc.pid rfl i
    exact ⟨(hstate i).symm.trans, (hstate i).trans⟩
  case dead =>
    refine hI.dead_update ht rfl fun i hi => ?_
    rw [show (z.proc i).state = _ from hstate i] at hi
    tauto
  case fresh => exact hI.fresh_update ht rfl

lemma giveToInit_ok (hst : l.run.st = .running) (hbusy : l.family.busy = none)
    (hexit : l.said.exiting ≠ none) (hkid : l.family.kid = some j) (hj : l.family.nokids = j) :
    Ok e (.proc p) (giveToInit j)
      (fun _ l' => l' = l.setFamily ((l.family.setKid none).setNokids (j + 1))) l := by
  refine write_ok fun s ℓ hI hl ht => ?_
  have hni := hI.not_init ht hl hst hexit
  have hI' := hI.give ht hl hbusy hexit hkid
  have := hI'.learn (t := .proc p) (l := l.setFamily (l.family.setKid none))
    (G := (l.family.setKid none).setNokids (j + 1)) ht (update_self _ _ _) ?_ ?_ ?_ id ?_
  · rw [update_idem] at this
    exact this
  · simp [Family.setNokids, Family.setKid, hbusy]
  · rintro i k ⟨⟩ ⟨⟩
  · rintro i ⟨⟩ -
    refine ⟨hni, fun k hk => ?_⟩
    change k < j + 1 at hk
    change ((s.setProc j fun q => { q with parent := some s.initproc }).proc k).parent ≠ some p
    by_cases hkj : k = j
    · rw [hkj, State.setProc_self]
      exact fun h => hni (Option.some.inj h).symm
    · rw [State.setProc_of_ne _ _ hkj]
      have := hI.kin.nokids p (by rw [hl, hj]; omega)
      rw [hl, hj] at this
      exact this.2 k (by omega)
  · intro b hb
    change l.family.busy = some b at hb
    rw [hbusy] at hb
    cases hb

/-- What a process knows that has given away its children below `n`. -/
def Ghost.orphan (l : Ghost) (n : ℕ) : Ghost := l.setFamily (l.family.setNokids n)

lemma Plain.orphan (h : Plain l) (n : ℕ) : Plain (l.orphan n) :=
  { h with }

lemma reparent_ok (h : Plain l) (hkid : l.family.kid = none) (hkids : l.family.nokids = 0)
    (hexit : l.said.exiting ≠ none) (hsig : l.wait.sig = none) :
    Ok e (.proc p) (reparent p) (fun _ l' => l' = l.orphan NPROC) l := by
  refine forProcs_ok (J := fun n l' => l' = l.orphan n) ?_ ?_
  · obtain ⟨run, ⟨busy, kid, nokids, empty⟩, said, wait, watch⟩ := l
    cases hkids
    rfl
  · rintro j l' - rfl
    refine Safe.bind (getProc_kid (p := p) (l := l.orphan j) h.st h.busy hexit rfl) ?_
    rintro q l' (⟨hq, rfl⟩ | ⟨hq, rfl⟩)
    · rw [doIf, if_pos hq]
      refine acquire_then fun hk => ?_
      refine then_ok (giveToInit_ok h.st h.busy hexit rfl rfl) fun _ => ?_
      refine of_ghost (r := (l.orphan (j + 1)).lock (.proc j)) ?_
        ((h.orphan _).unlock_ok hk (by simp [Ghost.orphan, Ghost.setFamily, hsig]))
      obtain ⟨run, ⟨busy, kid, nokids, empty⟩, said, wait, watch⟩ := l
      cases hkid
      rfl
    · rw [doIf, if_neg hq]
      exact rfl

lemma closeFiles_ok (h : Plain l) (hsig : l.wait.sig = none) :
    Ok e (.proc p) (closeFiles p) (fun _ l' => l' = l) l := by
  refine safe_forUp (J := fun _ l' => l' = l) (Nat.zero_le NOFILE) (by omega) rfl
    (fun j l' _ => ⟨by simp, rfl⟩) ?_
  rintro fd l' - rfl
  refine getProc_then fun q => ?_
  cases q.ofile fd with
  | none => exact rfl
  | some f => exact then_ok (fileclose_ok h hsig) fun _ => setFd_ok h.st

lemma setXstate_ok (hst : l.run.st = .running) :
    Ok e (.proc p) (setProc p fun q => { q with xstate := status })
      (fun _ l' => l' = l.setSaid (l.said.setXstate status)) l := by
  refine write_ok fun s ℓ hI hl ht => ?_
  have hs : (s.proc p).state = .running := (hI.state_eq ht hl).trans hst
  have hstate : ∀ i, ((s.setProc p fun q => { q with xstate := status }).proc i).state =
      (s.proc i).state := State.setProc_proj Proc.state rfl
  refine hI.mild ht hl rfl rfl (fun u b hu => ?_) rfl rfl ?_ ?_ ?_
    (.of_setProc rfl rfl rfl rfl fun _ => rfl) rfl
  · refine State.setProc_of_ne _ _ ?_
    exact hI.kin.not_busy (by rw [hs]; simp) (by rw [hs]; simp) u b hu
  · rw [part_same hl Ghost.run]
    exact hI.base.frame rfl rfl rfl rfl hstate
  · rw [part]
    exact hI.told.set_xstate (v := { s.proc p with xstate := status }) rfl
      (by rw [hs]; simp) (by rw [hs]; simp) rfl rfl ⟨rfl, rfl, rfl, rfl⟩
      ⟨by rw [hl]; rfl, by rw [hl]; rfl, rfl⟩
  · rw [part_same hl Ghost.run, part_same hl Ghost.wait]
    refine hI.sleeps.keep rfl rfl rfl rfl (fun _ => rfl) (fun i => by rw [hstate]; exact id)
      (State.setProc_proj Proc.chan rfl) fun i h1 h2 => ?_
    rw [hstate]
    exact ⟨h1, h2⟩

/-- A process that is gone but for its stack. -/
def Ghost.zombie (l : Ghost) : Ghost := { run := l.run.setSt .zombie }

lemma becomeZombie_ok (h : AtCall l) (hk : .proc p ∈ l.run.locks)
    (hno : l.family.nokids = NPROC) (hexit : l.said.exiting = some status)
    (hx : l.said.xstate = some status) (hdue : l.said.due = none) (hup : l.watch.up = some j)
    (hwoke : l.watch.woke = some j) (hdeeds : l.watch.deeds = []) :
    Ok e (.proc p) (becomeZombie p) (fun _ l' => l' = l.zombie) l := by
  refine write_ok fun s ℓ hI hl ht => ?_
  set z : State := { s.setProc p fun q => { q with state := .zombie } with
    log := s.log ++ [.exited p] }
  have hs : (s.proc p).state = .running := (hI.state_eq ht hl).trans h.st
  have hlive := Inv.live_cur ht
  have hself : z.proc p = { s.proc p with state := .zombie } := update_self ..
  have hne : ∀ i, i ≠ p → z.proc i = s.proc i := fun i hi => update_of_ne hi ..
  have hni := hI.not_init ht hl h.st (by rw [hexit]; simp)
  have hnone : ∀ j, (s.proc j).parent ≠ some p := by
    intro j hj
    have := (hI.kin.nokids p (by rw [hl, hno]; decide)).2 j
    rw [hl, hno] at this
    exact this (hI.kin.lt_of_parent hj) hj
  have hfield {α : Type} (X : Proc → α) := State.setProc_proj (s := s) (j := p)
    (F := fun q => { q with state := .zombie }) X
  have hstate : ∀ i, i ≠ p → (z.proc i).state = (s.proc i).state := fun i hi => by rw [hne i hi]
  have hzombie : (z.proc p).state = .zombie := by rw [hself]
  have hb := update_proj (g := fun u => (ℓ u).family) (t := .proc p) (r := l.zombie.family)
    Family.busy (by simp only [hl]; exact h.busy.symm)
  have hlk := update_proj (g := fun u => (ℓ u).run) (t := .proc p) (r := l.zombie.run)
    Run.locks (by simp only [hl]; rfl)
  constructor
  case base =>
    rw [part]
    have := hI.base.set_own (z := z) .zombie hlive (by rw [hl]; exact hk) (by simp) rfl rfl rfl rfl
      hstate hzombie
    simp only [hl] at this
    exact this
  case kin =>
    rw [part, part]
    have := hI.kin.die (F := l.zombie.family) (v := { s.proc p with state := .zombie })
      (z := z) (fun _ => rfl) rfl rfl (by rw [hs]; simp) (by rw [hs]; simp) (by rw [hl]; exact hno)
      ⟨rfl, rfl, rfl, rfl⟩ (by rw [hl]; exact h.busy) ⟨rfl, rfl⟩ rfl
    refine this.frame rfl rfl fun u b hu => ?_
    have hw := this.busy u b hu
    rw [hlk]
    exact ⟨hw.lock, hw.current, hw.ready⟩
  case told =>
    rw [part, part]
    refine hI.told.emit_exited (v := { s.proc p with state := .zombie }) rfl hI.kin (by rw [hs]; simp)
      (by rw [hs]; simp) hni hnone (by rw [hl]; exact hexit) (by rw [hl]; exact hx)
      ⟨by rw [hl]; exact hdue.symm, rfl⟩ rfl rfl ⟨rfl, rfl, rfl, rfl⟩ hb fun u hu => ?_
    by_cases hup : u = .proc p
    · rw [hup, update_self] at hu
      cases hu
    · rwa [update_of_ne hup] at hu
  case sleeps =>
    have hw : l.zombie.wait = l.wait := by
      obtain ⟨run, family, said, ⟨cond, pre, parked, chan, sig⟩, watch⟩ := l
      obtain ⟨⟨_, _, _, _, _, hpre, hparked, _, _⟩, hsig, hcond, hchan⟩ := h
      cases hpre
      cases hparked
      cases hsig
      cases hcond
      cases hchan
      rfl
    rw [part, part_same hl Ghost.wait hw]
    refine hI.sleeps.frame rfl rfl rfl (fun i hi => ?_) (fun i h1 h2 => ?_)
      (fun i n _ h1 => by rw [hlk]; exact h1) ?_ ?_
    · by_cases hip : i = p
      · rw [hip] at hi
        exact absurd (hzombie.symm.trans hi) (by simp)
      · exact (hstate i hip).symm.trans hi
    · by_cases hip : i = p
      · right
        rw [hip, hl]
        exact ⟨h.chan, h.parked⟩
      · left
        refine ⟨?_, ?_, ?_⟩
        · exact congrArg Proc.chan (hne i hip)
        · exact fun h => h1 ((hstate i hip).symm.trans h)
        · exact fun h => h2 ((hstate i hip).symm.trans h)
    · intro i n _ h1 h2
      rw [hlk]
      exact ⟨h1, h2⟩
    · intro i n k _ h1 h2
      rw [hlk]
      exact ⟨h1, h2⟩
  case watched =>
    rw [part, part]
    refine hI.watched.die hI.base ht (by rw [hl]; exact hup) (by rw [hl]; exact hwoke) rfl
      (hfield Proc.parent rfl) hstate (fun i hw => ?_) (fun _ => rfl)
      fun u _ => hlk u
    have hip : i ≠ p := by
      rintro rfl
      exact absurd (hzombie.symm.trans hw.1) (by simp)
    obtain ⟨h1, h2, h3⟩ := hw
    exact ⟨(hstate i hip).symm.trans h1, (congrArg Proc.chan (hne i hip)).symm.trans h2, h3⟩
  case marks =>
    rw [part]
    have hmarks := hI.marks.learn (t := .proc p) (v := {}) (by rw [hl]; exact hdeeds.symm) (by simp)
    refine hmarks.set rfl (fun i => ?_) (hfield Proc.killed rfl) (fun i _ => hfield Proc.pid rfl i)
      fun _ i _ _ => hfield Proc.pid rfl i
    by_cases hip : i = p
    · rw [hip, hs]
      exact ⟨fun h => absurd (hzombie.symm.trans h) (by simp), fun h => absurd h (by simp)⟩
    · exact ⟨(hstate i hip).symm.trans, (hstate i hip).trans⟩
  case dead =>
    refine hI.dead_update ht rfl fun i hi => ?_
    by_cases hip : i = p
    · exact .inr (.inr ⟨s.cur, hip ▸ hlive⟩)
    · have h1 : (s.proc i).state = .unused ∨ (s.proc i).state = .zombie := hstate i hip ▸ hi
      tauto
  case fresh => exact hI.fresh_update ht rfl

lemma Plain.zombie_release (h : Plain l) (hk : k ∈ l.run.locks) (hp : k ≠ .proc p) :
    CanRelease e (.proc p) l.zombie k := by
  have hrun : Base.CanDrop (.proc p) l.zombie.run k := by
    refine .of_idle ?_ h.on h.seen h.pick
    rintro i ⟨⟩ hki
    exact absurd hki hp
  exact ⟨hk, hrun, by rintro b ⟨⟩, by rintro i n - ⟨⟩, by rintro n m ⟨⟩, rfl, needs_empty k⟩

lemma Plain.zombie_resume (h : Plain l) (hlocks : (l.zombie.unlock k).run.locks = {.proc p}) :
    (l.zombie.unlock k).resume = .fresh p := by
  obtain ⟨⟨locks, st, seen, pick, on⟩, family, said, wait, watch⟩ := l
  cases h.seen
  cases h.pick
  cases h.on
  change locks.erase k = {.proc p} at hlocks
  simp only [Ghost.resume, Ghost.unlock, Ghost.zombie, Run.unlock, Run.setSt, hlocks]
  rfl

lemma getProc_up (hst : l.run.st = .running) (hneeds : ∀ k, l.watch.Needs k → k ∈ l.run.locks)
    (hnamed : l.watch.named = none) :
    Ok e (.proc p) (getProc p) (fun q l' => q.parent = none ∧ l' = l ∨
      ∃ r, q.parent = some r ∧ l' = l.setWatch (l.watch.setUp r)) l := by
  refine safe_turn fun s ℓ hI hl ht => ?_
  simp only [wp_map, wp_get]
  have hs : (s.proc p).state = .running := (hI.state_eq ht hl).trans hst
  cases hpar : (s.proc p).parent with
  | none =>
    refine ⟨l, ?_, .inl ⟨rfl, rfl⟩⟩
    rw [← hl, update_eq_self]
    exact hI
  | some r =>
    refine ⟨_, hI.find (v := l.watch.setUp r) ht hl hneeds ?_ ?_ ?_ rfl hnamed,
      .inr ⟨r, rfl, rfl⟩⟩
    · intro q n hc
      exact hI.watched.clear _ q n (by rw [hl]; exact hc)
    · rintro q ⟨⟩
      exact ⟨p, rfl, by rw [hs]; simp, by rw [hs]; simp, .inl hpar⟩
    · intro q hc
      exact hI.watched.woke _ q (by rw [hl]; exact hc)

lemma wakeup1_woke (h : Plain l) (hk : .proc j ∈ l.run.locks) :
    Ok e t (wakeup1 j) (fun _ l' => l' = l.setWatch (l.watch.setWoke j)) l := by
  refine (panicWhen_ok _ _).bind_read fun _ _ => ?_
  refine write_ok fun s ℓ hI hl ht => ?_
  have hj : Locked t l j := h.locked hk
  have hI' : Inv e (s.setProc j (wake (.proc j))) (update ℓ t l) := by
    refine hI.rouse ht hl (wake_rouses _) hj rfl rfl rfl rfl fun hsleep hchan halive => ?_
    rw [part_same hl Ghost.wait]
    exact hI.sleeps.keep rfl rfl rfl rfl (fun _ => rfl) hsleep hchan halive
  have := hI'.find (t := t) (l := l) (v := l.watch.setWoke j) ht (update_self _ _ _)
    ?_ ?_ ?_ ?_ rfl h.named
  · rw [update_idem] at this
    exact this
  · rintro k (hn | ⟨q, ⟨⟩, rfl⟩ | hn)
    · exact h.needs k (.inl hn)
    · exact hk
    · exact h.needs k (.inr (.inr hn))
  · intro q n hc
    exact hI'.watched.clear t q n (by rw [update_self]; exact hc)
  · intro q hc
    exact hI'.watched.up t q (by rw [update_self]; exact hc)
  · rintro q ⟨⟩ hw
    obtain ⟨h1, h2, -⟩ := hw
    rw [State.setProc_self] at h1 h2
    unfold wake at h1 h2
    split at h1
    · cases h1
    · rename_i hno
      rw [if_neg hno] at h2
      exact hno ⟨h1, h2⟩

lemma exitTo_ok {parent : ℕ} {Q : Unit → Ghost → Prop} (h : AtCall l)
    (hkid : l.family.kid = none) (hkids : l.family.nokids = 0)
    (hexit : l.said.exiting = some status) (hdue : l.said.due = none)
    (hup : l.watch.up = some parent) (hdeeds : l.watch.deeds = []) :
    Ok e (.proc p) (exitTo p status parent) Q l := by
  refine acquire_then fun _ => ?_
  refine acquire_then fun hp => ?_
  have hl := (h.lock (.proc parent)).lock (.proc p)
  refine then_ok (reparent_ok hl hkid hkids (by simp [hexit]) h.sig) fun _ => ?_
  have hl' := hl.orphan NPROC
  have hmem : .proc parent ∈ (((l.lock (.proc parent)).lock (.proc p)).orphan NPROC).run.locks := by
    simp [Ghost.orphan, Ghost.setFamily]
  refine then_ok (wakeup1_woke hl' hmem) fun _ => ?_
  refine then_ok (setXstate_ok hl'.st) fun _ => ?_
  refine then_ok (becomeZombie_ok ?_ ?_ rfl hexit rfl hdue hup rfl hdeeds) fun _ => ?_
  · refine ⟨⟨hl'.st, hl'.seen, hl'.pick, hl'.on, hl'.busy, hl'.pre, hl'.parked, ?_, hl'.named⟩, h.sig,
      h.cond, h.chan⟩
    rintro k (hn | ⟨q, ⟨⟩, rfl⟩ | hn)
    · exact hl'.needs k (.inl hn)
    · exact hmem
    · exact hl'.needs k (.inr (.inr hn))
  · exact Finset.mem_insert_self _ _
  have hne : Lock.proc parent ≠ .proc p := by
    rintro heq
    rw [heq] at hp
    exact hp (Finset.mem_insert_self _ _)
  refine release_then (hl'.zombie_release (p := p) (by simp [Ghost.orphan, Ghost.setFamily]) hne) ?_
  refine Safe.bind (sched_ok ?_ rfl rfl rfl (by rintro n ⟨⟩) fun _ hlocks => ?_)
    fun _ l' _ => crash_ok _
  · exact Finset.mem_erase.mpr ⟨hne.symm, Finset.mem_insert_self _ _⟩
  · exact hl'.zombie_resume hlocks

lemma exit_ok {Q : Unit → Ghost → Prop} (h : AtCall l) (hkid : l.family.kid = none)
    (hkids : l.family.nokids = 0) (hexit : l.said.exiting = none) (hdue : l.said.due = none)
    (hdeeds : l.watch.deeds = []) : Ok e (.proc p) (exit status) Q l := by
  refine myproc_then ?_
  refine then_ok (startExit_ok h.st hexit) fun _ => ?_
  have h' : AtCall (l.setSaid (l.said.setExiting status)) :=
    ⟨{ h with }, h.sig, h.cond, h.chan⟩
  have hsig : ∀ k n m, (l.setSaid (l.said.setExiting status)).wait.sig = some (n, m) →
      e.lk n ≠ k := fun k n m hn => by
    rw [h'.sig] at hn
    cases hn
  refine then_ok (closeFiles_ok h'.toPlain h.sig) fun _ => ?_
  refine (read_ok _).bind_read fun init _ => ?_
  refine acquire_then fun hk => ?_
  refine then_ok (wakeup1_ok ((h'.lock _).locked (Finset.mem_insert_self _ _))) fun _ => ?_
  refine h'.unlock_then hk (hsig _) ?_
  refine acquire_then fun hk => ?_
  refine Safe.bind (getProc_up h'.st (h'.lock _).needs h'.named) ?_
  rintro q l' (⟨hq, rfl⟩ | ⟨parent, hq, rfl⟩)
  · rw [hq]
    exact h'.unlock_then hk (hsig _) (crash_ok _)
  · rw [hq]
    have hu : AtCall ((l.setSaid (l.said.setExiting status)).setWatch (l.watch.setUp parent)) :=
      ⟨{ h with }, h.sig, h.cond, h.chan⟩
    exact hu.unlock_then hk (hsig _) (exitTo_ok hu hkid hkids rfl hdue rfl hdeeds)

lemma markFault_ok (h : Plain l) :
    Ok e (.proc p) (write fun s => { s.setProc p fun q => { q with killed := true } with
      deeds := s.deeds ++ [.faulted p] }) (fun _ l' => l' = l) l := by
  refine write_ok fun s ℓ hI hl ht => ?_
  have hs : (s.proc p).state = .running := (hI.state_eq ht hl).trans h.st
  have hcalls : calls s.deeds (.proc p) = l.watch.deeds := by rw [hI.marks.calls, hl]
  refine hI.deed (j := p) (F := fun q => { q with killed := true }) (v := l.watch) ht hl
    (fun _ => rfl) (hI.kin.not_busy (by rw [hs]; simp) (by rw [hs]; simp))
    (hI.watched_note ht hl rfl rfl rfl h.needs) ?_
  refine hI.marks.hit (j := p) rfl rfl (.inl rfl) (fun _ => by rw [hs]; simp) ?_ (by rw [hl])
  rw [hunt, ← hcalls, update_eq_self]

lemma fault_ok {Q : Unit → Ghost → Prop} (h : AtCall l) (hkid : l.family.kid = none)
    (hkids : l.family.nokids = 0) (hexit : l.said.exiting = none) (hdue : l.said.due = none)
    (hdeeds : l.watch.deeds = []) : Ok e (.proc p) fault Q l := by
  refine myproc_then ?_
  exact then_ok (markFault_ok h.toPlain) fun _ => exit_ok h hkid hkids hexit hdue hdeeds

/-! ### `wait` -/

/-- A process that can call `wait`. -/
structure Caller (l : Ghost) : Prop extends AtCall l where
  kid : l.family.kid = none
  nokids : l.family.nokids = 0
  exiting : l.said.exiting = none
  due : l.said.due = none

lemma Caller.lock (h : Caller l) (k : Lock) : Caller (l.lock k) :=
  ⟨⟨h.toPlain.lock k, h.sig, h.cond, h.chan⟩, h.kid, h.nokids, h.exiting, h.due⟩

/-- What a process knows once it is settled what its `wait` returns. -/
def Ghost.owe (l : Ghost) (d : Option (Option ℕ)) : Ghost := l.setSaid (l.said.setDue d)

lemma Plain.owe (h : Plain l) (d : Option (Option ℕ)) : Plain (l.owe d) :=
  { h with }

/-- What a process knows in `wait` that has found no child below `n` to be a zombie. -/
def Ghost.scan (l : Ghost) (p : ℕ) : ℕ → Ghost
  | 0 => l
  | n + 1 => l.setWatch (l.watch.setClear (some (p, n + 1)))

lemma Ghost.scan_family (l : Ghost) (p n : ℕ) : (l.scan p n).family = l.family := by
  cases n <;> rfl

lemma Ghost.scan_locks (l : Ghost) (p n : ℕ) : (l.scan p n).run.locks = l.run.locks := by
  cases n <;> rfl

lemma Caller.scan (h : Caller l) (hp : .proc p ∈ l.run.locks) : Caller (l.scan p n) := by
  cases n with
  | zero => exact h
  | succ n =>
    refine ⟨⟨⟨h.st, h.seen, h.pick, h.on, h.busy, h.pre, h.parked, ?_, h.named⟩, h.sig, h.cond,
      h.chan⟩, h.kid, h.nokids, h.exiting, h.due⟩
    rintro k (⟨q, m, ⟨⟩, rfl⟩ | hn | hn)
    · exact hp
    · exact h.needs k (.inr (.inl hn))
    · exact h.needs k (.inr (.inr hn))

lemma Inv.scan {r : Ghost} (hI : Inv e s ℓ) (ht : turn (.proc p) s) (hl : ℓ (.proc p) = r)
    (hr : Plain (r.scan p (n + 1))) (hn : n = 0 ∨ r.watch.clear = some (p, n))
    (hno : (s.proc n).parent = some p → (s.proc n).state ≠ .zombie) :
    Inv e s (update ℓ (.proc p) (r.scan p (n + 1))) := by
  refine hI.find ht hl hr.needs ?_ ?_ ?_ rfl hr.named
  · rintro q m ⟨⟩
    refine ⟨rfl, fun hq j hj hpar => ?_⟩
    by_cases hjn : j = n
    · rw [hjn] at hpar ⊢
      exact hno hpar
    · rcases hn with hn | hn
      · omega
      · exact (hI.watched.clear _ p n (by rw [hl]; exact hn)).2 hq j (by omega) hpar
  · intro q hc
    exact hI.watched.up _ q (by rw [hl]; exact hc)
  · intro q hc
    exact hI.watched.woke _ q (by rw [hl]; exact hc)

lemma Ghost.scan_clear (l : Ghost) (p n : ℕ) : n = 0 ∨ (l.scan p n).watch.clear = some (p, n) := by
  cases n with
  | zero => exact .inl rfl
  | succ n => exact .inr rfl

lemma Ghost.scan_scan (l : Ghost) (p n m : ℕ) : (l.scan p n).scan p (m + 1) = l.scan p (m + 1) := by
  cases n <;> rfl

lemma Ghost.scan_rest (hwatch : l.watch = {}) (p n : ℕ) : (l.scan p n).setWatch {} = l := by
  obtain ⟨run, family, said, wait, watch⟩ := l
  cases hwatch
  cases n <;> rfl

lemma getProc_child (h : Caller l) (hp : .proc p ∈ l.run.locks) :
    Ok e (.proc p) (getProc np) (fun q l' =>
      q.parent = some p ∧ l' = (l.scan p np).setFamily (l.family.setKid (some np)) ∨
      q.parent ≠ some p ∧ l' = l.scan p (np + 1)) (l.scan p np) := by
  refine safe_turn fun s ℓ hI hl ht => ?_
  simp only [wp_map, wp_get]
  by_cases hq : (s.proc np).parent = some p
  · refine ⟨_, ?_, .inl ⟨hq, rfl⟩⟩
    refine hI.learn ht hl (by simp [Family.setKid, h.busy]) ?_ ?_ ?_ ?_
    · rintro i k ⟨⟩ ⟨⟩
      exact hq
    · intro i _ hi
      change 0 < l.family.nokids at hi
      rw [h.nokids] at hi
      exact absurd hi (by omega)
    · rw [Ghost.scan_family]
      exact id
    · rw [Ghost.scan_family, h.busy]
      simp
  · refine ⟨_, ?_, .inr ⟨hq, rfl⟩⟩
    have := hI.scan (n := np) ht hl ?_ (l.scan_clear p np) fun hpar => absurd hpar hq
    · rwa [Ghost.scan_scan] at this
    · rw [Ghost.scan_scan]
      exact (h.scan hp).toPlain

lemma getProc_zombie (h : Caller l) (hp : .proc p ∈ l.run.locks) (hwatch : l.watch = {}) :
    Ok e (.proc p) (getProc np) (fun q l' =>
      q.state = .zombie ∧ q.parent = some p ∧ l' = l.tend { slot := np, val := q } ∨
      q.state ≠ .zombie ∧ l' = (l.scan p (np + 1)).lock (.proc np))
      (((l.scan p np).setFamily (l.family.setKid (some np))).lock (.proc np)) := by
  refine safe_turn fun s ℓ hI hl ht => ?_
  simp only [wp_map, wp_get]
  have hpar : (s.proc np).parent = some p := hI.kin.kid p np (by rw [hl]; rfl)
  have hnok : ∀ i, Thread.proc p = .proc i → 0 < l.family.nokids → i ≠ s.initproc ∧
      ∀ j < l.family.nokids, (s.proc j).parent ≠ some i := by
    rw [h.nokids]
    intro i _ hi
    exact absurd hi (by omega)
  by_cases hz : (s.proc np).state = .zombie
  · refine ⟨_, ?_, .inl ⟨hz, hpar, rfl⟩⟩
    have hI' := hI.learn (G := l.family.setBusy (some { slot := np, val := s.proc np })) ht hl ?_ ?_
      hnok id ?_
    · have := hI'.forget ht (update_self _ _ _)
      rw [update_idem] at this
      have hback : l.tend { slot := np, val := s.proc np } =
          (((l.scan p np).setWatch {}).lock (.proc np)).setBusy (some { slot := np, val := s.proc np }) := by
        rw [Ghost.scan_rest hwatch]
        rfl
      rw [hback]
      refine (congrArg (fun r => Inv e s (update ℓ (.proc p) r)) ?_).mp this
      obtain ⟨run, family, said, wait, watch⟩ := l
      cases hwatch
      cases np <;> rfl
    · rintro b ⟨⟩
      exact ⟨⟨hI.kin.lt_of_parent hpar, Finset.mem_insert_self _ _, ⟨_, ht⟩, rfl, .inr hz,
        .inr ⟨p, rfl, hpar⟩, by simp, by simp⟩, rfl⟩
    · intro i j _ hj
      change l.family.kid = some j at hj
      rw [h.kid] at hj
      cases hj
    · intro b hb
      change l.family.busy = some b at hb
      rw [h.busy] at hb
      cases hb
  · refine ⟨_, ?_, .inr ⟨hz, rfl⟩⟩
    have hI' := hI.learn (G := l.family) ht hl (by simp [h.busy]) (by simp [h.kid]) hnok id ?_
    · have hback : (((l.scan p np).setFamily (l.family.setKid (some np))).lock (.proc np)).setFamily
          l.family = (l.scan p np).lock (.proc np) := by
        cases np <;> rfl
      rw [hback] at hI'
      have := hI'.scan (n := np) ht (update_self _ _ _) ?_ (l.scan_clear p np) fun _ => hz
      · rw [update_idem] at this
        cases np <;> exact this
      · have := ((h.scan (n := np + 1) hp).lock (.proc np)).toPlain
        cases np <;> exact this
    · intro b hb
      change l.family.busy = some b at hb
      rw [h.busy] at hb
      cases hb

lemma Inv.not_empty (hI : Inv e s ℓ) (ht : turn (.proc p) s) (hl : ℓ (.proc p) = l)
    (hst : l.run.st = .running) (u : Thread) : (ℓ u).family.empty = false := by
  by_contra hu
  have hs : (s.proc p).state = .running := (hI.state_eq ht hl).trans hst
  have := (hI.kin.empty u (by simpa using hu)).2 p
  rw [hs] at this
  cases this

section

variable {addr k : ℕ} (h : Caller l)

include h

lemma emitReaped_ok (hst : b.val.state = .zombie) (hpar : b.val.parent = some p)
    (hr : b.reaped = false) :
    Ok e (.proc p) (emit (.reaped p b.slot b.val.pid b.val.xstate))
      (fun _ l' => l' = (l.owe (some (some b.val.pid))).tend b.setReaped) (l.tend b) := by
  refine write_ok fun s ℓ hI hl ht => ?_
  have hw := hI.works hl (Ghost.tend_busy l b)
  have hbusy : (ℓ (.proc p)).family.busy = some b := by rw [hl]; rfl
  have hs : (s.proc p).state = .running := (hI.state_eq ht hl).trans h.st
  refine hI.set_busy (l := l.tend b) (G := (l.tend b).family.setBusy (some b.setReaped))
    (H := (l.tend b).said.setDue (some (some b.val.pid))) (F := id) ht hl (Ghost.tend_busy l b) ?_ rfl
    rfl rfl rfl rfl rfl rfl rfl (h.free _) h.st (by simp [hst]) (fun hz => ⟨hz, rfl⟩) ?_ ?_ ?_ ?_
  · rw [id, ← hw.val, update_eq_self]
  · intro _
    refine hI.base.made _ ?_
    rw [hw.val, hst]
    simp
  · refine hI.kin.set (fun _ => rfl) rfl rfl (fun _ => Iff.rfl) (fun _ => Iff.rfl) (fun _ => rfl)
      (fun _ _ _ _ => rfl) (by rw [hl]; rfl) (by rw [hl]; rfl) (by rw [hl]; rfl) (by rw [hl]; rfl) ?_
    rintro b' ⟨⟩
    exact ⟨hw.val, hw.ready, hw.first⟩
  · exact hI.told.emit_reaped rfl hI.kin hI.base ht hbusy hr hst hpar rfl rfl (by rw [hs]; simp)
      (by rw [hs]; simp) (by rw [hl]; exact h.exiting) (by rw [hl]; exact h.due)
      ⟨rfl, by rw [hl]; rfl, by rw [hl]; rfl⟩ ⟨rfl, by rw [hl]; rfl⟩ rfl rfl
  · exact hI.marks.set rfl (fun _ => Iff.rfl) (fun _ => rfl) (fun _ _ => rfl) fun _ _ _ _ => rfl

lemma emitRefused_ok (hst : b.val.state = .zombie) (hpar : b.val.parent = some p)
    (hr : b.reaped = false) :
    Ok e (.proc p) (emit (.refused p b.slot))
      (fun _ l' => l' = (l.owe (some none)).tend b) (l.tend b) := by
  refine write_ok fun s ℓ hI hl ht => ?_
  have hw := hI.works hl (Ghost.tend_busy l b)
  have hpi : b.slot ≠ s.initproc := by
    rintro heq
    have := hI.kin.root
    rw [← heq, hw.val, hpar] at this
    cases this
  have hkept : Kept (fun u => (ℓ u).family) b.slot := by
    intro u b' hu hbb
    by_cases hup : u = .proc p
    · simp only [hup, hl] at hu
      cases hu
      exact hr
    · exact absurd hbb (hI.tend_other ht hl u b' hup hu)
  obtain ⟨L, hL, hf⟩ := hI.told.fits b.slot (by rw [hw.val, hst]; simp) hkept
  have hpL : L.parent = p := by
    have := hf.parent hpi
    rw [hw.val, hpar] at this
    exact (Option.some.inj this).symm
  refine hI.tell ht hl _ (hI.told.emit_wait rfl rfl rfl rfl ?_ rfl (by rw [hl]; rfl) (by rw [hl]; rfl)
    (hI.not_empty ht hl h.st))
  refine ⟨?_, L, hL, hpL, hf.gone.mpr (by rw [hw.val, hst])⟩
  rw [hI.told.due, hl]
  exact h.due

lemma emitWaited_ok {d : Option (Option ℕ)} {ret : Option ℕ}
    (hd : d = some ret ∨ d = none ∧ ret = none) :
    Ok e (.proc p) (emit (.waited p ret)) (fun _ l' => l' = l) (l.owe d) := by
  refine write_ok fun s ℓ hI hl ht => ?_
  have hback : (l.owe d).setSaid ((l.owe d).said.setDue none) = l := by
    obtain ⟨run, family, ⟨exiting, due, xstate⟩, wait, watch⟩ := l
    cases h.due
    rfl
  rw [← hback]
  refine hI.tell ht hl _ (hI.told.emit_wait rfl rfl rfl rfl ?_ rfl (by rw [hl]; rfl) (by rw [hl]; rfl)
    (hI.not_empty ht hl h.st))
  have hdue : Kern.due s.log p = d := by
    rw [hI.told.due, hl]
    rfl
  rcases hd with rfl | ⟨rfl, rfl⟩
  · exact .inl hdue
  · exact .inr ⟨hdue, rfl⟩

lemma reap_ok (hp : .proc p ∈ l.run.locks) (hk : .proc b.slot ∉ l.run.locks)
    (hst : b.val.state = .zombie) (hpar : b.val.parent = some p) (hr : b.reaped = false)
    (hwatch : l.watch = {}) :
    Ok e (.proc p) (reap p b.slot b.val.pid b.val.xstate)
      (fun pid l' => l' = (l.owe (some (some pid))).unlock (.proc p)) (l.tend b) := by
  have h' := h.toPlain.owe (some (some b.val.pid))
  refine then_ok (emitReaped_ok h hst hpar hr) fun _ => ?_
  refine Safe.bind (freeproc_ok (b := b.setReaped) h' h.kid (.inr rfl)) ?_
  rintro _ l' ⟨b', rfl, hslot, hst', hpar'⟩
  change b'.slot = b.slot at hslot
  rw [← hslot]
  refine then_ok (h'.untend (by rw [hslot]; exact hk) (fun _ => hst') (fun _ => hpar') h.sig)
    fun _ => ?_
  refine release_then (h'.canRelease hp (by simp [Ghost.owe, Ghost.setSaid, h.sig]) ?_) rfl
  change ¬ l.watch.Needs _
  rw [hwatch]
  exact needs_empty _

/-- What `waitStep` returns, for a process that knows `l`. -/
def Waited (l : Ghost) (p : ℕ) (cur : ℕ × Bool) (r : ℕ × Bool ⊕ Bool ⊕ Option ℕ) (l' : Ghost) :
    Prop :=
  match r with
  | .inl next => next.1 = cur.1 + 1 ∧ cur.1 < NPROC ∧ l' = l.scan p (cur.1 + 1)
  | .inr (.inl _) => NPROC ≤ cur.1 ∧ l' = l.scan p cur.1
  | .inr (.inr ret) => l' = (l.owe (some ret)).unlock (.proc p)

lemma waitStep_ok {cur : ℕ × Bool} (hp : .proc p ∈ l.run.locks) (hwatch : l.watch = {}) :
    Ok e (.proc p) (waitStep p addr cur) (Waited l p cur) (l.scan p cur.1) := by
  unfold waitStep
  split
  case isFalse hge => exact ⟨not_lt.mp hge, rfl⟩
  case isTrue hlt =>
    refine Safe.bind (getProc_child h hp) ?_
    rintro q l' (⟨hq, rfl⟩ | ⟨hq, rfl⟩)
    · rw [if_pos hq]
      refine acquire_then fun hk => ?_
      rw [show ((l.scan p cur.1).setFamily (l.family.setKid (some cur.1))).run.locks = l.run.locks from
        l.scan_locks p cur.1] at hk
      refine Safe.bind (getProc_zombie h hp hwatch) ?_
      rintro n l' (⟨hz, hpar, rfl⟩ | ⟨hz, rfl⟩)
      · rw [if_pos hz]
        refine getProc_then fun q => ?_
        refine then_ok (r := l.tend { slot := cur.1, val := n }) ?_ fun ok => ?_
        · split
          · exact vm_ok _
          · exact rfl
        cases ok with
        | true =>
          rw [if_pos rfl]
          refine Safe.bind (reap_ok (b := { slot := cur.1, val := n }) h hp hk hz hpar rfl
            hwatch) ?_
          rintro pid l' rfl
          exact rfl
        | false =>
          rw [if_neg (by simp)]
          refine then_ok (emitRefused_ok (b := { slot := cur.1, val := n }) h hz hpar rfl)
            fun _ => ?_
          have h' := h.toPlain.owe (some none)
          refine then_ok (h'.untend hk (by simp) (fun hu => ?_) h.sig) fun _ => ?_
          · rw [hz] at hu
            cases hu
          refine release_then (h'.canRelease hp (by simp [Ghost.owe, Ghost.setSaid, h.sig]) ?_) rfl
          change ¬ l.watch.Needs _
          rw [hwatch]
          exact needs_empty _
      · rw [if_neg hz]
        have hs := h.scan (n := cur.1 + 1) hp
        refine hs.toPlain.unlock_then hk (by simp [hs.sig]) ?_
        exact ⟨rfl, hlt, rfl⟩
    · rw [if_neg hq]
      exact ⟨rfl, hlt, rfl⟩

lemma Caller.maySleep (hp : .proc p ∈ l.run.locks) (hwatch : l.watch = {}) (hn : NPROC ≤ n) :
    MaySleep e p (l.scan p n) (.proc p) (.proc p) := by
  have hpos : 0 < NPROC := by decide
  obtain ⟨n, rfl⟩ : ∃ m, n = m + 1 := ⟨n - 1, by omega⟩
  refine ⟨h.st, h.seen, h.pick, h.on, h.busy, h.sig, h.parked, h.pre.trans h.cond.symm, ?_, hp, ?_, ?_⟩
  · intro m hm
    change l.wait.cond = some m at hm
    rw [h.cond] at hm
    cases hm
  · intro _ _
    refine ⟨⟨n + 1, hn, rfl⟩, ?_⟩
    change l.watch.woke = none
    rw [hwatch]
  · rintro k (⟨q, m, ⟨⟩, rfl⟩ | ⟨q, hq, -⟩ | ⟨q, pid, hq, -⟩)
    · rfl
    · change l.watch.woke = _ at hq
      rw [hwatch] at hq
      cases hq
    · change l.watch.named = _ at hq
      rw [hwatch] at hq
      cases hq

lemma Caller.slept (hwatch : l.watch = {}) : (l.scan p n).slept = l := by
  obtain ⟨run, family, said, ⟨cond, pre, parked, chan, sig⟩, watch⟩ := l
  cases h.pre
  cases h.parked
  cases h.chan
  cases hwatch
  cases n <;> rfl

/-- What `wait` returns is what it owes. -/
def Owed (ret : Option ℕ) (d : Option (Option ℕ)) : Prop := d = some ret ∨ d = none ∧ ret = none

lemma waitRound_ok (hp : .proc p ∈ l.run.locks) (hwatch : l.watch = {}) :
    Ok e (.proc p) (waitRound p addr ()) (fun r l' => r.elim (fun _ => l' = l)
      fun ret => ∃ d, Owed ret d ∧ l' = (l.owe d).unlock (.proc p)) l := by
  refine Safe.bind (Q := fun r l' => r.elim (fun _ => ∃ m, NPROC ≤ m ∧ l' = l.scan p m)
    fun ret => l' = (l.owe (some ret)).unlock (.proc p)) ?_ ?_
  · refine safe_loop (J := fun n cur l' => n + cur.1 = NPROC ∧ l' = l.scan p cur.1) (n := NPROC)
      ⟨rfl, rfl⟩ (by omega) ?_
    rintro n cur l' ⟨hn, rfl⟩
    refine (waitStep_ok h hp hwatch).mono ?_
    rintro (next | havekids | ret) l' hr
    · obtain ⟨h1, h2, h3⟩ := hr
      exact ⟨n - 1, by omega, by omega, by rw [h1]; exact h3⟩
    · exact ⟨cur.1, hr⟩
    · exact hr
  · rintro (havekids | ret) l' hr
    · obtain ⟨m, hm, rfl⟩ := hr
      refine getProc_then fun q => ?_
      split
      · -- it does not sleep, so it need not know about zombies
        have hc : CanRelease e (.proc p) l (.proc p) := by
          refine h.toPlain.canRelease hp (by simp [h.sig]) ?_
          rw [hwatch]
          exact needs_empty _
        refine then_ok (safe_move (r := l) (fun s ℓ hI hl ht => ?_) (release_ok hc)) fun _ => ?_
        · have hback : (l.scan p m).setWatch (l.scan p m).watch.rest = l := by
            obtain ⟨run, family, said, wait, watch⟩ := l
            cases hwatch
            cases m <;> rfl
          have := hI.forget ht hl
          rwa [hback] at this
        · have hback : l.owe none = l := by
            obtain ⟨run, family, ⟨exiting, due, xstate⟩, wait, watch⟩ := l
            cases h.due
            rfl
          exact ⟨none, .inr ⟨rfl, rfl⟩, by rw [hback]⟩
      · refine then_ok (sleep_ok (h.maySleep hp hwatch hm)) fun _ => ?_
        exact h.slept hwatch
    · exact ⟨some ret, .inl rfl, hr⟩

lemma wait_ok (hwatch : l.watch = {}) :
    Ok e (.proc p) (wait addr k) (fun ret l' => ∃ d, Owed ret d ∧ l' = l.owe d) l := by
  refine myproc_then ?_
  refine acquire_then fun hk => ?_
  refine safe_rounds (J := fun _ l' => l' = l.lock (.proc p)) rfl (fun _ => hang_ok) ?_
  rintro _ l' rfl
  refine (waitRound_ok (h.lock _) (Finset.mem_insert_self _ _) hwatch).mono ?_
  rintro (_ | ret) l' hr
  · exact hr
  · obtain ⟨d, hd, rfl⟩ := hr
    refine ⟨d, hd, ?_⟩
    exact Ghost.lock_unlock (l := l.owe d) hk

lemma sysWait_ok (hwatch : l.watch = {}) :
    Ok e (.proc p) (sysWait addr k) (fun _ l' => l' = l) l := by
  refine myproc_then ?_
  refine Safe.bind (wait_ok h hwatch) ?_
  rintro ret l' ⟨d, hd, rfl⟩
  exact then_ok (emitWaited_ok h hd) fun _ => rfl

end

end Xv6.Kern
