import Xv6.Kern.Act

/-!
Switching between processes: `scheduler`, `sched`, `yield`, `forkret`, `sleep` and `wakeup`
keep the invariant.
-/

namespace Xv6.Kern

open Lib.Wp Lib.Conc
open Function (update update_eq_self update_idem update_of_ne update_self)

variable {e : Env} {s s' : State} {ℓ : Thread → Ghost} {t : Thread} {l l' : Ghost}
  {c i j p : ℕ} {k : Lock}

/-! ### A process acts on its own state -/

lemma Inv.own {F : Proc → Proc} (h : Inv e s ℓ) (ht : turn (.proc i) s) (hl : ℓ (.proc i) = l)
    (h1 : l.run.st ≠ .unused) (h2 : l.run.st ≠ .zombie)
    (hF : ∀ q, (F q).parent = q.parent ∧ (F q).pid = q.pid ∧ (F q).xstate = q.xstate ∧
      (F q).killed = q.killed)
    (hst : (F (s.proc i)).state ≠ .unused ∧ (F (s.proc i)).state ≠ .zombie)
    (hbase : Base (s.setProc i F) (update (fun u => (ℓ u).run) (.proc i) l'.run))
    (hlocks : l'.run.locks = l.run.locks)
    (hfam : l'.family = l.family) (hsaid : l'.said = l.said) (hwatch : l'.watch = l.watch)
    (hsleeps : Sleeps e (s.setProc i F) (update (fun u => (ℓ u).run) (.proc i) l'.run)
      (update (fun u => (ℓ u).wait) (.proc i) l'.wait))
    (hwatched : Watched (s.setProc i F) (fun u => (ℓ u).run) fun u => (ℓ u).watch) :
    Inv e (s.setProc i F) (update ℓ (.proc i) l') := by
  have hs := h.state_eq ht hl
  rw [← hs] at h1 h2
  have halike : ∀ j, Alike (s.proc j) ((s.setProc i F).proc j) := by
    intro j
    by_cases hj : j = i
    · rw [hj, State.setProc_self]
      exact ⟨by simp [hst.1, h1], by simp [hst.2, h2], (hF _).2.1, (hF _).1, (hF _).2.2.1⟩
    · rw [State.setProc_of_ne _ _ hj]
      exact .refl _
  refine h.keep ht hl rfl rfl
    (fun u b hu => State.setProc_of_ne _ _ (h.kin.not_busy h1 h2 u b hu)) hlocks hfam ?_ ?_ ?_
    rfl (fun j => (halike j).unused) (fun j => (halike j).zombie) (fun j => (halike j).parent) ?_ ?_
  · rw [part]
    exact hbase
  · rw [part_same hl Ghost.said hsaid]
    exact h.told.set h.kin rfl rfl (fun j => (halike j).unused) (fun j _ _ => halike j) (.refl _)
  · rw [part, part]
    exact hsleeps
  · rw [part_same hl Ghost.watch hwatch]
    exact hwatched
  · rw [part_same hl Ghost.watch hwatch]
    exact h.marks.set rfl (fun j => (halike j).unused)
      (State.setProc_proj Proc.killed (hF _).2.2.2) (fun j _ => (halike j).pid)
      fun _ j _ _ => (halike j).pid

lemma good_update {W : Wait} {n m : ℕ} (hsig : W.sig = (ℓ (.proc i)).wait.sig)
    (hg : Good s (fun u => (ℓ u).wait) n m) (hcond : s'.cond = s.cond) :
    Good s' (update (fun u => (ℓ u).wait) (.proc i) W) n m := by
  have hs := update_proj (g := fun u => (ℓ u).wait) (t := .proc i) (r := W) Wait.sig hsig
  refine Sleeps.good_of_sig (s := s) (by rw [hcond]) (fun a b hab hbm => ⟨a, b, ?_, hbm⟩) hg
  rw [hs]
  exact hab

/-- A process may sleep on `chan` as far as its children go: if it is in `wait`, it has found none
of them to be a zombie. -/
def NoZombie (l : Ghost) (i : ℕ) (chan : Chan) : Prop :=
  chan = .proc i → l.wait.cond = none →
    (∃ n, NPROC ≤ n ∧ l.watch.clear = some (i, n)) ∧ l.watch.woke = none

/-- The process that acts changes its state, and those who sleep in `wait` may. -/
lemma Inv.watch_state {st : PState} (h : Inv e s ℓ) (ht : turn (.proc i) s) (hl : ℓ (.proc i) = l)
    (hk : .proc i ∈ l.run.locks) (h1 : l.run.st ≠ .unused) (h2 : l.run.st ≠ .zombie)
    (hst : st = .runnable ∨
      st = .sleeping ∧ ∃ ch, l.wait.chan = some ch ∧ NoZombie l i ch) :
    Watched (s.setProc i fun q => { q with state := st }) (fun u => (ℓ u).run)
      fun u => (ℓ u).watch := by
  set z := s.setProc i fun q => { q with state := st }
  have hs := h.state_eq ht hl
  rw [← hs] at h1 h2
  have hst1 : st ≠ .unused ∧ st ≠ .zombie := by
    rcases hst with rfl | ⟨rfl, -⟩ <;> simp
  have hne : ∀ j, j ≠ i → z.proc j = s.proc j := fun j hj => State.setProc_of_ne _ _ hj
  have hself : z.proc i = { s.proc i with state := st } := State.setProc_self _ _ _
  have hstate : ∀ j, ((z.proc j).state = .zombie ↔ (s.proc j).state = .zombie) ∧
      ((z.proc j).state = .unused ↔ (s.proc j).state = .unused) := by
    intro j
    by_cases hj : j = i
    · rw [hj, hself]
      exact ⟨by simp [hst1, h2], by simp [hst1, h1]⟩
    · rw [hne j hj]
      exact ⟨Iff.rfl, Iff.rfl⟩
  have hparent : ∀ j, (z.proc j).parent = (s.proc j).parent := State.setProc_proj Proc.parent rfl
  refine h.watched.set rfl (fun j p _ hj hz => ?_) (fun j hj1 hj2 => ?_) (fun j hw => ?_)
    h.watched.held
  · rw [hparent] at hj
    exact ⟨hj, (hstate j).1.mp hz⟩
  · rw [ne_eq, (hstate j).2, ne_eq, (hstate j).1]
    exact ⟨hj1, hj2, .inl (hparent j)⟩
  by_cases hj : j = i
  · subst hj
    obtain ⟨h3, h4, h5⟩ := hw
    rw [hself] at h3 h4
    have hcond : l.wait.cond = none := by
      have := h.sleeps.waiting j
      rw [hl] at this
      exact this.symm.trans h5
    rcases hst with rfl | ⟨rfl, ch, hch, hno⟩
    · cases h3
    · have hc := (h.sleeps.chan j ch (by rw [hl]; exact hch)).1
      obtain ⟨hclear, hwoke⟩ := hno (Option.some.inj (hc.symm.trans h4)) hcond
      exact .inr (h.watched.may_wait h.base h.kin ht (by rw [hl]; exact hk)
        (by rw [hl]; exact hclear) (by rw [hl]; exact hwoke))
  · rw [InWait, hne j hj] at hw
    exact .inl hw

lemma setState_ok {st : PState} (hk : .proc i ∈ l.run.locks) (h1 : l.run.st ≠ .unused)
    (h2 : l.run.st ≠ .zombie) (hst : st = .runnable ∨
      st = .sleeping ∧ l.wait.parked = none ∧ (∀ n, l.wait.cond = some n → l.wait.pre = some n) ∧
        ∃ ch, l.wait.chan = some ch ∧ NoZombie l i ch) :
    Ok e (.proc i) (setProc i fun q => { q with state := st })
      (fun _ l' => l' = l.setSt st) l := by
  refine write_ok fun s ℓ h hl ht => ?_
  have hlive := Inv.live_cur ht
  have hst1 : st ≠ .unused ∧ st ≠ .zombie := by
    rcases hst with rfl | ⟨rfl, -⟩ <;> simp
  have hne : ∀ j, j ≠ i → (s.setProc i fun q => { q with state := st }).proc j = s.proc j :=
    fun j hj => State.setProc_of_ne _ _ hj
  refine h.own ht hl h1 h2 (fun _ => ⟨rfl, rfl, rfl, rfl⟩) hst1 ?_ rfl rfl rfl rfl ?_
    (h.watch_state ht hl hk h1 h2 (hst.imp_right fun hs => ⟨hs.1, hs.2.2.2⟩))
  · have := h.base.set_own (z := s.setProc i fun q => { q with state := st }) st hlive
      (by rw [hl]; exact hk) hst1.1 rfl rfl rfl rfl (fun j hj => by rw [hne j hj]) (by simp)
    simp only [hl] at this
    exact this
  · refine h.sleeps.act (h.sleeps.waiting_self (by rw [hl]; rfl)) (h.sleeps.waking_self (by rw [hl]; rfl))
      (fun n m _ _ hg => good_update (by rw [hl]; rfl) hg rfl) (fun j hj => by rw [hne j hj]; exact id)
      (fun j hj hj1 hj2 => by rw [hne j hj]; exact ⟨rfl, hj1, hj2⟩) (fun _ _ => id)
      (fun j hj => by rw [update_of_ne (by simpa using hj)]) ?_ ?_ ?_ ?_ ?_
    · intro n hn
      obtain ⟨hlk, hlv, hg⟩ := h.sleeps.pre i n (by rw [hl]; exact hn)
      rw [hl] at hlk
      rw [update_self]
      exact ⟨hlk, hlv, good_update (by rw [hl]; rfl) hg rfl⟩
    · intro n hn
      refine ⟨by rw [update_self]; exact hk, fun hs => ?_⟩
      rw [State.setProc_self] at hs
      rcases hst with rfl | ⟨-, hp, -⟩
      · cases hs
      · change l.wait.parked = some n at hn
        rw [hp] at hn
        cases hn
    · intro n hn hs
      rw [State.setProc_self] at hs
      rcases hst with rfl | ⟨-, -, hp, -⟩
      · cases hs
      · exact .inl (hp n hn)
    · intro n m hnm
      obtain ⟨hlk, hlv⟩ := h.sleeps.sig i n m (by rw [hl]; exact hnm)
      rw [hl] at hlk
      rw [update_self]
      exact ⟨hlk, hlv⟩
    · intro ch hch
      have hc := (h.sleeps.chan i ch (by rw [hl]; exact hch)).1
      rw [State.setProc_self]
      exact ⟨hc, hst1⟩

lemma setChan_ok {ch : Option Chan} (hst : l.run.st = .running) :
    Ok e (.proc i) (setProc i fun q => { q with chan := ch })
      (fun _ l' => l' = l.setChan ch) l := by
  refine write_ok fun s ℓ h hl ht => ?_
  have hs : (s.proc i).state = .running := (h.state_eq ht hl).trans hst
  have hne : ∀ j, j ≠ i → (s.setProc i fun q => { q with chan := ch }).proc j = s.proc j :=
    fun j hj => State.setProc_of_ne _ _ hj
  have hself : (s.setProc i fun q => { q with chan := ch }).proc i = { s.proc i with chan := ch } :=
    State.setProc_self _ _ _
  have hru : update (fun u => (ℓ u).run) (.proc i) (l.setChan ch).run =
      fun u => (ℓ u).run := by
    change update (fun u => (ℓ u).run) (.proc i) l.run = _
    rw [← hl]
    exact update_eq_self _ _
  refine h.own ht hl (by rw [hst]; simp) (by rw [hst]; simp) (fun _ => ⟨rfl, rfl, rfl, rfl⟩)
    (by rw [hs]; simp) ?_ rfl rfl rfl rfl ?_ ?_
  · rw [hru]
    exact h.base.frame rfl rfl rfl rfl (State.setProc_proj Proc.state rfl)
  · rw [hru]
    refine h.sleeps.act (h.sleeps.waiting_self (by rw [hl]; rfl)) (h.sleeps.waking_self (by rw [hl]; rfl))
      (fun n m _ _ hg => good_update (by rw [hl]; rfl) hg rfl) (fun j hj => by rw [hne j hj]; exact id)
      (fun j hj hj1 hj2 => by rw [hne j hj]; exact ⟨rfl, hj1, hj2⟩) (fun _ _ => id)
      (fun _ _ => rfl) ?_ ?_ ?_ ?_ ?_
    · intro n hn
      obtain ⟨hlk, hlv, hg⟩ := h.sleeps.pre i n (by rw [hl]; exact hn)
      exact ⟨hlk, hlv, good_update (by rw [hl]; rfl) hg rfl⟩
    · intro n hn
      cases hn
    · intro n _ hsl
      rw [hself] at hsl
      rw [show (s.proc i).state = .sleeping from hsl] at hs
      cases hs
    · intro n m hnm
      exact h.sleeps.sig i n m (by rw [hl]; exact hnm)
    · intro ch' hch
      rw [hself]
      exact ⟨hch, by rw [show (s.proc i).state = _ from hs]; simp,
        by rw [show (s.proc i).state = _ from hs]; simp⟩
  · refine h.watched.mild (.of_setProc rfl rfl rfl rfl fun hsl => ?_) h.watched.held
    rw [hs] at hsl
    cases hsl

/-! ### `sched` -/

lemma swtchOut_ok (hlocks : l.run.locks = {.proc i}) (hbusy : l.family.busy = none)
    (hsig : l.wait.sig = none) (hparked : l.wait.parked = none)
    (hchan : ∀ n, l.wait.pre = some n → l.run.st = .sleeping → l.wait.chan = some (e.chan n))
    (hdead : l.run.st = .zombie → l.resume = .fresh i) :
    Ok e (.proc i) (swtchOut i) (fun _ l' => l' = l.resume) l := by
  refine write_ok fun s ℓ h hl ht => ?_
  have hlive := Inv.live_cur ht
  obtain ⟨hst, hst'⟩ := h.base.st _ i hlive
  rw [hl] at hst hst'
  have hrun : l.resume.run.locks = l.run.locks := rfl
  have hlk := update_proj (g := fun u => (ℓ u).run) (t := .proc i) (r := l.resume.run) Run.locks
    (by rw [hl, hrun])
  have hothers : ∀ a j, j ≠ i → s.live a = some j → update s.live s.cur none a = some j := by
    intro a j hj ha
    have hac : a ≠ s.cur := by
      rintro rfl
      rw [hlive] at ha
      exact hj (Option.some.inj ha).symm
    rw [update_of_ne hac]
    exact ha
  constructor
  case base =>
    rw [part]
    have := h.base.leave (z := s.leave i) hlive (by rw [hl]; exact hlocks) rfl rfl rfl rfl rfl
    simp only [hl] at this
    exact this
  case kin =>
    rw [part, part_same hl Ghost.family]
    refine h.kin.frame rfl rfl fun u b hu => ?_
    have hw := h.kin.busy u b hu
    have hut : u ≠ .proc i := by
      rintro rfl
      rw [hl, hbusy] at hu
      cases hu
    refine ⟨by rw [hlk]; exact hw.lock, ?_, ?_⟩
    · obtain ⟨a, ha⟩ := hw.current
      have hac : a ≠ s.cur := by
        rintro rfl
        exact hut (ha.symm.trans ht)
      refine ⟨a, ?_⟩
      rw [← ha]
      simp only [State.thread, State.leave, update_of_ne hac]
    · intro hr
      have hbi : b.slot ≠ i := by
        rintro rfl
        have := (h.base.ctx b.slot).mpr ⟨_, hlive⟩
        rw [hw.ready hr] at this
        cases this
      change update s.ctx i .saved b.slot = _
      rw [update_of_ne hbi]
      exact hw.ready hr
  case told =>
    rw [part_same hl Ghost.family, part_same hl Ghost.said]
    exact h.told.set h.kin rfl rfl (fun _ => Iff.rfl) (fun _ _ _ => .refl _) (.refl _)
  case sleeps =>
    rw [part, part]
    refine h.sleeps.act (h.sleeps.waiting_self (by rw [hl]; rfl))
      (h.sleeps.waking_self (by rw [hl]; rfl))
      (fun n m _ _ hg => good_update (by rw [hl]; rfl) hg rfl) (fun _ _ => id)
      (fun _ _ h1 h2 => ⟨rfl, h1, h2⟩) (fun j hj hx => hx.imp fun a => hothers a j hj)
      (fun j _ => hlk _) ?_ ?_ ?_ ?_ ?_
    · intro n hn
      cases hn
    · intro n hn
      refine ⟨by rw [hlk, hl, hlocks]; simp, fun hs => ?_⟩
      have hg := (h.sleeps.pre i n (by rw [hl]; exact hn)).2.2
      refine ⟨?_, good_update (by rw [hl]; rfl) hg rfl⟩
      have hch := hchan n hn (by rw [← hst]; exact hs)
      exact (h.sleeps.chan i _ (by rw [hl]; exact hch)).1
    · intro n hn hs
      refine .inr ?_
      have hc := h.sleeps.asleep i n (by rw [hl]; exact hn) hs
      rw [hl] at hc
      rcases hc with hc | hc
      · exact hc
      · rw [hparked] at hc
        cases hc
    · intro n m hnm
      rw [show l.wait.sig = some (n, m) from hnm] at hsig
      cases hsig
    · intro ch hch
      exact h.sleeps.chan i ch (by rw [hl]; exact hch)
  case watched =>
    rw [part, part]
    have hrest := (h.forget ht hl).watched
    rw [part_same hl Ghost.run, part] at hrest
    refine hrest.mild (.of_proc rfl rfl rfl rfl) fun u k hk => ?_
    obtain ⟨h1, a, ha⟩ := hrest.held u k hk
    refine ⟨by rw [hlk]; exact h1, a, ?_⟩
    have hac : a ≠ s.cur := by
      rintro rfl
      rw [show u = .proc i from ha.symm.trans ht, update_self] at hk
      exact needs_rest _ _ hk
    rw [← ha]
    simp only [State.thread, State.leave, update_of_ne hac]
  case marks =>
    have hrest := (h.forget ht hl).marks
    rw [part] at hrest ⊢
    exact hrest.mild (.of_proc rfl rfl rfl rfl)
  case dead =>
    intro j hj hs
    by_cases hji : j = i
    · subst hji
      rw [update_self]
      have hs' : (s.proc j).state = .unused ∨ (s.proc j).state = .zombie := hs
      have hz : l.run.st = .zombie := by
        rw [hst] at hs'
        exact hs'.resolve_left hst'
      exact hdead hz
    · rw [update_of_ne (by simpa using hji)]
      exact h.dead j (fun a ha => hj a (hothers a j hji ha)) hs
  case fresh =>
    intro j hj
    have hji : j ≠ i := by
      rintro rfl
      change update s.ctx j .saved j = _ at hj
      rw [update_self] at hj
      cases hj
    rw [update_of_ne (by simpa using hji)]
    refine h.fresh j ?_
    change update s.ctx i .saved j = _ at hj
    rwa [update_of_ne hji] at hj

/-- `sched`, for a process that holds its own lock only: it comes back as RUNNING. -/
lemma sched_ok (hk : .proc i ∈ l.run.locks) (hbusy : l.family.busy = none)
    (hsig : l.wait.sig = none) (hparked : l.wait.parked = none)
    (hchan : ∀ n, l.wait.pre = some n → l.run.st = .sleeping → l.wait.chan = some (e.chan n))
    (hdead : l.run.st = .zombie → l.run.locks = {.proc i} → l.resume = .fresh i) :
    Ok e (.proc i) sched (fun _ l' => l' = l.resume ∧ l.run.locks = {.proc i}) l := by
  refine myproc_then ?_
  refine (panicWhen_ok _ _).bind_read fun _ _ => ?_
  refine (panicWhen_ok _ _).bind_read fun _ hone => ?_
  refine (panicWhen_ok _ _).bind_read fun _ _ => ?_
  obtain ⟨s, ℓ, h, hl, ht, hnoff⟩ := hone
  have hlocks : l.run.locks = {.proc i} := by
    have hcard : l.run.locks.card = 1 := by
      have := h.base.noff s.cur
      rw [ht, hl] at this
      rw [← this]
      by_contra hne
      exact hnoff hne
    obtain ⟨k, hk'⟩ := Finset.card_eq_one.mp hcard
    rw [hk', Finset.mem_singleton] at hk
    rw [hk', hk]
  refine (swtchOut_ok hlocks hbusy hsig hparked hchan fun hz => hdead hz hlocks).mono ?_
  rintro _ l' rfl
  exact ⟨rfl, hlocks⟩

/-! ### `yield`, `sleep` and `wakeup` -/

/-- A thread that is not working on a process, nor on its way to sleep. -/
structure Plain (l : Ghost) : Prop where
  st : l.run.st = .running
  seen : l.run.seen = none
  pick : l.run.pick = none
  on : l.run.on = none
  busy : l.family.busy = none
  pre : l.wait.pre = none
  parked : l.wait.parked = none
  needs : ∀ k, l.watch.Needs k → k ∈ l.run.locks
  named : l.watch.named = none

namespace Plain

lemma lock (h : Plain l) (k : Lock) : Plain (l.lock k) :=
  { h with needs := fun k' hk' => Finset.mem_insert_of_mem (h.needs k' hk') }

lemma canRelease (h : Plain l) (hk : k ∈ l.run.locks)
    (hsig : ∀ n m, l.wait.sig = some (n, m) → e.lk n ≠ k) (hneeds : ¬ l.watch.Needs k) :
    CanRelease e t l k := by
  refine ⟨hk, .of_idle (fun _ _ _ => h.st) h.on h.seen h.pick, ?_, ?_, hsig, h.parked, hneeds⟩
  · rw [h.busy]
    simp
  · rw [h.pre]
    simp

lemma locked (h : Plain l) (hk : .proc j ∈ l.run.locks) : Locked t l j := by
  refine ⟨hk, ?_, ?_, ?_⟩
  · rw [h.busy]
    simp
  · rw [h.on, h.seen, h.pick]
    simp
  · rw [h.st]
    simp

end Plain

lemma Plain.unlock_then {β : Type} {Q : β → Ghost → Prop} {f : Unit → Code β} (h : Plain l)
    (hk : k ∉ l.run.locks) (hsig : ∀ n m, l.wait.sig = some (n, m) → e.lk n ≠ k)
    (hf : Ok e t (f ()) Q l) : Ok e t (release k >>= f) Q (l.lock k) := by
  refine release_then ((h.lock k).canRelease (Finset.mem_insert_self _ _) hsig
    fun hn => hk (h.needs k hn)) ?_
  rw [Ghost.lock_unlock hk]
  exact hf

lemma Plain.unlock_ok (h : Plain l) (hk : k ∉ l.run.locks)
    (hsig : ∀ n m, l.wait.sig = some (n, m) → e.lk n ≠ k) :
    Ok e t (release k) (fun _ l' => l' = l) (l.lock k) := by
  refine (release_ok ((h.lock k).canRelease (Finset.mem_insert_self _ _) hsig
    fun hn => hk (h.needs k hn))).mono ?_
  rintro _ l' rfl
  exact Ghost.lock_unlock hk

lemma yield_ok (h : Plain l) (hsig : l.wait.sig = none) :
    Ok e (.proc i) yield (fun _ l' => l' = l) l := by
  refine myproc_then ?_
  refine acquire_then fun hk => ?_
  have hmem : .proc i ∈ (l.lock (.proc i)).run.locks := Finset.mem_insert_self _ _
  refine then_ok (setState_ok hmem (by rw [(h.lock _).st]; simp) (by rw [(h.lock _).st]; simp)
    (.inl rfl)) fun _ => ?_
  refine Safe.bind (sched_ok hmem h.busy hsig h.parked ?_ ?_) ?_
  · intro n hn
    change l.wait.pre = some n at hn
    rw [h.pre] at hn
    cases hn
  · rintro ⟨⟩
  · rintro _ l' ⟨rfl, hone⟩
    -- it holds no lock but its own, so it needs none
    have hrest : l.watch.rest = l.watch := by
      refine Watch.rest_of_needs fun k hn => hk ?_
      have hin : k ∈ insert (Lock.proc i) l.run.locks := Finset.mem_insert_of_mem (h.needs k hn)
      rw [show insert (Lock.proc i) l.run.locks = {.proc i} from hone, Finset.mem_singleton] at hin
      rw [← hin]
      exact h.needs k hn
    have hback : ((l.lock (.proc i)).setSt .runnable).resume = l.lock (.proc i) := by
      obtain ⟨⟨locks, st, seen, pick, on⟩, family, said, ⟨cond, pre, parked, chan, sig⟩, watch⟩ := l
      cases h.st
      cases h.pre
      cases h.parked
      simp only [Ghost.resume, Ghost.lock, Ghost.setSt, show watch.rest = watch from hrest]
      rfl
    rw [hback]
    exact h.unlock_ok hk (by simp [hsig])

/-- A process may sleep on `chan` with `lk`: if it waits for a condition, it has found it false,
and these are the channel and the lock of the condition. -/
structure MaySleep (e : Env) (i : ℕ) (l : Ghost) (chan : Chan) (lk : Lock) : Prop where
  st : l.run.st = .running
  seen : l.run.seen = none
  pick : l.run.pick = none
  on : l.run.on = none
  busy : l.family.busy = none
  sig : l.wait.sig = none
  parked : l.wait.parked = none
  pre : l.wait.pre = l.wait.cond
  cond : ∀ n, l.wait.cond = some n → e.lk n = lk ∧ e.chan n = chan
  mem : lk ∈ l.run.locks
  zombie : NoZombie l i chan
  needs : ∀ k, l.watch.Needs k → k = .proc i

lemma sleep_middle {chan : Chan} {lk : Lock} {Q : Unit → Ghost → Prop} {f : Unit → Code Unit}
    (hst : l.run.st = .running) (hbusy : l.family.busy = none) (hsig : l.wait.sig = none)
    (hpre : l.wait.pre = l.wait.cond)
    (hcond : ∀ n, l.wait.cond = some n → e.lk n = lk ∧ e.chan n = chan)
    (hk : .proc i ∈ l.run.locks) (hno : NoZombie l i chan)
    (hf : l.run.locks = {.proc i} → Ok e (.proc i) (f ()) Q l.slept) :
    Ok e (.proc i) (do
      setProc i fun q => { q with chan := some chan }
      setProc i fun q => { q with state := .sleeping }
      sched
      setProc i fun q => { q with chan := none }
      f ()) Q l := by
  refine then_ok (setChan_ok hst) fun _ => ?_
  refine then_ok (setState_ok hk (by rw [show (l.setChan _).run.st = _ from hst]; simp)
    (by rw [show (l.setChan _).run.st = _ from hst]; simp) (.inr ⟨rfl, rfl, ?_, _, rfl, hno⟩))
    fun _ => ?_
  · intro n hn
    exact hpre.trans hn
  refine Safe.bind (sched_ok hk hbusy hsig rfl ?_ (by rintro ⟨⟩)) ?_
  · intro n hn _
    rw [(hcond n (hpre.symm.trans hn)).2]
    rfl
  rintro _ l' ⟨rfl, hlocks⟩
  refine then_ok (setChan_ok rfl) fun _ => ?_
  have hback : (((l.setChan (some chan)).setSt .sleeping).resume).setChan none = l.slept := by
    obtain ⟨⟨locks, st, seen, pick, on⟩, family, said, ⟨cond, pre, parked, chan, sig⟩, watch⟩ := l
    cases hst
    rfl
  rw [hback]
  exact hf hlocks

lemma MaySleep.release {chan : Chan} {lk : Lock} (h : MaySleep e i l chan lk)
    (hlk : lk ≠ .proc i) : CanRelease e (.proc i) (l.lock (.proc i)) lk := by
  refine ⟨Finset.mem_insert_of_mem h.mem, .of_idle (fun _ _ _ => h.st) h.on h.seen h.pick, ?_, ?_,
    ?_, h.parked, fun hn => hlk (h.needs lk hn)⟩
  · rw [Ghost.lock_family, h.busy]
    simp
  · -- the process's own lock keeps it from missing a wakeup
    rintro j n ⟨⟩ -
    exact .inr (Finset.mem_erase.mpr ⟨Ne.symm hlk, Finset.mem_insert_self _ _⟩)
  · rw [Ghost.lock_wait, h.sig]
    simp

lemma sleep_ok {chan : Chan} {lk : Lock} (h : MaySleep e i l chan lk) :
    Ok e (.proc i) (sleep chan lk) (fun _ l' => l' = l.slept) l := by
  refine myproc_then ?_
  by_cases hlk : lk = .proc i
  · simp only [doIf, hlk, ne_eq, not_true_eq_false, if_false]
    refine sleep_middle (f := fun _ => pure ()) h.st h.busy h.sig h.pre h.cond (hlk ▸ h.mem)
      h.zombie fun _ => ?_
    exact rfl
  · simp only [doIf, hlk, ne_eq, not_false_eq_true, if_true]
    refine Safe.bind (Q := fun _ l' => l' = (l.lock (.proc i)).unlock lk ∧ .proc i ∉ l.run.locks)
      ?_ ?_
    · refine acquire_then fun hk => ?_
      refine (release_ok (h.release hlk)).mono ?_
      rintro _ l' rfl
      exact ⟨rfl, hk⟩
    · rintro _ l' ⟨rfl, hk⟩
      have hmem : .proc i ∈ ((l.lock (.proc i)).unlock lk).run.locks :=
        Finset.mem_erase.mpr ⟨Ne.symm hlk, Finset.mem_insert_self _ _⟩
      refine sleep_middle (l := (l.lock (.proc i)).unlock lk)
        (f := fun _ => do
          release (.proc i)
          acquire lk) h.st h.busy h.sig h.pre h.cond hmem h.zombie
        fun hone => ?_
      -- `lk` was the only lock
      have hlocks : l.run.locks = {lk} := by
        ext k
        have hin := Finset.ext_iff.mp hone k
        simp only [Ghost.unlock_locks, Ghost.lock_locks, Finset.mem_erase, Finset.mem_insert,
          Finset.mem_singleton] at hin
        rw [Finset.mem_singleton]
        constructor
        · intro hkl
          by_contra hne
          exact hk ((hin.mp ⟨hne, .inr hkl⟩) ▸ hkl)
        · rintro rfl
          exact h.mem
      refine release_then ⟨hmem, .of_idle (fun _ _ _ => h.st) h.on h.seen h.pick, ?_, ?_, ?_, rfl,
        needs_rest _ _⟩ ?_
      · intro b hb
        change l.family.busy = _ at hb
        rw [h.busy] at hb
        cases hb
      · rintro j n - ⟨⟩
      · intro n m hn
        change l.wait.sig = _ at hn
        rw [h.sig] at hn
        cases hn
      · refine acquire_ok.mono ?_
        rintro _ l' ⟨rfl, -⟩
        obtain ⟨⟨locks, st, seen, pick, on⟩, family, said, wait, watch⟩ := l
        change (⟨⟨insert lk (((insert (Lock.proc i) locks).erase lk).erase (.proc i)), st, seen,
          pick, on⟩, family, said, wait.wake, watch.rest⟩ : Ghost) =
          ⟨⟨locks, st, seen, pick, on⟩, family, said, wait.wake, watch.rest⟩
        have hset : insert lk (((insert (Lock.proc i) locks).erase lk).erase (.proc i)) = locks := by
          change locks = {lk} at hlocks
          rw [hlocks]
          ext k
          simp only [Finset.mem_insert, Finset.mem_erase, Finset.mem_singleton]
          tauto
        rw [hset]

/-! ### `wakeup` -/

lemma forProcs_ok {body : ℕ → Code Unit} {J : ℕ → Ghost → Prop} (h0 : J 0 l)
    (hbody : ∀ j l, j < NPROC → J j l → Ok e t (body j) (fun _ l' => J (j + 1) l') l) :
    Ok e t (forProcs body) (fun _ l' => J NPROC l') l := by
  refine safe_forUp J (Nat.zero_le _) (by omega) h0 (fun j l' _ => ?_) fun j l' hj hJ => hbody j l' hj hJ
  exact ⟨by simp, rfl⟩

lemma wakeupOne_ok {chan : Chan} (h : Plain l) (hsig : l.wait.sig = none) :
    Ok e t (wakeupOne chan j) (fun _ l' => l' = l) l := by
  refine acquire_then fun hk => ?_
  refine then_ok (rouse_ok (wake_rouses chan) ((h.lock _).locked (Finset.mem_insert_self _ _)))
    fun _ => ?_
  exact h.unlock_ok hk (by simp [hsig])

lemma wakeup_ok {chan : Chan} (h : Plain l) (hsig : l.wait.sig = none) :
    Ok e t (wakeup chan) (fun _ l' => l' = l) l := by
  refine forProcs_ok (J := fun _ l' => l' = l) rfl ?_
  rintro j l' - rfl
  exact wakeupOne_ok h hsig

lemma wakeup_sig {n : ℕ} (h : Plain l) (hsig : l.wait.sig = some (n, 0))
    (hlk : e.lk n ∈ l.run.locks) :
    Ok e (.proc p) (wakeup (e.chan n)) (fun _ l' => l' = l.setSig (some (n, NPROC))) l := by
  refine forProcs_ok (J := fun j l' => l' = l.setSig (some (n, j))) ?_ ?_
  · obtain ⟨run, family, said, ⟨cond, pre, parked, chan, sig⟩, watch⟩ := l
    cases hsig
    rfl
  · rintro j l' - rfl
    have hp : Plain (l.setSig (some (n, j))) :=
      { h with }
    refine acquire_then fun hk => ?_
    have hp' := hp.lock (.proc j)
    refine then_ok (wake_next (hp'.locked (Finset.mem_insert_self _ _)) rfl hp'.pre hp'.parked)
      fun _ => ?_
    have hq : Plain (l.setSig (some (n, j + 1))) :=
      { h with }
    refine hq.unlock_ok hk ?_
    rintro n' m ⟨⟩ hn
    exact hk (hn ▸ hlk)

lemma wakeup1_ok (hj : Locked t l j) : Ok e t (wakeup1 j) (fun _ l' => l' = l) l := by
  refine (panicWhen_ok _ _).bind_read fun _ _ => ?_
  exact rouse_ok (wake_rouses _) hj

/-! ### `kill` -/

/-- A thread that has done `d` in `kill`. -/
def Ghost.note (l : Ghost) (d : Deed) : Ghost := l.setWatch (l.watch.setDeeds (l.watch.deeds ++ [d]))

/-- A thread that has found process `p` to have the pid it looks for. -/
def Ghost.name (l : Ghost) (p pid : ℕ) : Ghost := l.setWatch (l.watch.setNamed (some (p, pid)))

lemma setProc_id (s : State) (p : ℕ) : s.setProc p id = s := by
  simp only [State.setProc, id, update_eq_self]

lemma Inv.watched_note {v : Watch} (h : Inv e s ℓ) (ht : turn t s) (hl : ℓ t = l)
    (hclear : v.clear = l.watch.clear) (hup : v.up = l.watch.up) (hwoke : v.woke = l.watch.woke)
    (hneeds : ∀ k, v.Needs k → k ∈ l.run.locks) :
    Watched s (fun u => (ℓ u).run) (update (fun u => (ℓ u).watch) t v) := by
  refine h.watched.learn (fun k hk => ⟨by rw [hl]; exact hneeds k hk, _, ht⟩) ?_ ?_ ?_
  · intro p n hn
    exact h.watched.clear t p n (by rw [hl, ← hclear]; exact hn)
  · intro q hq
    exact h.watched.up t q (by rw [hl, ← hup]; exact hq)
  · intro q hq
    exact h.watched.woke t q (by rw [hl, ← hwoke]; exact hq)

lemma needs_setNamed {v : Watch} (hk : (v.setNamed (some (p, j))).Needs k) :
    v.Needs k ∨ k = .proc p := by
  rcases hk with hk | hk | ⟨p', pid, hp, rfl⟩
  · exact .inl (.inl hk)
  · exact .inl (.inr (.inl hk))
  · cases hp
    exact .inr rfl

section

variable {want : ℕ} (h : Plain l)

include h

lemma look_ok (hp : .proc p ∈ l.run.locks) :
    Ok e t (look want p) (fun q l' =>
      q.pid = want ∧ l' = (l.note (.looked t want p q.state want)).name p want ∨
      q.pid ≠ want ∧ l' = l.note (.looked t want p q.state q.pid)) l := by
  refine safe_turn fun s ℓ hI hl ht => ?_
  simp only [wp_bind, wp_get, wp_set, wp_pure]
  have hbusy := hI.not_busy ht hl hp (by rw [h.busy]; simp)
  have hcalls : calls s.deeds t = l.watch.deeds := by rw [hI.marks.calls, hl]
  have hcur : s.thread s.cur = t := ht
  by_cases hq : (s.proc p).pid = want
  · refine ⟨_, ?_, .inl ⟨hq, rfl⟩⟩
    have := hI.deed (j := p) (F := id) (v := (l.watch.setDeeds (l.watch.deeds ++
      [.looked t want p (s.proc p).state want])).setNamed (some (p, want)))
      (D := s.deeds ++ [.looked t want p (s.proc p).state want]) ht hl (fun _ => rfl) hbusy ?_ ?_
    · rw [setProc_id] at this
      rw [hcur, hq]
      exact this
    · refine hI.watched_note ht hl rfl rfl rfl fun k hk => ?_
      rcases needs_setNamed hk with hk | rfl
      · exact h.needs k hk
      · exact hp
    · rw [setProc_id]
      refine hI.marks.note rfl rfl (by simp) (by simp) (by simp) ?_ (by simp) ?_
      · rw [hunt, hcalls]
        rfl
      · rintro p' pid ⟨⟩
        refine ⟨hq, fun hf hu => hf t want p ?_⟩
        rw [← hu]
        exact List.mem_append_right _ (List.mem_singleton_self _)
  · refine ⟨_, ?_, .inr ⟨hq, rfl⟩⟩
    have := hI.deed (j := p) (F := id) (v := l.watch.setDeeds (l.watch.deeds ++
      [.looked t want p (s.proc p).state (s.proc p).pid]))
      (D := s.deeds ++ [.looked t want p (s.proc p).state (s.proc p).pid]) ht hl (fun _ => rfl)
      hbusy ?_ ?_
    · rw [setProc_id] at this
      rw [hcur]
      exact this
    · exact hI.watched_note ht hl rfl rfl rfl h.needs
    · rw [setProc_id]
      refine hI.marks.note rfl rfl (by simp) (by simp) (by simp) ?_ (by simp) ?_
      · rw [hunt, hcalls]
        rfl
      · intro p' pid hp'
        change l.watch.named = _ at hp'
        rw [h.named] at hp'
        cases hp'

lemma strike_ok (hp : .proc p ∈ l.run.locks) :
    Ok e t (strike want p) (fun _ l' => l' = l.note (.struck t want p)) (l.name p want) := by
  refine write_ok fun s ℓ hI hl ht => ?_
  have hbusy := hI.not_busy ht hl hp (by rw [show (l.name p want).family.busy = _ from h.busy]; simp)
  have hcalls : calls s.deeds t = l.watch.deeds := by
    rw [hI.marks.calls, hl]
    rfl
  have hcur : s.thread s.cur = t := ht
  obtain ⟨hpid, hthere⟩ := hI.marks.named t p want (by rw [hl]; rfl)
  have hI' := hI.deed (j := p) (F := fun q => { q with killed := true })
    (v := (l.name p want).watch.setDeeds (l.watch.deeds ++ [.struck t want p]))
    (D := s.deeds ++ [.struck t want p]) ht hl (fun _ => rfl) hbusy ?_ ?_
  · -- the process need not be known any more
    have := hI'.find (t := t) (l := (l.name p want).setWatch ((l.name p want).watch.setDeeds
      (l.watch.deeds ++ [.struck t want p]))) (v := l.watch.setDeeds (l.watch.deeds ++
      [.struck t want p])) ht (update_self _ _ _) h.needs ?_ ?_ ?_ rfl h.named
    · rw [update_idem] at this
      rw [hcur]
      exact this
    · intro q n hc
      exact hI'.watched.clear t q n (by rw [update_self]; exact hc)
    · intro q hc
      exact hI'.watched.up t q (by rw [update_self]; exact hc)
    · intro q hc
      exact hI'.watched.woke t q (by rw [update_self]; exact hc)
  · refine hI.watched_note ht hl rfl rfl rfl fun k hk => ?_
    rcases needs_setNamed (v := l.watch) hk with hk | rfl
    · exact h.needs k hk
    · exact hp
  · refine hI.marks.hit (j := p) rfl rfl (.inr ⟨t, by rw [hpid]⟩) hthere ?_ ?_
    · rw [hunt, hcalls]
      rfl
    · rw [hl]
      rfl

lemma killStep_ok (hsig : l.wait.sig = none) : Ok e t (killStep want p) (fun r l' => match r with
      | .inl q => q = p + 1 ∧ p < NPROC ∧ ∃ st pid, pid ≠ want ∧ l' = l.note (.looked t want p st pid)
      | .inr true => ∃ st, l' = (l.note (.looked t want p st want)).note (.struck t want p)
      | .inr false => NPROC ≤ p ∧ l' = l) l := by
  unfold killStep
  split
  · rename_i hlt
    refine acquire_then fun hk => ?_
    have hmem : .proc p ∈ (l.lock (.proc p)).run.locks := Finset.mem_insert_self _ _
    have hnote : ∀ d, Plain (l.note d) := fun d =>
      { h with }
    refine Safe.bind (look_ok (h.lock _) hmem) ?_
    rintro q l' (⟨hq, rfl⟩ | ⟨hq, rfl⟩)
    · rw [if_pos hq]
      refine then_ok (strike_ok ((hnote _).lock _) hmem) fun _ => ?_
      have hp2 : Plain ((l.note (.looked t want p q.state want)).note (.struck t want p)) :=
        { h with }
      refine then_ok (rouse_ok ?_ ((hp2.lock (.proc p)).locked hmem)) fun _ => ?_
      · intro q
        by_cases hq : q.state = .sleeping
        · exact .inr ⟨hq, if_pos hq⟩
        · exact .inl (if_neg hq)
      · refine hp2.unlock_then hk (by simp [Ghost.note, Ghost.setWatch, hsig]) ?_
        exact ⟨q.state, rfl⟩
    · rw [if_neg hq]
      refine (hnote _).unlock_then hk (by simp [Ghost.note, Ghost.setWatch, hsig]) ?_
      exact ⟨rfl, hlt, q.state, q.pid, hq, rfl⟩
  · rename_i hge
    exact ⟨not_lt.mp hge, rfl⟩

/-- A thread whose call of `kill` has done `d`. -/
def Ghost.hunting (l : Ghost) (d : List Deed) : Ghost := l.setWatch (l.watch.setDeeds d)

lemma kill_ok (hsig : l.wait.sig = none) (hd : l.watch.deeds = []) :
    Ok e t (kill want) (fun ok l' => ∃ d, Hunted t want ok d ∧ l' = l.hunting d) l := by
  refine safe_loop (J := fun n p l' => n + p = NPROC ∧ ∃ d, Searched t want p d ∧ l' = l.hunting d)
    (n := NPROC) ⟨rfl, [], searched_nil, ?_⟩ (by omega) ?_
  · obtain ⟨run, family, said, wait, ⟨clear, up, woke, deeds, named⟩⟩ := l
    cases hd
    rfl
  rintro n p l' ⟨hnp, d, hsearch, rfl⟩
  have hp : Plain (l.hunting d) :=
    { h with }
  refine (killStep_ok hp hsig).mono ?_
  intro r l' hr
  cases r with
  | inl q =>
    obtain ⟨rfl, hlt, st, pid, hpid, rfl⟩ := hr
    exact ⟨n - 1, by omega, by omega, _, hsearch.snoc hpid, rfl⟩
  | inr ok =>
    cases ok with
    | true =>
      obtain ⟨st, rfl⟩ := hr
      exact ⟨_, ⟨p, st, d, hsearch, rfl⟩, rfl⟩
    | false =>
      obtain ⟨hge, rfl⟩ := hr
      have hpn : p = NPROC := by omega
      rw [hpn] at hsearch
      exact ⟨d, hsearch, rfl⟩

lemma answer_ok {ok : Bool} {d : List Deed} (hd : l.watch.deeds = [])
    (hunted : Hunted (.proc i) want ok d) :
    Ok e (.proc i) (write fun s => { s with deeds := s.deeds ++
      [.answered (s.thread s.cur) want ok] }) (fun _ l' => l' = l) (l.hunting d) := by
  refine write_ok fun s ℓ hI hl ht => ?_
  have hs : (s.proc i).state = .running := (hI.state_eq ht hl).trans h.st
  have hcalls : calls s.deeds (.proc i) = d := by
    rw [hI.marks.calls, hl]
    rfl
  have hcur : s.thread s.cur = .proc i := ht
  have hback : (l.hunting d).setWatch ((l.hunting d).watch.setDeeds []) = l := by
    obtain ⟨run, family, said, wait, ⟨clear, up, woke, deeds, named⟩⟩ := l
    cases hd
    rfl
  have := hI.deed (j := i) (F := id) (v := (l.hunting d).watch.setDeeds [])
    (D := s.deeds ++ [.answered (.proc i) want ok]) ht hl (fun _ => rfl)
    (hI.kin.not_busy (by rw [hs]; simp) (by rw [hs]; simp)) ?_ ?_
  · rw [setProc_id, hback] at this
    rw [hcur]
    exact this
  · exact hI.watched_note ht hl rfl rfl rfl h.needs
  · rw [setProc_id]
    refine hI.marks.note rfl rfl (by simp) (by simp) (by simp) rfl ?_ ?_
    · rintro hf u want' ok' ⟨⟩
      rw [hcalls]
      refine hunted.answered fun p hp => hf (.proc i) want p (List.mem_append_left _ ?_)
      rw [← hcalls] at hp
      exact mem_of_calls hp
    · intro p pid hp
      change l.watch.named = _ at hp
      rw [h.named] at hp
      cases hp

lemma sysKill_ok (hsig : l.wait.sig = none) (hd : l.watch.deeds = []) :
    Ok e (.proc i) (sysKill want) (fun _ l' => l' = l) l := by
  refine Safe.bind (kill_ok h hsig hd) ?_
  rintro ok l' ⟨d, hunted, rfl⟩
  exact then_ok (answer_ok h hd hunted) fun _ => rfl

end

/-! ### The scheduler -/

/-- The scheduler changes what it knows, and its CPU's `c->proc` or the state of a process that
is there. -/
lemma Inv.resched {r : Run} (h : Inv e s ℓ) (ht : turn (.sched c) s) (hl : ℓ (.sched c) = l)
    (hbase : Base s' (update (fun u => (ℓ u).run) (.sched c) r))
    (hlocks : r.locks = l.run.locks) (hinit : s'.initproc = s.initproc)
    (hlive : s'.live = s.live) (hctx : s'.ctx = s.ctx)
    (hcond : s'.cond = s.cond) (hwaiting : s'.waiting = s.waiting)
    (hwaking : s'.waking = s.waking) (hlog : s'.log = s.log) (hdeeds : s'.deeds = s.deeds)
    (hproc : ∀ i, s'.proc i = s.proc i ∨ (s.proc i).state = .runnable ∧
      s'.proc i = { s.proc i with state := .running }) :
    Inv e s' (update ℓ (.sched c) (l.setRun r)) := by
  have hmild : Mild s s' := by
    refine ⟨hdeeds, hinit, ?_, ?_, ?_, ?_, ?_, fun i hw => ?_⟩
    iterate 5
      intro i
      rcases hproc i with hi | ⟨hs, hi⟩ <;> rw [hi] <;> simp [*]
    rcases hproc i with hi | ⟨-, hi⟩
    · rw [InWait, hi, hwaiting] at hw
      exact hw
    · rw [InWait, hi] at hw
      cases hw.1
  refine h.mild ht hl hlive hctx (fun u b hu => ?_) hlocks rfl ?_ ?_ ?_ hmild rfl
  · refine (hproc b.slot).resolve_right fun hb => ?_
    have hw := h.kin.busy u b hu
    have hst := hw.state
    rw [← hw.val, hb.1] at hst
    simp at hst
  · rw [part]
    exact hbase
  · rw [part_same hl Ghost.said]
    refine hmild.told h.told h.kin hlog fun i => ?_
    rcases hproc i with hi | ⟨-, hi⟩ <;> rw [hi]
  · rw [part, part_same hl Ghost.wait]
    refine h.sleeps.keep hcond hwaiting hwaking hlive
      (update_proj Run.locks (by rw [hl]; exact hlocks)) (fun i hi => ?_) (fun i => ?_) fun i h1 h2 => ?_
    · rcases hproc i with hi' | ⟨-, hi'⟩
      · rw [← hi']
        exact hi
      · rw [hi'] at hi
        cases hi
    · rcases hproc i with hi' | ⟨-, hi'⟩ <;> rw [hi']
    · rw [ne_eq, hmild.unused, ne_eq, hmild.zombie]
      exact ⟨h1, h2⟩

lemma see_ok (hk : .proc p ∈ l.run.locks) (hon : l.run.on = none) (hpick : l.run.pick = none) :
    Ok e (.sched c) (getProc p) (fun q l' => q.state = .runnable ∧
      l' = l.setRun (l.run.see p) ∨ q.state ≠ .runnable ∧ l' = l) l := by
  refine safe_turn fun s ℓ h hl ht => ?_
  simp only [wp_map, wp_get]
  by_cases hs : (s.proc p).state = .runnable
  · refine ⟨l.setRun (l.run.see p), ?_, .inl ⟨hs, rfl⟩⟩
    refine h.resched ht hl (h.base.resched ⟨ht, by rw [hl]; rfl, by rw [hl]; rfl, rfl, rfl, rfl,
      fun _ => rfl, ?_, fun _ _ => rfl, ?_, ?_, ?_, fun _ => .inl rfl⟩) rfl rfl rfl rfl rfl rfl rfl rfl rfl
      fun _ => .inl rfl
    · rw [h.base.proc, hl]
      rfl
    · intro i hi
      change l.run.on = some i at hi
      rw [hon] at hi
      cases hi
    · intro i hi
      cases hi
      exact ⟨hk, hs⟩
    · intro i hi
      change l.run.pick = some i at hi
      rw [hpick] at hi
      cases hi
  · refine ⟨l, ?_, .inr ⟨hs, rfl⟩⟩
    rw [← hl, update_eq_self]
    exact h

lemma choose_ok (hk : .proc p ∈ l.run.locks) (hseen : l.run.seen = some p)
    (hon : l.run.on = none) :
    Ok e (.sched c) (setProc p fun q => { q with state := .running })
      (fun _ l' => l' = l.setRun (l.run.choose p)) l := by
  refine write_ok fun s ℓ h hl ht => ?_
  obtain ⟨-, hs⟩ := h.base.seen c p (by rw [hl]; exact hseen)
  have hself : (s.setProc p fun q => { q with state := .running }).proc p =
      { s.proc p with state := .running } := State.setProc_self _ _ _
  have hne : ∀ i, i ≠ p → (s.setProc p fun q => { q with state := .running }).proc i = s.proc i :=
    fun i hi => State.setProc_of_ne _ _ hi
  have hno := h.base.not_on ht (by rw [hl]; exact hk) (by rw [hs]; simp)
  refine h.resched ht hl (h.base.resched ⟨ht, by rw [hl]; rfl, by rw [hl]; rfl, rfl, rfl, rfl,
    fun _ => rfl, ?_, fun _ _ => rfl, ?_, ?_, ?_, ?_⟩) rfl rfl rfl rfl rfl rfl rfl rfl rfl ?_
  · change (s.cpu c).proc = _
    rw [h.base.proc, hl]
    rfl
  · intro i hi
    change l.run.on = some i at hi
    rw [hon] at hi
    cases hi
  · rintro i ⟨⟩
  · intro i hi
    cases hi
    exact ⟨hk, by rw [hself], hno⟩
  · intro i
    by_cases hi : i = p
    · rw [hi]
      exact .inr ⟨hk, by rw [hs]; simp, hno⟩
    · rw [hne i hi]
      exact .inl rfl
  · intro i
    by_cases hi : i = p
    · rw [hi, hself]
      exact .inr ⟨hs, rfl⟩
    · exact .inl (hne i hi)

lemma setCpuProc_ok {on : Option ℕ}
    (hon : ∀ i, on = some i → l.run.pick = some i ∧ .proc i ∈ l.run.locks)
    (hseen : l.run.seen = none) :
    Ok e (.sched c) (setCpuProc on) (fun _ l' => l' = l.setRun (l.run.setOn on)) l := by
  refine write_ok fun s ℓ h hl ht => ?_
  have hcur := (State.thread_sched.mp ht).1
  refine h.resched ht hl (h.base.resched ⟨ht, by rw [hl]; rfl, by rw [hl]; rfl, rfl, rfl, rfl, ?_, ?_,
    ?_, ?_, ?_, ?_, fun _ => .inl rfl⟩) rfl rfl rfl rfl rfl rfl rfl rfl rfl fun _ => .inl rfl
  · intro c'
    by_cases hc : c' = s.cur
    · simp [hc]
    · simp [hc]
  · simp [hcur, Run.setOn]
  · intro c' hc
    simp [hcur, hc]
  · intro i hi
    obtain ⟨hp, hmem⟩ := hon i hi
    refine ⟨hmem, fun c' hc hc' => ?_⟩
    obtain ⟨-, -, hu⟩ := h.base.pick c i (by rw [hl]; exact hp)
    exact hc (hu c' hc')
  · intro i hi
    change l.run.seen = some i at hi
    rw [hseen] at hi
    cases hi
  · intro i hi
    change l.run.pick = some i at hi
    obtain ⟨h1, h2, h3⟩ := h.base.pick c i (by rw [hl]; exact hi)
    refine ⟨?_, h2, fun c' hc hc' => hc (h3 c' hc')⟩
    change .proc i ∈ l.run.locks
    rw [← h.held_iff ht hl, hcur]
    exact h1

/-- `swtch` to a process: the scheduler goes on when the process gives up its CPU. -/
lemma swtchTo_ok (hlocks : l.run.locks = {.proc p}) (hon : l.run.on = some p)
    (hpick : l.run.pick = some p) (hseen : l.run.seen = none) (hbusy : l.family.busy = none)
    (hneeds : ∀ k, ¬ l.watch.Needs k) :
    Ok e (.sched c) (swtchTo p) (fun _ l' => l' = l.setRun l.run.enter) l := by
  refine write_ok fun s ℓ h hl ht => ?_
  obtain ⟨hcur, hnone⟩ := State.thread_sched.mp ht
  have hlk := update_proj (g := fun u => (ℓ u).run) (t := .sched c) (r := (l.setRun l.run.enter).run) Run.locks
    (by rw [hl]; rfl)
  have hlive : ∀ a i, s.live a = some i → (s.enter p).live a = some i := by
    intro a i ha
    have hac : a ≠ s.cur := by
      rintro rfl
      rw [hnone] at ha
      cases ha
    change update s.live s.cur (some p) a = some i
    rw [update_of_ne hac]
    exact ha
  have hpr : ∀ i, update ℓ (.sched c) (l.setRun l.run.enter) (.proc i) = ℓ (.proc i) :=
    fun i => update_of_ne (by simp) _ _
  have hctx : (s.enter p).ctx = update s.ctx p .onCpu := by
    rw [← h.base.resumable ht (by rw [hl]; exact hon) (by rw [hl]; exact hpick)]
    rfl
  constructor
  case base =>
    rw [part]
    have := h.base.enter (z := s.enter p) ht (by rw [hl]; exact hlocks) (by rw [hl]; exact hon)
      (by rw [hl]; exact hpick) (by rw [hl]; exact hseen) (by rw [← hcur]; rfl) rfl rfl rfl hctx
    simp only [hl] at this
    exact this
  case kin =>
    rw [part, part_same hl Ghost.family]
    refine h.kin.frame rfl rfl fun u b hu => ?_
    have hw := h.kin.busy u b hu
    have hut : u ≠ .sched c := by
      rintro rfl
      rw [hl, hbusy] at hu
      cases hu
    obtain ⟨a, ha⟩ := hw.current
    have hac : a ≠ s.cur := by
      rintro rfl
      exact hut (ha.symm.trans ht)
    refine ⟨by rw [hlk]; exact hw.lock, ⟨a, ?_⟩, fun hr => ?_⟩
    · rw [← ha]
      simp only [State.thread, State.enter, update_of_ne hac]
    · have hbp : b.slot ≠ p := by
        rintro rfl
        refine hac (h.base.excl (k := .proc b.slot) ?_ ?_)
        · rw [ha]
          exact hw.lock
        · rw [ht, hl, hlocks]
          exact Finset.mem_singleton_self _
      rw [hctx, update_of_ne hbp]
      exact hw.ready hr
  case told =>
    rw [part_same hl Ghost.family, part_same hl Ghost.said]
    exact h.told.set h.kin rfl rfl (fun _ => Iff.rfl) (fun _ _ _ => .refl _) (.refl _)
  case sleeps =>
    rw [part, part_same hl Ghost.wait]
    exact h.sleeps.frame rfl rfl rfl (fun _ => id) (fun i h1 h2 => .inl ⟨rfl, h1, h2⟩)
      (fun i n _ h1 => by rw [hlk]; exact h1)
      (fun i n _ h1 hx => ⟨by rw [hlk]; exact h1, hx.imp fun a => hlive a i⟩)
      fun i n m _ h1 hx => ⟨by rw [hlk]; exact h1, hx.imp fun a => hlive a i⟩
  case watched =>
    rw [part, part_same hl Ghost.watch]
    refine h.watched.mild (.of_proc rfl rfl rfl rfl) fun u k hk => ?_
    obtain ⟨h1, a, ha⟩ := h.watched.held u k hk
    refine ⟨by rw [hlk]; exact h1, a, ?_⟩
    have hac : a ≠ s.cur := by
      rintro rfl
      rw [← ha, ht, hl] at hk
      exact hneeds k hk
    rw [← ha]
    simp only [State.thread, State.enter, update_of_ne hac]
  case marks =>
    rw [part_same hl Ghost.watch]
    exact h.marks.mild (.of_proc rfl rfl rfl rfl)
  case dead =>
    intro i hi hs
    rw [hpr]
    exact h.dead i (fun a ha => hi a (hlive a i ha)) hs
  case fresh =>
    intro i hi
    rw [hpr]
    refine h.fresh i ?_
    rw [hctx] at hi
    by_cases hip : i = p
    · rw [hip, update_self] at hi
      cases hi
    · rwa [update_of_ne hip] at hi

lemma schedule_ok (h : Plain l) (hlocks : l.run.locks = ∅) (hsig : l.wait.sig = none) :
    Ok e (.sched c) (schedule p) (fun _ l' => l' = l) l := by
  refine acquire_then fun hk => ?_
  have hmem : .proc p ∈ (l.lock (.proc p)).run.locks := Finset.mem_insert_self _ _
  refine Safe.bind (see_ok hmem h.on h.pick) ?_
  rintro q l' (⟨hq, rfl⟩ | ⟨hq, rfl⟩)
  · rw [if_pos hq]
    refine then_ok (choose_ok hmem rfl h.on) fun _ => ?_
    refine then_ok (setCpuProc_ok ?_ rfl) fun _ => ?_
    · rintro i ⟨⟩
      exact ⟨rfl, hmem⟩
    refine then_ok (swtchTo_ok ?_ rfl rfl rfl h.busy ?_) fun _ => ?_
    · change insert (Lock.proc p) l.run.locks = {.proc p}
      rw [hlocks]
      rfl
    · intro k hn
      have := h.needs k hn
      rw [hlocks] at this
      exact absurd this (Finset.notMem_empty k)
    refine then_ok (setCpuProc_ok (by simp) rfl) fun _ => ?_
    refine of_ghost ?_ (h.unlock_ok hk (by simp [hsig]))
    obtain ⟨⟨locks, st, seen, pick, on⟩, family, said, wait, watch⟩ := l
    cases h.seen
    cases h.pick
    cases h.on
    rfl
  · rw [if_neg hq]
    exact h.unlock_ok hk (by simp [hsig])

lemma scheduler_ok (h : Plain l) (hlocks : l.run.locks = ∅) (hsig : l.wait.sig = none) :
    Ok e (.sched c) scheduler (fun _ l' => l' = l) l := by
  refine forProcs_ok (J := fun _ l' => l' = l) rfl ?_
  rintro j l' - rfl
  exact schedule_ok h hlocks hsig

end Xv6.Kern
