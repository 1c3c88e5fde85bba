import Xv6.PipeWake.Actions

/-!
The calls keep the invariant, in whole runs.
-/

namespace Xv6.PipeWake

open Lib.Wp Lib.Conc Pipes Function

variable {s s' : State} {ℓ : ℕ → Ghost} {l l' : Ghost} {p : ℕ} {pi : Pipe} {c : Chan}

/-! ### The calls -/

/-- A process in a call, with the lock of the pipe. -/
def inCall (pi : Pipe) (o : Option (Chan × ℕ)) : Ghost := { pipe := some pi, owes := o }

variable {o : Option (Chan × ℕ)} {i k : ℕ} {n : ℤ}

lemma Inv.setTrying (h : Inv s ℓ) (hl : ℓ p = l) (b : Bool) :
    Inv (s.setTrying p b) (update ℓ p { l with trying := b }) := by
  refine h.own hl rfl rfl (fun _ _ => rfl) (h.busy_self hl rfl) rfl rfl rfl
    (fun c hc => ?_) (fun c hc => h.parked p c (by rw [hl]; exact hc)) (fun hs => ?_)
    fun hne => h.lt p (by rw [hl]; exact hne)
  · have := h.pre p c (by rw [hl]; exact hc)
    rw [hl] at this
    exact this
  · obtain ⟨c, hc⟩ := h.asleep p hs
    exact ⟨c, by rw [hl] at hc; exact hc⟩

lemma testFull_ok {stored : Bool} :
    Ok p (testFull p stored) (fun b l' => b = decide pi.isFull ∧
      l' = { inCall pi o with trying := decide pi.isFull && stored }) (inCall pi o) := by
  refine safe_lift fun s ℓ h hl => ?_
  have hpi : s.pi = pi := h.pipe p pi (by rw [hl]; rfl)
  simp only [wp_bind, wp_get, wp_set, wp_pure]
  rw [hpi]
  exact ⟨_, h.setTrying hl _, rfl, rfl⟩

lemma testGone_ok {stored : Bool} :
    Ok p (testGone p) (fun b l' => (b = false → pi.readopen = true) ∧ (stored = true → b = false) ∧
      l' = inCall pi o) { inCall pi o with trying := stored } := by
  refine safe_turn fun s ℓ h hl hpat => ?_
  have hpi : s.pi = pi := h.pipe p pi (by rw [hl]; rfl)
  simp only [wp_bind, wp_get, wp_set, wp_pure]
  refine ⟨_, h.setTrying hl false, fun hgone => ?_, fun hstored => ?_, rfl⟩
  · rw [hpi] at hgone
    cases hopen : pi.readopen
    · rw [hopen] at hgone
      cases hgone
    · rfl
  · obtain ⟨h1, h2⟩ := hpat p (by rw [h.trying p, hl]; exact hstored)
    rw [h1, h2]
    rfl

/-- Nothing is owed any more. -/
def Settled (o : Option (Chan × ℕ)) : Prop := ∀ c k, o = some (c, k) → NPROC ≤ k

lemma settled_none : Settled none := by
  intro c k hk
  cases hk

lemma wakeup_inCall (ho : o = none ∨ o = some (c, 0)) :
    Ok p (wakeup c) (fun _ l' => ∃ o', Settled o' ∧ l' = inCall pi o') (inCall pi o) := by
  refine Safe.mono (wakeup_ok rfl ho) ?_
  rintro _ l' (⟨hnone, rfl⟩ | rfl)
  · rw [show o = none from hnone]
    exact ⟨none, settled_none, rfl⟩
  · refine ⟨some (c, NPROC), fun c' k hk => ?_, rfl⟩
    simp only [Option.some.injEq, Prod.mk.injEq] at hk
    omega

lemma release_inCall (ho : Settled o) : Ok p (release p) (fun _ l' => l' = {}) (inCall pi o) :=
  Safe.mono (release_ok (by simp [inCall]) (by simp [inCall]) ho) fun _ _ hl' => hl'

lemma sleep_inCall (hquiet : Quiet pi c) (ho : Settled o) (hp : p < NPROC) :
    Ok p (sleep p c) (fun _ l' => ∃ pi, l' = inCall pi none) (inCall pi o) :=
  Safe.mono (sleep_ok rfl rfl rfl hquiet ho hp) fun _ _ hl' => hl'

lemma pipeclose_ok (writable : Bool) : Ok p (pipeclose p writable) (fun _ l' => l' = {}) {} := by
  refine Safe.bind (acquire_ok rfl rfl) ?_
  rintro _ l' ⟨pi, rfl⟩
  refine Safe.bind (setPipe_ok (c := if writable then .nread else .nwrite)
    (f := fun pi => pi.close writable) rfl (by simp) ?_) ?_
  · intro c hc hquiet
    cases writable with
    | true =>
      cases c with
      | nread => exact absurd rfl hc
      | nwrite => exact hquiet
    | false =>
      cases c with
      | nread => exact hquiet
      | nwrite => exact absurd rfl hc
  · rintro _ l' rfl
    refine Safe.bind (wakeup_inCall (.inr rfl)) ?_
    rintro _ l' ⟨o, ho, rfl⟩
    exact release_inCall ho

/-- What `pipewrite` owes in its loop. -/
def owed (stored : Bool) : Option (Chan × ℕ) := if stored then some (.nread, 0) else none

lemma owed_cases (stored : Bool) : owed stored = none ∨ owed stored = some (.nread, 0) := by
  cases stored
  · exact .inl rfl
  · exact .inr rfl

lemma writeStep_ok {src : ℕ → Option UInt8} {stored : Bool} (hp : p < NPROC) :
    Ok p (writeStep p src n (i, stored)) (fun r l' => r.elim
        (fun b => ∃ pi, l' = inCall pi (owed b.2))
        (fun v => ∃ pi b, l' = inCall pi (owed b) ∧ (v = none → b = false)))
      (inCall pi (owed stored)) := by
  rw [writeStep]
  split
  · refine Safe.bind testFull_ok ?_
    rintro b l' ⟨rfl, rfl⟩
    by_cases hfull : pi.isFull
    · rw [decide_eq_true hfull, if_pos rfl, Bool.true_and]
      refine Safe.bind testGone_ok ?_
      rintro gone l' ⟨hopen, hstored, rfl⟩
      cases gone with
      | true =>
        refine ⟨pi, stored, rfl, fun _ => ?_⟩
        cases stored with
        | false => rfl
        | true => cases hstored rfl
      | false =>
        refine Safe.bind (wakeup_inCall (owed_cases stored)) ?_
        rintro _ l' ⟨o, ho, rfl⟩
        refine Safe.bind (sleep_inCall (c := .nwrite) ⟨hfull, hopen rfl⟩ ho hp) ?_
        rintro _ l' ⟨pi, rfl⟩
        exact ⟨pi, rfl⟩
    · rw [decide_eq_false hfull, Bool.false_and]
      cases src i with
      | none => exact ⟨pi, stored, rfl, by simp⟩
      | some ch =>
        refine Safe.bind (setPipe_ok (c := .nread) (f := fun pi => pi.put ch) rfl ?_ ?_) ?_
        · intro c k hk
          rcases owed_cases stored with ho | ho
          · exact absurd (ho.symm.trans hk) (by simp)
          · have := ho.symm.trans hk
            simp only [Option.some.injEq, Prod.mk.injEq] at this
            exact this.1.symm
        · intro c hc hquiet
          cases c with
          | nread => exact absurd rfl hc
          | nwrite => exact absurd hquiet.1 hfull
        · rintro _ l' rfl
          exact ⟨pi.put ch, rfl⟩
  · exact ⟨pi, stored, rfl, by simp⟩

lemma pipewrite_ok {src : ℕ → Option UInt8} (hp : p < NPROC) :
    Ok p (pipewrite p src n k) (fun _ l' => l' = {}) {} := by
  refine Safe.bind (acquire_ok rfl rfl) ?_
  rintro _ l' ⟨pi, rfl⟩
  refine Safe.bind (safe_rounds (fun b l' => ∃ pi, l' = inCall pi (owed b.2))
    (Q := fun v l' => ∃ pi b, l' = inCall pi (owed b) ∧ (v = none → b = false))
    ⟨pi, rfl⟩ (fun _ => fun s ℓ _ _ _ => rfl) ?_) ?_
  · rintro ⟨i, stored⟩ l' ⟨pi, rfl⟩
    exact writeStep_ok hp
  · rintro v l' ⟨pi, b, rfl, hv⟩
    cases v with
    | none =>
      rw [hv rfl]
      refine Safe.bind (release_inCall settled_none) ?_
      rintro _ l' rfl
      rfl
    | some i =>
      refine Safe.bind (wakeup_inCall (owed_cases b)) ?_
      rintro _ l' ⟨o, ho, rfl⟩
      refine Safe.bind (release_inCall ho) ?_
      rintro _ l' rfl
      rfl

lemma waitStep_ok (hp : p < NPROC) :
    Ok p (waitStep p ()) (fun _ l' => ∃ pi, l' = inCall pi none) (inCall pi none) := by
  refine Safe.bind (read_ok rfl) ?_
  rintro b l' ⟨⟨s, rfl, rfl⟩, rfl⟩
  by_cases hempty : s.pi.isEmpty ∧ s.pi.writeopen = true
  · rw [decide_eq_true hempty, if_pos rfl]
    refine Safe.bind (read_ok rfl) ?_
    rintro killed l' ⟨-, rfl⟩
    cases killed with
    | true => exact ⟨s.pi, rfl⟩
    | false =>
      refine Safe.bind (sleep_inCall (c := .nread) hempty settled_none hp) ?_
      rintro _ l' ⟨pi, rfl⟩
      exact ⟨pi, rfl⟩
  · rw [decide_eq_false hempty]
    exact ⟨s.pi, rfl⟩

lemma readStep_ok {dst : ℕ → Bool} (ho : o = none ∨ o = some (.nwrite, 0)) :
    Ok p (readStep dst n i)
      (fun _ l' => ∃ pi o, l' = inCall pi o ∧ (o = none ∨ o = some (.nwrite, 0)))
      (inCall pi o) := by
  unfold readStep
  split
  · refine Safe.bind (read_ok rfl) ?_
    rintro b l' ⟨⟨s, rfl, rfl⟩, rfl⟩
    by_cases hempty : s.pi.isEmpty
    · rw [decide_eq_true hempty]
      exact ⟨s.pi, o, rfl, ho⟩
    · rw [decide_eq_false hempty]
      refine Safe.bind (setPipe_ok (c := .nwrite) (f := fun pi => pi.advance) rfl ?_ ?_) ?_
      · intro c k hk
        rcases ho with rfl | rfl
        · cases hk
        · cases hk
          rfl
      · intro c hc hquiet
        cases c with
        | nwrite => exact absurd rfl hc
        | nread => exact absurd hquiet.1 hempty
      · rintro _ l' rfl
        split
        · exact ⟨s.pi.advance, _, rfl, .inr rfl⟩
        · exact ⟨s.pi.advance, _, rfl, .inr rfl⟩
  · exact ⟨pi, o, rfl, ho⟩

lemma piperead_ok {dst : ℕ → Bool} (hp : p < NPROC) :
    Ok p (piperead p dst n k) (fun _ l' => l' = {}) {} := by
  refine Safe.bind (acquire_ok rfl rfl) ?_
  rintro _ l' ⟨pi, rfl⟩
  refine Safe.bind (safe_rounds (fun _ l' => ∃ pi, l' = inCall pi none)
    (Q := fun _ l' => ∃ pi, l' = inCall pi none) ⟨pi, rfl⟩ (fun _ => fun s ℓ _ _ _ => rfl) ?_) ?_
  · rintro _ l' ⟨pi, rfl⟩
    refine Safe.mono (waitStep_ok hp) fun r l' hl' => ?_
    cases r <;> exact hl'
  · rintro killed l' ⟨pi, rfl⟩
    cases killed with
    | true =>
      refine Safe.bind (release_inCall settled_none) ?_
      rintro _ l' rfl
      rfl
    | false =>
      refine Safe.bind (safe_rounds
        (fun _ l' => ∃ pi o, l' = inCall pi o ∧ (o = none ∨ o = some (.nwrite, 0)))
        (Q := fun _ l' => ∃ pi o, l' = inCall pi o ∧ (o = none ∨ o = some (.nwrite, 0)))
        ⟨pi, none, rfl, .inl rfl⟩ (fun _ => fun s ℓ _ _ _ => rfl) ?_) ?_
      · rintro i l' ⟨pi, o, rfl, ho⟩
        refine Safe.mono (readStep_ok ho) fun r l' hl' => ?_
        cases r <;> exact hl'
      · rintro i l' ⟨pi, o, rfl, ho⟩
        refine Safe.bind (wakeup_inCall ho) ?_
        rintro _ l' ⟨o, ho, rfl⟩
        refine Safe.bind (release_inCall ho) ?_
        rintro _ l' rfl
        rfl

lemma call_ok (k : Call) (hp : p < NPROC) : Ok p (k.code p) (fun _ l' => l' = {}) {} := by
  cases k with
  | write src n k => exact Safe.bind (pipewrite_ok hp) fun _ _ hl' => hl'
  | read dst n k => exact Safe.bind (piperead_ok hp) fun _ _ hl' => hl'
  | close writable => exact pipeclose_ok writable
  | kill pid => exact Safe.bind (kill_ok pid) fun _ _ hl' => hl'

/-! ### Whole runs -/

/-- What holds in every configuration that is reached. -/
def RunInv (ℓ : ℕ → Ghost) (x : Conf) : Prop :=
  Inv x.state ℓ ∧ ∀ p, Ok p (x.code p) (fun _ l' => l' = {}) (ℓ p)

lemma runInv_start (pi : Pipe) (pid : ℕ → ℕ) : RunInv (fun _ => {}) (start pi pid) := by
  refine ⟨⟨?_, ?_, ?_, ?_, ?_, ?_, ?_, ?_, ?_⟩, fun _ => rfl⟩ <;> simp [start]

lemma RunInv.step {x y : Conf} (h : RunInv ℓ x) (hpat : Patient x.state) (hstep : Step x p y) :
    ∃ l', RunInv (update ℓ p l') y := by
  obtain ⟨hI, hcode⟩ := h
  -- the programs of the others go on as before
  have hothers : ∀ {c : Code Unit} {r : Ghost}, Ok p c (fun _ l' => l' = {}) r →
      ∀ q, Ok q (update x.code p c q) (fun _ l' => l' = {}) (update ℓ p r q) := by
    intro c r hc q
    by_cases hq : q = p
    · rw [hq, update_self, update_self]
      exact hc
    · rw [update_of_ne hq, update_of_ne hq]
      exact hcode q
  have hid : update ℓ p (ℓ p) = ℓ := update_eq_self ..
  cases hstep with
  | act hc ha =>
    have hsafe := hcode p
    rw [hc] at hsafe
    obtain ⟨r, hI', hk⟩ := hsafe.step hI rfl hpat ha
    exact ⟨r, hI', hothers hk⟩
  | call k hp hc =>
    have hidle := hcode p
    rw [hc] at hidle
    have hcall : Ok p (k.code p) (fun _ l' => l' = {}) (ℓ p) := by
      rw [show ℓ p = {} from hidle]
      exact call_ok k hp
    refine ⟨ℓ p, ?_, hothers hcall⟩
    rw [hid]
    exact hI
  | tick hp hlock hbusy hrun =>
    have hself : (ℓ p).self = false := by rw [← hI.busy p, hbusy]
    have hpend : (ℓ p).pend = .none := by
      cases hc : (ℓ p).pend with
      | none => rfl
      | pre c =>
        rcases (hI.pre p c hc).1 with h1 | h1
        · exact absurd ((hI.lock p).mpr h1) hlock
        · rw [hself] at h1
          cases h1
      | parked c => exact absurd hrun (hI.parked p c hc).2.1
    have hyield : Ok p (do yield p; x.code p) (fun _ l' => l' = {}) (ℓ p) := by
      refine Safe.bind (yield_ok hself hpend hp) ?_
      rintro _ l' rfl
      exact hcode p
    refine ⟨ℓ p, ?_, hothers hyield⟩
    rw [hid]
    exact hI

/-- Process `p` sleeps on a channel of the pipe. -/
def Asleep (s : State) (p : ℕ) (c : Chan) : Prop :=
  (s.proc p).state = .sleeping ∧ (s.proc p).chan = some c

/-- Nobody sleeps on data, nor on room, that is there. -/
def NoneOverslept (s : State) : Prop :=
  s.lock = none → ∀ p,
    ¬ (Asleep s p .nread ∧ (s.pi.nread ≠ s.pi.nwrite ∨ s.pi.writeopen = false)) ∧
    ¬ (Asleep s p .nwrite ∧ (¬ s.pi.isFull ∨ s.pi.readopen = false))

lemma Inv.quiet (h : Inv s ℓ) (hlock : s.lock = none) (hs : Asleep s p c) : Quiet s.pi c := by
  obtain ⟨c', hc'⟩ := h.asleep p hs.1
  obtain ⟨hchan, -, hgood⟩ := h.parked p c' hc'
  obtain rfl : c = c' := Option.some.inj (hs.2.symm.trans hchan)
  rcases hgood hs.1 with hquiet | ⟨q, k, hq, -⟩
  · exact hquiet
  · have := (h.lock q).mpr (h.owes q c k hq)
    rw [hlock] at this
    cases this

/-! ### Computed runs -/

/-- A step of a run: the next action of a process, or a call that it makes. -/
inductive Move
  | act (p : ℕ)
  | call (p : ℕ) (k : Call)

def Move.proc : Move → ℕ
  | act p => p
  | call p _ => p

def acts (p n : ℕ) : List Move := List.replicate n (.act p)

section

variable {x y : Conf} {ms : List Move}

def move (x : Conf) : Move → Option Conf
  | .act p => (x.code p).next x.state fun s' k => ⟨s', update x.code p k⟩
  | .call p k => if p < NPROC ∧ (x.code p).isRet then
      some { x with code := update x.code p (k.code p) } else none

lemma move_step {m : Move} (h : move x m = some y) : Step x m.proc y := by
  cases m with
  | act p =>
    rw [move] at h
    obtain ⟨β, a, k, b, s', hcode, ha, rfl⟩ := Prog.next_cases h
    exact .act hcode ha
  | call p k =>
    obtain ⟨⟨hp, hcode⟩, ⟨⟩⟩ := Option.ite_none_right_eq_some.mp h
    exact .call k hp (Prog.eq_ret_of_isRet hcode)

lemma reach_of_play (h : play move ms x = some y) : Reach x y :=
  play_induction (P := Reach x) .refl (fun _ _ m _ hx hmove => hx.tail ⟨m.proc, move_step hmove⟩) h

/-- A step before which processes 0 and 1 are patient. -/
def patientMove (x : Conf) (m : Move) : Option Conf :=
  if [0, 1].all fun p => !x.state.trying p || (x.state.pi.readopen && !(x.state.proc p).killed) then
    move x m
  else none

lemma patientReach_of_play {pid : ℕ → ℕ} (hms : ∀ m ∈ ms, m.proc < 2)
    (h : play patientMove ms (start pi pid) = some y) : PatientReach (start pi pid) y := by
  -- only the two processes have ghost values, so no other one tries to write
  refine (play_induction (P := fun y => PatientReach (start pi pid) y ∧
    ∃ ℓ, RunInv ℓ y ∧ ∀ q, 2 ≤ q → ℓ q = {}) ⟨.refl, _, runInv_start pi pid, fun _ _ => rfl⟩ ?_ h).1
  rintro x z m hm ⟨hreach, ℓ, hℓ, hidle⟩ hmove
  obtain ⟨hpat, hmove⟩ := Option.ite_none_right_eq_some.mp hmove
  have hpatient : Patient x.state := by
    intro p hp
    by_cases h2 : p < 2
    · simpa [hp] using List.all_eq_true.mp hpat p (by simp; omega)
    · rw [hℓ.1.trying p, hidle p (by omega)] at hp
      cases hp
  obtain ⟨l', h'⟩ := hℓ.step hpatient (move_step hmove)
  refine ⟨hreach.tail ⟨hpatient, m.proc, move_step hmove⟩, _, h', fun q hq => ?_⟩
  have hm2 := hms m hm
  rw [update_of_ne (by omega)]
  exact hidle q hq

end

/-- **Nobody oversleeps**, in any run in which no process in `pipewrite` gives up with bytes in the
pipe that it has woken nobody for. -/
theorem none_overslept {x : Conf} {pid : ℕ → ℕ} (h : PatientReach (start pi pid) x) :
    NoneOverslept x.state := by
  have hrun : ∃ ℓ, RunInv ℓ x := by
    induction h with
    | refl => exact ⟨_, runInv_start pi pid⟩
    | tail _ hstep ih =>
      obtain ⟨ℓ, hℓ⟩ := ih
      obtain ⟨hpat, p, hstep⟩ := hstep
      obtain ⟨l', h'⟩ := hℓ.step hpat hstep
      exact ⟨_, h'⟩
  obtain ⟨ℓ, hI, -⟩ := hrun
  intro hlock p
  refine ⟨?_, ?_⟩
  · rintro ⟨hs, hbad⟩
    obtain ⟨hempty, hopen⟩ : Quiet x.state.pi .nread := hI.quiet hlock hs
    rcases hbad with hbad | hbad
    · exact hbad hempty
    · rw [hopen] at hbad
      cases hbad
  · rintro ⟨hs, hbad⟩
    obtain ⟨hfull, hopen⟩ : Quiet x.state.pi .nwrite := hI.quiet hlock hs
    rcases hbad with hbad | hbad
    · exact hbad hfull
    · rw [hopen] at hbad
      cases hbad

/-- A new pipe. -/
def newPipe : Pipe := ⟨fun _ => 0, 0, 0, true, true⟩

/-- Process 1 writes two bytes to a pipe that has room for one, and sleeps. Process 0 reads a byte and
wakes it. It writes the other one, and sleeps in its next call. -/
def refilled : List Move :=
  .call 1 (.write (fun _ => some 0) 2 10) :: acts 1 73 ++ .call 0 (.read (fun _ => true) 1 10) :: acts 0 69 ++
    acts 1 71 ++ .call 1 (.write (fun _ => some 0) 1 10) :: acts 1 71

/-- One process reads and falls asleep, a second one starts to write 600 bytes, is killed by a
third, and goes on to write. -/
def overslept : List Move :=
  .call 0 (.read (fun _ => true) 1 10) :: acts 0 7 ++ .call 1 (.write (fun _ => some 0) 600 1000) ::
    acts 1 1 ++ .call 2 (.kill 2) :: acts 2 2 ++ acts 1 1027

section

set_option maxRecDepth 1000000

lemma refilled_eq : (play patientMove refilled (start { newPipe with nwrite := 511 } (· + 1))).map
      (fun x => (x.state.lock, (x.state.proc 1).state, (x.state.proc 1).chan, x.state.pi.nread,
        x.state.pi.nwrite)) =
    some (none, .sleeping, some .nwrite, 1, 513) := by decide +kernel

lemma overslept_eq : (play move overslept (start newPipe (· + 1))).map (fun x =>
      (x.state.lock, (x.state.proc 0).state, (x.state.proc 0).chan, x.state.pi.nread, x.state.pi.nwrite)) =
    some (none, .sleeping, some .nread, 0, 512) := by decide +kernel

end

theorem none_overslept_refilled : ∃ x, PatientReach (start { newPipe with nwrite := 511 } (· + 1)) x ∧
    x.state.lock = none ∧ Asleep x.state 1 .nwrite ∧ x.state.pi.nread = 1 ∧ NoneOverslept x.state := by
  obtain ⟨x, hx, hf⟩ := Option.map_eq_some_iff.mp refilled_eq
  simp only [Prod.mk.injEq] at hf
  obtain ⟨hlock, hstate, hchan, hnread, -⟩ := hf
  have hreach := patientReach_of_play (by decide +kernel) hx
  exact ⟨x, hreach, hlock, ⟨hstate, hchan⟩, hnread, none_overslept hreach⟩

/-- **A reader sleeps while there is data**: the writer was killed, and gave up when the pipe was
full. -/
theorem reader_oversleeps : ∃ x, Reach (start newPipe (· + 1)) x ∧ ¬ NoneOverslept x.state := by
  obtain ⟨x, hx, hf⟩ := Option.map_eq_some_iff.mp overslept_eq
  simp only [Prod.mk.injEq] at hf
  obtain ⟨hlock, hstate, hchan, hnread, hnwrite⟩ := hf
  refine ⟨x, ?_, fun h => (h hlock 0).1 ⟨⟨hstate, hchan⟩, .inl ?_⟩⟩
  · exact reach_of_play hx
  · rw [hnread, hnwrite]
    decide

end Xv6.PipeWake
