import Xv6.Kern.Runs

/-!
Zombies and kills: nobody but `initproc` sleeps in `wait` over a zombie, and `kill` marks the
process that is named, unless it takes an UNUSED record for a process.
-/

namespace Xv6.Kern

open Lib.Wp Lib.Conc Vm

variable {e : Env} {x : Conf} {m : Phys} {initcode : List UInt8}

/-! ### Three runs -/

/-- The second process forks a third one and sleeps in `wait`. -/
def waiter : List Move :=
  twoRun ++ .call 1 .fork :: acts 1 89 ++ .call 1 (.wait 0 1) :: acts 1 79

/-- The first process kills the second. -/
def killer : List Move := twoRun ++ .call 0 (.kill 2) :: acts 0 9

/-- The first process kills pid 0, and then forks. -/
def strayKill : List Move :=
  acts 0 59 ++ .round 0 :: acts 0 7 ++ .call 0 (.kill 0) :: acts 0 9 ++ .call 0 .fork :: acts 0 86

/-- The deeds of `killer`. -/
def killerDeeds : List Deed :=
  [.made 0, .made 1, .looked (.proc 0) 2 0 .running 1, .looked (.proc 0) 2 1 .running 2,
    .struck (.proc 0) 2 1, .answered (.proc 0) 2 true]

/-- The deeds of `strayKill` before the last, which makes the second process. -/
def strayDeeds : List Deed :=
  [.made 0, .looked (.proc 0) 0 0 .running 1, .looked (.proc 0) 0 1 .unused 0,
    .struck (.proc 0) 0 1, .answered (.proc 0) 0 true]

section

-- the kernel computes the runs action by action
set_option maxRecDepth 1000000

lemma waiter_reach : ∃ x, Reach oneCond (boot (freePages 32) []) x ∧ InWait x.state 1 ∧
    x.state.initproc = 0 ∧ (x.state.proc 2).parent = some 1 := by
  obtain ⟨x, hx, hf⟩ := reach_of_play oneCond waiter (fun y =>
    ((y.state.proc 1).state, (y.state.proc 1).chan, y.state.waiting 1, y.state.initproc,
      (y.state.proc 2).parent)) (a := (.sleeping, some (.proc 1), none, 0, some 1))
    (by decide +kernel)
  simp only [Prod.mk.injEq] at hf
  obtain ⟨h1, h2, h3, h4, h5⟩ := hf
  exact ⟨x, hx, ⟨h1, h2, h3⟩, h4, h5⟩

lemma killer_reach : ∃ x, Reach oneCond (boot (freePages 32) []) x ∧ x.state.deeds = killerDeeds ∧
    (x.state.proc 1).state = .running ∧ (x.state.proc 1).pid = 2 := by
  obtain ⟨x, hx, hf⟩ := reach_of_play oneCond killer (fun y =>
    (y.state.deeds, (y.state.proc 1).state, (y.state.proc 1).pid)) (a := (killerDeeds, .running, 2))
    (by decide +kernel)
  simp only [Prod.mk.injEq] at hf
  exact ⟨x, hx, hf⟩

lemma strayKill_reach : ∃ x, Reach oneCond (boot (freePages 32) []) x ∧
    x.state.deeds = strayDeeds ++ [.made 1] ∧ (x.state.proc 1).state = .runnable ∧
    (x.state.proc 1).pid = 2 ∧ (x.state.proc 1).killed = true := by
  obtain ⟨x, hx, hf⟩ := reach_of_play oneCond strayKill (fun y =>
    (y.state.deeds, (y.state.proc 1).state, (y.state.proc 1).pid, (y.state.proc 1).killed))
    (a := (strayDeeds ++ [.made 1], .runnable, 2, true)) (by decide +kernel)
  simp only [Prod.mk.injEq] at hf
  exact ⟨x, hx, hf⟩

end

/-! ### Zombies -/

/-- **Nobody sleeps over a zombie.** A process other than `initproc` that sleeps in `wait`, with its
lock free or not, has no child that is a zombie. -/
theorem no_zombie_overslept (h : Reach e (boot m initcode) x) (p : ℕ) (hp : p ≠ x.state.initproc) :
    ¬ (InWait x.state p ∧ ∃ j, (x.state.proc j).parent = some p ∧
      (x.state.proc j).state = .zombie) := by
  rintro ⟨hw, j, hj, hz⟩
  obtain ⟨ℓ, hℓ⟩ := h.sound
  exact hℓ.inv.watched.calm p j hp hw hj hz

theorem no_zombie_overslept_waiter : ∃ x, Reach oneCond (boot (freePages 32) []) x ∧
    InWait x.state 1 ∧ (x.state.proc 2).parent = some 1 ∧
    ¬ ∃ j, (x.state.proc j).parent = some 1 ∧ (x.state.proc j).state = .zombie := by
  obtain ⟨x, hx, hw, hi, hpar⟩ := waiter_reach
  exact ⟨x, hx, hw, hpar, fun hj => no_zombie_overslept hx 1 (by rw [hi]; decide) ⟨hw, hj⟩⟩

/-! ### Kills -/

/-- `kill` affects the process that is named, and no other: it returns whether it found one that is
not UNUSED and has the pid, and it marks that one; an UNUSED record is not marked; and a process
is marked just if `kill` was called with its pid since it was made, or it has faulted. -/
structure KillsNamed (s : State) : Prop where
  answers : Truthful s.deeds
  free : ∀ p, (s.proc p).state = .unused → (s.proc p).killed = false
  marked : ∀ p, (s.proc p).state ≠ .unused →
    ((s.proc p).killed = true ↔ Marked s.deeds p (s.proc p).pid)

/-- **`kill` affects the named process only**, as long as it does not find the pid it looks for in
the record of an UNUSED process. -/
theorem kill_named (h : Reach e (boot m initcode) x) (hf : Fair x.state.deeds) :
    KillsNamed x.state := by
  obtain ⟨ℓ, hℓ⟩ := h.sound
  have hm := hℓ.inv.marks
  exact ⟨hm.answers hf, hm.free hf, hm.mark hf⟩

lemma fair_killerDeeds : Fair killerDeeds := by
  intro t want p hm
  simp [killerDeeds] at hm

/-- The second process is killed by its pid. -/
theorem kill_named_killer : ∃ x, Reach oneCond (boot (freePages 32) []) x ∧ Fair x.state.deeds ∧
    KillsNamed x.state ∧ (x.state.proc 1).killed = true := by
  obtain ⟨x, hx, hd, hst, hpid⟩ := killer_reach
  have hf : Fair x.state.deeds := by
    rw [hd]
    exact fair_killerDeeds
  have hk := kill_named hx hf
  refine ⟨x, hx, hf, hk, (hk.marked 1 (by rw [hst]; simp)).mpr ?_⟩
  rw [hd, hpid]
  exact ⟨killerDeeds.take 4, .struck (.proc 0) 2 1, [.answered (.proc 0) 2 true], rfl, by simp, .inr ⟨_, rfl⟩⟩

/-- `kill(0)` returns 0 when it finds the record of an UNUSED process. It marks it, and the next
process in that record starts as killed, though nobody has named it. -/
theorem kill_strays : ∃ x, Reach oneCond (boot (freePages 32) []) x ∧
    .answered (.proc 0) 0 true ∈ x.state.deeds ∧ (x.state.proc 1).state = .runnable ∧
    (x.state.proc 1).killed = true ∧ ¬ KillsNamed x.state := by
  obtain ⟨x, hx, hd, hst, hpid, hkilled⟩ := strayKill_reach
  refine ⟨x, hx, ?_, hst, hkilled, fun hk => ?_⟩
  · rw [hd]
    simp [strayDeeds]
  · have := (hk.marked 1 (by rw [hst]; simp)).mp hkilled
    rw [hd, marked_snoc] at this
    simp at this

end Xv6.Kern
