import Xv6.Lib.Conc
import Xv6.Pipe

/-!
Who sleeps on a pipe, and who wakes them up: `pipewrite`, `piperead` and `pipeclose` of
`kernel/pipe.c` with `sleep`, `wakeup` and `kill` of `kernel/proc.c`, action by action.

The lock of a process is held by itself while it goes to sleep and while it goes on after that;
others hold it for the length of one action only. When a process switches to the scheduler, that
releases its lock, and a process that is made to run has it again.
-/

namespace Xv6.PipeWake

open Lib.Wp Lib.Conc Pipes Function

/-- What processes sleep on: `&pi->nread` and `&pi->nwrite`. -/
inductive Chan
  | nread
  | nwrite
  deriving DecidableEq

inductive PState
  | sleeping
  | runnable
  | running
  deriving DecidableEq

structure Proc where
  state : PState
  chan : Option Chan
  killed : Bool
  pid : ℕ

structure State where
  pi : Pipe
  /-- The process that holds `pi->lock`. -/
  lock : Option ℕ
  proc : ℕ → Proc
  /-- Whether the lock of a process is held. -/
  busy : ℕ → Bool
  /-- Whether a process in `pipewrite` is about to test if it should give up, with bytes in the
  pipe that it has woken nobody for. -/
  trying : ℕ → Bool

inductive Stop
  | hang
  | panic (msg : String)

abbrev PipeM := EStateM Stop State
abbrev Code := Prog Stop State

namespace State

def setProc (s : State) (i : ℕ) (f : Proc → Proc) : State :=
  { s with proc := update s.proc i (f (s.proc i)) }

def setBusy (s : State) (i : ℕ) (b : Bool) : State :=
  { s with busy := update s.busy i b }

def setTrying (s : State) (i : ℕ) (b : Bool) : State :=
  { s with trying := update s.trying i b }

end State

/-! ### Locks -/

def read {α : Type} (f : State → α) : Code α := liftM (f <$> get : PipeM α)

def write (f : State → State) : Code Unit := liftM (modify f : PipeM Unit)

def hang {α : Type} : Code α := liftM (throw .hang : PipeM α)

/-- Process `p` calls `acquire(&pi->lock)`. -/
def acquire (p : ℕ) : Code Unit := liftM (do
  let s ← get
  throwIf (s.lock = some p) (.panic "acquire")
  throwIf (s.lock ≠ none) .hang
  set { s with lock := some p } : PipeM Unit)

def release (p : ℕ) : Code Unit := liftM (do
  let s ← get
  throwIf (s.lock ≠ some p) (.panic "release")
  set { s with lock := none } : PipeM Unit)

/-- Process `p` calls `acquire(&p->lock)`. -/
def acquireSelf (p : ℕ) : Code Unit := liftM (do
  let s ← get
  throwIf (s.busy p = true) .hang
  set (s.setBusy p true) : PipeM Unit)

def releaseSelf (p : ℕ) : Code Unit := write fun s => s.setBusy p false

/-! ### `kernel/proc.c` -/

/-- The process switches to the scheduler, which releases its lock, and goes on when a scheduler
has taken the lock again and found it runnable. -/
def sched (p : ℕ) : Code Unit := do
  write fun s => s.setBusy p false
  liftM (do
    let s ← get
    throwIf (s.busy p = true ∨ (s.proc p).state ≠ .runnable) .hang
    set ((s.setBusy p true).setProc p fun q => { q with state := .running }) : PipeM Unit)

def yield (p : ℕ) : Code Unit := do
  acquireSelf p
  write fun s => s.setProc p fun q => { q with state := .runnable }
  sched p
  releaseSelf p

/-- `sleep(chan, &pi->lock)` -/
def sleep (p : ℕ) (chan : Chan) : Code Unit := do
  acquireSelf p
  release p
  write fun s => s.setProc p fun q => { q with chan := some chan, state := .sleeping }
  sched p
  write fun s => s.setProc p fun q => { q with chan := none }
  releaseSelf p
  acquire p

/-- `if (p->state == SLEEPING && p->chan == chan) p->state = RUNNABLE;` -/
def wake (chan : Chan) (q : Proc) : Proc :=
  if q.state = .sleeping ∧ q.chan = some chan then { q with state := .runnable } else q

/-- Code that holds the lock of process `i` for one action. -/
def withProc {α : Type} (i : ℕ) (f : State → α × State) : Code α := liftM (do
  let s ← get
  throwIf (s.busy i = true) .hang
  set (f s).2
  return (f s).1 : PipeM α)

def wakeup (chan : Chan) : Code Unit :=
  forUp (fun i => pure (decide (i < NPROC)))
    (fun i => withProc i fun s => ((), s.setProc i (wake chan))) 0 (NPROC + 1)

/-- What `kill` does with one process. -/
def killOne (pid i : ℕ) (s : State) : Bool × State :=
  if (s.proc i).pid = pid then
    (true, s.setProc i fun q => { q with
      killed := true, state := if q.state = .sleeping then .runnable else q.state })
  else (false, s)

/-- Whether there is a process `pid`. -/
def kill (pid : ℕ) : Code Bool :=
  Prog.loop hang (fun i =>
    if i < NPROC then do
      if ← withProc i (killOne pid i) then
        return .inr true
      else
        return .inl (i + 1)
    else
      return .inr false) (NPROC + 1) 0

/-! ### `kernel/pipe.c` -/

def pipeclose (p : ℕ) (writable : Bool) : Code Unit := do
  acquire p
  write fun s => { s with pi := s.pi.close writable }
  wakeup (if writable then .nread else .nwrite)
  release p

/-- `pi->nwrite == pi->nread + PIPESIZE`, when there are bytes that nobody was woken for or
not. -/
def testFull (p : ℕ) (stored : Bool) : Code Bool := liftM (do
  let s ← get
  set (s.setTrying p (decide s.pi.isFull && stored))
  return decide s.pi.isFull : PipeM Bool)

/-- `pi->readopen == 0 || pr->killed` -/
def testGone (p : ℕ) : Code Bool := liftM (do
  let s ← get
  set (s.setTrying p false)
  return !s.pi.readopen || (s.proc p).killed : PipeM Bool)

/-- The loops of `pipewrite`, which has inserted `i` bytes. `stored` is whether there are some
among them that it has woken nobody for. -/
def writeStep (p : ℕ) (src : ℕ → Option UInt8) (n : ℤ) :
    ℕ × Bool → Code ((ℕ × Bool) ⊕ Option ℕ)
  | (i, stored) =>
    if (i : ℤ) < n then do
      if ← testFull p stored then
        if ← testGone p then
          return .inr none
        else do
          wakeup .nread
          sleep p .nwrite
          return .inl (i, false)
      else match src i with
        | none => return .inr (some i)
        | some ch => do
          write fun s => { s with pi := s.pi.put ch }
          return .inl (i + 1, true)
    else
      return .inr (some i)

/-- `none` is -1. -/
def pipewrite (p : ℕ) (src : ℕ → Option UInt8) (n : ℤ) (k : ℕ) : Code (Option ℕ) := do
  acquire p
  match ← Prog.loop hang (writeStep p src n) k (0, false) with
  | none => do
    release p
    return none
  | some i => do
    wakeup .nread
    release p
    return some i

/-- The first loop of `piperead`: whether the process was killed. -/
def waitStep (p : ℕ) (_ : Unit) : Code (Unit ⊕ Bool) := do
  if ← read fun s => decide (s.pi.isEmpty ∧ s.pi.writeopen = true) then
    if ← read fun s => (s.proc p).killed then
      return .inr true
    else do
      sleep p .nread
      return .inl ()
  else
    return .inr false

/-- The second loop of `piperead`, which has removed `i` bytes. -/
def readStep (dst : ℕ → Bool) (n : ℤ) (i : ℕ) : Code (ℕ ⊕ ℕ) :=
  if (i : ℤ) < n then do
    if ← read fun s => decide s.pi.isEmpty then
      return .inr i
    else do
      write fun s => { s with pi := s.pi.advance }
      if dst i then
        return .inl (i + 1)
      else
        return .inr i
  else
    return .inr i

/-- The second loop of `piperead`, which keeps the lock, takes out of the pipe what that of
`Pipes.piperead` does, and returns what it returns. -/
theorem readStep_refines (dst : ℕ → Bool) (n : ℤ) {k i : ℕ} (hk : n.toNat - i < k) (s : State) :
    wp (Prog.loop hang (readStep dst n) k i).alone (fun r s' =>
      s' = { s with pi := (readLoop dst (n.toNat - i) i s.pi).pi } ∧
      ∃ why, (readLoop dst (n.toNat - i) i s.pi).ends = .returns r why) (fun _ _ => False) s := by
  induction k generalizing i s with
  | zero => omega
  | succ k ih =>
    rw [Prog.loop, Prog.alone_bind, wp_bind, readStep]
    by_cases hi : (i : ℤ) < n
    · obtain ⟨m, hm⟩ : ∃ m, n.toNat - i = m + 1 := ⟨n.toNat - i - 1, by omega⟩
      rw [if_pos hi, hm, readLoop, Prog.alone_bind, wp_bind, read, Prog.alone_lift, wp_map, wp_get]
      by_cases he : s.pi.isEmpty
      · simp only [he, decide_true, if_true]
        exact ⟨rfl, .empty, rfl⟩
      simp only [he, decide_false, if_false, Bool.false_eq_true]
      rw [Prog.alone_bind, wp_bind, write, Prog.alone_lift, wp_modify]
      cases hd : dst i with
      | true =>
        have hrest := ih (i := i + 1) (by omega) { s with pi := s.pi.advance }
        rw [show n.toNat - (i + 1) = m by omega] at hrest
        exact hrest
      | false => exact ⟨rfl, .fault, rfl⟩
    · rw [if_neg hi, show n.toNat - i = 0 by omega]
      exact ⟨rfl, .done, rfl⟩

def piperead (p : ℕ) (dst : ℕ → Bool) (n : ℤ) (k : ℕ) : Code (Option ℕ) := do
  acquire p
  if ← Prog.loop hang (waitStep p) k () then do
    release p
    return none
  else do
    let i ← Prog.loop hang (readStep dst n) k 0
    wakeup .nwrite
    release p
    return some i

/-! ### The system -/

inductive Call
  | write (src : ℕ → Option UInt8) (n : ℤ) (k : ℕ)
  | read (dst : ℕ → Bool) (n : ℤ) (k : ℕ)
  | close (writable : Bool)
  | kill (pid : ℕ)

def Call.code (p : ℕ) : Call → Code Unit
  | .write src n k => do let _ ← pipewrite p src n k
  | .read dst n k => do let _ ← piperead p dst n k
  | .close writable => pipeclose p writable
  | .kill pid => do let _ ← PipeWake.kill pid

structure Conf where
  state : State
  /-- What each process has left to do. -/
  code : ℕ → Code Unit

/-- A step of process `p`: its next action, a new call, or an interrupt of the timer, which is
off where it holds a lock. -/
inductive Step (x : Conf) (p : ℕ) : Conf → Prop
  | act {β : Type} {a : PipeM β} {k : β → Code Unit} {b : β} {s' : State}
      (hcode : x.code p = .act a k) (ha : a x.state = .ok b s') :
      Step x p ⟨s', update x.code p (k b)⟩
  | call (k : Call) (hp : p < NPROC) (hcode : x.code p = .ret ()) :
      Step x p { x with code := update x.code p (k.code p) }
  | tick (hp : p < NPROC) (hlock : x.state.lock ≠ some p) (hbusy : x.state.busy p = false)
      (hrun : (x.state.proc p).state = .running) :
      Step x p { x with code := update x.code p (do
        yield p
        x.code p) }

/-- A new pipe and processes that run, none of them in a call. -/
def start (pi : Pipe) (pid : ℕ → ℕ) : Conf where
  state := {
    pi := pi, lock := none, proc := fun i => ⟨.running, none, false, pid i⟩,
    busy := fun _ => false, trying := fun _ => false }
  code := fun _ => .ret ()

/-- No process in `pipewrite` gives up with bytes in the pipe that it has woken nobody for. -/
def Patient (s : State) : Prop :=
  ∀ p, s.trying p = true → s.pi.readopen = true ∧ (s.proc p).killed = false

/-- The configurations the system can get to. -/
def Reach (x₀ x : Conf) : Prop := Relation.ReflTransGen (fun x y => ∃ p, Step x p y) x₀ x

/-- Those it can get to while processes are patient. -/
def PatientReach (x₀ x : Conf) : Prop :=
  Relation.ReflTransGen (fun x y => Patient x.state ∧ ∃ p, Step x p y) x₀ x

end Xv6.PipeWake
