import Xv6.Kern.State

/-!
The part of `kernel/proc.c` that switches between processes: `scheduler`, `sched`, `yield`,
`sleep`, `wakeup`, `kill`.
-/

namespace Xv6.Kern

open Lib.Wp Lib.Conc Vm

/-- What `scheduler` does with one process. -/
def schedule (p : ℕ) : Code Unit := do
  acquire (.proc p)
  let q ← getProc p
  if q.state = .runnable then do
    setProc p fun q => { q with state := .running }
    setCpuProc (some p)
    swtchTo p
    -- the process is done running for now
    setCpuProc none
    release (.proc p)
  else
    release (.proc p)

/-- One round of the loop of `scheduler`. -/
def scheduler : Code Unit := forProcs schedule

def sched : Code Unit := do
  let p ← myproc
  panicWhen (fun s => ¬ holding s (.proc p)) "sched p->lock"
  panicWhen (fun s => (s.cpu s.cur).noff ≠ 1) "sched locks"
  panicWhen (fun s => (s.proc p).state = .running) "sched running"
  swtchOut p

def yield : Code Unit := do
  let p ← myproc
  acquire (.proc p)
  setProc p fun q => { q with state := .runnable }
  sched
  release (.proc p)

/-- Where a new process starts. The first one also mounts the file system. -/
def forkret : Code Unit := do
  let p ← myproc
  release (.proc p)

def sleep (chan : Chan) (lk : Lock) : Code Unit := do
  let p ← myproc
  doIf (lk ≠ .proc p) (do
    acquire (.proc p)
    release lk)
  setProc p fun q => { q with chan := some chan }
  setProc p fun q => { q with state := .sleeping }
  sched
  setProc p fun q => { q with chan := none }
  doIf (lk ≠ .proc p) (do
    release (.proc p)
    acquire lk)

/-- `if (p->state == SLEEPING && p->chan == chan) p->state = RUNNABLE;` -/
def wake (chan : Chan) (q : Proc) : Proc :=
  if q.state = .sleeping ∧ q.chan = some chan then { q with state := .runnable } else q

/-- What `wakeup` does with one process. -/
def wakeupOne (chan : Chan) (p : ℕ) : Code Unit := do
  acquire (.proc p)
  setProc p (wake chan)
  release (.proc p)

def wakeup (chan : Chan) : Code Unit := forProcs (wakeupOne chan)

/-- Wake up `p` if it sleeps in `wait`. -/
def wakeup1 (p : ℕ) : Code Unit := do
  panicWhen (fun s => ¬ holding s (.proc p)) "wakeup1"
  setProc p (wake (.proc p))

/-- `kill` looks at process `p`. -/
def look (pid p : ℕ) : Code Proc := liftM (do
  let s ← get
  let q := s.proc p
  set { s with deeds := s.deeds ++ [Deed.looked (s.thread s.cur) pid p q.state q.pid] }
  return q : KernM Proc)

/-- `p->killed = 1`, in `kill`. -/
def strike (pid p : ℕ) : Code Unit := write fun s =>
  { s.setProc p fun q => { q with killed := true } with
    deeds := s.deeds ++ [.struck (s.thread s.cur) pid p] }

/-- What `kill` does with one process. -/
def killStep (pid p : ℕ) : Code (ℕ ⊕ Bool) :=
  if p < NPROC then do
    acquire (.proc p)
    let q ← look pid p
    if q.pid = pid then do
      strike pid p
      setProc p fun q => if q.state = .sleeping then { q with state := .runnable } else q
      release (.proc p)
      return .inr true
    else do
      release (.proc p)
      return .inl (p + 1)
  else
    return .inr false

/-- Whether there is a process `pid`. -/
def kill (pid : ℕ) : Code Bool := Prog.loop hang (killStep pid) (NPROC + 1) 0

def sysKill (pid : ℕ) : Code Bool := do
  let ok ← kill pid
  write fun s => { s with deeds := s.deeds ++ [.answered (s.thread s.cur) pid ok] }
  return ok

end Xv6.Kern
