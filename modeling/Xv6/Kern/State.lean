import Xv6.Vm.Uvm

/-!
The state of the kernel as its processes and schedulers share it: `struct proc`,
`struct cpu`, the locks and the file table, with the actions on them.

A pointer to a process is its index in `proc[]`. Each CPU runs the scheduler or the kernel
thread of a process: `live` says which. A statement of the source is one action; a critical
section of a lock that is never held across another statement is one action too.
-/

namespace Xv6.Kern

open Lib.Wp Lib.Conc Vm
open Function (update)

inductive PState
  | unused
  | sleeping
  | runnable
  | running
  | zombie
  deriving DecidableEq

/-- A spin lock: the lock of a process, or any other, named by a number. -/
inductive Lock
  | proc (i : ℕ)
  | other (n : ℕ)
  deriving DecidableEq

/-- What a process can sleep on: a `struct proc`, or any other address. -/
inductive Chan
  | proc (i : ℕ)
  | other (n : ℕ)
  deriving DecidableEq

/-- `struct proc`, without its lock, its context, its kernel stack and its name. -/
structure Proc where
  state : PState := .unused
  parent : Option ℕ := none
  chan : Option Chan := none
  killed : Bool := false
  xstate : ℕ := 0
  pid : ℕ := 0
  sz : ℕ := 0
  pagetable : ℕ := 0
  trapframe : ℕ := 0
  ofile : ℕ → Option ℕ := fun _ => none

/-- `struct cpu`, without its context. -/
structure Cpu where
  proc : Option ℕ := none
  noff : ℕ := 0

/-- The saved registers of a process: none yet, those that `allocproc` sets up to start at
`forkret`, those that `swtch` saved, or stale ones, since it runs on a CPU. They are lost when
a CPU switches to a process whose registers were not saved. -/
inductive Ctx
  | zero
  | forkret
  | saved
  | onCpu
  | lost

inductive FileType
  | none
  | pipe
  | inode
  deriving DecidableEq

/-- `struct file`, as far as pipes go. -/
structure File where
  type : FileType := .none
  ref : ℕ := 0
  readable : Bool := false
  writable : Bool := false
  pipe : ℕ := 0

/-- What happens to processes: `fork` made a child, a process called `exit`, gave a child to
another process, became a zombie, was found by its parent's `wait`, which frees it or fails to
copy its status out, and a call of `wait` returned. -/
inductive Event
  | forked (child pid parent : ℕ)
  | exiting (p status : ℕ)
  | gave (child heir : ℕ)
  | exited (p : ℕ)
  | reaped (parent child pid status : ℕ)
  | refused (parent child : ℕ)
  | waited (p : ℕ) (ret : Option ℕ)
  deriving DecidableEq

/-- What a CPU can run: its scheduler, or the kernel thread of a process. -/
inductive Thread
  | sched (c : ℕ)
  | proc (i : ℕ)
  deriving DecidableEq

/-- What happens to the mark `killed`: a process starts to exist; `kill` looks at a process, which
is in a state and has a pid, marks it, and returns whether it found one; a process faults. -/
inductive Deed
  | made (p : ℕ)
  | looked (t : Thread) (want p : ℕ) (st : PState) (pid : ℕ)
  | struck (t : Thread) (want p : ℕ)
  | answered (t : Thread) (want : ℕ) (ok : Bool)
  | faulted (p : ℕ)
  deriving DecidableEq

structure State where
  phys : Phys
  proc : ℕ → Proc
  initproc : ℕ
  nextpid : ℕ
  cpu : ℕ → Cpu
  /-- The CPU that holds a lock. -/
  held : Lock → Option ℕ
  /-- The process whose registers are live on a CPU, `none` for the scheduler's. -/
  live : ℕ → Option ℕ
  ctx : ℕ → Ctx
  file : ℕ → File
  /-- Conditions that processes wait for. -/
  cond : ℕ → Bool
  /-- The condition that a process is in a loop to wait for. -/
  waiting : ℕ → Option ℕ
  /-- The condition that a process has made true and has not yet finished waking others for. -/
  waking : ℕ → Option ℕ
  log : List Event
  deeds : List Deed
  /-- The CPU that acts. -/
  cur : ℕ

abbrev KernM := EStateM Stop State
abbrev Code := Prog Stop State

namespace State

/-- Change the record of process `i`. -/
def setProc (s : State) (i : ℕ) (f : Proc → Proc) : State :=
  { s with proc := update s.proc i (f (s.proc i)) }

def setNoff (s : State) (c : ℕ) (f : ℕ → ℕ) : State :=
  { s with cpu := update s.cpu c { s.cpu c with noff := f (s.cpu c).noff } }

/-- Lock `k` becomes held by the CPU that acts. -/
def take (s : State) (k : Lock) : State :=
  { s.setNoff s.cur (· + 1) with held := update s.held k (some s.cur) }

/-- Lock `k` becomes free. -/
def drop (s : State) (k : Lock) : State :=
  { s.setNoff s.cur (· - 1) with held := update s.held k none }

/-- What becomes of a context that a CPU switches to: it is on the CPU, if it was there. -/
def load : Ctx → Ctx
  | .saved => .onCpu
  | .forkret => .onCpu
  | _ => .lost

/-- The CPU that acts switches to process `p`. -/
def enter (s : State) (p : ℕ) : State :=
  { s with
    live := update s.live s.cur (some p), ctx := update s.ctx p (load (s.ctx p)) }

/-- The CPU that acts switches from process `p` to its scheduler. -/
def leave (s : State) (p : ℕ) : State :=
  { s with live := update s.live s.cur none, ctx := update s.ctx p .saved }

end State

/-- The thread that CPU `c` runs. -/
def State.thread (s : State) (c : ℕ) : Thread := match s.live c with
  | none => .sched c
  | some i => .proc i

/-! ### Actions -/

def read {α : Type} (f : State → α) : Code α := liftM (f <$> get : KernM α)

def write (f : State → State) : Code Unit := liftM (modify f : KernM Unit)

def panicWhen (c : State → Prop) [DecidablePred c] (msg : String) : Code Unit := liftM (do
  let s ← get
  throwIf (c s) (.panic msg) : KernM Unit)

def hang {α : Type} : Code α := liftM (throw .hang : KernM α)

def crash {α : Type} (e : Stop) : Code α := liftM (throw e : KernM α)

def getProc (i : ℕ) : Code Proc := read fun s => s.proc i

def setProc (i : ℕ) (f : Proc → Proc) : Code Unit := write fun s => s.setProc i f

/-- Code on physical memory. -/
def vm {α : Type} (x : Vm.Code α) : Code α :=
  x.into (onPart State.phys fun s m => { s with phys := m })

/-! ### `spinlock.c` -/

def holding (s : State) (k : Lock) : Prop := s.held k = some s.cur

instance (s : State) (k : Lock) : Decidable (holding s k) := inferInstanceAs (Decidable (_ = _))

/-- A lock that another CPU holds makes the caller spin: it cannot act until it is free. -/
def acquire (k : Lock) : Code Unit := liftM (do
  let s ← get
  throwIf (holding s k) (.panic "acquire")
  throwIf (s.held k ≠ none) .hang
  set (s.take k) : KernM Unit)

def release (k : Lock) : Code Unit := liftM (do
  let s ← get
  throwIf (¬ holding s k) (.panic "release")
  throwIf ((s.cpu s.cur).noff < 1) (.panic "pop_off")
  set (s.drop k) : KernM Unit)

/-! ### The current process -/

def myproc : Code ℕ := liftM (do
  let s ← get
  match (s.cpu s.cur).proc with
  | some p => return p
  | none => throw .undefined : KernM ℕ)

/-- `mycpu()->proc = p` -/
def setCpuProc (p : Option ℕ) : Code Unit := write fun s =>
  { s with cpu := update s.cpu s.cur { s.cpu s.cur with proc := p } }

/-- `swtch(&c->context, &p->context)` -/
def swtchTo (p : ℕ) : Code Unit := write fun s => s.enter p

/-- `swtch(&p->context, &mycpu()->context)` -/
def swtchOut (p : ℕ) : Code Unit := write fun s => s.leave p

/-- The loop `for (p = proc; p < &proc[NPROC]; p++)`. -/
def forProcs (body : ℕ → Code Unit) : Code Unit :=
  forUp (fun p => pure (decide (p < NPROC))) body 0 (NPROC + 1)

end Xv6.Kern
