import Xv6.Kern.File

/-!
The life of a process, from `kernel/proc.c`: `allocproc`, `freeproc`, `fork`, `exit`, `wait`,
and the system calls that change its memory.
-/

namespace Xv6.Kern

open Lib.Wp Lib.Conc Vm

def emit (e : Event) : Code Unit := write fun s => { s with log := s.log ++ [e] }

def allocpid : Code ℕ := liftM (do
  let s ← get
  set { s with nextpid := (s.nextpid + 1) % 2 ^ 32 }
  return s.nextpid : KernM ℕ)

def freeproc (p : ℕ) : Code Unit := do
  let q ← getProc p
  doIf (q.trapframe ≠ 0) (vm (kfree q.trapframe))
  setProc p fun q => { q with trapframe := 0 }
  doIf (q.pagetable ≠ 0) (vm (procFreepagetable q.pagetable q.sz))
  setProc p fun q => { q with pagetable := 0 }
  -- the remaining fields, all protected by `p->lock`
  setProc p fun q => { q with
    sz := 0, pid := 0, parent := none, chan := none, killed := false, xstate := 0,
    state := .unused }

/-- Look for an unused process. It is returned with its lock held. -/
def findStep (p : ℕ) : Code (ℕ ⊕ Option ℕ) :=
  if p < NPROC then do
    acquire (.proc p)
    let q ← getProc p
    if q.state = .unused then
      return .inr (some p)
    else do
      release (.proc p)
      return .inl (p + 1)
  else
    return .inr none

def findUnused : Code (Option ℕ) := Prog.loop hang findStep (NPROC + 1) 0

/-- `memset(&p->context, 0, ...)`, `p->context.ra = forkret` and a new stack pointer. -/
def setContext (p : ℕ) : Code Unit := write fun s =>
  { s with ctx := Function.update s.ctx p .forkret }

/-- `allocproc` after `found:`. -/
def setUp (p : ℕ) : Code (Option ℕ) := do
  let pid ← allocpid
  setProc p fun q => { q with pid := pid }
  let trapframe ← vm kalloc
  setProc p fun q => { q with trapframe := trapframe }
  if trapframe = 0 then do
    release (.proc p)
    return none
  else do
    let pagetable ← vm (procPagetable trapframe)
    setProc p fun q => { q with pagetable := pagetable }
    if pagetable = 0 then do
      freeproc p
      release (.proc p)
      return none
    else do
      setContext p
      return some p

def allocproc : Code (Option ℕ) := do
  match ← findUnused with
  | none => return none
  | some p => setUp p

/-- Set up the first process. -/
def userinit (initcode : List UInt8) : Code Unit := do
  match ← allocproc with
  | none => crash .undefined
  | some p => do
    write fun s => { s with initproc := p }
    let q ← getProc p
    vm (uvminit q.pagetable initcode)
    setProc p fun q => { q with sz := PGSIZE }
    vm (store (q.trapframe + 24) 0)
    vm (store (q.trapframe + 48) PGSIZE)
    write fun s => { s.setProc p fun q => { q with state := .runnable } with
      log := s.log ++ [.forked p q.pid p], deeds := s.deeds ++ [.made p] }
    release (.proc p)

/-! ### `fork` -/

/-- Duplicate the open files of `p` for `np`. -/
def dupFiles (p np : ℕ) : Code Unit :=
  forUp (fun fd => pure (decide (fd < NOFILE))) (fun fd => do
    let q ← getProc p
    match q.ofile fd with
    | none => return ()
    | some f => do
      filedup f
      setFd np fd (some f)) 0 (NOFILE + 1)

/-- The child of `p` starts to exist. -/
def startChild (p np pid : ℕ) : Code Unit := write fun s =>
  { s.setProc np fun q => { q with state := .runnable } with
    log := s.log ++ [.forked np pid p], deeds := s.deeds ++ [.made np] }

def fork : Code (Option ℕ) := do
  let p ← myproc
  match ← allocproc with
  | none => return none
  | some np => do
    let q ← getProc p
    let n ← getProc np
    let ok ← vm (uvmcopy q.pagetable n.pagetable q.sz)
    if ok then do
      setProc np fun n => { n with sz := q.sz }
      setProc np fun n => { n with parent := some p }
      vm (copyTrapframe n.trapframe q.trapframe)
      dupFiles p np
      startChild p np n.pid
      release (.proc np)
      return some n.pid
    else do
      freeproc np
      release (.proc np)
      return none

/-! ### `exit` and `wait` -/

/-- `pp->parent = initproc` -/
def giveToInit (pp : ℕ) : Code Unit := write fun s =>
  { s.setProc pp fun q => { q with parent := some s.initproc } with
    log := s.log ++ [.gave pp s.initproc] }

/-- What `reparent` does with one process. -/
def reparentOne (p pp : ℕ) : Code Unit := do
  -- `pp->parent` is read without `pp->lock`
  let q ← getProc pp
  doIf (q.parent = some p) (do
    acquire (.proc pp)
    giveToInit pp
    release (.proc pp))

def reparent (p : ℕ) : Code Unit := forProcs (reparentOne p)

/-- Close all open files of `p`. -/
def closeFiles (p : ℕ) : Code Unit :=
  forUp (fun fd => pure (decide (fd < NOFILE))) (fun fd => do
    let q ← getProc p
    match q.ofile fd with
    | none => return ()
    | some f => do
      fileclose f
      setFd p fd none) 0 (NOFILE + 1)

/-- `p->state = ZOMBIE` -/
def becomeZombie (p : ℕ) : Code Unit := write fun s =>
  { s.setProc p fun q => { q with state := .zombie } with log := s.log ++ [.exited p] }

/-- Exit with a parent that is known: `exit` from where it locks its parent. -/
def exitTo (p status parent : ℕ) : Code Unit := do
  acquire (.proc parent)
  acquire (.proc p)
  reparent p
  wakeup1 parent
  setProc p fun q => { q with xstate := status }
  becomeZombie p
  release (.proc parent)
  sched
  crash (.panic "zombie exit")

/-- `if(p == initproc) panic("init exiting");` -/
def startExit (p status : ℕ) : Code Unit := liftM (do
  let s ← get
  throwIf (p = s.initproc) (.panic "init exiting")
  set { s with log := s.log ++ [Event.exiting p status] } : KernM Unit)

def exit (status : ℕ) : Code Unit := do
  let p ← myproc
  startExit p status
  closeFiles p
  let init ← read State.initproc
  acquire (.proc init)
  wakeup1 init
  release (.proc init)
  acquire (.proc p)
  let q ← getProc p
  release (.proc p)
  match q.parent with
  | none => crash .undefined
  | some parent => exitTo p status parent

/-- `usertrap` when the user program faults: `p->killed = 1`, and so `exit(-1)`. -/
def fault : Code Unit := do
  let p ← myproc
  write fun s => { s.setProc p fun q => { q with killed := true } with
    deeds := s.deeds ++ [.faulted p] }
  exit (2 ^ 32 - 1)

/-- Free the zombie `np` and return its pid. -/
def reap (p np pid status : ℕ) : Code ℕ := do
  emit (.reaped p np pid status)
  freeproc np
  release (.proc np)
  release (.proc p)
  return pid

/-- What `wait` does with one process. The result is whether there are children, or what
`wait` returns. -/
def waitStep (p addr : ℕ) (cur : ℕ × Bool) : Code (ℕ × Bool ⊕ Bool ⊕ Option ℕ) :=
  if cur.1 < NPROC then do
    let np := cur.1
    -- `np->parent` is read without `np->lock`
    let q ← getProc np
    if q.parent = some p then do
      acquire (.proc np)
      let n ← getProc np
      if n.state = .zombie then do
        let q ← getProc p
        let ok ← (if addr ≠ 0 then vm (copyout q.pagetable addr (numberBytes n.xstate 4))
          else return true)
        if ok then do
          let pid ← reap p np n.pid n.xstate
          return .inr (.inr (some pid))
        else do
          emit (.refused p np)
          release (.proc np)
          release (.proc p)
          return .inr (.inr none)
      else do
        release (.proc np)
        return .inl (np + 1, true)
    else
      return .inl (np + 1, cur.2)
  else
    return .inr (.inl cur.2)

/-- One round of the outer loop of `wait`. -/
def waitRound (p addr : ℕ) (_ : Unit) : Code (Unit ⊕ Option ℕ) := do
  match ← Prog.loop hang (waitStep p addr) (NPROC + 1) (0, false) with
  | .inr r => return .inr r
  | .inl havekids => do
    let q ← getProc p
    if havekids = false ∨ q.killed = true then do
      release (.proc p)
      return .inr none
    else do
      sleep (.proc p) (.proc p)
      return .inl ()

/-- `wait`, as far as it gets in `k` rounds. -/
def wait (addr k : ℕ) : Code (Option ℕ) := do
  let p ← myproc
  acquire (.proc p)
  Prog.loop hang (waitRound p addr) k ()

def sysWait (addr k : ℕ) : Code (Option ℕ) := do
  let p ← myproc
  let ret ← wait addr k
  emit (.waited p ret)
  return ret

/-! ### Memory -/

/-- `sz + n` in `uint`, for `n` given by its 32 bits. -/
def addInt (sz n : ℕ) : ℕ := (sz + n) % 2 ^ 32

/-- `growproc`, with `n` given by its 32 bits. -/
def growproc (n : ℕ) : Code Bool := do
  let p ← myproc
  let q ← getProc p
  let sz := q.sz % 2 ^ 32
  if 0 < toInt32 n then do
    let sz ← vm (uvmalloc q.pagetable sz (addInt sz n))
    if sz % 2 ^ 32 = 0 then
      return false
    else do
      setProc p fun q => { q with sz := sz % 2 ^ 32 }
      return true
  else if toInt32 n < 0 then do
    let sz ← vm (uvmdealloc q.pagetable sz (addInt sz n))
    setProc p fun q => { q with sz := sz % 2 ^ 32 }
    return true
  else do
    setProc p fun q => { q with sz := sz }
    return true

/-- Commit to a new image. -/
def commitImage (p : ℕ) (im : Image) : Code ℕ := do
  let q ← getProc p
  vm (store (q.trapframe + 120) im.sp)
  setProc p fun q => { q with pagetable := im.pagetable }
  setProc p fun q => { q with sz := im.sz }
  vm (store (q.trapframe + 24) im.entry)
  vm (store (q.trapframe + 48) im.sp)
  vm (procFreepagetable q.pagetable q.sz)
  return im.argc

/-- `exec` of the file with the given contents, `none` if there is no such file. -/
def exec (file : Option (List UInt8)) (argv : List ℕ) : Code (Option ℕ) := do
  let p ← myproc
  match file with
  | none => return none
  | some data => do
    let q ← getProc p
    match ← vm (execImage data q.trapframe argv) with
    | none => return none
    | some im => do
      let argc ← commitImage p im
      return some argc

def sysExec (path uargv : ℕ) (file : Option (List UInt8)) : Code (Option ℕ) := do
  let p ← myproc
  let q ← getProc p
  let r ← vm (copyinstr q.pagetable path 128)
  if r.1 then do
    let a ← vm (fetchArgs q.pagetable q.sz uargv MAXARG [])
    let ret ← (if a.1 then exec file a.2 else return none)
    vm (freeAll a.2)
    return ret
  else
    return none

end Xv6.Kern
