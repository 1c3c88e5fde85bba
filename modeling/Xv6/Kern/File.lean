import Xv6.Kern.Sched
import Xv6.Vm.Exec

/-!
Open files and pipes: the parts of `kernel/file.c`, `kernel/pipe.c` and `kernel/sysfile.c`
that take and give back references to files and the pages of pipes. The inode behind a file
is not part of this model.
-/

namespace Xv6.Kern

open Lib.Wp Lib.Conc Vm
open Function (update)

def setFile (f : ℕ) (g : File → File) : Code Unit := write fun s =>
  { s with file := update s.file f (g (s.file f)) }

/-- A file with a reference, if one is free. -/
def filealloc : Code (Option ℕ) := liftM (do
  let s ← get
  match (List.range NFILE).find? fun f => (s.file f).ref = 0 with
  | some f => do
    set { s with file := update s.file f { s.file f with ref := 1 } }
    return some f
  | none => return none : KernM (Option ℕ))

def filedup (f : ℕ) : Code Unit := liftM (do
  let s ← get
  throwIf ((s.file f).ref < 1) (.panic "filedup")
  set { s with file := update s.file f { s.file f with ref := (s.file f).ref + 1 } }
  : KernM Unit)

/-- `fileclose` while it holds `ftable.lock`. The result is what the last reference was to. -/
def dropRef (f : ℕ) : Code (Option File) := liftM (do
  let s ← get
  throwIf ((s.file f).ref < 1) (.panic "fileclose")
  if (s.file f).ref > 1 then do
    set { s with file := update s.file f { s.file f with ref := (s.file f).ref - 1 } }
    return none
  else do
    set { s with file := update s.file f { s.file f with ref := 0, type := .none } }
    return some (s.file f) : KernM (Option File))

/-! ### Pipes

Offsets in `struct pipe`: `nread` and `nwrite` follow the lock and the data, then come
`readopen` and `writeopen`. -/

abbrev NREAD : ℕ := 536
abbrev NWRITE : ℕ := 540
abbrev READOPEN : ℕ := 544
abbrev WRITEOPEN : ℕ := 548

@[irreducible] def putInt (pi off v : ℕ) : Code Unit := vm (writeBytes (pi + off) (numberBytes v 4))

@[irreducible] def getInt (pi off : ℕ) : Code ℕ := do
  let bytes ← vm (readBytes (pi + off) 4)
  return number bytes 0 4

/-- Close one end, and wake up those at the other. -/
def closeEnd (pi : ℕ) (writable : Bool) : Code Unit :=
  if writable then do
    putInt pi WRITEOPEN 0
    wakeup (.other (pi + NREAD))
  else do
    putInt pi READOPEN 0
    wakeup (.other (pi + NWRITE))

def pipeclose (pi : ℕ) (writable : Bool) : Code Unit := do
  acquire (.other pi)
  closeEnd pi writable
  let r ← getInt pi READOPEN
  let w ← getInt pi WRITEOPEN
  if r = 0 ∧ w = 0 then do
    release (.other pi)
    vm (kfree pi)
  else
    release (.other pi)

/-- Close a file. An inode is put, which changes nothing here. -/
def fileclose (f : ℕ) : Code Unit := do
  match ← dropRef f with
  | none => return ()
  | some ff => doIf (ff.type = .pipe) (pipeclose ff.pipe ff.writable)

/-- The reading and the writing end of a new pipe. -/
def pipealloc : Code (Option (ℕ × ℕ)) := do
  match ← filealloc with
  | none => return none
  | some f0 => do
    match ← filealloc with
    | none => do
      fileclose f0
      return none
    | some f1 => do
      let pi ← vm kalloc
      if pi = 0 then do
        fileclose f0
        fileclose f1
        return none
      else do
        putInt pi READOPEN 1
        putInt pi WRITEOPEN 1
        putInt pi NWRITE 0
        putInt pi NREAD 0
        setFile f0 fun f => { f with type := .pipe, readable := true, writable := false, pipe := pi }
        setFile f1 fun f => { f with type := .pipe, readable := false, writable := true, pipe := pi }
        return some (f0, f1)

/-! ### Descriptors -/

def setFd (p fd : ℕ) (f : Option ℕ) : Code Unit :=
  setProc p fun q => { q with ofile := update q.ofile fd f }

/-- The descriptor that file `f` gets. -/
def fdalloc (f : ℕ) : Code (Option ℕ) := do
  let p ← myproc
  let q ← getProc p
  match (List.range NOFILE).find? fun fd => (q.ofile fd).isNone with
  | some fd => do
    setFd p fd (some f)
    return some fd
  | none => return none

/-- `bad:` of `sys_pipe`, after the descriptors are cleared. -/
def closeBoth (rf wf : ℕ) : Code Bool := do
  fileclose rf
  fileclose wf
  return false

def sysPipe (fdarray : ℕ) : Code Bool := do
  let p ← myproc
  match ← pipealloc with
  | none => return false
  | some (rf, wf) => do
    match ← fdalloc rf with
    | none => closeBoth rf wf
    | some fd0 => do
      match ← fdalloc wf with
      | none => do
        setFd p fd0 none
        closeBoth rf wf
      | some fd1 => do
        let q ← getProc p
        let ok0 ← vm (copyout q.pagetable fdarray (numberBytes fd0 4))
        let ok1 ← (if ok0 then vm (copyout q.pagetable (u64 (fdarray + 4)) (numberBytes fd1 4))
          else return false)
        if ok1 then
          return true
        else do
          setFd p fd0 none
          setFd p fd1 none
          closeBoth rf wf

/-- `argfd`: the file of a descriptor. -/
def argfd (fd : ℕ) : Code (Option ℕ) := do
  let p ← myproc
  let q ← getProc p
  return if fd < NOFILE then q.ofile fd else none

def sysClose (fd : ℕ) : Code Bool := do
  let p ← myproc
  match ← argfd fd with
  | none => return false
  | some f => do
    setFd p fd none
    fileclose f
    return true

def sysDup (fd : ℕ) : Code (Option ℕ) := do
  match ← argfd fd with
  | none => return none
  | some f => do
    match ← fdalloc f with
    | none => return none
    | some fd => do
      filedup f
      return some fd

end Xv6.Kern
