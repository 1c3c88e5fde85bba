import Xv6.Lib.Conc
import Xv6.Fs.Layout

/-!
The state that the file-related system calls share, and the actions on it.

The blocks are those a process sees through the buffer cache; what the log and the cache do
with them is the subject of `Xv6.Share`. A critical section of a spin lock that is not held
across another statement is one action, and so are assignments to what no other process can
see. A process that has to sleep cannot act: its action stops with what it waits for, or, if it
holds a spin lock at that point, with the panic of `sched`.
-/

namespace Xv6.Fs

open Lib.Wp Lib.Conc Function

/-- What a process can wait for. -/
inductive Res
  | gate
  | inode (j : ℕ)
  | buf (b : ℕ)
  | disk

/-- The spin locks that are held across other actions. -/
inductive Lock
  | cons
  | proc (p : ℕ)

/-- Why an action does not happen: a `panic`, a sleep, `panic("sched locks")` in a sleep, or
something without a meaning. -/
inductive Halt
  | panic (msg : String)
  | wait (r : Res)
  | sched (r : Res)
  | undefined

/-- `log`: what `begin_op`, `log_write` and `end_op` use of it. -/
structure Log where
  outstanding : ℕ := 0
  committing : Bool := false
  lh : List ℕ := []

/-- `struct inode`. `din` is the copy of the disk inode. -/
structure Inode (N : ℕ) where
  dev : ℕ := 0
  inum : ℕ := 0
  ref : ℕ := 0
  lock : Option (Fin N) := none
  valid : Bool := false
  din : Dinode := Dinode.fresh 0

inductive FType
  | none
  | pipe
  | inode
  | device

structure File where
  type : FType := .none
  ref : ℕ := 0
  readable : Bool := false
  writable : Bool := false
  pipe : ℕ := 0
  ip : ℕ := 0
  off : ℕ := 0
  major : ℕ := 0

structure World (N : ℕ) where
  /-- The contents of blocks, as the buffers have them. -/
  block : ℕ → Block
  /-- The contents that `bread` finds after a buffer was recycled. -/
  stable : ℕ → Block
  bufLock : ℕ → Option (Fin N)
  log : Log
  inode : ℕ → Inode N
  file : ℕ → File
  /-- The fields of `struct proc`, each for all processes. -/
  ofile : Fin N → ℕ → Option ℕ
  cwd : Fin N → Option ℕ
  /-- The spin locks that a process holds across actions. -/
  spin : Fin N → List Lock
  /-- Whether a process is between `begin_op` and `end_op`, in `commit`, and in `readi`. No
  function reads these. -/
  op : Fin N → Bool
  com : Fin N → Bool
  reading : Fin N → Bool
  /-- Whether the disk has a free descriptor, and whether it is done with a request. -/
  desc : Bool
  done : Bool
  /-- The processes that have called `balloc`, and whether in `readi`. No function reads this. -/
  allocs : List (Fin N × Bool)
  /-- The entries of the inode cache that `itrunc` is at work on. No function reads this. -/
  trunc : ℕ → Bool
  /-- The process that acts. -/
  cur : Fin N

abbrev FsM (N : ℕ) := EStateM Halt (World N)
abbrev Code (N : ℕ) := Prog Halt (World N)

variable {N : ℕ}

namespace World

def setBlock (s : World N) (b : ℕ) (d : Block) : World N :=
  { s with block := update s.block b d }

def setInode (s : World N) (j : ℕ) (f : Inode N → Inode N) : World N :=
  { s with inode := update s.inode j (f (s.inode j)) }

end World

/-- The world when the first process `p` starts, on a disk with the given blocks. `namei("/")`
has made the first entry of the inode cache. -/
def bootWorld (p : Fin N) (img : ℕ → Block) : World N where
  block := img
  stable := img
  bufLock := fun _ => none
  log := {}
  inode := update (fun _ => {}) 0 { dev := ROOTDEV, inum := ROOTINO, ref := 1 }
  file := fun _ => {}
  ofile := fun _ _ => none
  cwd := update (fun _ => none) p (some 0)
  spin := fun _ => []
  op := fun _ => false
  com := fun _ => false
  reading := fun _ => false
  desc := true
  done := true
  allocs := []
  trunc := fun _ => false
  cur := p

/-! ### Actions -/

def read {α : Type} (f : World N → α) : Code N α := liftM (f <$> get : FsM N α)

def write (f : World N → World N) : Code N Unit := liftM (modify f : FsM N Unit)

def panicWhen (c : World N → Prop) [DecidablePred c] (msg : String) : Code N Unit := liftM (do
  let s ← get
  throwIf (c s) (.panic msg) : FsM N Unit)

def crash {α : Type} (e : Halt) : Code N α := liftM (throw e : FsM N α)

/-- `while (c) sleep(chan, lk);` where `lk` is the lock of the critical section. -/
def sleepWhile (s : World N) (c : Prop) [Decidable c] (r : Res) : FsM N Unit := do
  throwIf (c ∧ s.spin s.cur ≠ []) (.sched r)
  throwIf c (.wait r)

/-! ### Buffers -/

def acquireBuf (b : ℕ) : Code N Unit := liftM (do
  let s ← get
  sleepWhile s (s.bufLock b ≠ none) (.buf b)
  set { s with bufLock := update s.bufLock b (some s.cur) } : FsM N Unit)

/-- `virtio_disk_rw`: wait for descriptors, and for the disk to be done. -/
def virtioDiskRw : Code N Unit := do
  liftM (do
    let s ← get
    sleepWhile s (s.desc = false) .disk : FsM N Unit)
  liftM (do
    let s ← get
    sleepWhile s (s.done = false) .disk : FsM N Unit)

/-- A buffer may or may not have to be read from the disk. -/
def bread (b : ℕ) : Code N Unit := do
  acquireBuf b
  virtioDiskRw

def brelse (b : ℕ) : Code N Unit := liftM (do
  let s ← get
  throwIf (s.bufLock b ≠ some s.cur) (.panic "brelse")
  set { s with bufLock := update s.bufLock b none } : FsM N Unit)

def getBuf (b : ℕ) : Code N Block := read fun s => s.block b

def setBuf (b : ℕ) (d : Block) : Code N Unit := write fun s => s.setBlock b d

/-! ### Transactions -/

def beginOp : Code N Unit := liftM (do
  let s ← get
  sleepWhile s (s.log.committing = true ∨
    s.log.lh.length + (s.log.outstanding + 1) * MAXOPBLOCKS > LOGSIZE) .gate
  set { s with
    op := update s.op s.cur true
    log := { s.log with outstanding := s.log.outstanding + 1 } } : FsM N Unit)

section

variable (sb : Superblock)

/-- From here on the buffer is not recycled before it is on the disk. -/
def logWrite (b : ℕ) : Code N Unit := do
  panicWhen (fun s => s.log.lh.length ≥ LOGSIZE ∨ s.log.lh.length ≥ sb.nlog - 1)
    "too big a transaction"
  panicWhen (fun s => s.log.outstanding < 1) "log_write outside of trans"
  write fun s => { s with
    stable := update s.stable b (s.block b)
    log := { s.log with lh := if b ∈ s.log.lh then s.log.lh else s.log.lh ++ [b] } }

/-- `write_log`: the contents of the log are not part of this model, its buffers are. -/
def writeLog (lh : List ℕ) : Code N Unit :=
  forUp (fun tail => pure (decide (tail < lh.length))) (fun tail => do
    bread (sb.logstart + tail + 1)
    bread (lh.getD tail 0)
    virtioDiskRw
    brelse (lh.getD tail 0)
    brelse (sb.logstart + tail + 1)) 0 (lh.length + 1)

def writeHead : Code N Unit := do
  bread sb.logstart
  virtioDiskRw
  brelse sb.logstart

def installTrans (lh : List ℕ) : Code N Unit :=
  forUp (fun tail => pure (decide (tail < lh.length))) (fun tail => do
    bread (sb.logstart + tail + 1)
    bread (lh.getD tail 0)
    virtioDiskRw
    brelse (sb.logstart + tail + 1)
    brelse (lh.getD tail 0)) 0 (lh.length + 1)

def commit : Code N Unit := do
  let lh ← read fun s => s.log.lh
  doIf (0 < lh.length) (do
    writeLog sb lh
    writeHead sb
    installTrans sb lh
    write fun s => { s with log := { s.log with lh := [] } }
    writeHead sb)

/-- `end_op` while it holds `log.lock`. The result is `do_commit`. -/
def leaveOp : Code N Bool := liftM (do
  let s ← get
  throwIf (s.log.committing = true) (.panic "log.committing")
  let n := s.log.outstanding - 1
  set { s with
    op := update s.op s.cur false
    com := update s.com s.cur (decide (n = 0))
    log := { s.log with outstanding := n, committing := decide (n = 0) } }
  return decide (n = 0) : FsM N Bool)

def endOp : Code N Unit := do
  if ← leaveOp then do
    commit sb
    write fun s => { s with
      com := update s.com s.cur false
      log := { s.log with committing := false } }
  else
    return ()

end

end Xv6.Fs
