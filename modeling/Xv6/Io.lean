import Xv6.Lib.Wp
import Xv6.Bio
import Xv6.LogState

/-!
`kernel/bio.c` and `kernel/log.c`.

What a process does without letting another in (a critical section, a change to a buffer
it holds, one disk operation) is an action on the state: the disk, the buffer cache and
the log. The functions of the source are sequences of actions, written for any monad the
actions can be lifted to, so that the same text is run by one process alone and
interleaved with others. A sleep that another process has to end is the stop `hang`.

`trace` records what has happened, in order; no function reads it.
-/

namespace Xv6.Io

open Lib.Wp Lib.Bytes Bio LogState

inductive Event
  /-- A block is written to the disk. -/
  | write (b : ℕ) (d : Block)
  /-- `begin_op` admits the process. -/
  | began (pid : ℕ)
  /-- `log_write` of block `b` passes its tests. -/
  | checked (pid b : ℕ)
  /-- `log_write` of block `b` with contents `d`. -/
  | logged (pid b : ℕ) (d : Block)
  /-- `end_op` ends the operation, and goes on to commit if it was the last. -/
  | ended (pid : ℕ) (last : Bool)
  /-- `end_op` has committed. -/
  | committed (pid : ℕ)

structure Store where
  disk : Disk
  bcache : Bcache
  log : Log
  /-- `myproc()->pid` -/
  pid : ℕ
  trace : List Event

abbrev IoM := EStateM Stop Store

/-- The machine after `binit`, with the disk it was left with. -/
def boot (pid : ℕ) (d : Disk) : Store where
  disk := d
  bcache := binit
  log := ⟨0, 0, 0, false, 0, ⟨0, fun _ => 0⟩⟩
  pid := pid
  trace := []

def panicIf (c : Prop) [Decidable c] (msg : String) : IoM Unit := throwIf c (.panic msg)

/-! ### Actions on buffers -/

def setBuf (i : Fin NBUF) (f : Buf → Buf) : IoM Unit :=
  modify fun s => { s with bcache := s.bcache.set i f }

def acquiresleep (i : Fin NBUF) : IoM Unit := do
  let s ← get
  throwIf (s.bcache.buf i).lock.isSome .hang
  setBuf i fun b => { b with lock := some s.pid }

def releasesleep (i : Fin NBUF) : IoM Unit :=
  setBuf i fun b => { b with lock := none }

def holdingsleep (i : Fin NBUF) : IoM Bool := do
  let s ← get
  return (s.bcache.buf i).lock == some s.pid

/-- `virtio_disk_rw(b, 0)` -/
def diskRead (i : Fin NBUF) : IoM Unit := do
  let s ← get
  setBuf i fun b => { b with data := s.disk b.blockno }

/-- `virtio_disk_rw(b, 1)` -/
def diskWrite (i : Fin NBUF) : IoM Unit :=
  modify fun s =>
    let b := s.bcache.buf i
    { s with disk := Function.update s.disk b.blockno b.data
             trace := s.trace ++ [Event.write b.blockno b.data] }

/-- `bget` up to the release of `bcache.lock`. -/
def bgetLocked (dev blockno : ℕ) : IoM (Fin NBUF) := do
  let s ← get
  match bgetCs s.bcache s.pid dev blockno with
  | .error e => throw e
  | .ok (i, c) =>
    set { s with bcache := c }
    return i

/-- `if(!b->valid) { virtio_disk_rw(b, 0); b->valid = 1; }` -/
def fill (i : Fin NBUF) : IoM Unit := do
  let s ← get
  doIf (!(s.bcache.buf i).valid) do
    diskRead i
    setBuf i fun b => { b with valid := true }

def bwrite (i : Fin NBUF) : IoM Unit := do
  panicIf (!(← holdingsleep i)) "bwrite"
  diskWrite i

/-- `brelse` up to the release of the sleep-lock. -/
def brelseUnlock (i : Fin NBUF) : IoM Unit := do
  panicIf (!(← holdingsleep i)) "brelse"
  releasesleep i

/-- The part of `brelse` under `bcache.lock`. -/
def brelseLocked (i : Fin NBUF) : IoM Unit :=
  modify fun s => { s with bcache := brelseCs s.bcache s.pid i }

def unpin (i : Fin NBUF) : IoM Unit :=
  modify fun s => { s with bcache := bunpin s.bcache i }

/-- `b->data` -/
def data (i : Fin NBUF) : IoM Block := do
  return ((← get).bcache.buf i).data

def setData (i : Fin NBUF) (d : Block) : IoM Unit :=
  setBuf i fun b => { b with data := d }

/-- `memmove(dst->data, src->data, BSIZE);` -/
def memmove (dst src : Fin NBUF) : IoM Unit := do
  setData dst (← data src)

/-! ### Actions on the log -/

def getLog : IoM Log := do
  return (← get).log

/-- `log.start = sb->logstart; log.size = sb->nlog; log.dev = dev;` -/
def setArea (dev logstart nlog : ℕ) : IoM Unit :=
  modify fun s => { s with log := { s.log with start := logstart, size := nlog, dev := dev } }

/-- `tail < log.lh.n` -/
def lhMore (tail : ℕ) : IoM Bool := do
  return decide ((tail : ℤ) < (← get).log.lh.n)

/-- `log.lh.block[tail]` -/
def lhBlock (tail : ℕ) : IoM ℕ := do
  let l ← getLog
  throwIf (LOGSIZE ≤ tail) .undefined
  return l.lh.block tail

/-- The in-memory header takes what the header block in buffer `i` says. -/
def takeHead (i : Fin NBUF) : IoM Unit := do
  let d ← data i
  -- more than `LOGSIZE` entries run past the end of `log.lh.block`
  throwIf (headN d > LOGSIZE) .undefined
  modify fun s => { s with log := { s.log with lh :=
    ⟨headN d, fun i => if i < (headN d).toNat then headBlock d i else s.log.lh.block i⟩ } }

/-- The header block in buffer `i` takes the in-memory header. -/
def giveHead (i : Fin NBUF) : IoM Unit := do
  let l ← getLog
  setData i (putHead (← data i) l.lh)

/-- `log.lh.n = 0;` -/
def clearHead : IoM Unit :=
  modify fun s => { s with log := { s.log with lh := { s.log.lh with n := 0 } } }

/-- A pass of `begin_op` that does not sleep. -/
def beginOp : IoM Unit := do
  let s ← get
  match beginOpCs s.log with
  | none => throw .hang
  | some l => set { s with log := l, trace := s.trace ++ [Event.began s.pid] }

/-- The first critical section of `end_op`; the result is `do_commit`. -/
def endOpFirst : IoM Bool := do
  let s ← get
  match endOpCs s.log with
  | .error e => throw e
  | .ok (l, doCommit) =>
    set { s with log := l, trace := s.trace ++ [Event.ended s.pid doCommit] }
    return doCommit

/-- The second critical section of `end_op`. -/
def endOpLast : IoM Unit :=
  modify fun s => { s with log := { s.log with committing := false }
                           trace := s.trace ++ [Event.committed s.pid] }

/-- `log_write` before it takes the lock. -/
def logWriteTest (i : Fin NBUF) : IoM Unit := do
  let s ← get
  match logWriteCheck s.log with
  | .error e => throw e
  | .ok () => set { s with trace := s.trace ++ [Event.checked s.pid (s.bcache.buf i).blockno] }

/-- `log_write` under `log.lock`. -/
def logWriteLocked (i : Fin NBUF) : IoM Unit := do
  let s ← get
  let b := s.bcache.buf i
  match logWriteCs s.log b.blockno with
  | .error e => throw e
  | .ok (l, new) =>
    set { s with log := l
                 bcache := if new then bpin s.bcache i else s.bcache
                 trace := s.trace ++ [Event.logged s.pid b.blockno b.data] }

/-! ### The functions -/

section Functions

universe u

variable {m : Type → Type u} [Monad m] [MonadLiftT IoM m]

def bget (dev blockno : ℕ) : m (Fin NBUF) := do
  let i ← bgetLocked dev blockno
  acquiresleep i
  return i

def bread (dev blockno : ℕ) : m (Fin NBUF) := do
  let i ← bget dev blockno
  fill i
  return i

def brelse (i : Fin NBUF) : m Unit := do
  brelseUnlock i
  brelseLocked i

def installBody (tail : ℕ) : m Unit := do
  let l ← getLog
  let lbuf ← bread l.dev (l.start + tail + 1)
  let dbuf ← bread l.dev (← lhBlock tail)
  memmove dbuf lbuf
  bwrite dbuf
  unpin dbuf
  brelse lbuf
  brelse dbuf

/-- Copy committed blocks from the log to their home location. -/
def installTrans : m Unit := forUp (fun tail => liftM (lhMore tail)) installBody 0 (LOGSIZE + 1)

/-- Read the log header from disk into the in-memory log header. -/
def readHead : m Unit := do
  let l ← getLog
  let buf ← bread l.dev l.start
  takeHead buf
  brelse buf

/-- Write the in-memory log header to disk. -/
def writeHead : m Unit := do
  let l ← getLog
  let buf ← bread l.dev l.start
  giveHead buf
  bwrite buf
  brelse buf

def recoverFromLog : m Unit := do
  readHead
  installTrans
  clearHead
  writeHead

def writeLogBody (tail : ℕ) : m Unit := do
  let l ← getLog
  let dst ← bread l.dev (l.start + tail + 1)
  let src ← bread l.dev (← lhBlock tail)
  memmove dst src
  bwrite dst
  brelse src
  brelse dst

/-- Copy modified blocks from cache to log. -/
def writeLog : m Unit := forUp (fun tail => liftM (lhMore tail)) writeLogBody 0 (LOGSIZE + 1)

def commit : m Unit := do
  let l ← getLog
  doIf (l.lh.n > 0) do
    writeLog
    writeHead
    installTrans
    clearHead
    writeHead

def endOp : m Unit := do
  let doCommit ← endOpFirst
  doIf doCommit do
    commit
    endOpLast

def logWrite (i : Fin NBUF) : m Unit := do
  logWriteTest i
  logWriteLocked i

def initlog (dev logstart nlog : ℕ) : m Unit := do
  setArea dev logstart nlog
  recoverFromLog

end Functions

end Xv6.Io
