import Xv6.Lib.Conc
import Xv6.Param

/-!
The disk driver, `kernel/virtio_disk.c`, and the device it talks to.

The device acts at any time, so what it reads or writes (the rings, the descriptors of a request
that it may take, the interrupt register) is used in actions of its own. Statements on other data,
which belongs to the holder of `vdisk_lock`, are one action where they follow one another. A process
that sleeps gives up the lock, and may go on at any time.
-/

namespace Xv6.Virtio

open Lib.Wp Lib.Conc Function

abbrev NUM : ℕ := 8
abbrev VRING_DESC_F_NEXT : ℕ := 1
abbrev VRING_DESC_F_WRITE : ℕ := 2

/-- Who runs the code of the driver: a process in `virtio_disk_rw`, or a CPU in
`virtio_disk_intr`. -/
inductive Thread
  | proc (p : ℕ)
  | cpu (c : ℕ)
  deriving DecidableEq

/-- What a descriptor can point to: the header of a request, on the kernel stack of a process, the
data of a buffer, or the status byte `disk.info[i].status`. -/
inductive Addr
  | null
  | header (p : ℕ)
  | data (b : ℕ)
  | status (i : ℕ)

/-- `struct VRingDesc` -/
structure Desc where
  addr : Addr
  len : ℕ
  flags : ℕ
  next : ℕ

/-- An element of `disk.info`. -/
structure Info where
  b : Option ℕ
  status : ℕ

/-- `idx[3]`: the descriptors of a request. -/
structure Idx where
  i0 : ℕ
  i1 : ℕ
  i2 : ℕ

def Idx.toList (c : Idx) : List ℕ := [c.i0, c.i1, c.i2]

/-- A request: who made it, for which buffer, with which descriptors. -/
structure Req where
  proc : ℕ
  buf : ℕ
  idx : Idx

/-- What the device has read of a request. -/
structure Job where
  head : ℕ
  status : Addr

/-- How far the handler is after its last test of the used ring: it has to read the interrupt
register, or has read it. -/
inductive Hand
  | out
  | drained
  | acking (v : Bool)
  deriving DecidableEq

structure State where
  /-- Who holds `vdisk_lock`. -/
  lock : Option Thread
  desc : ℕ → Desc
  free : ℕ → Bool
  info : ℕ → Info
  /-- `b->disk`, of each buffer. -/
  disk : ℕ → Bool
  /-- `avail[2 + i]` and `avail[1]` -/
  ring : ℕ → ℕ
  availIdx : ℕ
  /-- `used->elems[i].id` and `used->id` -/
  elems : ℕ → ℕ
  usedId : ℕ
  /-- `disk.used_idx` -/
  usedIdx : ℕ
  /-- The device's own index in the avail ring. -/
  lastAvail : ℕ
  /-- The bit of the interrupt register. -/
  pending : Bool
  /-- The buffer a process is in a call for. -/
  call : ℕ → Option ℕ
  /-- The requests made available, in order, and whether each call has returned. -/
  req : ℕ → Req
  sent : ℕ
  returned : ℕ → Bool
  /-- How many of them the device has taken, and those it is working on. -/
  taken : ℕ
  job : ℕ → Option Job
  /-- The requests it has completed, in the order in which it did. -/
  done : ℕ → ℕ
  completed : ℕ
  /-- The index read from each used entry that was processed, and the buffer whose `disk` was
  cleared for it. -/
  entry : ℕ → ℕ × ℕ
  handled : ℕ
  hand : Hand

inductive Stop
  | hang
  | panic (msg : String)
  | undefined

abbrev DiskM := EStateM Stop State
abbrev Code := Prog Stop State

def hang {α : Type} : Code α := liftM (throw .hang : DiskM α)

/-! ### Locks -/

def acquire (t : Thread) : Code Unit := liftM (do
  let s ← get
  throwIf (s.lock = some t) (.panic "acquire")
  throwIf (s.lock ≠ none) .hang
  set { s with lock := some t } : DiskM Unit)

def release (t : Thread) : Code Unit := liftM (do
  let s ← get
  throwIf (s.lock ≠ some t) (.panic "release")
  set { s with lock := none } : DiskM Unit)

/-- `sleep(chan, &disk.vdisk_lock)`, whatever the channel. -/
def sleep (t : Thread) : Code Unit := do
  release t
  acquire t

/-! ### Descriptors -/

/-- `none` is -1. -/
def allocDesc : Code (Option ℕ) := liftM (do
  let s ← get
  match (List.range NUM).find? s.free with
  | none => return none
  | some i => do
    set { s with free := update s.free i false }
    return some i : DiskM (Option ℕ))

def freeDesc (i : ℕ) : DiskM Unit := do
  let s ← get
  throwIf (NUM ≤ i) (.panic "virtio_disk_intr 1")
  throwIf (s.free i = true) (.panic "virtio_disk_intr 2")
  set { s with
    desc := update s.desc i { s.desc i with addr := .null }
    free := update s.free i true }

/-- One round of the loop of `free_chain`. -/
def freeStep (i : ℕ) : Code (ℕ ⊕ Unit) := liftM (do
  freeDesc i
  let s ← get
  if (s.desc i).flags &&& VRING_DESC_F_NEXT ≠ 0 then
    return .inl (s.desc i).next
  else
    return .inr () : DiskM (ℕ ⊕ Unit))

def freeChain (i : ℕ) : Code Unit := Prog.loop hang freeStep (NUM + 1) i

/-- `alloc_desc` three times, and what was allocated is freed again when one fails. -/
def alloc3Desc : Code (Option Idx) := do
  match ← allocDesc with
  | none => return none
  | some i0 => match ← allocDesc with
    | none => do
      liftM (freeDesc i0)
      return none
    | some i1 => match ← allocDesc with
      | none => do
        liftM (freeDesc i0)
        liftM (freeDesc i1)
        return none
      | some i2 => return some ⟨i0, i1, i2⟩

/-! ### `virtio_disk_rw` -/

/-- `while(1) { if(alloc3_desc(idx) == 0) break; sleep(&disk.free[0], &disk.vdisk_lock); }` -/
def allocStep (p : ℕ) (_ : Unit) : Code (Unit ⊕ Idx) := do
  match ← alloc3Desc with
  | some idx => return .inr idx
  | none => do
    sleep (.proc p)
    return .inl ()

/-- The descriptors of the request, `disk.info` and `b->disk`. -/
def format (p b : ℕ) (write : Bool) (idx : Idx) : Code Unit := liftM (modify fun s : State =>
  let desc0 := update s.desc idx.i0
    { addr := .header p, len := 16, flags := VRING_DESC_F_NEXT, next := idx.i1 }
  let desc1 := update desc0 idx.i1
    { addr := .data b, len := BSIZE,
      flags := (if write then 0 else VRING_DESC_F_WRITE) ||| VRING_DESC_F_NEXT, next := idx.i2 }
  let desc2 := update desc1 idx.i2
    { addr := .status idx.i0, len := 1, flags := VRING_DESC_F_WRITE, next := 0 }
  { s with
    desc := desc2
    disk := update s.disk b true
    info := update s.info idx.i0 ⟨some b, 0⟩ } : DiskM Unit)

/-- `avail[2 + (avail[1] % NUM)] = idx[0]` -/
def place (idx : Idx) : Code Unit := liftM (modify fun s : State =>
  { s with ring := update s.ring (s.availIdx % NUM) idx.i0 } : DiskM Unit)

/-- `avail[1] = avail[1] + 1`, and the device is told. The request is given a number. -/
def publish (p b : ℕ) (idx : Idx) : Code ℕ := liftM (do
  let s ← get
  set { s with
    availIdx := (s.availIdx + 1) % 2 ^ 16
    req := update s.req s.sent ⟨p, b, idx⟩
    sent := s.sent + 1 }
  return s.sent : DiskM ℕ)

/-- `while(b->disk == 1) { sleep(b, &disk.vdisk_lock); }` -/
def waitStep (p b : ℕ) (_ : Unit) : Code (Unit ⊕ Unit) := do
  let s ← liftM (get : DiskM State)
  if s.disk b then do
    sleep (.proc p)
    return .inl ()
  else
    return .inr ()

/-- `disk.info[idx[0]].b = 0` -/
def clearInfo (idx : Idx) : Code Unit := liftM (modify fun s : State =>
  { s with info := update s.info idx.i0 { s.info idx.i0 with b := none } } : DiskM Unit)

/-- The last `release`, with which request `i` of process `p` returns. -/
def finish (p i : ℕ) : Code Unit := liftM (do
  let s ← get
  throwIf (s.lock ≠ some (.proc p)) (.panic "release")
  set { s with
    lock := none
    call := update s.call p none
    returned := update s.returned i true } : DiskM Unit)

def virtioDiskRw (p b : ℕ) (write : Bool) (k : ℕ) : Code Unit := do
  acquire (.proc p)
  let idx ← Prog.loop hang (allocStep p) k ()
  format p b write idx
  place idx
  let i ← publish p b idx
  Prog.loop hang (waitStep p b) k ()
  clearInfo idx
  freeChain idx.i0
  finish p i

/-! ### `virtio_disk_intr` -/

/-- `(disk.used_idx % NUM) != (disk.used->id % NUM)` -/
def testUsed : Code Bool := liftM (do
  let s ← get
  if s.usedIdx % NUM ≠ s.usedId % NUM then
    return true
  else do
    set { s with hand := .drained }
    return false : DiskM Bool)

/-- The body of the loop. -/
def process : Code Unit := liftM (do
  let s ← get
  let id := s.elems s.usedIdx
  throwIf (NUM ≤ id) .undefined
  throwIf ((s.info id).status ≠ 0) (.panic "virtio_disk_intr status")
  match (s.info id).b with
  | none => throw .undefined
  | some b => set { s with
      disk := update s.disk b false
      usedIdx := (s.usedIdx + 1) % NUM
      entry := update s.entry s.handled (id, b)
      handled := s.handled + 1 } : DiskM Unit)

def drainStep (_ : Unit) : Code (Unit ⊕ Unit) := do
  if ← testUsed then do
    process
    return .inl ()
  else
    return .inr ()

/-- The bit of `*R(VIRTIO_MMIO_INTERRUPT_STATUS) & 0x3`. -/
def readStatus : Code Bool := liftM (do
  let s ← get
  set { s with hand := .acking s.pending }
  return s.pending : DiskM Bool)

/-- `*R(VIRTIO_MMIO_INTERRUPT_ACK) = v` clears the bits that are set in `v`. -/
def writeAck (v : Bool) : Code Unit := liftM (modify fun s : State =>
  { s with pending := s.pending && !v, hand := .out } : DiskM Unit)

def virtioDiskIntr (c : ℕ) (k : ℕ) : Code Unit := do
  acquire (.cpu c)
  Prog.loop hang drainStep k ()
  let v ← readStatus
  writeAck v
  release (.cpu c)

/-! ### The device -/

namespace State

/-- The device takes the next chain of the avail ring. -/
def take (s : State) : State :=
  let head := s.ring (s.lastAvail % NUM)
  let last := (s.desc (s.desc head).next).next
  { s with
    lastAvail := (s.lastAvail + 1) % 2 ^ 16
    job := update s.job s.taken (some ⟨head, (s.desc last).addr⟩)
    taken := s.taken + 1 }

/-- It writes a status of 0. -/
def writeStatus (s : State) : Addr → State
  | .status i => { s with info := update s.info i { s.info i with status := 0 } }
  | _ => s

/-- It completes request `i`, which it has read as `j`. -/
def complete (s : State) (i : ℕ) (j : Job) : State :=
  { s.writeStatus j.status with
    job := update s.job i none
    elems := update s.elems (s.usedId % NUM) j.head
    usedId := (s.usedId + 1) % 2 ^ 16
    pending := true
    done := update s.done s.completed i
    completed := s.completed + 1 }

end State

/-! ### The system -/

structure Conf where
  state : State
  /-- What each thread has left to do. -/
  code : Thread → Code Unit

/-- What can happen: a thread acts, a process calls `virtio_disk_rw`, a CPU is interrupted, the
device takes a request or completes one. -/
inductive Move
  | act (t : Thread)
  | call (p b : ℕ) (write : Bool) (k : ℕ)
  | intr (c k : ℕ)
  | take
  | complete (i : ℕ)

inductive Step (x : Conf) : Move → Conf → Prop
  | act {t : Thread} {β : Type} {a : DiskM β} {k : β → Code Unit} {b : β} {s' : State}
      (hcode : x.code t = .act a k) (ha : a x.state = .ok b s') :
      Step x (.act t) ⟨s', update x.code t (k b)⟩
  | call {p b : ℕ} {write : Bool} {k : ℕ} (hcode : x.code (.proc p) = .ret ()) :
      Step x (.call p b write k)
        ⟨{ x.state with call := update x.state.call p (some b) },
          update x.code (.proc p) (virtioDiskRw p b write k)⟩
  | intr {c k : ℕ} (hcode : x.code (.cpu c) = .ret ()) :
      Step x (.intr c k) { x with code := update x.code (.cpu c) (virtioDiskIntr c k) }
  | take (h : x.state.lastAvail ≠ x.state.availIdx) : Step x .take { x with state := x.state.take }
  | complete {i : ℕ} {j : Job} (h : x.state.job i = some j) :
      Step x (.complete i) { x with state := x.state.complete i j }

/-- After `virtio_disk_init`. -/
def start : Conf where
  state := {
    lock := none, desc := fun _ => ⟨.null, 0, 0, 0⟩, free := fun _ => true
    info := fun _ => ⟨none, 0⟩, disk := fun _ => false, ring := fun _ => 0, availIdx := 0
    elems := fun _ => 0, usedId := 0, usedIdx := 0, lastAvail := 0, pending := false
    call := fun _ => none, req := fun _ => ⟨0, 0, 0, 0, 0⟩, sent := 0, returned := fun _ => false
    taken := 0, job := fun _ => none, done := fun _ => 0, completed := 0
    entry := fun _ => (0, 0), handled := 0, hand := .out }
  code := fun _ => .ret ()

/-- The configurations that the system gets to by moves that meet a condition. -/
def Reach (P : State → Move → Prop) (x : Conf) : Prop :=
  Relation.ReflTransGen (fun x y => ∃ m, P x.state m ∧ Step x m y) start x

/-- A call is for a buffer that no other call is for, as its lock ensures. -/
def Alone (s : State) : Move → Prop
  | .call _ b _ _ => ∀ q, s.call q ≠ some b
  | _ => True

/-- A completion would be acknowledged unseen, if it came now. -/
def State.Deaf (s : State) : Prop := s.hand = .drained ∨ s.hand = .acking true

/-- No completion comes between the last test of the used ring and the write that acknowledges
it. -/
def Heard (s : State) : Move → Prop
  | .complete _ => ¬ s.Deaf
  | _ => True

end Xv6.Virtio
