import Xv6.Kern.Deeds
import Xv6.Kern.History
import Xv6.Kern.Machine
import Mathlib.Data.Finset.Card

/-!
What each thread of the kernel knows, and the invariant of the kernel.

The ghost value of a thread has five parts: how it runs and which locks it holds, what it knows
of other processes, what it has told the history, how it waits for conditions, and what it has
found out about zombies and about those to kill. Each part has its own invariant, the last two.
-/

namespace Xv6.Kern

open Lib.Wp Lib.Conc

/-! ### Ghost values -/

/-- How a thread runs. `st` is the state of the process while it is on a CPU. For a scheduler:
the process it has found to be RUNNABLE, the one it has made RUNNING, and its `c->proc`. -/
structure Run where
  locks : Finset Lock := ∅
  st : PState := .running
  seen : Option ℕ := none
  pick : Option ℕ := none
  on : Option ℕ := none

def Run.lock (r : Run) (k : Lock) : Run := { r with locks := insert k r.locks }

def Run.unlock (r : Run) (k : Lock) : Run := { r with locks := r.locks.erase k }

/-- The record of a process that only the holder of its lock works on: it is being set up or
freed. -/
structure Busy where
  slot : ℕ
  val : Proc
  /-- Its context is set up. -/
  ready : Bool := false
  /-- The history has it as returned by `wait`. -/
  reaped : Bool := false
  /-- It is to be the first process. -/
  first : Bool := false

/-- What a thread knows of other processes: a child, and that no process below `nokids` is
its child. Before the first process is made, that there is none. -/
structure Family where
  busy : Option Busy := none
  kid : Option ℕ := none
  nokids : ℕ := 0
  empty : Bool := false

/-- What a process has told the history: the status it passed to `exit`, what its `wait` must
return; and its `xstate`, once that is set. -/
structure Said where
  exiting : Option ℕ := none
  due : Option (Option ℕ) := none
  xstate : Option ℕ := none

/-- How a process waits for conditions: the one it is in a loop for, the one it has found
false with the lock of the condition or its own lock held since, and the one it has gone to
sleep for; its `chan`, once that is set. For one that makes a condition true, the condition and
the next process to wake. -/
structure Wait where
  cond : Option ℕ := none
  pre : Option ℕ := none
  parked : Option ℕ := none
  chan : Option Chan := none
  sig : Option (ℕ × ℕ) := none

/-- What a thread has found out. In `wait`: that of the children of a process none below a number
is a zombie. In `exit`: the parent, and a process that does not sleep in `wait`. In `kill`: what
the call has done, and a process that has the pid it looks for. -/
structure Watch where
  clear : Option (ℕ × ℕ) := none
  up : Option ℕ := none
  woke : Option ℕ := none
  deeds : List Deed := []
  named : Option (ℕ × ℕ) := none

structure Ghost where
  run : Run := {}
  family : Family := {}
  said : Said := {}
  wait : Wait := {}
  watch : Watch := {}

def Run.setSt (r : Run) (st : PState) : Run := { r with st := st }

def Run.setOn (r : Run) (on : Option ℕ) : Run := { r with on := on }

def Run.see (r : Run) (p : ℕ) : Run := { r with seen := some p }

def Run.choose (r : Run) (p : ℕ) : Run := { r with seen := none, pick := some p }

def Run.enter (r : Run) : Run := { r with pick := none }

def Wait.setChan (w : Wait) (ch : Option Chan) : Wait := { w with chan := ch, parked := none }

def Wait.setSig (w : Wait) (sig : Option (ℕ × ℕ)) : Wait := { w with sig := sig }

def Wait.setCond (w : Wait) (cond : Option ℕ) : Wait := { w with cond := cond }

def Wait.setPre (w : Wait) (pre : Option ℕ) : Wait := { w with pre := pre }

/-- What a process waits for once it sleeps. -/
def Wait.park (w : Wait) : Wait := { w with pre := none, parked := w.pre }

def Wait.wake (w : Wait) : Wait := { w with pre := none, parked := none, chan := none }

def Busy.set (b : Busy) (F : Proc → Proc) : Busy := { b with val := F b.val }

def Busy.setReady (b : Busy) : Busy := { b with ready := true }

def Busy.setFirst (b : Busy) : Busy := { b with first := true }

def Busy.setReaped (b : Busy) : Busy := { b with reaped := true }

def Family.setBusy (f : Family) (b : Option Busy) : Family := { f with busy := b }

def Family.setKid (f : Family) (kid : Option ℕ) : Family := { f with kid := kid }

def Family.setNokids (f : Family) (n : ℕ) : Family := { f with nokids := n }

def Family.begin (f : Family) : Family := { f with busy := none, empty := false }

def Said.setDue (h : Said) (due : Option (Option ℕ)) : Said := { h with due := due }

def Said.setExiting (h : Said) (status : ℕ) : Said := { h with exiting := some status }

def Said.setXstate (h : Said) (status : ℕ) : Said := { h with xstate := some status }

/-- The locks without which it does not know what it knows. -/
def Watch.Needs (v : Watch) (k : Lock) : Prop :=
  (∃ p n, v.clear = some (p, n) ∧ k = .proc p) ∨ (∃ q, v.woke = some q ∧ k = .proc q) ∨
    ∃ p pid, v.named = some (p, pid) ∧ k = .proc p

/-- What it knows without any lock. -/
def Watch.rest (v : Watch) : Watch := { up := v.up, deeds := v.deeds }

def Watch.setClear (v : Watch) (x : Option (ℕ × ℕ)) : Watch := { v with clear := x }

def Watch.setUp (v : Watch) (q : ℕ) : Watch := { v with up := some q }

def Watch.setWoke (v : Watch) (q : ℕ) : Watch := { v with woke := some q }

def Watch.setNamed (v : Watch) (x : Option (ℕ × ℕ)) : Watch := { v with named := x }

def Watch.setDeeds (v : Watch) (l : List Deed) : Watch := { v with deeds := l }

namespace Ghost

def setFamily (l : Ghost) (f : Family) : Ghost := { l with family := f }

def setBusy (l : Ghost) (b : Option Busy) : Ghost := { l with family := l.family.setBusy b }

def setSaid (l : Ghost) (h : Said) : Ghost := { l with said := h }

/-- What a process knows after it has slept. -/
def slept (l : Ghost) : Ghost := { l with wait := l.wait.wake, watch := l.watch.rest }

def setRun (l : Ghost) (r : Run) : Ghost := { l with run := r }

def setWait (l : Ghost) (w : Wait) : Ghost := { l with wait := w }

def setSt (l : Ghost) (st : PState) : Ghost := { l with run := l.run.setSt st }

def setChan (l : Ghost) (ch : Option Chan) : Ghost := { l with wait := l.wait.setChan ch }

def setSig (l : Ghost) (sig : Option (ℕ × ℕ)) : Ghost := { l with wait := l.wait.setSig sig }

def setWatch (l : Ghost) (v : Watch) : Ghost := { l with watch := v }

/-- What a process knows after it is switched to again. -/
def resume (l : Ghost) : Ghost :=
  { l with run := l.run.setSt .running, wait := l.wait.park, watch := l.watch.rest }

/-- A process that has not run since it was made. -/
def fresh (i : ℕ) : Ghost := { run := { locks := {.proc i} } }

def lock (l : Ghost) (k : Lock) : Ghost := { l with run := l.run.lock k }

def unlock (l : Ghost) (k : Lock) : Ghost := { l with run := l.run.unlock k }

section

variable (l : Ghost) (k : Lock)

@[simp] lemma lock_family : (l.lock k).family = l.family := rfl
@[simp] lemma lock_said : (l.lock k).said = l.said := rfl
@[simp] lemma lock_wait : (l.lock k).wait = l.wait := rfl
@[simp] lemma lock_locks : (l.lock k).run.locks = insert k l.run.locks := rfl
@[simp] lemma unlock_locks :
    (l.unlock k).run.locks = l.run.locks.erase k := rfl
end

lemma lock_unlock {l : Ghost} {k : Lock} (h : k ∉ l.run.locks) : (l.lock k).unlock k = l := by
  simp only [lock, unlock, Run.lock, Run.unlock, Finset.erase_insert h]

end Ghost

/-! ### Threads -/

namespace State

variable {s : State} {c i : ℕ}

lemma thread_proc : s.thread c = .proc i ↔ s.live c = some i := by
  unfold thread
  cases s.live c <;> simp

lemma thread_sched {c' : ℕ} : s.thread c = .sched c' ↔ c = c' ∧ s.live c = none := by
  unfold thread
  cases s.live c <;> simp

lemma thread_congr {s' : State} (h : s'.live = s.live) (c : ℕ) : s'.thread c = s.thread c := by
  rw [thread, thread, h]

lemma thread_of_none (h : s.live c = none) : s.thread c = .sched c := thread_sched.mpr ⟨rfl, h⟩

lemma thread_of_some (h : s.live c = some i) : s.thread c = .proc i := thread_proc.mpr h

end State

/-! ### The invariant -/

/-- Locks and CPUs. -/
structure Base (s : State) (g : Thread → Run) : Prop where
  lock : ∀ c k, s.held k = some c ↔ k ∈ (g (s.thread c)).locks
  noff : ∀ c, (s.cpu c).noff = (g (s.thread c)).locks.card
  proc : ∀ c, (s.cpu c).proc = (g (.sched c)).on
  /-- A scheduler that has switched to a process. -/
  away : ∀ c i, s.live c = some i → (g (.sched c)).on = some i ∧
    (g (.sched c)).locks = {.proc i} ∧ (g (.sched c)).seen = none ∧ (g (.sched c)).pick = none
  uniq : ∀ c c' i, (g (.sched c)).on = some i → (g (.sched c')).on = some i → c = c'
  guard : ∀ c i, (g (.sched c)).on = some i →
    (s.proc i).state = .running ∨ s.held (.proc i) = some c
  seen : ∀ c i, (g (.sched c)).seen = some i →
    s.held (.proc i) = some c ∧ (s.proc i).state = .runnable
  pick : ∀ c i, (g (.sched c)).pick = some i →
    s.held (.proc i) = some c ∧ (s.proc i).state = .running ∧
      ∀ c', (g (.sched c')).on = some i → c' = c
  st : ∀ c i, s.live c = some i → (s.proc i).state = (g (.proc i)).st ∧
    (g (.proc i)).st ≠ .unused
  /-- A process that is on no CPU resumes as RUNNING, with its own lock. -/
  off : ∀ i, (∀ c, s.live c ≠ some i) →
    (g (.proc i)).locks = {.proc i} ∧ (g (.proc i)).st = .running
  ctx : ∀ i, s.ctx i = .onCpu ↔ ∃ c, s.live c = some i
  made : ∀ i, (s.proc i).state ≠ .unused → s.ctx i ≠ .zero
  kept : ∀ i, s.ctx i ≠ .lost
  /-- Only schedulers schedule, -/
  bare : ∀ i, (g (.proc i)).seen = none ∧ (g (.proc i)).pick = none ∧ (g (.proc i)).on = none
  /-- and they have no state. -/
  idle : ∀ c, (g (.sched c)).st = .running
  mem : ∀ c i, (g (.sched c)).on = some i → .proc i ∈ (g (.sched c)).locks

/-- A record that its lock's holder works on. -/
structure Works (s : State) (t : Thread) (r : Run) (b : Busy) : Prop where
  slot : b.slot < NPROC
  lock : .proc b.slot ∈ r.locks
  current : ∃ c, s.thread c = t
  val : s.proc b.slot = b.val
  state : b.val.state = .unused ∨ b.val.state = .zombie
  parent : b.val.parent = none ∨ ∃ i, t = .proc i ∧ b.val.parent = some i
  ready : b.ready = true → s.ctx b.slot = .forkret
  first : b.first = true → t = .sched 0 ∧ s.initproc = b.slot

/-- Parents and children. -/
structure Kin (s : State) (g : Thread → Run) (f : Thread → Family) : Prop where
  busy : ∀ t b, (f t).busy = some b → Works s t (g t) b
  kid : ∀ i j, (f (.proc i)).kid = some j → (s.proc j).parent = some i
  nokids : ∀ i, 0 < (f (.proc i)).nokids → i ≠ s.initproc ∧
    ∀ j < (f (.proc i)).nokids, (s.proc j).parent ≠ some i
  alive : ∀ j q, (s.proc j).parent = some q →
    (s.proc q).state ≠ .unused ∧ (s.proc q).state ≠ .zombie ∧ q ≠ j
  has : ∀ j, (s.proc j).state ≠ .unused → j ≠ s.initproc → (s.proc j).parent ≠ none
  init : ∀ j, (s.proc j).state ≠ .unused →
    (s.proc s.initproc).state ≠ .unused ∧ (s.proc s.initproc).state ≠ .zombie
  root : (s.proc s.initproc).parent = none
  clean : ∀ j, (s.proc j).state = .unused → (∀ t b, (f t).busy = some b → b.slot ≠ j) →
    (s.proc j).parent = none
  range : ∀ j, NPROC ≤ j → (s.proc j).state = .unused ∧ (s.proc j).parent = none
  empty : ∀ t, (f t).empty = true → t = .sched 0 ∧ ∀ j, (s.proc j).state = .unused

/-- What the history says of process `j` fits its record. -/
structure Fits (s : State) (h : Thread → Said) (j : ℕ) (L : Life) : Prop where
  pid : L.pid = (s.proc j).pid
  parent : j ≠ s.initproc → (s.proc j).parent = some L.parent
  root : j = s.initproc → L.parent = j
  gone : L.gone = true ↔ (s.proc j).state = .zombie
  status : (s.proc j).state = .zombie → L.exiting = some (s.proc j).xstate
  exiting : (s.proc j).state ≠ .zombie → L.exiting = (h (.proc j)).exiting

/-- The history does not have process `j` as returned by `wait` while its record is freed. -/
def Kept (f : Thread → Family) (j : ℕ) : Prop :=
  ∀ t b, (f t).busy = some b → b.slot = j → b.reaped = false

/-- The history of the processes. -/
structure Told (s : State) (f : Thread → Family) (h : Thread → Said) : Prop where
  legal : Legal s.initproc s.log
  due : ∀ i, due s.log i = (h (.proc i)).due
  unused : ∀ j, (s.proc j).state = .unused → lives s.log j = none
  reaped : ∀ t b, (f t).busy = some b → b.reaped = true → lives s.log b.slot = none
  fits : ∀ j, (s.proc j).state ≠ .unused → Kept f j → ∃ L, lives s.log j = some L ∧ Fits s h j L
  xstate : ∀ i v, (h (.proc i)).xstate = some v →
    (s.proc i).xstate = v ∧ (s.proc i).state ≠ .unused ∧ (s.proc i).state ≠ .zombie
  empty : ∀ t, (f t).empty = true → s.log = []

/-- Process `i` may wait for condition `n`: it is false, or a process is going to wake `i`. -/
def Good (s : State) (w : Thread → Wait) (n i : ℕ) : Prop :=
  s.cond n = false ∨ ∃ j k, (w (.proc j)).sig = some (n, k) ∧ k ≤ i

/-- Processes that wait for conditions. -/
structure Sleeps (e : Env) (s : State) (g : Thread → Run) (w : Thread → Wait) : Prop where
  waiting : ∀ i, s.waiting i = (w (.proc i)).cond
  waking : ∀ i, s.waking i = (w (.proc i)).sig.map Prod.fst
  pre : ∀ i n, (w (.proc i)).pre = some n →
    (e.lk n ∈ (g (.proc i)).locks ∨ .proc i ∈ (g (.proc i)).locks) ∧
      (∃ c, s.live c = some i) ∧ Good s w n i
  parked : ∀ i n, (w (.proc i)).parked = some n → .proc i ∈ (g (.proc i)).locks ∧
    ((s.proc i).state = .sleeping → (s.proc i).chan = some (e.chan n) ∧ Good s w n i)
  asleep : ∀ i n, (w (.proc i)).cond = some n → (s.proc i).state = .sleeping →
    (w (.proc i)).pre = some n ∨ (w (.proc i)).parked = some n
  sig : ∀ i n k, (w (.proc i)).sig = some (n, k) →
    e.lk n ∈ (g (.proc i)).locks ∧ ∃ c, s.live c = some i
  chan : ∀ i ch, (w (.proc i)).chan = some ch → (s.proc i).chan = some ch ∧
    (s.proc i).state ≠ .unused ∧ (s.proc i).state ≠ .zombie
  idle : ∀ c, w (.sched c) = {}

/-- Process `p` sleeps in `wait`. -/
def InWait (s : State) (p : ℕ) : Prop :=
  (s.proc p).state = .sleeping ∧ (s.proc p).chan = some (.proc p) ∧ s.waiting p = none

/-- Those who sleep in `wait`, and those who are about to end. -/
structure Watched (s : State) (g : Thread → Run) (w : Thread → Watch) : Prop where
  held : ∀ t k, (w t).Needs k → k ∈ (g t).locks ∧ ∃ c, s.thread c = t
  /-- `initproc` can be given a zombie while it sleeps. -/
  calm : ∀ p j, p ≠ s.initproc → InWait s p → (s.proc j).parent = some p →
    (s.proc j).state ≠ .zombie
  clear : ∀ t p n, (w t).clear = some (p, n) → t = .proc p ∧ (p ≠ s.initproc →
    ∀ j < n, (s.proc j).parent = some p → (s.proc j).state ≠ .zombie)
  up : ∀ t q, (w t).up = some q → ∃ i, t = .proc i ∧ (s.proc i).state ≠ .unused ∧
    (s.proc i).state ≠ .zombie ∧
    ((s.proc i).parent = some q ∨ (s.proc i).parent = some s.initproc)
  woke : ∀ t q, (w t).woke = some q → ¬ InWait s q

/-- Who is marked as killed, as long as `kill` finds no UNUSED process. -/
structure Marks (s : State) (w : Thread → Watch) : Prop where
  calls : ∀ t, calls s.deeds t = (w t).deeds
  answers : Fair s.deeds → Truthful s.deeds
  free : Fair s.deeds → ∀ j, (s.proc j).state = .unused → (s.proc j).killed = false
  mark : Fair s.deeds → ∀ j, (s.proc j).state ≠ .unused →
    ((s.proc j).killed = true ↔ Marked s.deeds j (s.proc j).pid)
  named : ∀ t p pid, (w t).named = some (p, pid) → (s.proc p).pid = pid ∧
    (Fair s.deeds → (s.proc p).state ≠ .unused)

structure Inv (e : Env) (s : State) (ℓ : Thread → Ghost) : Prop where
  base : Base s fun t => (ℓ t).run
  kin : Kin s (fun t => (ℓ t).run) fun t => (ℓ t).family
  told : Told s (fun t => (ℓ t).family) fun t => (ℓ t).said
  sleeps : Sleeps e s (fun t => (ℓ t).run) fun t => (ℓ t).wait
  watched : Watched s (fun t => (ℓ t).run) fun t => (ℓ t).watch
  marks : Marks s fun t => (ℓ t).watch
  /-- A process that has exited, or does not exist, starts afresh the next time. -/
  dead : ∀ i, (∀ c, s.live c ≠ some i) →
    (s.proc i).state = .unused ∨ (s.proc i).state = .zombie → ℓ (.proc i) = .fresh i
  fresh : ∀ i, s.ctx i = .forkret → ℓ (.proc i) = .fresh i

end Xv6.Kern
