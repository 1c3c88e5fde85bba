import Xv6.Kern.Life
import Mathlib.Logic.Relation

/-!
The machine: any number of CPUs, each with its scheduler, and the processes they run.

A process in user mode makes any system call at any time, with any arguments, or faults. A call is
executed action by action, on whichever CPU the process is at the time. Where a CPU holds no
lock, a timer interrupt can make the process on it yield, and the interrupt of a device can
wake up processes.
-/

namespace Xv6.Kern

open Lib.Wp Lib.Conc Vm
open Function (update)

/-- The conditions that processes wait for: the lock of each, and the channel its waiters
sleep on. -/
structure Env where
  lk : ℕ → Lock
  chan : ℕ → Chan

section

variable (e : Env)

/-- `acquire(lk); while (!cond) sleep(chan, lk); ... release(lk);`, as far as it gets in `k`
rounds. With `take`, the condition is made false, as in `acquiresleep`. -/
def waitFor (n : ℕ) (take : Bool) (k : ℕ) : Code Unit := do
  let p ← myproc
  acquire (e.lk n)
  write fun s => { s with waiting := update s.waiting p (some n) }
  Prog.loop hang (fun _ => do
    let b ← read fun s => s.cond n
    if b then
      return .inr ()
    else do
      sleep (e.chan n) (e.lk n)
      return .inl ()) k ()
  write fun s => { s with waiting := update s.waiting p none }
  doIf (take = true) (write fun s => { s with cond := update s.cond n false })
  release (e.lk n)

/-- Make a condition true and wake up those that wait for it, as in `releasesleep`. -/
def signal (n : ℕ) : Code Unit := do
  let p ← myproc
  acquire (e.lk n)
  write fun s => { s with
    cond := update s.cond n true, waking := update s.waking p (some n) }
  wakeup (e.chan n)
  write fun s => { s with waking := update s.waking p none }
  release (e.lk n)

/-- Make a condition false. -/
def unset (n : ℕ) : Code Unit := do
  acquire (e.lk n)
  write fun s => { s with cond := update s.cond n false }
  release (e.lk n)

/-- A store of the user program. -/
def userStore (va : ℕ) (bytes : List UInt8) : Code Unit := do
  let p ← myproc
  let q ← getProc p
  let _ ← vm (copyout q.pagetable va bytes)

inductive Call
  | fork
  | exit (status : ℕ)
  | wait (addr k : ℕ)
  | kill (pid : ℕ)
  | fault
  | sbrk (n : ℕ)
  | exec (path uargv : ℕ) (file : Option (List UInt8))
  | pipe (fdarray : ℕ)
  | close (fd : ℕ)
  | dup (fd : ℕ)
  | waitFor (n : ℕ) (take : Bool) (k : ℕ)
  | signal (n : ℕ)
  | unset (n : ℕ)
  | wakeup (chan : Chan)
  | userStore (va : ℕ) (bytes : List UInt8)

def Call.code : Call → Code Unit
  | .fork => do let _ ← Kern.fork
  | .exit status => Kern.exit status
  | .wait addr k => do let _ ← sysWait addr k
  | .kill pid => do let _ ← sysKill pid
  | .fault => Kern.fault
  | .sbrk n => do let _ ← growproc n
  | .exec path uargv file => do let _ ← sysExec path uargv file
  | .pipe fdarray => do let _ ← sysPipe fdarray
  | .close fd => do let _ ← sysClose fd
  | .dup fd => do let _ ← sysDup fd
  | .waitFor n take k => Kern.waitFor e n take k
  | .signal n => Kern.signal e n
  | .unset n => Kern.unset e n
  | .wakeup chan => Kern.wakeup chan
  | .userStore va bytes => Kern.userStore va bytes

end

structure Conf where
  state : State
  /-- What each thread has left to do. -/
  code : Thread → Code Unit

/-- Where a process goes on that a CPU has switched to. A context that was not saved leads
nowhere. -/
def start (s s' : State) (c : ℕ) (code : Thread → Code Unit) : Thread → Code Unit :=
  match s.live c, s'.live c with
  | none, some i => match s.ctx i with
    | .saved => code
    | .forkret => update code (.proc i) forkret
    | _ => update code (.proc i) (crash .undefined)
  | _, _ => code

/-- A step of CPU `c`. -/
inductive Step (e : Env) (x : Conf) (c : ℕ) : Conf → Prop
  | act {β : Type} {a : KernM β} {k : β → Code Unit} {b : β} {s' : State}
      (hcode : x.code (x.state.thread c) = .act a k)
      (ha : a { x.state with cur := c } = .ok b s') :
      Step e x c ⟨s', start x.state s' c (update x.code (x.state.thread c) (k b))⟩
  | round (hcode : x.code (.sched c) = .ret ()) (hlive : x.state.live c = none) :
      Step e x c { x with code := update x.code (.sched c) scheduler }
  | call {i : ℕ} (k : Call) (hcode : x.code (.proc i) = .ret ()) (hlive : x.state.live c = some i) :
      Step e x c { x with code := update x.code (.proc i) (k.code e) }
  | tick {i : ℕ} (hlive : x.state.live c = some i) (hoff : (x.state.cpu c).noff = 0)
      (hrun : (x.state.proc i).state = .running) :
      Step e x c { x with code := update x.code (.proc i) (do
        yield
        x.code (.proc i)) }
  | intr (chan : Chan) (hoff : (x.state.cpu c).noff = 0) :
      Step e x c { x with code := update x.code (x.state.thread c) (do
        wakeup chan
        x.code (x.state.thread c)) }

/-- The kernel's data when `main` calls `userinit`. -/
def raw (m : Phys) : State where
  phys := m
  proc := fun _ => {}
  initproc := 0
  nextpid := 1
  cpu := fun _ => {}
  held := fun _ => none
  live := fun _ => none
  ctx := fun _ => .zero
  file := fun _ => {}
  cond := fun _ => false
  waiting := fun _ => none
  waking := fun _ => none
  log := []
  deeds := []
  cur := 0

/-- The machine when `main` has set up the kernel's data: CPU 0 makes the first process, and
the others schedule. -/
def boot (m : Phys) (initcode : List UInt8) : Conf where
  state := raw m
  code := fun
    | .sched c => if c = 0 then userinit initcode else .ret ()
    | .proc _ => forkret

/-- The configurations the machine can get to. -/
def Reach (e : Env) (x₀ x : Conf) : Prop :=
  Relation.ReflTransGen (fun x y => ∃ c, Step e x c y) x₀ x

/-! ### Running the machine -/

/-- What a run of the machine is made of: actions of a CPU, a round of its scheduler, a call of
the process on it. -/
inductive Move
  | act (c : ℕ)
  | round (c : ℕ)
  | call (c : ℕ) (k : Call)

def acts (c n : ℕ) : List Move := List.replicate n (.act c)

def move (e : Env) (x : Conf) : Move → Option Conf
  | .act c => (x.code (x.state.thread c)).next { x.state with cur := c } fun s' k =>
      ⟨s', start x.state s' c (update x.code (x.state.thread c) k)⟩
  | .round c => if (x.code (.sched c)).isRet = true ∧ x.state.live c = none then
      some { x with code := update x.code (.sched c) scheduler } else none
  | .call c k => match x.state.live c with
    | none => none
    | some i => if (x.code (.proc i)).isRet = true then
        some { x with code := update x.code (.proc i) (k.code e) } else none

lemma move_step {e : Env} {x y : Conf} {m : Move} (h : move e x m = some y) : ∃ c, Step e x c y := by
  cases m with
  | act c =>
    rw [move] at h
    obtain ⟨β, a, k, b, s', hcode, ha, rfl⟩ := Prog.next_cases h
    exact ⟨c, .act hcode ha⟩
  | round c =>
    simp only [move] at h
    split at h
    · rename_i hc
      cases h
      exact ⟨c, .round (Prog.eq_ret_of_isRet hc.1) hc.2⟩
    · cases h
  | call c k =>
    simp only [move] at h
    split at h
    · cases h
    · rename_i i hl
      split at h
      · rename_i hc
        cases h
        exact ⟨c, .call k (Prog.eq_ret_of_isRet hc) hl⟩
      · cases h

end Xv6.Kern
