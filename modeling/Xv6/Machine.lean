import Xv6.Protocol
import Xv6.Lib.Conc
import Mathlib.Logic.Relation

/-!
The machine: any number of processes that use the buffer cache and the log.

A process is in its own code or in a call of `bio.c` or `log.c`. In its own code it may
call any function the logging protocol allows, and modify the buffers it has; a call is
executed action by action, interleaved with what the other processes do. One process boots
the machine before the others start. Blocks may be passed to `log_write` as far as `W`
says.
-/

namespace Xv6.Machine

open Lib.Bytes Lib.Conc Bio LogState Io Protocol Function

/-- Code of the kernel, as a sequence of actions. -/
abbrev Code (α : Type) := Prog Stop Store α

/-- The buffers a process has, with the blocks it asked for, and which of them it has
modified since it last passed them to `log_write`. -/
structure Client where
  held : Fin NBUF → Option ℕ
  dirty : Finset (Fin NBUF)

def noClient : Client := ⟨fun _ => none, ∅⟩

structure Proc where
  client : Client
  /-- What is left of the call it is in. -/
  todo : Option (Code (Client → Client))

structure Sys (N : ℕ) where
  store : Store
  proc : Fin N → Proc
  /-- The boot is over. -/
  up : Bool

/-- The disk the machine boots from, where its log is, and the blocks that processes may
pass to `log_write`. -/
structure Conf where
  start : ℕ
  size : ℕ
  disk : Disk
  W : ℕ → Prop

/-- The log `mkfs` lays out, on a disk of zeroes; processes log blocks of the file system
proper. -/
def mkfsConf : Conf := ⟨2, LOGSIZE, fun _ => zeroes, fun b => 46 ≤ b⟩

/-- The same log with block 46 committed in it. -/
def leftConf : Conf := { mkfsConf with
  disk := update mkfsConf.disk 2 (putHead zeroes ⟨1, fun _ => 46⟩) }

instance : DecidablePred mkfsConf.W := fun b => inferInstanceAs (Decidable (46 ≤ b))
instance : DecidablePred leftConf.W := fun b => inferInstanceAs (Decidable (46 ≤ b))

inductive Call
  | beginOp
  | bread (b : ℕ)
  | logWrite (i : Fin NBUF)
  | brelse (i : Fin NBUF)
  | endOp

def Call.code : Call → Code (Client → Client)
  | .beginOp => do
    Io.beginOp
    return id
  | .bread b => do
    let i ← Io.bread ROOTDEV b
    return fun c => { held := update c.held i (some b), dirty := c.dirty.erase i }
  | .logWrite i => do
    Io.logWrite i
    return fun c => { c with dirty := c.dirty.erase i }
  | .brelse i => do
    Io.brelse i
    return fun c => { c with held := update c.held i none }
  | .endOp => do
    Io.endOp
    return id

variable {N : ℕ}

/-- The calls the protocol allows process `p`. -/
def Call.Allowed (c : Conf) (s : Sys N) (p : Fin N) : Call → Prop
  | .beginOp => inOp p s.store.trace = false
  | .bread b => b < 2 ^ 32
  | .logWrite i => inOp p s.store.trace = true ∧ ∃ b, (s.proc p).client.held i = some b ∧ c.W b
  | .brelse i => (s.proc p).client.held i ≠ none ∧ i ∉ (s.proc p).client.dirty
  | .endOp => inOp p s.store.trace = true

/-- The state as process `p` finds it. -/
def view (p : Fin N) (s : Store) : Store := { s with pid := p }

/-- A process goes on with its call, or returns from it. -/
def settle (c : Client) : Code (Client → Client) → Proc
  | .ret f => ⟨f c, none⟩
  | .act x k => ⟨c, some (.act x k)⟩

/-- A step of process `p`. -/
inductive Step (c : Conf) (s : Sys N) (p : Fin N) : Sys N → Prop
  | call (k : Call) (hup : s.up = true) (hidle : (s.proc p).todo = none) (hk : k.Allowed c s p) :
      Step c s p { s with
        proc := update s.proc p { s.proc p with todo := some k.code } }
  | modify (i : Fin NBUF) (b : ℕ) (d : Block) (hup : s.up = true) (hidle : (s.proc p).todo = none)
      (hi : (s.proc p).client.held i = some b) (hW : c.W b) :
      Step c s p { s with
        store := { s.store with bcache := s.store.bcache.set i fun b => { b with data := d } }
        proc := update s.proc p { s.proc p with
          client := { (s.proc p).client with dirty := insert i (s.proc p).client.dirty } } }
  | exec {β : Type} {x : IoM β} {k : β → Code (Client → Client)} {b : β} {st : Store}
      (htodo : (s.proc p).todo = some (.act x k)) (hx : x (view p s.store) = .ok b st) :
      Step c s p {
        store := st
        proc := update s.proc p (settle (s.proc p).client (k b))
        up := s.up || (k b).isRet }

/-- Process `p₀` is about to run recovery, the others wait. -/
def init (c : Conf) (p₀ : Fin N) : Sys N where
  store := boot p₀ c.disk
  proc := fun p => ⟨noClient, if p = p₀ then some (do
    initlog ROOTDEV c.start c.size
    return id) else none⟩
  up := false

/-- The states the machine can get to. -/
def Reach (c : Conf) (p₀ : Fin N) (s : Sys N) : Prop :=
  Relation.ReflTransGen (fun s s' => ∃ p, Step c s p s') (init c p₀) s

/-- The next action of process `p` stops the machine, or cannot go on. -/
def Stops (s : Sys N) (p : Fin N) (e : Stop) : Prop :=
  ∃ (β : Type) (x : IoM β) (k : β → Code (Client → Client)) (st : Store),
    (s.proc p).todo = some (.act x k) ∧ x (view p s.store) = .error e st

/-! ### Running the machine -/

/-- A process makes a call, modifies a buffer it has, or takes the next action of its call. -/
inductive Move (N : ℕ)
  | call (p : Fin N) (k : Call)
  | modify (p : Fin N) (i : Fin NBUF) (b : ℕ) (d : Block)
  | act (p : Fin N)

def acts (p : Fin N) (n : ℕ) : List (Move N) := List.replicate n (.act p)

variable {c : Conf} [DecidablePred c.W] {p p₀ : Fin N} {s s' : Sys N}

def Call.allowed (c : Conf) [DecidablePred c.W] (s : Sys N) (p : Fin N) : Call → Bool
  | .beginOp => !inOp p s.store.trace
  | .bread b => b < 2 ^ 32
  | .logWrite i => inOp p s.store.trace && ((s.proc p).client.held i).any fun b => c.W b
  | .brelse i => ((s.proc p).client.held i).isSome && i ∉ (s.proc p).client.dirty
  | .endOp => inOp p s.store.trace

lemma Call.allowed_iff {k : Call} : k.allowed c s p = true ↔ k.Allowed c s p := by
  cases k <;> simp [Call.allowed, Call.Allowed, Option.any_eq_true, Option.isSome_iff_ne_none]

def move (c : Conf) [DecidablePred c.W] (s : Sys N) : Move N → Option (Sys N)
  | .call p k => if s.up = true ∧ (s.proc p).todo.isNone = true ∧ k.allowed c s p = true then
      some { s with proc := update s.proc p { s.proc p with todo := some k.code } } else none
  | .modify p i b d => if s.up = true ∧ (s.proc p).todo.isNone = true ∧
        (s.proc p).client.held i = some b ∧ c.W b then
      some { s with
        store := { s.store with bcache := s.store.bcache.set i fun b => { b with data := d } }
        proc := update s.proc p { s.proc p with
          client := { (s.proc p).client with dirty := insert i (s.proc p).client.dirty } } } else none
  | .act p => (s.proc p).todo.bind fun x => x.next (view p s.store) fun st k =>
      ⟨st, update s.proc p (settle (s.proc p).client k), s.up || k.isRet⟩

lemma move_step {m : Move N} (h : move c s m = some s') : ∃ p, Step c s p s' := by
  cases m with
  | call p k =>
    simp only [move] at h
    split at h
    · rename_i hk
      cases h
      exact ⟨p, .call k hk.1 (Option.isNone_iff_eq_none.mp hk.2.1) (Call.allowed_iff.mp hk.2.2)⟩
    · cases h
  | modify p i b d =>
    simp only [move] at h
    split at h
    · rename_i hk
      cases h
      exact ⟨p, .modify i b d hk.1 (Option.isNone_iff_eq_none.mp hk.2.1) hk.2.2.1 hk.2.2.2⟩
    · cases h
  | act p =>
    obtain ⟨x, htodo, hx⟩ := Option.bind_eq_some_iff.mp h
    obtain ⟨β, a, k, b, st, rfl, ha, rfl⟩ := Prog.next_cases hx
    exact ⟨p, .exec htodo ha⟩

lemma reach_of_play {A : Type} {q : Fin N} (ms : List (Move N)) (f : Sys N → A) {a : A}
    (h : (play (move c) ms (init c q)).map f = some a) : ∃ s, Reach c q s ∧ f s = a :=
  played .refl (fun _ _ _ _ hx h => hx.tail (move_step h)) h

/-- Process 0 boots the machine. -/
def booted : List (Move 3) := acts 0 18

/-- It fills block 46 with sevens, in an operation. -/
def logged46 : List (Move 3) :=
  booted ++ .call 0 .beginOp :: acts 0 1 ++ .call 0 (.bread 46) :: acts 0 3 ++
    .modify 0 1 46 (fun _ => 7) :: .call 0 (.logWrite 1) :: acts 0 2 ++ .call 0 (.brelse 1) :: acts 0 2

end Xv6.Machine
