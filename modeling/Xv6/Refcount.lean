import Xv6.Stages
import Xv6.Share.System
import Mathlib.Algebra.BigOperators.Fin
import Mathlib.Algebra.Order.BigOperators.Group.Multiset

/-!
The reference counts of buffers are exact.

A process has a reference to a buffer from the critical section of `bget` to that of
`brelse`. In between it waits for the sleep-lock, holds it, or has released it already. The
log has one reference to each block of its header, until `install_trans` unpins the block.
-/

namespace Xv6.Refcount

open Lib.Wp Lib.Bytes Lib.Conc Lib.Conc.Prog Bio LogState Io Redo Function
open Protocol Machine Share Stages

/-! ### What an action does to the references -/

/-- A process goes from one stage to another. -/
inductive Moves (s s' : Store) : Stage → Stage → Prop
  | get (j : Fin NBUF) (hmove : ∀ i, (s'.bcache.buf i).lock = (s.bcache.buf i).lock ∧
      (s'.bcache.buf i).users =
        if i = j then s.pid :: (s.bcache.buf i).users else (s.bcache.buf i).users) :
      Moves s s' .free (.waits j)
  | lock (j : Fin NBUF) (hfree : (s.bcache.buf j).lock = none)
      (hmove : ∀ i, (s'.bcache.buf i).users = (s.bcache.buf i).users ∧
        (s'.bcache.buf i).lock = if i = j then some s.pid else (s.bcache.buf i).lock) :
      Moves s s' (.waits j) .free
  | unlock (j : Fin NBUF) (hheld : (s.bcache.buf j).lock = some s.pid)
      (hmove : ∀ i, (s'.bcache.buf i).users = (s.bcache.buf i).users ∧
        (s'.bcache.buf i).lock = if i = j then none else (s.bcache.buf i).lock) :
      Moves s s' .free (.leaves j)
  | put (j : Fin NBUF) (hmove : ∀ i, (s'.bcache.buf i).lock = (s.bcache.buf i).lock ∧
      (s'.bcache.buf i).users =
        if i = j then (s.bcache.buf i).users.erase s.pid else (s.bcache.buf i).users) :
      Moves s s' (.leaves j) .free
  | stay (hmove : ∀ i, (s'.bcache.buf i).users = (s.bcache.buf i).users ∧
      (s'.bcache.buf i).lock = (s.bcache.buf i).lock) : Moves s s' .free .free

variable {β : Type} {x : IoM β} {f : β → Stage} {a : Stage} {st st' : Store}

variable {N : ℕ} {c : Conf} {p p₀ : Fin N} {s s' : Sys N} {i : Fin NBUF} {b : ℕ}
  {stage : Fin N → Stage}

/-- The references that a process has by its stage alone. -/
def refs : Stage → Fin NBUF → ℕ
  | .free, _ => 0
  | .waits j, i => if i = j then 1 else 0
  | .leaves j, i => if i = j then 1 else 0

/-- Process `p` has the sleep-lock of buffer `i`. -/
def Holds (s : Sys N) (p : Fin N) (i : Fin NBUF) : Prop :=
  (s.store.bcache.buf i).lock = some p.val

/-- Process `p` has got buffer `i` from `bget` and is to take its sleep-lock. -/
def Waits (s : Sys N) (p : Fin N) (i : Fin NBUF) : Prop :=
  ∃ k, (s.proc p).todo = some (.act (acquiresleep i) k)

/-- Process `p` is in `brelse`, between the release of the sleep-lock and `b->refcnt--`. -/
def Leaves (s : Sys N) (p : Fin N) (i : Fin NBUF) : Prop :=
  ∃ k, (s.proc p).todo = some (.act (brelseLocked i) k)

section

-- the kernel computes the runs action by action
set_option maxRecDepth 1000000

end

end Xv6.Refcount
