import Xv6.Lib.Queue
import Xv6.Param
import Mathlib.Logic.Relation

/-!
`pipewrite` and `piperead` of `kernel/pipe.c`, by any number of processes at once.

A call holds `pi->lock` except while it sleeps, so a step of the system is one stretch of a
call from where it has the lock to where it sleeps or returns. A call that sleeps may go on at
any time, woken up or not.
-/

namespace Xv6.Pipes

open Lib.Queue Function

abbrev PIPESIZE : ℕ := 512

/-- `struct pipe` without its lock. The two counters are `uint`s. -/
structure Pipe where
  data : ℕ → UInt8
  nread : ℕ
  nwrite : ℕ
  readopen : Bool
  writeopen : Bool

namespace Pipe

def isFull (pi : Pipe) : Prop := pi.nwrite = (pi.nread + PIPESIZE) % 2 ^ 32

instance (pi : Pipe) : Decidable pi.isFull := inferInstanceAs (Decidable (_ = _))

def isEmpty (pi : Pipe) : Prop := pi.nread = pi.nwrite

instance (pi : Pipe) : Decidable pi.isEmpty := inferInstanceAs (Decidable (_ = _))

/-- `pi->data[pi->nwrite++ % PIPESIZE] = ch` -/
def put (pi : Pipe) (ch : UInt8) : Pipe :=
  { pi with
    data := update pi.data (pi.nwrite % PIPESIZE) ch
    nwrite := (pi.nwrite + 1) % 2 ^ 32 }

/-- The byte that `pi->data[pi->nread++ % PIPESIZE]` reads. -/
def front (pi : Pipe) : UInt8 := pi.data (pi.nread % PIPESIZE)

def advance (pi : Pipe) : Pipe := { pi with nread := (pi.nread + 1) % 2 ^ 32 }

/-- What `pipeclose` does to a pipe. -/
def close (pi : Pipe) (writable : Bool) : Pipe :=
  if writable then { pi with writeopen := false } else { pi with readopen := false }

end Pipe

/-! ### The calls -/

/-- Why a call returns: it is done, a copy from or to user memory failed, the process was
killed or has no reader, or the pipe is empty. -/
inductive Why
  | done
  | fault
  | broken
  | empty
  deriving DecidableEq

/-- How a stretch of a call ends. -/
inductive Ends
  | sleeps (i : ℕ)
  | returns (r : ℤ) (why : Why)
  deriving DecidableEq

/-- What a stretch of a call leaves: the pipe, and the bytes it has inserted or removed. -/
structure Out where
  pi : Pipe
  bytes : List UInt8
  ends : Ends

def Out.push (o : Out) (ch : UInt8) : Out := { o with bytes := ch :: o.bytes }

/-- The loop of `pipewrite` with `k` bytes to go. `src i` is what `copyin` gets from `addr + i`,
`none` where it fails. -/
def writeLoop (src : ℕ → Option UInt8) (killed : Bool) : ℕ → ℕ → Pipe → Out
  | 0, i, pi => ⟨pi, [], .returns i .done⟩
  | k + 1, i, pi =>
    if pi.isFull then
      if pi.readopen = false ∨ killed = true then ⟨pi, [], .returns (-1) .broken⟩
      else ⟨pi, [], .sleeps i⟩
    else match src i with
      | none => ⟨pi, [], .returns i .fault⟩
      | some ch => (writeLoop src killed k (i + 1) (pi.put ch)).push ch

/-- A stretch of `pipewrite(pi, addr, n)` that has inserted `i` bytes so far. -/
def pipewrite (src : ℕ → Option UInt8) (n : ℤ) (killed : Bool) (i : ℕ) (pi : Pipe) : Out :=
  writeLoop src killed (n.toNat - i) i pi

/-- The second loop of `piperead` with `k` bytes to go. `dst i` is whether `copyout` to
`addr + i` succeeds. -/
def readLoop (dst : ℕ → Bool) : ℕ → ℕ → Pipe → Out
  | 0, i, pi => ⟨pi, [], .returns i .done⟩
  | k + 1, i, pi =>
    if pi.isEmpty then ⟨pi, [], .returns i .empty⟩
    else if dst i then (readLoop dst k (i + 1) pi.advance).push pi.front
    else ⟨pi.advance, [pi.front], .returns i .fault⟩

/-- A stretch of `piperead(pi, addr, n)`. -/
def piperead (dst : ℕ → Bool) (n : ℤ) (killed : Bool) (pi : Pipe) : Out :=
  if pi.isEmpty ∧ pi.writeopen = true then
    if killed then ⟨pi, [], .returns (-1) .broken⟩ else ⟨pi, [], .sleeps 0⟩
  else readLoop dst n.toNat 0 pi

/-! ### The system -/

inductive Call
  | write (src : ℕ → Option UInt8) (n : ℤ)
  | read (dst : ℕ → Bool) (n : ℤ)

structure World where
  pi : Pipe
  /-- The calls made so far are those below `next`. -/
  next : ℕ
  call : ℕ → Option Call
  /-- How far a call has come that has not returned. -/
  pos : ℕ → Option ℕ
  /-- All bytes inserted so far, each with the call that did it. -/
  inserted : List (ℕ × UInt8)
  /-- All bytes removed so far. -/
  removed : List UInt8

def Ends.pos : Ends → Option ℕ
  | .sleeps i => some i
  | .returns _ _ => none

namespace World

/-- A pipe that nobody has used. -/
def start (pi : Pipe) : World := ⟨pi, 0, fun _ => none, fun _ => none, [], []⟩

def begin (w : World) (k : Call) : World :=
  { w with
    next := w.next + 1
    call := update w.call w.next (some k)
    pos := update w.pos w.next (some 0) }

/-- A stretch of call `c`, which is `k` and has come to `i`. -/
def run (w : World) (c : ℕ) (k : Call) (i : ℕ) (killed : Bool) : World := match k with
  | .write src n =>
    let o := pipewrite src n killed i w.pi
    { w with
      pi := o.pi
      inserted := w.inserted ++ o.bytes.map fun ch => (c, ch)
      pos := update w.pos c o.ends.pos }
  | .read dst n =>
    let o := piperead dst n killed w.pi
    { w with
      pi := o.pi
      removed := w.removed ++ o.bytes
      pos := update w.pos c o.ends.pos }

end World

inductive Step (w : World) : World → Prop
  | begin (k : Call) : Step w (w.begin k)
  | run {c i : ℕ} {k : Call} (killed : Bool) (hk : w.call c = some k) (hi : w.pos c = some i) :
      Step w (w.run c k i killed)
  | close (writable : Bool) : Step w { w with pi := w.pi.close writable }

def Reach (w₀ w : World) : Prop := Relation.ReflTransGen Step w₀ w

/-! ### One stretch -/

/-- The pipe holds the bytes of `q`. -/
abbrev Stores (pi : Pipe) (q : List UInt8) : Prop :=
  Holds PIPESIZE (2 ^ 32) pi.data pi.nread pi.nwrite q

lemma size_lt : PIPESIZE < 2 ^ 32 := by decide

lemma size_dvd : PIPESIZE ∣ 2 ^ 32 := by decide

variable {pi : Pipe} {q : List UInt8} {src : ℕ → Option UInt8} {dst : ℕ → Bool} {n : ℤ}
  {killed : Bool} {k i : ℕ}

lemma Stores.put (h : Stores pi q) (hfull : ¬ pi.isFull) (ch : UInt8) :
    Stores (pi.put ch) (q ++ [ch]) := by
  refine Holds.put h size_dvd ?_ ch
  apply lt_of_le_of_ne h.length_le
  intro hq
  exact hfull ((h.full_iff size_lt).mpr hq)

lemma Stores.exists_front (h : Stores pi q) (he : ¬ pi.isEmpty) :
    ∃ rest, q = pi.front :: rest ∧ Stores pi.advance rest := by
  cases q with
  | nil => exact absurd ((h.empty_iff size_lt).mpr rfl) he
  | cons ch rest =>
    have hch : pi.front = ch := h.front
    exact ⟨rest, by rw [hch], Holds.get h⟩

/-- `bytes` is what `src` gives from `i` on. -/
def Copied (src : ℕ → Option UInt8) : ℕ → List UInt8 → Prop
  | _, [] => True
  | i, ch :: bytes => src i = some ch ∧ Copied src (i + 1) bytes

lemma Copied.append {l l' : List UInt8} (h : Copied src i l) (h' : Copied src (i + l.length) l') :
    Copied src i (l ++ l') := by
  induction l generalizing i with
  | nil => simpa using h'
  | cons ch l ih =>
    refine ⟨h.1, ih h.2 ?_⟩
    rw [List.length_cons] at h'
    rwa [Nat.add_right_comm, Nat.add_assoc]

/-- What a stretch of `pipewrite` does: it appends the next bytes of its buffer. -/
structure Writes (src : ℕ → Option UInt8) (i : ℕ) (pi : Pipe) (q : List UInt8) (o : Out) : Prop where
  stores : Stores o.pi (q ++ o.bytes)
  copied : Copied src i o.bytes
  pos : ∀ j, o.ends = .sleeps j → j = i + o.bytes.length

lemma Writes.stop (h : Stores pi q) {e : Ends} (he : ∀ j, e = .sleeps j → j = i) :
    Writes src i pi q ⟨pi, [], e⟩ :=
  ⟨by simpa using h, trivial, by simpa using he⟩

lemma writeLoop_writes (h : Stores pi q) : Writes src i pi q (writeLoop src killed k i pi) := by
  induction k generalizing i pi q with
  | zero => exact .stop h (by simp)
  | succ k ih =>
    unfold writeLoop
    by_cases hfull : pi.isFull
    · rw [if_pos hfull]
      split
      · exact .stop h (by simp)
      · exact .stop h (by simp [eq_comm])
    · rw [if_neg hfull]
      cases hs : src i with
      | none => exact .stop h (by simp)
      | some ch =>
        obtain ⟨hstores, hcopied, hpos⟩ := ih (i := i + 1) (h.put hfull ch)
        refine ⟨?_, ⟨hs, hcopied⟩, fun j hj => ?_⟩
        · simpa [Out.push] using hstores
        · have := hpos j hj
          simp only [Out.push, List.length_cons]
          omega

/-- What a stretch of `piperead` does: it removes the first bytes of the pipe. -/
structure Reads (pi : Pipe) (q : List UInt8) (o : Out) : Prop where
  stores : ∃ rest, q = o.bytes ++ rest ∧ Stores o.pi rest
  writeopen : o.pi.writeopen = pi.writeopen

lemma Reads.stop (h : Stores pi q) (e : Ends) : Reads pi q ⟨pi, [], e⟩ :=
  ⟨⟨q, rfl, h⟩, rfl⟩

lemma readLoop_reads (h : Stores pi q) : Reads pi q (readLoop dst k i pi) := by
  induction k generalizing i pi q with
  | zero => exact .stop h _
  | succ k ih =>
    unfold readLoop
    by_cases he : pi.isEmpty
    · rw [if_pos he]
      exact .stop h _
    · rw [if_neg he]
      obtain ⟨rest, hq, hrest⟩ := h.exists_front he
      split
      · obtain ⟨⟨rest', hrest', hstores⟩, hopen⟩ := ih (i := i + 1) hrest
        refine ⟨⟨rest', ?_, hstores⟩, hopen⟩
        rw [hq, hrest']
        rfl
      · exact ⟨⟨rest, hq, hrest⟩, rfl⟩

lemma piperead_reads (h : Stores pi q) : Reads pi q (piperead dst n killed pi) := by
  unfold piperead
  split
  · split
    · exact .stop h _
    · exact .stop h _
  · exact readLoop_reads h

lemma le_of_readLoop_returns {r : ℤ} {why : Why} :
    (readLoop dst k i pi).ends = .returns r why → i ≤ r := by
  induction k generalizing i pi with
  | zero =>
    intro h
    simp only [readLoop, Ends.returns.injEq] at h
    omega
  | succ k ih =>
    intro h
    unfold readLoop at h
    by_cases he : pi.isEmpty
    · rw [if_pos he] at h
      simp only [Ends.returns.injEq] at h
      omega
    · rw [if_neg he] at h
      split at h
      · have := ih h
        omega
      · simp only [Ends.returns.injEq] at h
        omega

/-- `piperead` returns 0 without a failed copy only when the pipe is empty and nobody can write
to it; a call for no bytes says nothing about the pipe. -/
lemma piperead_zero {why : Why} (h : (piperead dst n killed pi).ends = .returns 0 why)
    (hwhy : why ≠ .fault) (hn : 0 < n ∨ pi.isEmpty) : pi.isEmpty ∧ pi.writeopen = false := by
  unfold piperead at h
  by_cases hw : pi.isEmpty ∧ pi.writeopen = true
  · rw [if_pos hw] at h
    split at h <;> simp at h
  · rw [if_neg hw] at h
    have hempty : pi.isEmpty := by
      by_contra he
      obtain ⟨k, hk⟩ : ∃ k, n.toNat = k + 1 := ⟨n.toNat - 1, by
        have := hn.resolve_right he
        omega⟩
      rw [hk, readLoop, if_neg he] at h
      split at h
      · have := le_of_readLoop_returns h
        omega
      · simp only [Ends.returns.injEq] at h
        exact hwhy h.2.symm
    exact ⟨hempty, by simpa [hempty] using hw⟩

/-! ### Whole runs -/

/-- What holds of a pipe and its calls in every run. -/
structure Inv (w : World) : Prop where
  stores : ∃ q, w.inserted.map Prod.snd = w.removed ++ q ∧ Stores w.pi q
  past : ∀ e ∈ w.inserted, e.1 < w.next
  known : ∀ c, w.next ≤ c → w.call c = none
  sent : ∀ c src n, w.call c = some (.write src n) →
    Copied src 0 (part w.inserted c) ∧ ∀ i, w.pos c = some i → i = (part w.inserted c).length

variable {w w' : World} {c : ℕ}

lemma inv_start (hv : pi.nread < 2 ^ 32) (he : pi.nread = pi.nwrite) : Inv (World.start pi) := by
  refine ⟨⟨[], rfl, ?_⟩, by simp [World.start], fun _ _ => rfl, by simp [World.start]⟩
  change Holds _ _ pi.data pi.nread pi.nwrite []
  rw [← he]
  exact .nil hv

lemma Inv.call_lt (h : Inv w) {k : Call} (hk : w.call c = some k) : c < w.next := by
  by_contra hc
  rw [h.known c (by omega)] at hk
  cases hk

lemma sent_eq_nil (h : Inv w) : part w.inserted w.next = [] :=
  part_eq_nil fun e he => (h.past e he).ne

lemma Inv.begin (h : Inv w) (k : Call) : Inv (w.begin k) := by
  refine ⟨h.stores, fun e he => Nat.lt_succ_of_lt (h.past e he), fun c hc => ?_, fun c src n hk => ?_⟩
  · change w.next + 1 ≤ c at hc
    change update w.call w.next (some k) c = none
    rw [update_of_ne (by omega)]
    exact h.known c (by omega)
  · change update w.call w.next (some k) c = _ at hk
    change Copied src 0 (part w.inserted c) ∧
      ∀ i, update w.pos w.next (some 0) c = some i → i = (part w.inserted c).length
    by_cases hc : c = w.next
    · subst hc
      rw [sent_eq_nil h, update_self]
      exact ⟨trivial, by simp [eq_comm]⟩
    · rw [update_of_ne hc] at hk ⊢
      exact h.sent c src n hk

lemma Inv.run_write (h : Inv w) (hk : w.call c = some (.write src n)) (hi : w.pos c = some i) :
    Inv (w.run c (.write src n) i killed) := by
  obtain ⟨q, hq, hstores⟩ := h.stores
  obtain ⟨hcopied, hpos⟩ := h.sent c src n hk
  have hw : Writes src i w.pi q (pipewrite src n killed i w.pi) := writeLoop_writes hstores
  have hlen := hpos i hi
  refine ⟨⟨_, ?_, hw.stores⟩, fun e he => ?_, h.known, fun d src' n' hd => ?_⟩
  · change (w.inserted ++ _).map Prod.snd = w.removed ++ _
    rw [List.map_append, hq, List.map_map, List.append_assoc]
    congr 2
    exact List.map_id _
  · rcases List.mem_append.mp he with he | he
    · exact h.past e he
    · obtain ⟨ch, -, rfl⟩ := List.mem_map.mp he
      exact h.call_lt hk
  · change w.call d = _ at hd
    change Copied src' 0 (part (w.inserted ++ _) d) ∧
      ∀ j, update w.pos c _ d = some j → j = (part (w.inserted ++ _) d).length
    by_cases hdc : d = c
    · subst hdc
      rw [hk] at hd
      cases hd
      rw [part_append_self, update_self]
      refine ⟨hcopied.append (by rw [Nat.zero_add, ← hlen]; exact hw.copied), fun j hj => ?_⟩
      have hends : (pipewrite src n killed i w.pi).ends = .sleeps j := by
        cases he : (pipewrite src n killed i w.pi).ends with
        | sleeps j' =>
          rw [he] at hj
          cases hj
          rfl
        | returns r why =>
          rw [he] at hj
          cases hj
      rw [List.length_append, ← hlen]
      exact hw.pos j hends
    · rw [part_append_of_ne hdc, update_of_ne hdc]
      exact h.sent d src' n' hd

lemma Inv.run_read (h : Inv w) (hk : w.call c = some (.read dst n)) :
    Inv (w.run c (.read dst n) i killed) := by
  obtain ⟨q, hq, hstores⟩ := h.stores
  obtain ⟨⟨rest, hrest, hstores'⟩, -⟩ : Reads w.pi q (piperead dst n killed w.pi) :=
    piperead_reads hstores
  refine ⟨⟨rest, ?_, hstores'⟩, h.past, h.known, fun d src' n' hd => ?_⟩
  · change w.inserted.map Prod.snd = (w.removed ++ _) ++ rest
    rw [hq, hrest, List.append_assoc]
  · change w.call d = _ at hd
    have hdc : d ≠ c := by
      rintro rfl
      rw [hk] at hd
      cases hd
    change Copied src' 0 (part w.inserted d) ∧
      ∀ j, update w.pos c _ d = some j → j = (part w.inserted d).length
    rw [update_of_ne hdc]
    exact h.sent d src' n' hd

lemma Inv.close (h : Inv w) (writable : Bool) : Inv { w with pi := w.pi.close writable } := by
  obtain ⟨q, hq, hstores⟩ := h.stores
  refine ⟨⟨q, hq, ?_⟩, h.past, h.known, h.sent⟩
  cases writable with
  | true | false => exact hstores

lemma Inv.step (h : Inv w) (hs : Step w w') : Inv w' := by
  cases hs with
  | begin k => exact h.begin k
  | @run c i k killed hk hi =>
    cases k with
    | write src n => exact h.run_write hk hi
    | read dst n => exact h.run_read hk
  | close writable => exact h.close writable

lemma Reach.inv (hv : pi.nread < 2 ^ 32) (he : pi.nread = pi.nwrite)
    (h : Reach (World.start pi) w) : Inv w := by
  induction h with
  | refl => exact inv_start hv he
  | tail _ hs ih => exact ih.step hs

/-! ### First in, first out -/

/-- `nwrite - nread` in `uint`. -/
def Pipe.count (pi : Pipe) : ℕ := (pi.nwrite + 2 ^ 32 - pi.nread) % 2 ^ 32

/-- `data[nread % PIPESIZE]`, ..., as many bytes as there are between the counters. -/
def Pipe.stored (pi : Pipe) : List UInt8 :=
  (List.range pi.count).map fun j => pi.data ((pi.nread + j) % 2 ^ 32 % PIPESIZE)

lemma Stores.eq_stored (h : Stores pi q) : q = pi.stored := by
  unfold Pipe.stored Pipe.count
  rw [h.count size_lt]
  exact h.eq_map

/-- **Pipes are first in, first out**, whatever the calls and their interleaving, from any value
of the counters. -/
theorem pipe_fifo (hv : pi.nread < 2 ^ 32) (he : pi.nread = pi.nwrite)
    (h : Reach (World.start pi) w) :
    w.pi.count ≤ PIPESIZE ∧
    w.inserted.map Prod.snd = w.removed ++ w.pi.stored ∧
    w.removed <+: w.inserted.map Prod.snd ∧
    (∀ c src n, w.call c = some (.write src n) → Copied src 0 (part w.inserted c)) ∧
    ∀ c dst n i killed why, w.call c = some (.read dst n) → w.pos c = some i →
      (piperead dst n killed w.pi).ends = .returns 0 why → why ≠ .fault → 0 < n ∨ w.pi.isEmpty →
        (w.run c (.read dst n) i killed).removed =
          (w.run c (.read dst n) i killed).inserted.map Prod.snd ∧
        (w.run c (.read dst n) i killed).pi.writeopen = false := by
  have hI := h.inv hv he
  obtain ⟨q, hq, hstores⟩ := hI.stores
  have hstored := hstores.eq_stored
  refine ⟨?_, by rw [← hstored, hq], ⟨q, hq.symm⟩, fun c src n hk => (hI.sent c src n hk).1, ?_⟩
  · unfold Pipe.count
    rw [hstores.count size_lt]
    exact hstores.length_le
  · intro c dst n i killed why _ _ hz hwhy hn
    obtain ⟨hempty, hopen⟩ := piperead_zero hz hwhy hn
    have hnil : q = [] := (hstores.empty_iff size_lt).mp hempty
    have hreads : Reads w.pi q (piperead dst n killed w.pi) := piperead_reads hstores
    refine ⟨?_, ?_⟩
    · change w.removed ++ (piperead dst n killed w.pi).bytes = w.inserted.map Prod.snd
      obtain ⟨⟨rest, hrest, -⟩, -⟩ := hreads
      rw [hnil, eq_comm, List.append_eq_nil_iff] at hrest
      rw [hrest.1, hq, hnil]
    · exact hreads.writeopen.trans hopen

/-- A pipe whose counters are about to wrap around. -/
def lastPipe : Pipe := ⟨fun _ => 0, 2 ^ 32 - 1, 2 ^ 32 - 1, true, true⟩

/-- The world after a call that has written two bytes, of which a reader has taken one. -/
def wrapped : World :=
  (((World.start lastPipe).begin (.write (fun i => some (UInt8.ofNat (7 + i))) 2)).run 0
    (.write (fun i => some (UInt8.ofNat (7 + i))) 2) 0 false).begin (.read (fun _ => true) 1)
      |>.run 1 (.read (fun _ => true) 1) 0 false

lemma wrapped_reach : Reach (World.start lastPipe) wrapped := by
  refine .tail (.tail (.tail (.single (.begin _)) (.run false ?_ ?_)) (.begin _)) (.run false ?_ ?_)
  all_goals rfl

theorem pipe_fifo_wrapped :
    wrapped.removed = [7] ∧ wrapped.pi.nread = 0 ∧ wrapped.pi.nwrite = 1 ∧
    wrapped.inserted.map Prod.snd = wrapped.removed ++ wrapped.pi.stored :=
  ⟨by decide, by decide, by decide,
    (pipe_fifo (show lastPipe.nread < 2 ^ 32 by decide) rfl wrapped_reach).2.1⟩

end Xv6.Pipes
