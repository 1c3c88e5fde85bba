import Xv6.Lib.Spans
import Xv6.Lib.Wp
import Mathlib.Data.Int.Notation
import Mathlib.Data.Nat.ModEq
import Mathlib.Logic.Relation

/-!
The allocator of `user/umalloc.c`, with any sequence of calls to it.

A `Header` takes 16 bytes, and a pointer to one is its address; `0` is the null pointer. The
search loops have fuel: a search that runs out of it has not come to an end. What `sbrk`
answers is up to the environment, which is held to giving out memory that is new.
-/

namespace Xv6.Malloc

open Lib.Spans

structure Header where
  ptr : ℕ
  size : ℕ

structure Heap where
  hdr : ℕ → Header
  freep : ℕ
  /-- The memory that `sbrk` has given out. -/
  memory : List Span

inductive Halt
  | hang
  /-- `sbrk` has answered with memory that is not new. -/
  | notNew

abbrev MallocM := EStateM Halt Heap

namespace Heap

def setPtr (h : Heap) (p v : ℕ) : Heap :=
  { h with hdr := Function.update h.hdr p { h.hdr p with ptr := v } }

def setSize (h : Heap) (p v : ℕ) : Heap :=
  { h with hdr := Function.update h.hdr p { h.hdr p with size := v } }

end Heap

/-! ### `free` -/

/-- Where the loop of `free` ends that starts at `p`: the block goes behind it. -/
def place (hdr : ℕ → Header) (bp : ℕ) : ℕ → ℕ → Option ℕ
  | 0, _ => none
  | k + 1, p =>
    if bp > p ∧ bp < (hdr p).ptr then some p
    else if p ≥ (hdr p).ptr ∧ (bp > p ∨ bp < (hdr p).ptr) then some p
    else place hdr bp k (hdr p).ptr

/-- Join the block with the one after it, or link it to that. -/
def joinUp (bp q : ℕ) (h : Heap) : Heap :=
  if bp + 16 * (h.hdr bp).size = q then
    (h.setSize bp (((h.hdr bp).size + (h.hdr q).size) % 2 ^ 32)).setPtr bp (h.hdr q).ptr
  else h.setPtr bp q

/-- Join the block with the one before it, or link that to it. -/
def joinDown (p bp : ℕ) (h : Heap) : Heap :=
  if p + 16 * (h.hdr p).size = bp then
    (h.setSize p (((h.hdr p).size + (h.hdr bp).size) % 2 ^ 32)).setPtr p (h.hdr bp).ptr
  else h.setPtr p bp

def free (k ap : ℕ) : MallocM Unit := do
  let h ← get
  match place h.hdr (ap - 16) k h.freep with
  | none => throw .hang
  | some p => set { joinDown p (ap - 16) (joinUp (ap - 16) (h.hdr p).ptr h) with freep := p }

/-! ### `malloc` -/

section

-- the address of `base`, and what `sbrk` answers, by the memory it has given out so far
variable (base : ℕ) (answer : List Span → Option ℕ)

/-- An argument of type `int`. -/
def toInt (n : ℕ) : ℤ := if n % 2 ^ 32 < 2 ^ 31 then (n % 2 ^ 32 : ℕ) else (n % 2 ^ 32 : ℕ) - 2 ^ 32

/-- The stretch shares nothing with `base` and the memory given out before, and null does not
point to it. -/
def IsNew (h : Heap) (x : Span) : Prop :=
  0 < x.lo ∧ ∀ y ∈ (⟨base, base + 16⟩ : Span) :: h.memory, x.Apart y

instance (h : Heap) (x : Span) : Decidable (IsNew base h x) :=
  inferInstanceAs (Decidable (_ ∧ ∀ _ ∈ _, _))

/-- `sbrk(n)`: `none` is -1, else there are `n` new bytes. -/
def sbrk (n : ℤ) : MallocM (Option ℕ) := do
  let h ← get
  match answer h.memory with
  | none => return none
  | some a =>
    if 0 ≤ n ∧ IsNew base h ⟨a, a + n.toNat⟩ then do
      set { h with memory := ⟨a, a + n.toNat⟩ :: h.memory }
      return some a
    else throw .notNew

/-- `morecore`, whose result is `freep`, or null. -/
def morecore (k nu : ℕ) : MallocM ℕ := do
  let nu := if nu < 4096 then 4096 else nu
  match ← sbrk base answer (toInt (nu * 16)) with
  | none => return 0
  | some p => do
    modify fun h => h.setSize p nu
    free k (p + 16)
    let h ← get
    return h.freep

/-- Allocate `nunits` from the block at `p`, which comes after `prevp`. -/
def carve (nunits prevp p : ℕ) (h : Heap) : ℕ × Heap :=
  if (h.hdr p).size = nunits then
    (p + 16, { h.setPtr prevp (h.hdr p).ptr with freep := prevp })
  else
    let h' := h.setSize p ((h.hdr p).size - nunits)
    let p' := p + 16 * (h'.hdr p).size
    (p' + 16, { h'.setSize p' nunits with freep := prevp })

/-- The loop of `malloc`, which has come to `p`. -/
def search (nunits : ℕ) : ℕ → ℕ → ℕ → MallocM ℕ
  | 0, _, _ => throw .hang
  | k + 1, prevp, p => do
    let h ← get
    if (h.hdr p).size ≥ nunits then do
      set (carve nunits prevp p h).2
      return (carve nunits prevp p h).1
    else if p = h.freep then do
      let p ← morecore base answer k nunits
      if p = 0 then
        return 0
      else do
        let h ← get
        search nunits k p (h.hdr p).ptr
    else
      search nunits k p (h.hdr p).ptr

/-- The number of units for `nbytes` and their header. -/
def units (nbytes : ℕ) : ℕ := (nbytes + 16 - 1) / 16 + 1

/-- `base.s.ptr = freep = &base; base.s.size = 0;` -/
def Heap.init (h : Heap) : Heap :=
  if h.freep = 0 then { (h.setPtr base base).setSize base 0 with freep := base } else h

def malloc (k nbytes : ℕ) : MallocM ℕ := do
  modify fun h => h.init base
  let h ← get
  search base answer (units nbytes) k h.freep (h.hdr h.freep).ptr

end

/-! ### Sequences of calls -/

structure World where
  heap : Heap
  /-- The pointers that `malloc` has returned and that have not been freed, each with the number
  of bytes asked for. -/
  live : List (ℕ × ℕ)

/-- A process that has not called `malloc` yet. -/
def start (hdr : ℕ → Header) : World := ⟨⟨hdr, 0, []⟩, []⟩

/-- A call of `malloc` or `free`. Calls of `malloc` are held to `ok`. -/
inductive Step (base : ℕ) (ok : ℕ → (List Span → Option ℕ) → Prop) (w : World) : World → Prop
  | malloc {k n p : ℕ} {answer : List Span → Option ℕ} {h : Heap} (hn : n < 2 ^ 32)
      (hok : ok n answer) (hrun : malloc base answer k n w.heap = .ok p h) :
      Step base ok w ⟨h, if p = 0 then w.live else (p, n) :: w.live⟩
  | free {k p n : ℕ} {h : Heap} (hp : (p, n) ∈ w.live) (hrun : free k p w.heap = .ok () h) :
      Step base ok w ⟨h, w.live.erase (p, n)⟩

def Reach (base : ℕ) (ok : ℕ → (List Span → Option ℕ) → Prop) (w₀ w : World) : Prop :=
  Relation.ReflTransGen (Step base ok) w₀ w

end Xv6.Malloc
