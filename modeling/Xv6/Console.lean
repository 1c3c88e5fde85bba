import Mathlib.Data.Int.Notation
import Mathlib.Data.List.Basic
import Mathlib.Data.Nat.ModEq
import Mathlib.Logic.Basic

/-!
The data of `kernel/console.c`: the console's input buffer with its three indices.
-/

namespace Xv6.Console

open Function

abbrev INPUT_BUF : ℕ := 128

/-- `cons`, without its lock. The three indices are `uint`s. -/
structure Cons where
  buf : ℕ → UInt8
  r : ℕ
  w : ℕ
  e : ℕ

/-- `C(x)` -/
def ctrl (x : Char) : UInt8 := UInt8.ofNat (x.toNat - '@'.toNat)

def newline : UInt8 := UInt8.ofNat '\n'.toNat

def isReturn (c : UInt8) : Bool := c == UInt8.ofNat '\r'.toNat

/-! ### Input -/

/-- `e--` -/
def Cons.back (c : Cons) : Cons := { c with e := (c.e + 2 ^ 32 - 1) % 2 ^ 32 }

/-- `^U`: the loop ends at `w`. -/
def killLine : ℕ → Cons → Cons
  | 0, c => c
  | k + 1, c =>
    if c.e ≠ c.w ∧ c.buf ((c.e + 2 ^ 32 - 1) % 2 ^ 32 % INPUT_BUF) ≠ newline then killLine k c.back
    else c

/-- Store a character, and let readers have the line if it ends one. -/
def Cons.store (c : Cons) (ch : UInt8) : Cons :=
  let c' := { c with buf := update c.buf (c.e % INPUT_BUF) ch, e := (c.e + 1) % 2 ^ 32 }
  if ch = newline ∨ ch = ctrl 'D' ∨ c'.e = (c.r + INPUT_BUF) % 2 ^ 32 then { c' with w := c'.e } else c'

def consoleintr (ch : UInt8) (c : Cons) : Cons :=
  if ch = ctrl 'P' then c
  else if ch = ctrl 'U' then killLine ((c.e + 2 ^ 32 - c.w) % 2 ^ 32) c
  else if ch = ctrl 'H' ∨ ch = 0x7f then (if c.e ≠ c.w then c.back else c)
  else if ch ≠ 0 ∧ (c.e + 2 ^ 32 - c.r) % 2 ^ 32 < INPUT_BUF then
    c.store (if isReturn ch then newline else ch)
  else c

/-- How a stretch of a call ends: it sleeps with `i` bytes read, or returns. -/
inductive Ends
  | sleeps (i : ℕ)
  | returns (r : ℤ)

/-- A stretch of `consoleread` with `k` bytes to go and `i` read. `dst i` is whether the copy of
the `i`th byte to the destination succeeds. -/
def readLoop (dst : ℕ → Bool) (killed : Bool) : ℕ → ℕ → Cons → Cons × List UInt8 × Ends
  | 0, i, c => (c, [], .returns i)
  | k + 1, i, c =>
    if c.r = c.w then
      (if killed then (c, [], .returns (-1)) else (c, [], .sleeps i))
    else
      let ch := c.buf (c.r % INPUT_BUF)
      let c' := { c with r := (c.r + 1) % 2 ^ 32 }
      -- a `^D` behind other bytes is left for the next call
      if ch = ctrl 'D' then (if 0 < i then (c, [], .returns i) else (c', [], .returns i))
      else if dst i = false then (c', [], .returns i)
      else if ch = newline then (c', [ch], .returns (i + 1))
      else
        let o := readLoop dst killed k (i + 1) c'
        (o.1, ch :: o.2.1, o.2.2)

def consoleread (dst : ℕ → Bool) (n : ℤ) (killed : Bool) (i : ℕ) (c : Cons) :
    Cons × List UInt8 × Ends :=
  readLoop dst killed (n.toNat - i) i c

end Xv6.Console
