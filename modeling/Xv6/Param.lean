import Xv6.Lib.Bytes

/-!
The constants of `kernel/param.h` and `kernel/fs.h` that the models below use, and the two
ways a kernel computation stops.
-/

namespace Xv6

open Lib.Bytes

/-- Blocks any file-system operation writes, at most. -/
abbrev MAXOPBLOCKS : ℕ := 10
/-- Data blocks in the on-disk log. -/
abbrev LOGSIZE : ℕ := MAXOPBLOCKS * 3
/-- Buffers in the block cache. -/
abbrev NBUF : ℕ := MAXOPBLOCKS * 3
abbrev NPROC : ℕ := 64
abbrev NOFILE : ℕ := 16
abbrev NFILE : ℕ := 100
abbrev NINODE : ℕ := 50
abbrev NDEV : ℕ := 10
abbrev ROOTDEV : ℕ := 1
abbrev ROOTINO : ℕ := 1
abbrev BSIZE : ℕ := 1024
/-- Size of the file system in blocks. -/
abbrev FSSIZE : ℕ := 1000

lemma LOGSIZE_eq : LOGSIZE = 30 := rfl
lemma NBUF_eq : NBUF = 30 := rfl
abbrev Block := Buffer BSIZE
abbrev Disk := ℕ → Block

/-- Why a computation does not return: a `panic` with its message, a sleep or a loop that
nothing ends, or an access past the end of an array. -/
inductive Stop
  | panic (msg : String)
  | hang
  | undefined

/-- `int` from its 32 bits. -/
def toInt32 (w : ℕ) : ℤ := if w % 2 ^ 32 < 2 ^ 31 then (w % 2 ^ 32 : ℕ) else (w % 2 ^ 32 : ℕ) - 2 ^ 32

lemma toInt32_of_lt {w : ℕ} (h : w < 2 ^ 31) : toInt32 w = w := by
  unfold toInt32
  rw [Nat.mod_eq_of_lt (by omega), if_pos h]

end Xv6
