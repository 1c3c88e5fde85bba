import Xv6.Fs.Layout
import Xv6.Lib.Wp

/-!
`mkfs/mkfs.c`: the program that builds a file-system image from a list of files.

The image file is a sequence of sectors. Counters are natural numbers where the program cannot
reach the width of its `uint`s: `freeinode` counts arguments of `main`, and a block number past
the end of the image makes `rsect` fail. The host stores numbers as the disk does, so `xint` and
`xshort` change nothing.
-/

namespace Xv6.Mkfs

open Lib.Bytes Lib.Wp Fs

/-! ### The layout -/

def NINODES : ℕ := 200
def FSMAGIC : ℕ := 0x10203040

def nbitmap : ℕ := FSSIZE / (BSIZE * 8) + 1
def ninodeblocks : ℕ := NINODES / IPB + 1
def nlog : ℕ := LOGSIZE
def nmeta : ℕ := 2 + nlog + ninodeblocks + nbitmap
def nblocks : ℕ := FSSIZE - nmeta

def sb : Superblock where
  size := FSSIZE
  nblocks := nblocks
  ninodes := NINODES
  nlog := nlog
  logstart := 2
  inodestart := 2 + nlog
  bmapstart := 2 + nlog + ninodeblocks

/-- `memmove(buf, &sb, sizeof(sb))` -/
def sbBlock : Block :=
  let words := [FSMAGIC, sb.size, sb.nblocks, sb.ninodes, sb.nlog, sb.logstart, sb.inodestart,
    sb.bmapstart]
  copy zeroes 0 32 fun i => UInt8.ofNat (words.getD (i / 4) 0 / 256 ^ (i % 4))

/-! ### Sectors -/

/-- Why the program does not finish: `exit(1)` after a failed system call, or a failed `assert`. -/
inductive Fail
  | exit
  | abort

/-- The sectors of the image file and how many it has, and the two counters. -/
structure Mk where
  img : ℕ → Block
  len : ℕ
  freeinode : ℕ
  freeblock : ℕ

abbrev MkM := EStateM Fail Mk

/-- The sector at offset `sec * BSIZE`, a 32-bit number. -/
def seek (sec : ℕ) : ℕ := sec * BSIZE % 2 ^ 32 / BSIZE

def wsect (sec : ℕ) (buf : Block) : MkM Unit := modify fun s => { s with
  img := Function.update s.img (seek sec) buf, len := max s.len (seek sec + 1) }

/-- `read` returns less than `BSIZE` at the end of the file. -/
def rsect (sec : ℕ) : MkM Block := do
  let s ← get
  throwIf (s.len ≤ seek sec) .exit
  return s.img (seek sec)

def winode (inum : ℕ) (ip : Dinode) : MkM Unit := do
  let bn := sb.iblock inum
  let buf ← rsect bn
  wsect bn (putDinode buf (inum % IPB) ip)

def rinode (inum : ℕ) : MkM Dinode := do
  let bn := sb.iblock inum
  let buf ← rsect bn
  return dinodeAt buf (inum % IPB)

/-! ### Allocation -/

/-- `freeblock++` -/
def newBlock : MkM ℕ := do
  let s ← get
  set { s with freeblock := s.freeblock + 1 }
  return s.freeblock

def ialloc (type : ℕ) : MkM ℕ := do
  let s ← get
  set { s with freeinode := s.freeinode + 1 }
  winode s.freeinode { Dinode.fresh type with nlink := 1 }
  return s.freeinode

/-- The bitmap in which the first `used` blocks are taken. -/
def bitmap : ℕ → Block
  | 0 => zeroes
  | i + 1 => setBit (bitmap i) i

def balloc (used : ℕ) : MkM Unit := do
  throwIf (BSIZE * 8 ≤ used) .abort
  wsect sb.bmapstart (bitmap used)

/-! ### Appending to an inode -/

/-- The address of block `fbn` of the inode, with a new block if it has none. The result is the
inode and the address. -/
def appendBlock (din : Dinode) (fbn : ℕ) : MkM (Dinode × ℕ) :=
  if fbn < NDIRECT then
    if din.addrs fbn = 0 then do
      let x ← newBlock
      return (din.setAddr fbn x, x)
    else
      return (din, din.addrs fbn)
  else do
    let din ← if din.addrs NDIRECT = 0 then do
        let x ← newBlock
        pure (din.setAddr NDIRECT x)
      else
        pure din
    let indirect ← rsect (din.addrs NDIRECT)
    if le indirect (4 * (fbn - NDIRECT)) 4 = 0 then do
      let x ← newBlock
      wsect (din.addrs NDIRECT) (putLe indirect (4 * (fbn - NDIRECT)) 4 x)
      return (din, x)
    else
      return (din, le indirect (4 * (fbn - NDIRECT)) 4)

/-- The loop of `iappend`, which appends the bytes `p` at `off`. At most `k` rounds. -/
def appendLoop : ℕ → Dinode → ℕ → List UInt8 → MkM (Dinode × ℕ)
  | 0, din, off, _ => return (din, off)
  | k + 1, din, off, p =>
    if p.length = 0 then
      return (din, off)
    else do
      let fbn := off / BSIZE
      throwIf (MAXFILE ≤ fbn) .abort
      let (din, x) ← appendBlock din fbn
      let n1 := min p.length ((fbn + 1) * BSIZE - off)
      let buf ← rsect x
      wsect x (copy buf (off - fbn * BSIZE) n1 fun i => p.getD i 0)
      appendLoop k din (off + n1) (p.drop n1)

def iappend (inum : ℕ) (p : List UInt8) : MkM Unit := do
  let din ← rinode inum
  let (din, off) ← appendLoop p.length din din.size p
  winode inum { din with size := off }

/-! ### The program -/

/-- An argument of the program, and what `open` and each `read` of the file give. -/
structure Input where
  arg : List UInt8
  opens : Bool
  reads : List (List UInt8)
  arg_ne : 0 ∉ arg
  reads_ok : ∀ c ∈ reads, c ≠ [] ∧ c.length ≤ BSIZE

/-- `"user/"` -/
def userDir : List UInt8 := [117, 115, 101, 114, 47]

/-- get rid of `"user/"` -/
def stripUser (arg : List UInt8) : List UInt8 :=
  if userDir.isPrefixOf arg then arg.drop 5 else arg

/-- Skip leading `_` in name when writing to file system. -/
def skipUnderscore (name : List UInt8) : List UInt8 :=
  if name.head? = some 95 then name.drop 1 else name

def iappends (inum : ℕ) : List (List UInt8) → MkM Unit
  | [] => return ()
  | p :: ps => do
    iappend inum p
    iappends inum ps

/-- The loop of `main` for one file. -/
def addFile (f : Input) : MkM Unit := do
  throwIf (47 ∈ stripUser f.arg) .abort
  throwIf (f.opens = false) .exit
  let inum ← ialloc T_FILE
  iappend ROOTINO (dirent inum (skipUnderscore (stripUser f.arg)))
  iappends inum f.reads

def addFiles : List Input → MkM Unit
  | [] => return ()
  | f :: fs => do
    addFile f
    addFiles fs

/-- fix size of root inode dir -/
def fixRoot : MkM Unit := do
  let din ← rinode ROOTINO
  winode ROOTINO { din with size := (din.size / BSIZE + 1) * BSIZE }

/-- The image before the root directory is made. -/
@[irreducible] def format : MkM Unit := do
  forUp (fun i => pure (decide (i < FSSIZE))) (fun i => wsect i zeroes) 0 (FSSIZE + 1)
  wsect 1 sbBlock

def dot : List UInt8 := [46]
def dotdot : List UInt8 := [46, 46]

def makeRoot : MkM Unit := do
  let rootino ← ialloc T_DIR
  throwIf (rootino ≠ ROOTINO) .abort
  iappend rootino (dirent rootino dot)
  iappend rootino (dirent rootino dotdot)

def start : Mk := ⟨fun _ => zeroes, 0, 1, nmeta⟩

def main (files : List Input) : MkM Unit := do
  format
  makeRoot
  addFiles files
  fixRoot
  let s ← get
  balloc s.freeblock

end Xv6.Mkfs
