import Xv6.Fs.State

/-!
Blocks and inodes: the lower half of `kernel/fs.c`.
-/

namespace Xv6.Fs

open Lib.Wp Lib.Conc Lib.Bytes Function

variable {N : ℕ}

def getInode (j : ℕ) : Code N (Inode N) := read fun s => s.inode j

def setInode (j : ℕ) (f : Inode N → Inode N) : Code N Unit := write fun s => s.setInode j f

def setDin (j : ℕ) (f : Dinode → Dinode) : Code N Unit :=
  setInode j fun ip => { ip with din := f ip.din }

section

variable (sb : Superblock)

/-! ### Blocks -/

def bzero (bno : ℕ) : Code N Unit := do
  bread bno
  setBuf bno zeroes
  logWrite sb bno
  brelse bno

/-- The first free block among those that the bitmap block `f` is about, starting at `b`. -/
def findFree (f : Block) (b : ℕ) : Option ℕ :=
  (List.range BPB).find? fun bi => b + bi < sb.size ∧ bit f bi = false

/-- One bitmap block of `balloc`. -/
def ballocStep (b : ℕ) : Code N (ℕ ⊕ ℕ) :=
  if b < sb.size then do
    bread (sb.bblock b)
    let f ← getBuf (sb.bblock b)
    match findFree sb f b with
    | some bi => do
      setBuf (sb.bblock b) (setBit f bi)
      logWrite sb (sb.bblock b)
      brelse (sb.bblock b)
      bzero sb (b + bi)
      return .inr (b + bi)
    | none => do
      brelse (sb.bblock b)
      return .inl (b + BPB)
  else
    crash (.panic "balloc: out of blocks")

def balloc : Code N ℕ := do
  write fun s => { s with allocs := s.allocs ++ [(s.cur, s.reading s.cur)] }
  Prog.loop (crash .undefined) (ballocStep sb) (sb.size / BPB + 2) 0

def bfree (b : ℕ) : Code N Unit := do
  bread (sb.bblock b)
  let f ← getBuf (sb.bblock b)
  if bit f (b % BPB) = false then
    crash (.panic "freeing free block")
  else do
    setBuf (sb.bblock b) (clearBit f (b % BPB))
    logWrite sb (sb.bblock b)
    brelse (sb.bblock b)

/-! ### The inode cache -/

/-- The entry for an inode number, with one more reference. -/
def iget (dev inum : ℕ) : Code N ℕ := liftM (do
  let s ← get
  match (List.range NINODE).find? fun j =>
      0 < (s.inode j).ref ∧ (s.inode j).dev = dev ∧ (s.inode j).inum = inum with
  | some j => do
    set (s.setInode j fun ip => { ip with ref := ip.ref + 1 })
    return j
  | none => match (List.range NINODE).find? fun j => (s.inode j).ref = 0 with
    | some j => do
      set (s.setInode j fun ip => { ip with dev := dev, inum := inum, ref := 1, valid := false })
      return j
    | none => throw (.panic "iget: no inodes") : FsM N ℕ)

def acquiresleep (j : ℕ) : Code N Unit := liftM (do
  let s ← get
  sleepWhile s ((s.inode j).lock ≠ none) (.inode j)
  set (s.setInode j fun ip => { ip with lock := some s.cur }) : FsM N Unit)

def releasesleep (j : ℕ) : Code N Unit := setInode j fun ip => { ip with lock := none }

/-- Copy the inode to its block. -/
def iupdate (j : ℕ) : Code N Unit := do
  let ip ← getInode j
  bread (sb.iblock ip.inum)
  write fun s => s.setBlock (sb.iblock ip.inum)
    (putDinode (s.block (sb.iblock ip.inum)) (ip.inum % IPB) (s.inode j).din)
  logWrite sb (sb.iblock ip.inum)
  brelse (sb.iblock ip.inum)

/-- Read the inode from its block. -/
def load (j : ℕ) : Code N Unit := do
  let ip ← getInode j
  bread (sb.iblock ip.inum)
  write fun s => s.setInode j fun i => { i with
    din := dinodeAt (s.block (sb.iblock ip.inum)) (ip.inum % IPB) }
  brelse (sb.iblock ip.inum)
  setInode j fun i => { i with valid := true }
  panicWhen (fun s => (s.inode j).din.type = 0) "ilock: no type"

def ilock (j : ℕ) : Code N Unit := do
  panicWhen (fun s => (s.inode j).ref < 1) "ilock"
  acquiresleep j
  let ip ← getInode j
  doIf (ip.valid = false) (load sb j)

def iunlock (j : ℕ) : Code N Unit := do
  panicWhen (fun s => (s.inode j).lock ≠ some s.cur ∨ (s.inode j).ref < 1) "iunlock"
  releasesleep j

/-! ### The contents of an inode -/

/-- `bmap` for a block that the inode itself lists. -/
def bmapDirect (j k : ℕ) : Code N ℕ := do
  let ip ← getInode j
  if ip.din.addrs k = 0 then do
    let b ← balloc sb
    setDin j fun d => d.setAddr k b
    return b
  else
    return ip.din.addrs k

/-- The address of the `bn`th block of the inode, which is allocated if there is none. -/
def bmap (j bn : ℕ) : Code N ℕ :=
  if bn < NDIRECT then
    bmapDirect sb j bn
  else if bn - NDIRECT < NINDIRECT then do
    let a ← bmapDirect sb j NDIRECT
    bread a
    let f ← getBuf a
    let addr := le f (4 * (bn - NDIRECT)) 4
    if addr = 0 then do
      let b ← balloc sb
      setBuf a (putLe f (4 * (bn - NDIRECT)) 4 b)
      logWrite sb a
      brelse a
      return b
    else do
      brelse a
      return addr
  else
    crash (.panic "bmap: out of range")

/-- Free the block in slot `k` of the inode itself. -/
def freeSlot (j k : ℕ) : Code N Unit := do
  let ip ← getInode j
  doIf (ip.din.addrs k ≠ 0) (do
    bfree sb (ip.din.addrs k)
    setDin j fun d => d.setAddr k 0)

/-- Free what an indirect block lists. -/
def freeIndirect (f : Block) : Code N Unit :=
  forUp (fun l => pure (decide (l < NINDIRECT))) (fun l =>
    doIf (le f (4 * l) 4 ≠ 0) (bfree sb (le f (4 * l) 4))) 0 (NINDIRECT + 1)

def setTrunc (j : ℕ) (t : Bool) : Code N Unit := write fun s =>
  { s with trunc := update s.trunc j t }

def itrunc (j : ℕ) : Code N Unit := do
  setTrunc j true
  forUp (fun k => pure (decide (k < NDIRECT))) (fun k => freeSlot sb j k) 0 (NDIRECT + 1)
  let ip ← getInode j
  doIf (ip.din.addrs NDIRECT ≠ 0) (do
    let a := ip.din.addrs NDIRECT
    bread a
    let f ← getBuf a
    freeIndirect sb f
    brelse a
    bfree sb a
    setDin j fun d => d.setAddr NDIRECT 0)
  setDin j fun d => { d with size := 0 }
  iupdate sb j
  setTrunc j false

/-- Drop a reference while `icache.lock` is held, unless it was the last one to an inode
without links: then the inode gets locked, and the result is `true`. A sleep here would be one
with `icache.lock` held. -/
def iputFirst (j : ℕ) : Code N Bool := liftM (do
  let s ← get
  if (s.inode j).ref = 1 ∧ (s.inode j).valid = true ∧ (s.inode j).din.nlink = 0 then do
    throwIf ((s.inode j).lock ≠ none) (.sched (.inode j))
    set (s.setInode j fun ip => { ip with lock := some s.cur })
    return true
  else do
    set (s.setInode j fun ip => { ip with ref := ip.ref - 1 })
    return false : FsM N Bool)

def iput (j : ℕ) : Code N Unit := do
  if ← iputFirst j then do
    itrunc sb j
    setDin j fun d => { d with type := 0 }
    iupdate sb j
    setInode j fun ip => { ip with valid := false }
    releasesleep j
    setInode j fun ip => { ip with ref := ip.ref - 1 }
  else
    return ()

def iunlockput (j : ℕ) : Code N Unit := do
  iunlock j
  iput sb j

/-- The loop of `readi` from `off`, with `k` bytes to go after `tot`. `dst tot m` is whether the
copy of `m` bytes to `dst + tot` succeeds. -/
def readLoop (j : ℕ) (dst : ℕ → ℕ → Bool) : ℕ → ℕ → ℕ → ℕ → Code N (List UInt8)
  | 0, _, _, _ => return []
  | fuel + 1, tot, off, k =>
    if k = 0 then
      return []
    else do
      let b ← bmap sb j (off / BSIZE)
      bread b
      let f ← getBuf b
      brelse b
      let m := min k (BSIZE - off % BSIZE)
      if dst tot m then do
        let rest ← readLoop j dst fuel (tot + m) (off + m) (k - m)
        return slice f (off % BSIZE) m ++ rest
      else
        return []

def setReading (r : Bool) : Code N Unit := write fun s =>
  { s with reading := update s.reading s.cur r }

/-- The bytes read from the inode. What is returned is their number. -/
def readi (j : ℕ) (dst : ℕ → ℕ → Bool) (off n : ℕ) : Code N (List UInt8) := do
  let ip ← getInode j
  setReading true
  let k := readCount ip.din.size off n
  let bytes ← readLoop sb j dst k 0 off k
  setReading false
  return bytes

end

end Xv6.Fs
