import Xv6.Fs.Inode

/-!
Directories and path names: the upper half of `kernel/fs.c`.
-/

namespace Xv6.Fs

open Lib.Wp Lib.Conc

variable {N : ℕ}

/-- A destination in the kernel. -/
def kdst (_ _ : ℕ) : Bool := true

/-! ### Paths -/

def slash : UInt8 := UInt8.ofNat '/'.toNat

/-- The next path element, cut to `DIRSIZ` bytes, and the path behind it. -/
def skipelem (path : List UInt8) : Option (List UInt8 × List UInt8) :=
  let s := path.dropWhile (· == slash)
  if s = [] then none
  else some ((s.takeWhile (· != slash)).take DIRSIZ,
    (s.dropWhile (· != slash)).dropWhile (· == slash))

section

variable (sb : Superblock)

/-! ### Directories -/

/-- One entry of `dirlookup`. -/
def dirlookupStep (j : ℕ) (name : List UInt8) (off : ℕ) : Code N (ℕ ⊕ Option (ℕ × ℕ)) := do
  let dp ← getInode j
  if off < dp.din.size then do
    let de ← readi sb j kdst off DESIZE
    if de.length ≠ DESIZE then
      crash (.panic "dirlookup read")
    else if deInum de ≠ 0 ∧ namecmp name (deName de) = true then do
      let ip ← iget dp.dev (deInum de)
      return .inr (some (ip, off))
    else
      return .inl (off + DESIZE)
  else
    return .inr none

/-- The inode that a directory has under a name, and the offset of the entry. -/
def dirlookup (j : ℕ) (name : List UInt8) : Code N (Option (ℕ × ℕ)) := do
  panicWhen (fun s => (s.inode j).din.type ≠ T_DIR) "dirlookup not DIR"
  let dp ← getInode j
  Prog.loop (crash .undefined) (dirlookupStep sb j name) (dp.din.size / DESIZE + 2) 0

/-! ### Path resolution -/

/-- `ip = idup(myproc()->cwd)` -/
def idupCwd : Code N ℕ := liftM (do
  let s ← get
  match s.cwd s.cur with
  | some j => do
    set (s.setInode j fun ip => { ip with ref := ip.ref + 1 })
    return j
  | none => throw .undefined : FsM N ℕ)

/-- One element of a path, from inode `j`. With `parent`, the walk stops one level early. -/
def namexStep (parent : Bool) (cur : ℕ × List UInt8) :
    Code N (ℕ × List UInt8 ⊕ Option (ℕ × List UInt8)) := do
  let j := cur.1
  match skipelem cur.2 with
  | none =>
    if parent then do
      iput sb j
      return .inr none
    else
      return .inr (some (j, []))
  | some (name, path) => do
    ilock sb j
    let ip ← getInode j
    if ip.din.type ≠ T_DIR then do
      iunlockput sb j
      return .inr none
    else if parent = true ∧ path = [] then do
      iunlock j
      return .inr (some (j, name))
    else do
      match ← dirlookup sb j name with
      | none => do
        iunlockput sb j
        return .inr none
      | some (next, _) => do
        iunlockput sb j
        return .inl (next, path)

/-- The inode of a path, or of its parent and the last element. -/
def namex (path : List UInt8) (parent : Bool) : Code N (Option (ℕ × List UInt8)) := do
  let j ← (if path.head? = some slash then iget ROOTDEV ROOTINO else idupCwd)
  Prog.loop (crash .undefined) (namexStep sb parent) (path.length + 1) (j, path)

def namei (path : List UInt8) : Code N (Option ℕ) := do
  match ← namex sb path false with
  | none => return none
  | some (j, _) => return some j

def nameiparent (path : List UInt8) : Code N (Option (ℕ × List UInt8)) := namex sb path true

/-- `iunlockput(ip); end_op();` -/
def dropInode (j : ℕ) : Code N Unit := do
  iunlockput sb j
  endOp sb

end

end Xv6.Fs
