import Xv6.Param
import Mathlib.Data.Nat.Bitwise

/-!
The disk format of `kernel/fs.h`: the superblock, inodes, the free map and directory entries,
as numbers in the bytes of blocks.
-/

namespace Xv6.Fs

open Lib.Bytes Function

abbrev NDIRECT : ℕ := 12
/-- Block numbers in a block: `BSIZE / sizeof(uint)`. -/
abbrev NINDIRECT : ℕ := 256
abbrev MAXFILE : ℕ := NDIRECT + NINDIRECT
/-- Inodes in a block: `BSIZE / sizeof(struct dinode)`. -/
abbrev IPB : ℕ := 16
/-- Bits of the free map in a block. -/
abbrev BPB : ℕ := BSIZE * 8
abbrev DIRSIZ : ℕ := 14
/-- `sizeof(struct dirent)` -/
abbrev DESIZE : ℕ := 16

lemma sizes : BSIZE = 1024 ∧ NDIRECT = 12 ∧ NINDIRECT = 256 ∧ MAXFILE = 268 ∧ IPB = 16 ∧
    BPB = 8192 ∧ DIRSIZ = 14 ∧ DESIZE = 16 := by decide

abbrev T_DIR : ℕ := 1
abbrev T_FILE : ℕ := 2

/-- `struct superblock`, without its magic number. -/
structure Superblock where
  size : ℕ
  nblocks : ℕ
  ninodes : ℕ
  nlog : ℕ
  logstart : ℕ
  inodestart : ℕ
  bmapstart : ℕ

namespace Superblock

/-- `IBLOCK(i, sb)` -/
def iblock (sb : Superblock) (i : ℕ) : ℕ := i / IPB + sb.inodestart

/-- `BBLOCK(b, sb)` -/
def bblock (sb : Superblock) (b : ℕ) : ℕ := b / BPB + sb.bmapstart

/-- The first data block. -/
def nmeta (sb : Superblock) : ℕ := sb.size - sb.nblocks

end Superblock

/-! ### Inodes -/

/-- `struct dinode`. The `short`s are given by their 16 bits. -/
@[ext] structure Dinode where
  type : ℕ
  major : ℕ
  minor : ℕ
  nlink : ℕ
  size : ℕ
  addrs : ℕ → ℕ

namespace Dinode

/-- Every field has its width. -/
structure Fits (d : Dinode) : Prop where
  type : d.type < 2 ^ 16
  major : d.major < 2 ^ 16
  minor : d.minor < 2 ^ 16
  nlink : d.nlink < 2 ^ 16
  size : d.size < 2 ^ 32
  addrs : ∀ i, d.addrs i < 2 ^ 32
  few : ∀ i, NDIRECT < i → d.addrs i = 0

/-- `memset(dip, 0, sizeof(*dip)); dip->type = type;` -/
def fresh (type : ℕ) : Dinode := ⟨type, 0, 0, 0, 0, fun _ => 0⟩

def setAddr (d : Dinode) (k b : ℕ) : Dinode := { d with addrs := update d.addrs k b }

/-- The bytes of an inode on the disk. -/
def byte (d : Dinode) (i : ℕ) : UInt8 :=
  if i < 2 then UInt8.ofNat (d.type / 256 ^ i)
  else if i < 4 then UInt8.ofNat (d.major / 256 ^ (i - 2))
  else if i < 6 then UInt8.ofNat (d.minor / 256 ^ (i - 4))
  else if i < 8 then UInt8.ofNat (d.nlink / 256 ^ (i - 6))
  else if i < 12 then UInt8.ofNat (d.size / 256 ^ (i - 8))
  else UInt8.ofNat (d.addrs ((i - 12) / 4) / 256 ^ ((i - 12) % 4))

end Dinode

/-- Inode `k` of an inode block. -/
def dinodeAt (b : Block) (k : ℕ) : Dinode where
  type := le b (64 * k) 2
  major := le b (64 * k + 2) 2
  minor := le b (64 * k + 4) 2
  nlink := le b (64 * k + 6) 2
  size := le b (64 * k + 8) 4
  addrs := fun i => if i ≤ NDIRECT then le b (64 * k + 12 + 4 * i) 4 else 0

/-- The inode block after inode `k` is written to it. -/
def putDinode (b : Block) (k : ℕ) (d : Dinode) : Block := copy b (64 * k) 64 d.byte

/-- Inode `i` on the disk. -/
def dinode (sb : Superblock) (blk : ℕ → Block) (i : ℕ) : Dinode :=
  dinodeAt (blk (sb.iblock i)) (i % IPB)

variable {b : Block} {k j : ℕ} {d : Dinode}

lemma dinodeAt_fits (b : Block) (k : ℕ) : (dinodeAt b k).Fits where
  type := le_lt b _ 2
  major := le_lt b _ 2
  minor := le_lt b _ 2
  nlink := le_lt b _ 2
  size := le_lt b _ 4
  addrs := fun i => by
    simp only [dinodeAt]
    split
    · exact le_lt b _ 4
    · decide
  few := fun i hi => by simp only [dinodeAt]; rw [if_neg (by omega)]

lemma le_of_bytes {n : ℕ} {f : Buffer n} {o w v : ℕ} (ho : o + w ≤ n) (hv : v < 256 ^ w)
    (h : ∀ i < w, Lib.Bytes.byte f (o + i) = UInt8.ofNat (v / 256 ^ i)) : le f o w = v := by
  have hput : le f o w = le (putLe f o w v) o w := by
    refine le_congr fun i h1 h2 => ?_
    unfold putLe
    rw [byte_copy_in _ _ (by omega) h1 h2, ← h (i - o) (by omega)]
    congr 1
    omega
  rw [hput, le_putLe_of_lt f ho hv]

lemma le_putDinode {o w v : ℕ} (hk : k < IPB) (ho : o + w ≤ 64) (hv : v < 256 ^ w)
    (h : ∀ i < w, d.byte (o + i) = UInt8.ofNat (v / 256 ^ i)) :
    le (putDinode b k d) (64 * k + o) w = v := by
  have hsz := sizes
  refine le_of_bytes (by omega) hv fun i hi => ?_
  unfold putDinode
  rw [byte_copy_in _ _ (by omega) (by omega) (by omega), ← h i hi]
  congr 1
  omega

lemma dinodeAt_putDinode_self (hk : k < IPB) (hd : d.Fits) : dinodeAt (putDinode b k d) k = d := by
  have hsz := sizes
  ext
  case type =>
    refine le_putDinode (o := 0) (w := 2) hk (by omega) hd.type fun i hi => ?_
    rw [Nat.zero_add, Dinode.byte, if_pos hi]
  case major =>
    refine le_putDinode hk (by omega) hd.major fun i hi => ?_
    rw [Dinode.byte, if_neg (by omega), if_pos (by omega), Nat.add_sub_cancel_left]
  case minor =>
    refine le_putDinode hk (by omega) hd.minor fun i hi => ?_
    rw [Dinode.byte, if_neg (by omega), if_neg (by omega), if_pos (by omega),
      Nat.add_sub_cancel_left]
  case nlink =>
    refine le_putDinode hk (by omega) hd.nlink fun i hi => ?_
    rw [Dinode.byte, if_neg (by omega), if_neg (by omega), if_neg (by omega), if_pos (by omega),
      Nat.add_sub_cancel_left]
  case size =>
    refine le_putDinode hk (by omega) hd.size fun i hi => ?_
    rw [Dinode.byte, if_neg (by omega), if_neg (by omega), if_neg (by omega), if_neg (by omega),
      if_pos (by omega), Nat.add_sub_cancel_left]
  case addrs i =>
    simp only [dinodeAt]
    split
    · rename_i hi
      rw [Nat.add_assoc]
      refine le_putDinode hk (by omega) (hd.addrs i) fun l hl => ?_
      rw [Dinode.byte, if_neg (by omega), if_neg (by omega), if_neg (by omega), if_neg (by omega),
        if_neg (by omega), show (12 + 4 * i + l - 12) / 4 = i by omega,
        show (12 + 4 * i + l - 12) % 4 = l by omega]
    · rename_i hi
      exact (hd.few i (by omega)).symm

lemma le_putDinode_of_ne {o w : ℕ} (hj : j ≠ k) (ho : o + w ≤ 64) :
    le (putDinode b k d) (64 * j + o) w = le b (64 * j + o) w :=
  le_copy_out b _ (by omega)

lemma dinodeAt_putDinode_of_ne (hj : j ≠ k) : dinodeAt (putDinode b k d) j = dinodeAt b j := by
  have hsz := sizes
  ext
  case type => exact le_putDinode_of_ne (o := 0) hj (by omega)
  case major | minor | nlink | size => exact le_putDinode_of_ne hj (by omega)
  case addrs i =>
    simp only [dinodeAt]
    split
    · rw [Nat.add_assoc]
      exact le_putDinode_of_ne hj (by omega)
    · rfl

lemma dinode_putDinode (sb : Superblock) (blk : ℕ → Block) {i : ℕ} (hd : d.Fits) :
    dinode sb (update blk (sb.iblock i) (putDinode (blk (sb.iblock i)) (i % IPB) d)) =
      update (dinode sb blk) i d := by
  funext l
  unfold dinode
  by_cases hl : l = i
  · subst hl
    rw [update_self, update_self,
      dinodeAt_putDinode_self (Nat.mod_lt l (by decide)) hd]
  · rw [update_of_ne hl]
    by_cases hb : sb.iblock l = sb.iblock i
    · have hmod : l % IPB ≠ i % IPB := by
        intro h
        unfold Superblock.iblock at hb
        have h1 := Nat.div_add_mod l IPB
        have h2 := Nat.div_add_mod i IPB
        have h3 : l / IPB = i / IPB := by omega
        rw [h3, h] at h1
        exact hl (h1.symm.trans h2)
      rw [hb, update_self, dinodeAt_putDinode_of_ne hmod]
    · rw [update_of_ne hb]

/-! ### The blocks of a file

The block numbers of an inode are in its slots: the direct ones, the one of the indirect block,
and the entries of the indirect block. -/

/-- The number in slot `k`. -/
def slotAddr (blk : ℕ → Block) (d : Dinode) (k : ℕ) : ℕ :=
  if k ≤ NDIRECT then d.addrs k
  else if d.addrs NDIRECT = 0 then 0
  else le (blk (d.addrs NDIRECT)) (4 * (k - NDIRECT - 1)) 4

lemma slotAddr_direct {blk : ℕ → Block} (hk : k ≤ NDIRECT) : slotAddr blk d k = d.addrs k := if_pos hk

lemma slotAddr_congr {blk blk' : ℕ → Block} (h : NDIRECT < k → d.addrs NDIRECT ≠ 0 →
      blk' (d.addrs NDIRECT) = blk (d.addrs NDIRECT)) :
    slotAddr blk' d k = slotAddr blk d k := by
  unfold slotAddr
  split
  · rfl
  · rename_i hk
    split
    · rfl
    · rename_i hd
      rw [h (by omega) hd]

/-- The number of slots. -/
abbrev NSLOT : ℕ := MAXFILE + 1

/-- The slot of the `bn`th block of a file. -/
def slotOf (bn : ℕ) : ℕ := if bn < NDIRECT then bn else bn + 1

lemma slotOf_ne (bn : ℕ) : slotOf bn ≠ NDIRECT := by
  have hsz := sizes
  unfold slotOf
  split <;> omega

lemma slotOf_lt {bn : ℕ} (h : bn < MAXFILE) : slotOf bn < NSLOT := by
  have hsz := sizes
  have hslot : NSLOT = MAXFILE + 1 := rfl
  unfold slotOf
  split <;> omega

lemma slotOf_injective : Injective slotOf := by
  intro a b h
  have hsz := sizes
  unfold slotOf at h
  split at h <;> split at h <;> omega

/-- The address of the `bn`th block of a file, 0 if it has none. -/
def bmapAddr (blk : ℕ → Block) (d : Dinode) (bn : ℕ) : ℕ := slotAddr blk d (slotOf bn)

/-! ### The free map -/

/-- `data[i/8] & (1 << (i % 8))` -/
def bit (f : Block) (i : ℕ) : Bool := (byte f (i / 8)).toNat.testBit (i % 8)

def mask (i : ℕ) : UInt8 := UInt8.ofNat (2 ^ (i % 8))

/-- `data[i/8] |= m` -/
def setBit (f : Block) (i : ℕ) : Block := copy f (i / 8) 1 fun _ => byte f (i / 8) ||| mask i

/-- `data[i/8] &= ~m` -/
def clearBit (f : Block) (i : ℕ) : Block := copy f (i / 8) 1 fun _ => byte f (i / 8) &&& ~~~ (mask i)

lemma mask_toNat (i : ℕ) : (mask i).toNat = 2 ^ (i % 8) := by
  have h : i % 8 < 8 := Nat.mod_lt i (by decide)
  have hpow : 2 ^ (i % 8) < 2 ^ 8 := Nat.pow_lt_pow_right (by decide) h
  unfold mask
  rw [UInt8.toNat_ofNat']
  exact Nat.mod_eq_of_lt hpow

lemma bit_copy (f : Block) (v : UInt8) {i : ℕ} (hi : i < BPB) :
    bit (copy f (i / 8) 1 fun _ => v) j = if j / 8 = i / 8 then v.toNat.testBit (j % 8) else bit f j := by
  have hsz := sizes
  unfold bit
  split
  · rename_i h
    rw [h, byte_copy_in _ _ (by omega) le_rfl (by omega)]
  · rename_i h
    rw [byte_copy_out _ _ (by omega)]

lemma bit_setBit (f : Block) {i : ℕ} (hi : i < BPB) :
    bit (setBit f i) j = if j = i then true else bit f j := by
  unfold setBit
  rw [bit_copy f _ hi]
  by_cases hd : j / 8 = i / 8
  · rw [if_pos hd, UInt8.toNat_or, Nat.testBit_or, mask_toNat, Nat.testBit_two_pow]
    by_cases hj : j = i
    · simp [hj]
    · rw [if_neg hj, decide_eq_false (by omega), Bool.or_false, bit, hd]
  · rw [if_neg hd, if_neg (by rintro rfl; exact hd rfl)]

/-- Whether block `b` is in use. -/
def used (sb : Superblock) (blk : ℕ → Block) (b : ℕ) : Bool := bit (blk (sb.bblock b)) (b % BPB)

/-! ### Directory entries -/

/-- The bytes of a block from `o`. -/
def slice (f : Block) (o m : ℕ) : List UInt8 := (List.range m).map fun i => byte f (o + i)

/-- How many bytes `readi` is to read, with `n` as a `uint`. -/
def readCount (size off n : ℕ) : ℕ :=
  if off > size ∨ (off + n) % 2 ^ 32 < off then 0
  else if off + n > size then size - off
  else n

lemma readCount_le (size off n : ℕ) : readCount size off n ≤ n := by
  unfold readCount
  split
  · omega
  split <;> omega

/-- A name as the kernel compares it: up to the first NUL, or `DIRSIZ` bytes. -/
def cname (s : List UInt8) : List UInt8 := (s.take DIRSIZ).takeWhile (· ≠ 0)

/-- `namecmp(s, t) == 0` -/
def namecmp (s t : List UInt8) : Bool := cname s == cname t

/-- `de.inum` of the bytes of an entry. -/
def deInum (de : List UInt8) : ℕ := (de.getD 0 0).toNat + 256 * (de.getD 1 0).toNat

/-- `de.name` -/
def deName (de : List UInt8) : List UInt8 := (de.drop 2).take DIRSIZ

/-- The entry at `off` of a directory with bytes `c`. -/
def entry (c : ℕ → UInt8) (off : ℕ) : List UInt8 := (List.range DESIZE).map fun k => c (off + k)

/-- The bytes of an entry. `strncpy` stops at a NUL and fills up with NULs. -/
def dirent (inum : ℕ) (name : List UInt8) : List UInt8 :=
  UInt8.ofNat inum :: UInt8.ofNat (inum / 256) ::
    (List.range DIRSIZ).map fun i => (cname name).getD i 0

lemma dirent_length (inum : ℕ) (name : List UInt8) : (dirent inum name).length = DESIZE := by
  simp [dirent]

lemma deInum_dirent {inum : ℕ} (name : List UInt8) (h : inum < 2 ^ 16) :
    deInum (dirent inum name) = inum := by
  simp only [deInum, dirent, List.getD_cons_zero, List.getD_cons_succ, UInt8.toNat_ofNat']
  omega

end Xv6.Fs
