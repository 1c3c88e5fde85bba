import Xv6.Lib.Conc
import Xv6.Lib.Sum
import Xv6.Param

/-!
The life of an inode: `iget`, `idup`, `ilock`, `iunlock`, `iput` and `ialloc` by any number of
processes, with each critical section of `icache.lock` a step and the sections of `ip->lock` cut
where another process can see what they have done.

`iput` drops `icache.lock` while it truncates and frees an inode and takes it again to drop the
reference. In between `ialloc` can hand out the same number, and `iget` gives it the same entry.
-/

namespace Xv6.Lifetime

open Function Lib.Sum
open Lib.Conc (play play_induction)

variable {N : ℕ}

/-- `struct dinode`, as far as freeing goes. -/
structure Dinode where
  type : ℕ := 0
  nlink : ℕ := 0
  size : ℕ := 0
  deriving DecidableEq

/-- `struct inode`. -/
structure Inode (N : ℕ) where
  inum : ℕ := 0
  ref : ℕ := 0
  lock : Option (Fin N) := none
  valid : Bool := false
  din : Dinode := {}

/-- Where a process is: in `ilock` with the lock taken, in `ialloc` before `iget`, and in `iput`
with the lock taken, the disk inode freed, the lock released. -/
inductive Pc
  | out
  | loading (j : ℕ)
  | found (i : ℕ)
  | locked (j : ℕ)
  | freed (j : ℕ)
  | unlocked (j : ℕ)
  deriving DecidableEq

/-- The disk inodes, the inode cache, how many references each process has to each entry, and
which of them it has from `ialloc` without having locked the entry since. -/
structure State (N : ℕ) where
  disk : ℕ → Dinode
  inode : ℕ → Inode N := fun _ => {}
  refs : Fin N → ℕ → ℕ := fun _ _ => 0
  fresh : Fin N → ℕ → Bool := fun _ _ => false
  pc : Fin N → Pc := fun _ => .out

namespace State

def setInode (s : State N) (j : ℕ) (ip : Inode N) : State N :=
  { s with inode := update s.inode j ip }

def setDisk (s : State N) (i : ℕ) (d : Dinode) : State N := { s with disk := update s.disk i d }

def setPc (s : State N) (p : Fin N) (c : Pc) : State N := { s with pc := update s.pc p c }

def setRefs (s : State N) (p : Fin N) (j n : ℕ) : State N :=
  { s with refs := update s.refs p (update (s.refs p) j n) }

def setFresh (s : State N) (p : Fin N) (j : ℕ) (b : Bool) : State N :=
  { s with fresh := update s.fresh p (update (s.fresh p) j b) }

/-- `ip->ref++`, with the new reference in the hands of `q`. -/
def hold (s : State N) (q : Fin N) (j : ℕ) : State N :=
  (s.setInode j { s.inode j with ref := (s.inode j).ref + 1 }).setRefs q j (s.refs q j + 1)

/-- `ip->ref--` -/
def drop (s : State N) (p : Fin N) (j : ℕ) : State N :=
  (s.setInode j { s.inode j with ref := (s.inode j).ref - 1 }).setRefs p j (s.refs p j - 1)

/-- The entry of inode number `i`. -/
def cached (s : State N) (i : ℕ) : Option ℕ :=
  (List.range NINODE).find? fun j => 0 < (s.inode j).ref ∧ (s.inode j).inum = i

def empty (s : State N) : Option ℕ := (List.range NINODE).find? fun j => (s.inode j).ref = 0

/-- `ip->dev = dev; ip->inum = inum; ip->ref = 1; ip->valid = 0;` -/
def recycle (s : State N) (p : Fin N) (j i : ℕ) : State N :=
  (s.setInode j { s.inode j with inum := i, ref := 1, valid := false }).setRefs p j
    (s.refs p j + 1)

/-- `p` takes the lock, and is at `c` then. -/
def acquire (s : State N) (p : Fin N) (j : ℕ) (c : Pc) : State N :=
  (s.setInode j { s.inode j with lock := some p }).setPc p c

/-- The entry gets what the disk has. -/
def load (s : State N) (j : ℕ) : State N :=
  s.setInode j { s.inode j with valid := true, din := s.disk (s.inode j).inum }

/-- The entry and the disk get new contents. -/
def store (s : State N) (j : ℕ) (d : Dinode) : State N :=
  (s.setInode j { s.inode j with din := d }).setDisk (s.inode j).inum d

def release (s : State N) (j : ℕ) : State N := s.setInode j { s.inode j with lock := none }

/-- `ip->valid = 0` and `releasesleep` -/
def discard (s : State N) (j : ℕ) : State N :=
  s.setInode j { s.inode j with valid := false, lock := none }

/-- Without an entry to recycle the kernel panics. -/
def iget (s : State N) (p : Fin N) (i : ℕ) : Option (ℕ × State N) :=
  match s.cached i with
  | some j => some (j, s.hold p j)
  | none => s.empty.map fun j => (j, s.recycle p j i)

/-- `ip->ref == 1 && ip->valid && ip->nlink == 0` -/
def Last (s : State N) (j : ℕ) : Prop :=
  (s.inode j).ref = 1 ∧ (s.inode j).valid = true ∧ (s.inode j).din.nlink = 0

instance (s : State N) (j : ℕ) : Decidable (s.Last j) := inferInstanceAs (Decidable (_ ∧ _))

/-- The process can call `iput` on the entry: it has a reference, and one more if it has the
entry locked. -/
def CanPut (s : State N) (p : Fin N) (j : ℕ) : Prop :=
  1 ≤ s.refs p j ∧ ((s.inode j).lock = some p → 2 ≤ s.refs p j)

instance (s : State N) (p : Fin N) (j : ℕ) : Decidable (s.CanPut p j) :=
  inferInstanceAs (Decidable (_ ∧ _))

end State

/-- What a process does next. -/
inductive Op (N : ℕ)
  /-- `iget` of a number found in a directory entry -/
  | iget (i : ℕ)
  /-- `idup`, for another process in `fork` -/
  | idup (j : ℕ) (q : Fin N)
  /-- `acquiresleep` in `ilock` -/
  | ilock (j : ℕ)
  /-- the rest of `ilock` -/
  | load
  /-- a change of `nlink` or `size` with `iupdate`, as in `create`, `sys_link` and `sys_unlink` -/
  | change (j nlink size : ℕ)
  | iunlock (j : ℕ)
  /-- `iput` up to its first `release` -/
  | iput (j : ℕ)
  /-- `itrunc`, `ip->type = 0` and `iupdate` in `iput` -/
  | free
  /-- `ip->valid = 0` and `releasesleep` in `iput` -/
  | unlock
  /-- the second critical section of `iput` -/
  | last
  /-- `ialloc` up to `brelse` -/
  | ialloc (i type : ℕ)
  /-- `iget` in `ialloc` -/
  | take

/-- What the operation of process `p` does, if it can be done now. An `acquiresleep` cannot
while the lock is held, and a panic is no step. -/
def step (p : Fin N) (s : State N) : Op N → Option (State N)
  | .iget i =>
    if s.pc p = .out ∧ (s.disk i).nlink ≠ 0 then (s.iget p i).map Prod.snd else none
  | .idup j q =>
    if s.pc p = .out ∧ s.pc q = .out ∧ 1 ≤ s.refs p j then some (s.hold q j) else none
  | .ilock j =>
    if s.pc p = .out ∧ 1 ≤ s.refs p j ∧ (s.inode j).lock = none then
      some (s.acquire p j (.loading j))
    else none
  | .load => match s.pc p with
    | .loading j =>
      if (s.inode j).valid = true then some ((s.setFresh p j false).setPc p .out)
      else if (s.disk (s.inode j).inum).type = 0 then none
      else some (((s.load j).setFresh p j false).setPc p .out)
    | _ => none
  | .change j nlink size =>
    if s.pc p = .out ∧ (s.inode j).lock = some p then
      some (s.store j ⟨(s.inode j).din.type, nlink, size⟩)
    else none
  | .iunlock j =>
    if s.pc p = .out ∧ (s.inode j).lock = some p then some (s.release j) else none
  | .iput j =>
    if s.pc p = .out ∧ s.CanPut p j then
      if s.Last j then
        if (s.inode j).lock = none then some (s.acquire p j (.locked j)) else none
      else some (s.drop p j)
    else none
  | .free => match s.pc p with
    | .locked j => some ((s.store j ⟨0, (s.inode j).din.nlink, 0⟩).setPc p (.freed j))
    | _ => none
  | .unlock => match s.pc p with
    | .freed j => some ((s.discard j).setPc p (.unlocked j))
    | _ => none
  | .last => match s.pc p with
    | .unlocked j => some ((s.drop p j).setPc p .out)
    | _ => none
  | .ialloc i type =>
    if s.pc p = .out ∧ (s.disk i).type = 0 ∧ type ≠ 0 then
      some ((s.setDisk i { type := type }).setPc p (.found i))
    else none
  | .take => match s.pc p with
    | .found i => (s.iget p i).map fun r => (r.2.setFresh p r.1 true).setPc p .out
    | _ => none

/-- The states of the runs from `s₀` whose steps all meet condition `C`. -/
inductive Reach (C : State N → Fin N → Op N → Prop) (s₀ : State N) : State N → Prop
  | refl : Reach C s₀ s₀
  | step {s s' : State N} {p : Fin N} {o : Op N} (h : Reach C s₀ s) (hC : C s p o)
      (hs : step p s o = some s') : Reach C s₀ s'

/-- No process has a reference, and the allocated inodes are those with links. -/
structure Start (s : State N) : Prop where
  inode : ∀ j, (s.inode j).ref = 0 ∧ (s.inode j).lock = none
  refs : ∀ p j, s.refs p j = 0
  fresh : ∀ p j, s.fresh p j = false
  pc : ∀ p, s.pc p = .out
  linked : ∀ i, (s.disk i).type = 0 ↔ (s.disk i).nlink = 0

/-! ### What the processes own -/

/-- The process has a reference to the entry besides the one that `iput` is dropping. -/
def Uses (s : State N) (p : Fin N) (j : ℕ) : Prop :=
  1 ≤ s.refs p j ∧ s.pc p ≠ .freed j ∧ s.pc p ≠ .unlocked j

structure Inv (s : State N) : Prop where
  count : ∀ j, (s.inode j).ref = ∑ p, s.refs p j
  few : ∀ j, NINODE ≤ j → (s.inode j).ref = 0
  uniq : ∀ j k, 0 < (s.inode j).ref → 0 < (s.inode k).ref →
    (s.inode j).inum = (s.inode k).inum → j = k
  stake : ∀ p j, (s.inode j).lock = some p → 1 ≤ s.refs p j
  locked : ∀ p j, s.pc p = .loading j ∨ s.pc p = .locked j ∨ s.pc p = .freed j →
    (s.inode j).lock = some p
  leaving : ∀ p j, s.pc p = .freed j ∨ s.pc p = .unlocked j → s.refs p j = 1
  released : ∀ p j, s.pc p = .unlocked j → (s.inode j).lock ≠ some p
  loaded : ∀ p j, (s.inode j).lock = some p → s.pc p ≠ .loading j → (s.inode j).valid = true
  valid : ∀ j, 0 < (s.inode j).ref → (s.inode j).valid = true → (∀ p, s.pc p ≠ .freed j) →
    (s.inode j).din = s.disk (s.inode j).inum ∧ (s.inode j).din.type ≠ 0
  last : ∀ p j, s.pc p = .locked j → (s.inode j).ref = 1 ∧ (s.inode j).din.nlink = 0
  typed : ∀ p j, Uses s p j → (s.disk (s.inode j).inum).type ≠ 0
  linked : ∀ i, (s.disk i).nlink ≠ 0 → (s.disk i).type ≠ 0
  found : ∀ p i, s.pc p = .found i → (s.disk i).type ≠ 0 ∧ (s.disk i).nlink = 0 ∧
    ∀ q j, Uses s q j → (s.inode j).inum ≠ i
  finder : ∀ p q i, s.pc p = .found i → s.pc q = .found i → p = q

namespace State

variable (s : State N) (p q : Fin N) (i j k n : ℕ) (ip : Inode N) (d : Dinode) (c : Pc) (b : Bool)

@[grind =] lemma inode_setInode :
    (s.setInode j ip).inode k = if k = j then ip else s.inode k := by
  unfold setInode
  simp only [update_apply]

@[grind =] lemma disk_setDisk :
    (s.setDisk i d).disk k = if k = i then d else s.disk k := by
  unfold setDisk
  simp only [update_apply]

@[grind =] lemma pc_setPc :
    (s.setPc p c).pc q = if q = p then c else s.pc q := by
  unfold setPc
  simp only [update_apply]

@[grind =] lemma disk_setInode : (s.setInode j ip).disk k = s.disk k := rfl
@[grind =] lemma refs_setInode : (s.setInode j ip).refs q k = s.refs q k := rfl
@[grind =] lemma pc_setInode : (s.setInode j ip).pc q = s.pc q := rfl
@[grind =] lemma inode_setDisk : (s.setDisk i d).inode k = s.inode k := rfl
@[grind =] lemma refs_setDisk : (s.setDisk i d).refs q k = s.refs q k := rfl
@[grind =] lemma pc_setDisk : (s.setDisk i d).pc q = s.pc q := rfl
@[grind =] lemma inode_setRefs : (s.setRefs p j n).inode k = s.inode k := rfl
@[grind =] lemma disk_setRefs : (s.setRefs p j n).disk k = s.disk k := rfl
@[grind =] lemma pc_setRefs : (s.setRefs p j n).pc q = s.pc q := rfl
@[grind =] lemma inode_setPc : (s.setPc p c).inode k = s.inode k := rfl
@[grind =] lemma disk_setPc : (s.setPc p c).disk k = s.disk k := rfl
@[grind =] lemma refs_setPc : (s.setPc p c).refs q k = s.refs q k := rfl

@[grind =] lemma inode_setFresh : (s.setFresh p j b).inode k = s.inode k := rfl
@[grind =] lemma disk_setFresh : (s.setFresh p j b).disk k = s.disk k := rfl
@[grind =] lemma refs_setFresh : (s.setFresh p j b).refs q k = s.refs q k := rfl
@[grind =] lemma pc_setFresh : (s.setFresh p j b).pc q = s.pc q := rfl
@[grind =] lemma fresh_setInode : (s.setInode j ip).fresh q k = s.fresh q k := rfl
@[grind =] lemma fresh_setDisk : (s.setDisk i d).fresh q k = s.fresh q k := rfl
@[grind =] lemma fresh_setRefs : (s.setRefs p j n).fresh q k = s.fresh q k := rfl
@[grind =] lemma fresh_setPc : (s.setPc p c).fresh q k = s.fresh q k := rfl

@[grind =] lemma fresh_setFresh :
    (s.setFresh p j b).fresh q k = if q = p ∧ k = j then b else s.fresh q k := by
  unfold setFresh
  simp only [update_apply]
  split <;> split <;> simp_all

@[grind =] lemma refs_setRefs :
    (s.setRefs p j n).refs q k = if q = p ∧ k = j then n else s.refs q k := by
  unfold setRefs
  simp only [update_apply]
  split <;> split <;> simp_all

lemma sum_setRefs (s : State N) (p : Fin N) (j n : ℕ) :
    (∑ q, (s.setRefs p j n).refs q j) + s.refs p j = (∑ q, s.refs q j) + n := by
  have : (fun q => (s.setRefs p j n).refs q j) = update (fun q => s.refs q j) p n := by
    funext q
    simp only [refs_setRefs, update_apply, and_true]
  rw [this]
  exact sum_update _ p n

lemma sum_setRefs_of_ne (s : State N) (p : Fin N) {j k : ℕ} (n : ℕ) (hk : k ≠ j) :
    ∑ q, (s.setRefs p j n).refs q k = ∑ q, s.refs q k :=
  Finset.sum_congr rfl fun q _ => by rw [refs_setRefs, if_neg fun h => hk h.2]

end State

namespace Inv

variable {s : State N} {p q : Fin N} {j : ℕ}

lemma refs_le (h : Inv s) (p : Fin N) (j : ℕ) : s.refs p j ≤ (s.inode j).ref := by
  rw [h.count]
  exact le_sum (fun q => s.refs q j) p

lemma refs_add_le (h : Inv s) (hpq : p ≠ q) (j : ℕ) :
    s.refs p j + s.refs q j ≤ (s.inode j).ref := by
  rw [h.count]
  exact add_le_sum (fun q => s.refs q j) hpq

lemma only (h : Inv s) (hr : (s.inode j).ref = 1) (hp : 1 ≤ s.refs p j) (hq : 1 ≤ s.refs q j) :
    q = p := by
  by_contra hne
  have := h.refs_add_le hne j
  omega

lemma count_set (h : ∀ j, (s.inode j).ref = ∑ p, s.refs p j) (p : Fin N) (j : ℕ) (ip : Inode N)
    (n : ℕ) (he : ip.ref + s.refs p j = (s.inode j).ref + n) (k : ℕ) :
    (((s.setInode j ip).setRefs p j n).inode k).ref =
      ∑ q, ((s.setInode j ip).setRefs p j n).refs q k := by
  rw [State.inode_setRefs, State.inode_setInode]
  split
  · next hk =>
    have hs : _ = (∑ q, s.refs q j) + n := (s.setInode j ip).sum_setRefs p j n
    simp only [State.refs_setInode, ← h j] at hs
    rw [hk]
    omega
  · next hk => rw [State.sum_setRefs_of_ne _ p n hk]; simp only [State.refs_setInode, h k]

lemma count_frame (h : Inv s) {s' : State N} (hr : s'.refs = s.refs)
    (hk : ∀ k, (s'.inode k).ref = (s.inode k).ref) (k : ℕ) :
    (s'.inode k).ref = ∑ p, s'.refs p k := by
  rw [hk, hr, h.count]

lemma holder (h : Inv s) (hr : 0 < (s.inode j).ref) : ∃ p, 1 ≤ s.refs p j := by
  by_contra hn
  simp only [not_exists, not_le, Nat.lt_one_iff] at hn
  rw [h.count, Finset.sum_eq_zero fun p _ => hn p] at hr
  exact lt_irrefl 0 hr

lemma lock_uses (h : Inv s) (hl : (s.inode j).lock = some p) (hp : s.pc p = .out) :
    Uses s p j :=
  ⟨h.stake p j hl, by rw [hp]; exact Pc.noConfusion, by rw [hp]; exact Pc.noConfusion⟩

lemma din_eq (h : Inv s) (hl : (s.inode j).lock = some p) (hl' : s.pc p ≠ .loading j)
    (hf : s.pc p ≠ .freed j) : (s.inode j).din = s.disk (s.inode j).inum := by
  have hpos := lt_of_lt_of_le (h.stake p j hl) (h.refs_le p j)
  refine (h.valid j hpos (h.loaded p j hl hl') fun q hq => ?_).1
  have hlq := h.locked q j (.inr (.inr hq))
  rw [hl] at hlq
  exact hf (Option.some.inj hlq ▸ hq)

end Inv

/-! ### What a process does by itself -/

/-- The operations of process `p` on entry or inode `j`, apart from those that take a reference. -/
inductive Own (p : Fin N) (s : State N) (j : ℕ) : Op N → State N → Prop
  | ilock (hp : s.pc p = .out) (hr : 1 ≤ s.refs p j) (hl : (s.inode j).lock = none) :
      Own p s j (.ilock j) (s.acquire p j (.loading j))
  | loaded (hp : s.pc p = .loading j) (hv : (s.inode j).valid = true) :
      Own p s j .load ((s.setFresh p j false).setPc p .out)
  | load (hp : s.pc p = .loading j) (hv : (s.inode j).valid ≠ true) :
      Own p s j .load (((s.load j).setFresh p j false).setPc p .out)
  | change {nlink size : ℕ} (hp : s.pc p = .out) (hl : (s.inode j).lock = some p) :
      Own p s j (.change j nlink size) (s.store j ⟨(s.inode j).din.type, nlink, size⟩)
  | iunlock (hp : s.pc p = .out) (hl : (s.inode j).lock = some p) :
      Own p s j (.iunlock j) (s.release j)
  | lock (hp : s.pc p = .out) (hput : s.CanPut p j) (ht : s.Last j) (hl : (s.inode j).lock = none) :
      Own p s j (.iput j) (s.acquire p j (.locked j))
  | drop (hp : s.pc p = .out) (hput : s.CanPut p j) (ht : ¬ s.Last j) :
      Own p s j (.iput j) ((s.drop p j).setPc p .out)
  | free (hp : s.pc p = .locked j) :
      Own p s j .free ((s.store j ⟨0, (s.inode j).din.nlink, 0⟩).setPc p (.freed j))
  | unlock (hp : s.pc p = .freed j) : Own p s j .unlock ((s.discard j).setPc p (.unlocked j))
  | last (hp : s.pc p = .unlocked j) : Own p s j .last ((s.drop p j).setPc p .out)
  | ialloc {type : ℕ} (hp : s.pc p = .out) (h0 : (s.disk j).type = 0) (ht : type ≠ 0) :
      Own p s j (.ialloc j type) ((s.setDisk j { type := type }).setPc p (.found j))

attribute [local grind] State.hold State.recycle State.drop State.Last State.CanPut State.acquire
  State.load State.store State.release State.discard

namespace Own

variable {s s' : State N} {p : Fin N} {j : ℕ} {o : Op N}

section

variable (c : Own p s j o s')

include c

lemma pc_of_ne {q : Fin N} (hq : q ≠ p) : s'.pc q = s.pc q := by
  cases c with
  | change | iunlock => rfl
  | _ => exact update_of_ne hq ..

variable (h : Inv s) (q : Fin N) (k i : ℕ)

include h

lemma count : (s'.inode k).ref = ∑ q, s'.refs q k := by
  have hle := h.refs_le p j
  cases c with
  | drop hp hput =>
    have := hput.1
    exact Inv.count_set h.count p j _ _ (by simp only; omega) k
  | last hp =>
    have := h.leaving p j (.inr hp)
    exact Inv.count_set h.count p j _ _ (by simp only; omega) k
  | _ => exact h.count_frame (by rfl) (fun k => by grind) k

lemma few (hk : NINODE ≤ k) : (s'.inode k).ref = 0 := by
  have hz := h.few k hk
  cases c <;> grind

lemma uniq (l : ℕ) (hk : 0 < (s'.inode k).ref) (hl : 0 < (s'.inode l).ref)
    (he : (s'.inode k).inum = (s'.inode l).inum) : k = l := by
  have hu := h.uniq k l
  cases c <;> grind

lemma stake (hl : (s'.inode k).lock = some q) : 1 ≤ s'.refs q k := by
  have hs := h.stake q k
  cases c with
  | drop hp hput => -- one reference more than the one that goes
    have := hput.2
    grind
  | last hp => -- the lock has been released
    have := h.released p j hp
    grind
  | _ => grind

lemma locked (hq : s'.pc q = .loading k ∨ s'.pc q = .locked k ∨ s'.pc q = .freed k) :
    (s'.inode k).lock = some q := by
  have hk := h.locked q k
  cases c with
  | free hp => -- `p` still has the lock
    have := h.locked p j (.inr (.inl hp))
    grind
  | unlock hp => -- the lock that goes is not that of another process
    have := h.locked p j (.inr (.inr hp))
    grind
  | _ => grind

lemma leaving (hq : s'.pc q = .freed k ∨ s'.pc q = .unlocked k) : s'.refs q k = 1 := by
  have hk := h.leaving q k
  cases c with
  | free hp => -- the only reference is that of the holder of the lock
    have := h.stake p j (h.locked p j (.inr (.inl hp)))
    have := h.refs_le p j
    have := (h.last p j hp).1
    grind
  | _ => grind

lemma released (hq : s'.pc q = .unlocked k) : (s'.inode k).lock ≠ some q := by
  have hk := h.released q k
  cases c <;> grind

lemma loaded_of (hl : (s'.inode k).lock = some q) (hq : s'.pc q ≠ .loading k) :
    (s'.inode k).valid = true := by
  have hk := h.loaded q k
  cases c with
  | lock hp hput ht => -- `ip->valid` has been tested
    have := ht.2.1
    grind
  | _ => grind

lemma last_of (hq : s'.pc q = .locked k) : (s'.inode k).ref = 1 ∧ (s'.inode k).din.nlink = 0 := by
  have hk := h.last q k
  have hlock := h.locked q k
  cases c with
  -- who loads or changes an entry, or frees its inode, has the lock that `q` has
  | load hp =>
    have := h.locked p j (.inl hp)
    grind
  | free hp =>
    have := h.locked p j (.inr (.inl hp))
    grind
  -- and who drops a reference had another one than `q`
  | drop hp hput =>
    have := h.stake q k
    have := fun hne => h.refs_add_le (p := p) (q := q) hne j
    have := hput.1
    grind
  | last hp =>
    have := h.stake q k
    have := fun hne => h.refs_add_le (p := p) (q := q) hne j
    have := h.leaving p j (.inr hp)
    grind
  | _ => grind

lemma linked (hn : (s'.disk i).nlink ≠ 0) : (s'.disk i).type ≠ 0 := by
  have hi := h.linked i
  cases c with
  | change hp hl => -- the type stays, and is not 0
    have := h.typed p j (h.lock_uses hl hp)
    have := h.din_eq hl (by simp [hp]) (by simp [hp])
    grind
  | free hp =>
    have := (h.last p j hp).2
    grind
  | _ => grind

lemma finder (r : Fin N) (hq : s'.pc q = .found i) (hr : s'.pc r = .found i) : q = r := by
  have hf := h.finder q r i
  cases c with
  | ialloc hp h0 => -- a number that was found is not free
    have := h.found q i
    have := h.found r i
    grind
  | _ => grind

lemma typed (hu : Uses s' q k) : (s'.disk (s'.inode k).inum).type ≠ 0 := by
  have hk := h.typed q k
  unfold Uses at *
  cases c with
  | change hp hl =>
    have := h.typed p j (h.lock_uses hl hp)
    have := h.din_eq hl (by simp [hp]) (by simp [hp])
    grind
  | free hp => -- the freed inode has no other entry, and nobody else a reference
    have hl := h.locked p j (.inr (.inl hp))
    have hr := h.stake p j hl
    have := h.refs_le p j
    have := h.uniq k j
    have := h.refs_le q k
    have := h.only (p := p) (q := q) (h.last p j hp).1
    grind
  | drop hp hput =>
    have := hput.1
    grind
  | last hp =>
    have := h.leaving p j (.inr hp)
    grind
  | _ => grind

lemma valid (hpos : 0 < (s'.inode k).ref) (hv : (s'.inode k).valid = true)
    (hn : ∀ q, s'.pc q ≠ .freed k) :
    (s'.inode k).din = s'.disk (s'.inode k).inum ∧ (s'.inode k).din.type ≠ 0 := by
  have hold := fun (hp : s.pc p ≠ .freed k) hpos hv => h.valid k hpos hv fun q =>
    (eq_or_ne q p).elim (fun he => he ▸ hp) fun he => c.pc_of_ne he ▸ hn q
  have hself := hn p
  have hu := h.uniq k j
  clear hn
  cases c with
  | load hp => -- what was read has a type
    have hl := h.locked p j (.inl hp)
    have := h.typed p j ⟨h.stake p j hl, by simp [hp], by simp [hp]⟩
    grind
  | change hp hl =>
    have := h.stake p j hl
    have := h.refs_le p j
    have := h.typed p j (h.lock_uses hl hp)
    have := h.din_eq hl (by simp [hp]) (by simp [hp])
    grind
  | free hp =>
    have := h.stake p j (h.locked p j (.inr (.inl hp)))
    have := h.refs_le p j
    grind
  | _ => grind

lemma found (hq : s'.pc q = .found i) :
    (s'.disk i).type ≠ 0 ∧ (s'.disk i).nlink = 0 ∧ ∀ r k, Uses s' r k → (s'.inode k).inum ≠ i := by
  have hold := h.found q i
  unfold Uses at *
  cases c with
  | change hp hl => -- the inode is in use, so it is not one that was found
    obtain ⟨h1, h2, h3⟩ := hold hq
    have hne := h3 p j (h.lock_uses hl hp)
    exact ⟨by grind, by grind, fun r k hu => by have := h3 r k hu; grind⟩
  | free hp =>
    have hl := h.locked p j (.inr (.inl hp))
    have := fun hq => (h.found q i hq).2.2 p j ⟨h.stake p j hl, by simp [hp], by simp [hp]⟩
    grind
  | last hp =>
    have := h.leaving p j (.inr hp)
    grind
  | ialloc hp h0 => -- who uses an inode has one that is not free
    have := h.typed
    unfold Uses at *
    grind
  | _ => grind

end

end Own

section

variable {s s' : State N} {p : Fin N} {i j : ℕ} (h : Inv s)

include h

lemma Inv.own {o : Op N} (c : Own p s j o s') : Inv s' where
  count := c.count h
  few := c.few h
  uniq := c.uniq h
  stake := c.stake h
  locked := c.locked h
  leaving := c.leaving h
  released := c.released h
  loaded := c.loaded_of h
  valid := c.valid h
  last := c.last_of h
  typed := c.typed h
  linked := c.linked h
  found := c.found h
  finder q r i := c.finder h q i r

lemma Inv.setFresh {b : Bool} : Inv (s.setFresh p j b) := { h with }

/-- `ialloc` is about to look for an entry. -/
lemma Inv.leave (hp : s.pc p = .found i) : Inv (s.setPc p .out) where
  count := h.count
  few := h.few
  uniq := h.uniq
  stake := h.stake
  locked q k := by have := h.locked q k; grind
  leaving q k := by have := h.leaving q k; grind
  released q k := by have := h.released q k; grind
  loaded q k := by have := h.loaded q k; grind
  valid k hpos hv hn := h.valid k hpos hv fun q hq => hn q (by grind)
  last q k := by have := h.last q k; grind
  typed q k := by have := h.typed q k; unfold Uses at *; grind
  linked := h.linked
  found q k := by have := h.found q k; unfold Uses at *; grind
  finder q r k := by have := h.finder q r k; grind

end

/-! ### iget -/

section iget

variable {s s' : State N} {p q : Fin N} {i j : ℕ}

lemma cached_some (h : s.cached i = some j) :
    j < NINODE ∧ 0 < (s.inode j).ref ∧ (s.inode j).inum = i := by
  have hm := List.mem_of_find?_eq_some h
  have hs := List.find?_some h
  simp only [decide_eq_true_eq] at hs
  exact ⟨List.mem_range.mp hm, hs⟩

lemma cached_none (h : s.cached i = none) (hj : j < NINODE) (hr : 0 < (s.inode j).ref) :
    (s.inode j).inum ≠ i := by
  have := List.find?_eq_none.mp h j (List.mem_range.mpr hj)
  simp only [decide_eq_true_eq, not_and] at this
  exact this hr

lemma empty_some (h : s.empty = some j) : j < NINODE ∧ (s.inode j).ref = 0 := by
  have hm := List.mem_of_find?_eq_some h
  have hs := List.find?_some h
  simp only [decide_eq_true_eq] at hs
  exact ⟨List.mem_range.mp hm, hs⟩

/-- What `iget` does: one more reference, or an entry for a number that had none. -/
lemma iget_cases (h : Inv s) (hg : s.iget p i = some (j, s')) :
    (0 < (s.inode j).ref ∧ (s.inode j).inum = i ∧ s' = s.hold p j) ∨
      (j < NINODE ∧ (s.inode j).ref = 0 ∧
        (∀ k, 0 < (s.inode k).ref → (s.inode k).inum ≠ i) ∧ s' = s.recycle p j i) := by
  unfold State.iget at hg
  cases hc : s.cached i with
  | some k =>
    rw [hc] at hg
    cases hg
    exact .inl ⟨(cached_some hc).2.1, (cached_some hc).2.2, rfl⟩
  | none =>
    rw [hc] at hg
    obtain ⟨k, hk, he⟩ := Option.map_eq_some_iff.mp hg
    cases he
    refine .inr ⟨(empty_some hk).1, (empty_some hk).2, fun l hl => ?_, rfl⟩
    rcases Nat.lt_or_ge l NINODE with hlt | hge
    · exact cached_none hc hlt hl
    · have := h.few l hge
      omega

lemma iget_setPc (s : State N) (p q : Fin N) (i : ℕ) (c : Pc) :
    (s.setPc q c).iget p i = (s.iget p i).map fun r => (r.1, r.2.setPc q c) := by
  unfold State.iget
  rw [show (s.setPc q c).cached i = s.cached i from rfl,
    show (s.setPc q c).empty = s.empty from rfl]
  cases s.cached i with
  | some j => rfl
  | none => cases s.empty <;> rfl

section

variable (h : Inv s) (hp : s.pc p = .out)

include h hp

/-- A new reference to entry `j`, which was in use or is now that of an inode without one. -/
lemma Inv.take {ip : Inode N} (hj : j < NINODE) (href : ip.ref = (s.inode j).ref + 1)
    (hlock : ip.lock = (s.inode j).lock)
    (hip : 0 < (s.inode j).ref ∧ ip = { s.inode j with ref := ip.ref } ∨ (s.inode j).ref = 0 ∧
      ip.valid = false ∧ ∀ k, 0 < (s.inode k).ref → (s.inode k).inum ≠ ip.inum)
    (ht : (s.disk ip.inum).type ≠ 0) (hl : ∀ q, s.pc q ≠ .locked j)
    (hf : ∀ q, s.pc q ≠ .found ip.inum) :
    Inv ((s.setInode j ip).setRefs p j (s.refs p j + 1)) := by
  have hstake : ∀ q, (s.inode j).lock = some q → 0 < (s.inode j).ref :=
    fun q hq => lt_of_lt_of_le (h.stake q j hq) (h.refs_le q j)
  exact {
    count := Inv.count_set h.count p j _ _ (by omega)
    few := fun k => by have := h.few k; grind
    uniq := fun k l => by have := h.uniq k l; grind
    stake := fun q k => by have := h.stake q k; grind
    locked := fun q k => by have := h.locked q k; grind
    leaving := fun q k => by have := h.leaving q k; grind
    released := fun q k => by have := h.released q k; grind
    loaded := fun q k => by have := h.loaded q k; grind
    valid := fun k _ hv hn => by have := fun hpos hv => h.valid k hpos hv hn; grind
    last := fun q k => by have := h.last q k; grind
    typed := fun q k => by have := h.typed q k; have := h.refs_le q k; unfold Uses at *; grind
    linked := h.linked
    found := fun q i hq => by
      obtain ⟨h1, h2, h3⟩ := h.found q i hq
      refine ⟨h1, h2, fun r k hu => ?_⟩
      have := h3 r k
      unfold Uses at *
      grind
    finder := h.finder }

lemma Inv.hold (hpos : 0 < (s.inode j).ref) (ht : (s.disk (s.inode j).inum).type ≠ 0)
    (hl : ∀ q, s.pc q ≠ .locked j) (hf : ∀ q, s.pc q ≠ .found (s.inode j).inum) :
    Inv (s.hold p j) := by
  refine h.take hp ?_ rfl rfl (.inl ⟨hpos, rfl⟩) ht hl hf
  by_contra hj
  have := h.few j (by omega)
  omega

lemma Inv.recycle (hj : j < NINODE) (h0 : (s.inode j).ref = 0)
    (hi : ∀ k, 0 < (s.inode k).ref → (s.inode k).inum ≠ i) (ht : (s.disk i).type ≠ 0)
    (hf : ∀ q, s.pc q ≠ .found i) : Inv (s.recycle p j i) := by
  refine h.take hp hj (by rw [h0]) rfl (.inr ⟨h0, rfl, hi⟩) ht (fun q hq => ?_) hf
  have := h.last q j hq
  omega

lemma Inv.iget (ht : (s.disk i).type ≠ 0) (hl : ∀ q j, s.pc q = .locked j → (s.inode j).inum ≠ i)
    (hf : ∀ q, s.pc q ≠ .found i) (hg : s.iget p i = some (j, s')) : Inv s' := by
  rcases iget_cases h hg with ⟨hpos, rfl, rfl⟩ | ⟨hj, h0, hi, rfl⟩
  · exact h.hold hp hpos ht (fun q hq => hl q j hq rfl) hf
  · exact h.recycle hp hj h0 hi ht hf

end

end iget

/-! ### Steps and runs -/

section run

variable {s s' s₀ : State N} {p : Fin N} {o : Op N}

lemma setPc_self (s : State N) {c : Pc} (hp : s.pc p = c) : s.setPc p c = s :=
  congrArg (fun f => { s with pc := f }) (by rw [← hp]; exact update_eq_self p _)

/-- What a step does. -/
inductive Move (p : Fin N) (s : State N) : Op N → State N → Prop
  | own {j : ℕ} {o : Op N} {s' : State N} (h : Own p s j o s') : Move p s o s'
  | iget {i j : ℕ} {s' : State N} (hp : s.pc p = .out) (hn : (s.disk i).nlink ≠ 0)
      (hg : s.iget p i = some (j, s')) : Move p s (.iget i) s'
  | idup {j : ℕ} {q : Fin N} (hp : s.pc p = .out) (hq : s.pc q = .out) (hr : 1 ≤ s.refs p j) :
      Move p s (.idup j q) (s.hold q j)
  | take {i j : ℕ} {s' : State N} (hp : s.pc p = .found i) (hg : s.iget p i = some (j, s')) :
      Move p s .take ((s'.setFresh p j true).setPc p .out)

lemma step_move (hs : step p s o = some s') : Move p s o s' := by
  cases o with
  | iget i =>
    simp only [step, Option.ite_none_right_eq_some] at hs
    obtain ⟨⟨hp, hn⟩, hs⟩ := hs
    obtain ⟨⟨j, t⟩, hg, rfl⟩ := Option.map_eq_some_iff.mp hs
    exact .iget hp hn hg
  | idup j q =>
    simp only [step, Option.ite_none_right_eq_some] at hs
    obtain ⟨⟨hp, hq, hr⟩, hs⟩ := hs
    cases hs
    exact .idup hp hq hr
  | ilock j =>
    simp only [step, Option.ite_none_right_eq_some] at hs
    obtain ⟨⟨hp, hr, hl⟩, hs⟩ := hs
    cases hs
    exact .own (.ilock hp hr hl)
  | load =>
    simp only [step] at hs
    split at hs
    · next j hp =>
      split at hs
      · next hv => cases hs; exact .own (.loaded hp hv)
      · next hv =>
        simp only [Option.ite_none_left_eq_some] at hs
        cases hs.2
        exact .own (.load hp hv)
    · cases hs
  | change j nlink size =>
    simp only [step, Option.ite_none_right_eq_some] at hs
    obtain ⟨⟨hp, hl⟩, hs⟩ := hs
    cases hs
    exact .own (.change hp hl)
  | iunlock j =>
    simp only [step, Option.ite_none_right_eq_some] at hs
    obtain ⟨⟨hp, hl⟩, hs⟩ := hs
    cases hs
    exact .own (.iunlock hp hl)
  | iput j =>
    simp only [step, Option.ite_none_right_eq_some] at hs
    obtain ⟨⟨hp, hput⟩, hs⟩ := hs
    split at hs
    · next ht =>
      simp only [Option.ite_none_right_eq_some] at hs
      obtain ⟨hl, hs⟩ := hs
      cases hs
      exact .own (.lock hp hput ht hl)
    · next ht =>
      cases hs
      rw [← setPc_self (s.drop p j) (c := .out) hp]
      exact .own (.drop hp hput ht)
  | free | unlock | last =>
    simp only [step] at hs
    split at hs
    · next j hp =>
      cases hs
      refine .own (j := j) ?_
      constructor
      exact hp
    · cases hs
  | ialloc i type =>
    simp only [step, Option.ite_none_right_eq_some] at hs
    obtain ⟨⟨hp, h0, ht⟩, hs⟩ := hs
    cases hs
    exact .own (.ialloc hp h0 ht)
  | take =>
    simp only [step] at hs
    split at hs
    · next i hp =>
      obtain ⟨⟨j, t⟩, hg, rfl⟩ := Option.map_eq_some_iff.mp hs
      exact .take hp hg
    · cases hs

lemma Inv.move (h : Inv s) (hm : Move p s o s') : Inv s' := by
  cases hm with
  | own c => exact h.own c
  | @iget i j _ hp hn hg =>
    refine h.iget hp (h.linked i hn) (fun q k hq hi => ?_) (fun q hq => ?_) hg
    · -- a locked entry has no links
      have hd := h.din_eq (h.locked q k (.inr (.inl hq))) (by simp [hq]) (by simp [hq])
      have hz := (h.last q k hq).2
      rw [hd, hi] at hz
      exact hn hz
    · exact hn (h.found q i hq).2.1
  | @idup j q hp hq hr =>
    have hu : Uses s p j := ⟨hr, by simp [hp], by simp [hp]⟩
    refine h.hold hq (lt_of_lt_of_le hr (h.refs_le p j)) (h.typed p j hu) (fun r hl => ?_)
      fun r hf => (h.found r _ hf).2.2 p j hu rfl
    have hstake := h.stake r j (h.locked r j (.inr (.inl hl)))
    have := h.only (h.last r j hl).1 hr hstake
    rw [this, hp] at hl
    cases hl
  | @take i j t hp hg =>
    obtain ⟨ht, -, hu⟩ := h.found p i hp
    have hg' := iget_setPc s p p i .out
    rw [hg] at hg'
    refine (Inv.iget (h.leave hp) (by grind) ht (fun q k hq hi => ?_) (fun q hq => ?_) hg').setFresh
    · have hq' : s.pc q = .locked k := by grind
      refine hu q k ⟨h.stake q k (h.locked q k (.inr (.inl hq'))), ?_, ?_⟩ hi
      · simp [hq']
      · simp [hq']
    · have hqp : q ≠ p := fun he => by grind
      exact hqp (h.finder q p i (by grind) hp)

/-- `ialloc` does not hand out a number whose last `iput` has not finished, and a process does
not drop an entry it has from `ialloc` before it has locked it. -/
def Calm (s : State N) (p : Fin N) : Op N → Prop
  | .ialloc i _ => ∀ q j, s.pc q = .freed j ∨ s.pc q = .unlocked j → (s.inode j).inum ≠ i
  | .iput j => s.fresh p j = false
  | _ => True

/-- The entry that `iput` is about to drop after it has freed the inode. -/
def Pc.leaving : Pc → Option ℕ
  | .freed j | .unlocked j => some j
  | _ => none

lemma Pc.leaving_iff {c : Pc} {j : ℕ} : c.leaving = some j ↔ c = .freed j ∨ c = .unlocked j := by
  cases c <;> simp [Pc.leaving]

instance (s : State N) (p : Fin N) (o : Op N) : Decidable (Calm s p o) :=
  match o with
  | .ialloc i _ => decidable_of_iff (∀ q, ∀ j ∈ (s.pc q).leaving, (s.inode j).inum ≠ i)
      (by simp only [Calm, Option.mem_def, Pc.leaving_iff])
  | .iput j => inferInstanceAs (Decidable (s.fresh p j = false))
  | .iget _ | .idup _ _ | .ilock _ | .load | .change _ _ _ | .iunlock _ | .free | .unlock
  | .last | .take => inferInstanceAs (Decidable True)

/-- An allocated inode without links is in the hands of `ialloc` or has an entry, which is loaded
or was not used since `ialloc`. -/
structure Kept (s : State N) : Prop where
  dead : ∀ p j, s.pc p = .freed j ∨ s.pc p = .unlocked j → (s.disk (s.inode j).inum).type = 0
  fresh : ∀ p j, s.fresh p j = true → 1 ≤ s.refs p j
  used : ∀ p j, s.pc p = .locked j ∨ s.pc p = .freed j ∨ s.pc p = .unlocked j →
    s.fresh p j = false
  kept : ∀ i, (s.disk i).type ≠ 0 → (s.disk i).nlink = 0 → (∃ p, s.pc p = .found i) ∨
    ∃ j, (s.inode j).inum = i ∧ 0 < (s.inode j).ref ∧
      ((s.inode j).valid = true ∨ ∃ p, s.fresh p j = true)
  apart : ∀ p i j, s.pc p = .found i → 0 < (s.inode j).ref → (s.inode j).inum ≠ i

namespace Kept

section

variable (hI : Inv s) (hk : Kept s) (hC : Calm s p o) (hm : Move p s o s') (q : Fin N)

include hI hk hC hm

lemma dead_move (k : ℕ) : s'.pc q = .freed k ∨ s'.pc q = .unlocked k →
      (s'.disk (s'.inode k).inum).type = 0 := by
  have := hk.dead q k
  have := hI.leaving q k
  have := hI.refs_le q k
  cases hm with
  | iget hp hn hg | take hp hg =>
    rcases iget_cases hI hg with ⟨-, -, rfl⟩ | ⟨-, h0, -, rfl⟩ <;> grind
  | idup => grind
  | own c =>
    cases c with
    | change hp hl => -- an inode that is in use is not one that was freed
      have := hI.typed p _ (hI.lock_uses hl hp)
      grind
    | ialloc =>
      have := hC q k
      grind
    | _ => grind

lemma fresh_move (k : ℕ) : s'.fresh q k = true → 1 ≤ s'.refs q k := by
  have := hk.fresh q k
  have := hk.used q k
  cases hm with
  | iget hp hn hg | take hp hg =>
    rcases iget_cases hI hg with ⟨-, -, rfl⟩ | ⟨-, h0, -, rfl⟩ <;> grind
  | idup => grind
  | @own j _ _ c =>
    cases c with
    | drop =>
      have hf : s.fresh p j = false := hC
      grind
    | _ => grind

lemma used_move (k : ℕ) : s'.pc q = .locked k ∨ s'.pc q = .freed k ∨ s'.pc q = .unlocked k →
      s'.fresh q k = false := by
  have := hk.used q k
  cases hm with
  | iget hp hn hg | take hp hg =>
    rcases iget_cases hI hg with ⟨-, -, rfl⟩ | ⟨-, h0, -, rfl⟩ <;> grind
  | idup => grind
  | @own j _ _ c =>
    cases c with
    | lock =>
      have hf : s.fresh p j = false := hC
      grind
    | _ => grind

lemma apart_move (i k : ℕ) (hq : s'.pc q = .found i) (hpos : 0 < (s'.inode k).ref) :
    (s'.inode k).inum ≠ i := by
  have := hk.apart q i k
  have := hI.refs_le p k
  cases hm with
  | iget hp hn hg =>
    have := hI.found q i
    rcases iget_cases hI hg with ⟨hpos, -, rfl⟩ | ⟨-, h0, -, rfl⟩ <;> grind
  | take hp hg =>
    have := hI.finder q p i
    rcases iget_cases hI hg with ⟨hpos, -, rfl⟩ | ⟨-, h0, -, rfl⟩ <;> grind
  | idup => grind
  | @own i' _ _ c =>
    cases c with
    | ialloc hp h0 ht =>
      rcases eq_or_ne q p with rfl | hqp
      · -- whoever has the number's entry would be using it, or be in `iput`
        have hi : i = i' := by grind
        obtain ⟨r, hr⟩ := hI.holder hpos
        intro hik
        by_cases hu : s.pc r = .freed k ∨ s.pc r = .unlocked k
        · exact hC r k hu (hik.trans hi)
        · have := hI.typed r k ⟨hr, fun h => hu (.inl h), fun h => hu (.inr h)⟩
          exact this (by rw [show (s.inode k).inum = i' from hik.trans hi]; exact h0)
      · grind
    | _ => grind

end

/-- An inode whose type and links stay is kept where its finder and its entry are. -/
lemma kept_of (hk : Kept s) {i : ℕ} (ht : (s.disk i).type ≠ 0) (hn : (s.disk i).nlink = 0)
    (hf : ∀ q, s.pc q = .found i → s'.pc q = .found i)
    (he : ∀ k, (s.inode k).inum = i → 0 < (s.inode k).ref →
      ((s.inode k).valid = true ∨ ∃ q, s.fresh q k = true) → (s'.inode k).inum = i ∧
      0 < (s'.inode k).ref ∧ ((s.inode k).valid = true → (s'.inode k).valid = true) ∧
      ∀ q, s.fresh q k = true → (s'.inode k).valid = true ∨ s'.fresh q k = true) :
    (∃ p, s'.pc p = .found i) ∨ ∃ j, (s'.inode j).inum = i ∧ 0 < (s'.inode j).ref ∧
      ((s'.inode j).valid = true ∨ ∃ p, s'.fresh p j = true) := by
  rcases hk.kept i ht hn with ⟨q, hq⟩ | ⟨k, hi, hpos, hv⟩
  · exact .inl ⟨q, hf q hq⟩
  · obtain ⟨hi', hpos', hv', hf'⟩ := he k hi hpos hv
    refine .inr ⟨k, hi', hpos', ?_⟩
    rcases hv with hv | ⟨q, hq⟩
    · exact .inl (hv' hv)
    · exact (hf' q hq).imp_right fun h => ⟨q, h⟩

/-- A last reference that is dropped is to an entry that is neither loaded nor fresh. -/
lemma kept_drop {i j : ℕ} (hI : Inv s) (hk : Kept s) (hp : s.pc p = .out ∨ s.pc p = .unlocked j)
    (hr : 1 ≤ s.refs p j) (hf : s.fresh p j = false)
    (hl : (s.inode j).ref = 1 → (s.disk (s.inode j).inum).type ≠ 0 →
      (s.disk (s.inode j).inum).nlink = 0 → (s.inode j).valid ≠ true)
    (ht : (s.disk i).type ≠ 0) (hn : (s.disk i).nlink = 0) :
    (∃ q, ((s.drop p j).setPc p .out).pc q = .found i) ∨
      ∃ k, (((s.drop p j).setPc p .out).inode k).inum = i ∧
        0 < (((s.drop p j).setPc p .out).inode k).ref ∧
        ((((s.drop p j).setPc p .out).inode k).valid = true ∨
          ∃ q, ((s.drop p j).setPc p .out).fresh q k = true) := by
  refine hk.kept_of ht hn (by grind) fun k hi hpos hv => ?_
  have hz : k = j → (s.inode j).ref ≠ 1 := by
    rintro rfl h1
    rcases hv with hv | ⟨q, hq⟩
    · exact hl h1 (by rwa [hi]) (by rwa [hi]) hv
    · have := hI.only h1 hr (hk.fresh q k hq)
      rw [this, hf] at hq
      cases hq
  exact ⟨by grind, by grind, by grind, fun q hq => .inr hq⟩

lemma kept_move (hI : Inv s) (hk : Kept s) (hC : Calm s p o) (hm : Move p s o s') (i : ℕ)
    (ht : (s'.disk i).type ≠ 0) (hn : (s'.disk i).nlink = 0) : (∃ p, s'.pc p = .found i) ∨
      ∃ j, (s'.inode j).inum = i ∧ 0 < (s'.inode j).ref ∧
        ((s'.inode j).valid = true ∨ ∃ p, s'.fresh p j = true) := by
  cases hm with
  | iget hp hlink hg =>
    rcases iget_cases hI hg with ⟨hpos, -, rfl⟩ | ⟨-, h0, -, rfl⟩ <;>
      exact hk.kept_of ht hn (by grind) (by grind)
  | @take i' j t hp hg =>
    rcases iget_cases hI hg with ⟨hpos, hi, rfl⟩ | ⟨-, h0, -, rfl⟩
    · exact absurd hi (hk.apart p i' j hp hpos)
    · rcases eq_or_ne i i' with rfl | hi
      · exact .inr ⟨j, by grind, by grind, .inr ⟨p, by grind⟩⟩
      · exact hk.kept_of ht hn (by grind) (by grind)
  | idup => exact hk.kept_of ht hn (by grind) (by grind)
  | @own j _ _ c =>
    cases c with
    | ilock | loaded | load | iunlock | lock => exact hk.kept_of ht hn (by grind) (by grind)
    | change hp hl =>
      rcases eq_or_ne i (s.inode j).inum with rfl | hi
      · have hpos := lt_of_lt_of_le (hI.stake p j hl) (hI.refs_le p j)
        have hv := hI.loaded p j hl (by simp [hp])
        exact .inr ⟨j, by grind, by grind, .inl (by grind)⟩
      · exact hk.kept_of (by grind) (by grind) (by grind) (by grind)
    | drop hp hput hlast =>
      refine hk.kept_drop hI (.inl hp) hput.1 hC (fun h1 _ hn hv => hlast ⟨h1, hv, ?_⟩) ht hn
      have hfree : ∀ q, s.pc q ≠ .freed j := fun q hq => by
        have := hI.only h1 hput.1 (hI.stake q j (hI.locked q j (.inr (.inr hq))))
        rw [this, hp] at hq
        cases hq
      rw [(hI.valid j (by omega) hv hfree).1]
      exact hn
    | last hp =>
      refine hk.kept_drop hI (.inr hp) (by rw [hI.leaving p j (.inr hp)])
        (hk.used p j (.inr (.inr hp))) (fun _ ht => ?_) ht hn
      exact absurd (hk.dead p j (.inr hp)) ht
    | free hp => exact hk.kept_of (by grind) (by grind) (by grind) (by grind)
    | unlock hp =>
      have hd := hk.dead p j (.inl hp)
      exact hk.kept_of ht hn (by grind) (by grind)
    | ialloc hp h0 htype =>
      rcases eq_or_ne i j with rfl | hi
      · exact .inl ⟨p, by grind⟩
      · exact hk.kept_of (by grind) (by grind) (by grind) (by grind)

end Kept

lemma Kept.move (hI : Inv s) (hk : Kept s) (hC : Calm s p o) (hm : Move p s o s') : Kept s' :=
  ⟨hk.dead_move hI hC hm, hk.fresh_move hI hC hm, hk.used_move hI hC hm, hk.kept_move hI hC hm,
    hk.apart_move hI hC hm⟩

/-! ### Results -/

lemma Start.inv (h : Start s) : Inv s := by
  have hu : ∀ p j, ¬ Uses s p j := fun p j hu => by
    have := hu.1
    rw [h.refs] at this
    omega
  refine {
    count := fun j => by rw [(h.inode j).1, Finset.sum_eq_zero fun p _ => h.refs p j]
    few := fun j _ => (h.inode j).1
    uniq := fun j _ hj => absurd hj (by rw [(h.inode j).1]; exact lt_irrefl 0)
    stake := fun p j hl => by rw [(h.inode j).2] at hl; cases hl
    locked := fun p j hp => by simp [h.pc] at hp
    leaving := fun p j hp => by simp [h.pc] at hp
    released := fun p j hp => by simp [h.pc] at hp
    loaded := fun p j hl => by rw [(h.inode j).2] at hl; cases hl
    valid := fun j hj => absurd hj (by rw [(h.inode j).1]; exact lt_irrefl 0)
    last := fun p j hp => by simp [h.pc] at hp
    typed := fun p j hp => absurd hp (hu p j)
    linked := fun i hn ht => hn ((h.linked i).mp ht)
    found := fun p i hp => by simp [h.pc] at hp
    finder := fun p q i hp => by simp [h.pc] at hp }

lemma Start.kept (h : Start s) : Kept s where
  dead p j hp := by simp [h.pc] at hp
  fresh p j hp := by simp [h.fresh] at hp
  used p j hp := by simp [h.pc] at hp
  kept i ht hn := absurd ((h.linked i).mpr hn) ht
  apart p i j hp := by simp [h.pc] at hp

lemma Reach.inv {C : State N → Fin N → Op N → Prop} (h0 : Start s₀) (h : Reach C s₀ s) :
    Inv s := by
  induction h with
  | refl => exact h0.inv
  | step _ _ hs ih => exact ih.move (step_move hs)

lemma Reach.kept (h0 : Start s₀) (h : Reach Calm s₀ s) : Kept s := by
  induction h with
  | refl => exact h0.kept
  | step h hC hs ih => exact ih.move (h.inv h0) hC (step_move hs)

/-- What is promised of every state: the `acquiresleep` in `iput` does not block, and `ilock`
does not find type 0. -/
structure Steady (s : State N) : Prop where
  unblocked : ∀ p j, s.pc p = .out → s.CanPut p j → s.Last j → (s.inode j).lock = none
  typed : ∀ p j, s.pc p = .loading j → (s.inode j).valid = false →
    (s.disk (s.inode j).inum).type ≠ 0

/-- In this step of process `p` an inode is truncated and freed only when it has no links and
the process has the only reference. -/
def FreesOnly (p : Fin N) (s s' : State N) : Prop :=
  ∀ i, (s.disk i).type ≠ 0 → (s'.disk i).type = 0 → (s.disk i).nlink = 0 ∧ (s'.disk i).size = 0 ∧
    ∃ j, (s.inode j).inum = i ∧ (s.inode j).ref = 1 ∧ s.refs p j = 1

/-- If the last reference to an inode is dropped in this step and it has no links, it is free. -/
def FreesLast (s s' : State N) : Prop :=
  ∀ j, (s.inode j).ref = 1 → (s'.inode j).ref = 0 →
    (s'.disk (s.inode j).inum).nlink = 0 → (s'.disk (s.inode j).inum).type = 0

lemma Inv.steady (h : Inv s) : Steady s := by
  refine ⟨fun p j hp hput hlast => ?_, fun p j hp _ => ?_⟩
  · -- a holder of the lock would have a reference of its own
    cases hl : (s.inode j).lock with
    | none => rfl
    | some q =>
      have hq := h.only hlast.1 hput.1 (h.stake q j hl)
      have h2 := hput.2 (hq ▸ hl)
      have := h.refs_le p j
      have := hlast.1
      omega
  · exact h.typed p j ⟨h.stake p j (h.locked p j (.inl hp)), by simp [hp], by simp [hp]⟩

lemma Move.frees {i : ℕ} (hm : Move p s o s') (hI : Inv s) (ht : (s.disk i).type ≠ 0)
    (ht' : (s'.disk i).type = 0) :
    ∃ j, s.pc p = .locked j ∧ (s.inode j).inum = i ∧ (s'.disk i).size = 0 := by
  cases hm with
  | iget hp hn hg | take hp hg =>
    rcases iget_cases hI hg with ⟨-, -, rfl⟩ | ⟨-, -, -, rfl⟩ <;> exact absurd ht' ht
  | idup => exact absurd ht' ht
  | @own j _ _ c =>
    cases c with
    | change hp hl => -- the type stays
      have hd := hI.din_eq hl (by simp [hp]) (by simp [hp])
      have := hI.typed p j (hI.lock_uses hl hp)
      grind
    | free hp => exact ⟨j, hp, by grind, by grind⟩
    | ialloc => grind
    | _ => exact absurd ht' ht

lemma Move.drops {j : ℕ} (hm : Move p s o s') (hI : Inv s) (h1 : (s.inode j).ref = 1)
    (h0 : (s'.inode j).ref = 0) : s' = (s.drop p j).setPc p .out := by
  cases hm with
  | iget hp hn hg | take hp hg =>
    rcases iget_cases hI hg with ⟨-, -, rfl⟩ | ⟨-, -, -, rfl⟩ <;> grind
  | idup => grind
  | @own l _ _ c =>
    cases c with
    | drop | last =>
      have hlj : l = j := by grind
      rw [hlj]
    | _ => grind

lemma frees_only (h : Inv s) (hs : step p s o = some s') : FreesOnly p s s' := by
  intro i ht ht'
  obtain ⟨j, hp, hi, hz⟩ := (step_move hs).frees h ht ht'
  obtain ⟨h1, hn⟩ := h.last p j hp
  have hl := h.locked p j (.inr (.inl hp))
  have hd := h.din_eq hl (by simp [hp]) (by simp [hp])
  have hle := h.refs_le p j
  have hge := h.stake p j hl
  rw [hd, hi] at hn
  exact ⟨hn, hz, j, hi, h1, by omega⟩

lemma frees_last (hI : Inv s) (hk : Kept s) (hk' : Kept s') (hs : step p s o = some s') :
    FreesLast s s' := by
  intro j h1 h0 hn
  by_contra ht
  have hs' := (step_move hs).drops hI h1 h0
  subst hs'
  -- the inode would still be in the hands of `ialloc` or have another entry
  rcases hk'.kept _ ht hn with ⟨q, hq⟩ | ⟨k, hi, hpos, -⟩
  · have hq' : s.pc q = .found (s.inode j).inum := by grind [State.drop]
    exact hk.apart q _ j hq' (by omega) rfl
  · have hkj : k ≠ j := fun he => by rw [he] at hpos; omega
    have hk0 : ((s.drop p j).setPc p .out).inode k = s.inode k := by grind [State.drop]
    rw [hk0] at hi hpos
    exact hkj (hI.uniq k j hpos (by omega) hi)

/-- **The life of an inode.** In every run the `acquiresleep` in `iput` does not block, `ilock`
does not find type 0, and an inode is freed only without links and by the holder of its only
reference. In a run in which `ialloc` hands out no number that an `iput` is still finishing with,
and what `ialloc` returns is locked before it is dropped, an inode without links is freed when
its last reference is dropped. -/
theorem inode_lifetime (h0 : Start s₀) :
    (∀ s, Reach (fun _ _ _ => True) s₀ s →
      Steady s ∧ ∀ p o s', step p s o = some s' → FreesOnly p s s') ∧
    ∀ s, Reach Calm s₀ s → ∀ p o s', Calm s p o → step p s o = some s' → FreesLast s s' := by
  refine ⟨fun s h => ⟨(h.inv h0).steady, fun p o s' hs => frees_only (h.inv h0) hs⟩, ?_⟩
  intro s h p o s' hC hs
  exact frees_last (h.inv h0) (h.kept h0) ((h.kept h0).move (h.inv h0) hC (step_move hs)) hs

/-- The step changes neither the disk inode of the entry nor the entry, but for its reference
count. -/
def Leaves (j : ℕ) (s s' : State N) : Prop :=
  (s'.inode j).inum = (s.inode j).inum ∧ (s'.inode j).lock = (s.inode j).lock ∧
    (s'.inode j).valid = (s.inode j).valid ∧ (s'.inode j).din = (s.inode j).din ∧
    s'.disk (s.inode j).inum = s.disk (s.inode j).inum

lemma Move.leaves {q : Fin N} {j : ℕ} (hm : Move q s o s') (hI : Inv s) (hq : q ≠ p)
    (hl : (s.inode j).lock = some p) (hp : s.pc p = .out) : Leaves j s s' := by
  have hr := lt_of_lt_of_le (hI.stake p j hl) (hI.refs_le p j)
  have ht := hI.typed p j (hI.lock_uses hl hp)
  have hk := hI.locked q
  -- an entry that `q` has locked is another one, and so is its inode
  have hu := fun k (hk : (s.inode k).lock = some q) =>
    hI.uniq j k hr (lt_of_lt_of_le (hI.stake q k hk) (hI.refs_le q k))
  unfold Leaves
  cases hm with
  | iget hp hn hg | take hp hg =>
    rcases iget_cases hI hg with ⟨-, -, rfl⟩ | ⟨-, h0, -, rfl⟩ <;> grind
  | idup => grind
  | own c => cases c <;> grind

/-- What the inode cache promises in every state: an inode in use has one entry, which counts the
references the processes have; and between `ilock` and `iunlock` it is loaded, is what the disk
has, and stays so while the others take steps. -/
structure Coherent (s : State N) : Prop where
  count : ∀ j, (s.inode j).ref = ∑ p, s.refs p j
  one : ∀ j k, 0 < (s.inode j).ref → 0 < (s.inode k).ref →
    (s.inode j).inum = (s.inode k).inum → j = k
  loaded : ∀ p j, (s.inode j).lock = some p → s.pc p = .out → (s.inode j).valid = true ∧
    (s.inode j).din = s.disk (s.inode j).inum ∧ (s.inode j).din.type ≠ 0
  still : ∀ p j, (s.inode j).lock = some p → s.pc p = .out →
    ∀ q o s', q ≠ p → step q s o = some s' → Leaves j s s'

/-- **The inode cache is coherent in every run.** -/
theorem cache_coherent (h0 : Start s₀) (h : Reach (fun _ _ _ => True) s₀ s) : Coherent s := by
  have hI := h.inv h0
  refine ⟨hI.count, hI.uniq, fun p j hl hp => ?_, fun p j hl hp q o s' hq hs => ?_⟩
  · have hd := hI.din_eq hl (by simp [hp]) (by simp [hp])
    refine ⟨hI.loaded p j hl (by simp [hp]), hd, ?_⟩
    rw [hd]
    exact hI.typed p j (hI.lock_uses hl hp)
  · exact (step_move hs).leaves hI hq hl hp

variable {C : State N → Fin N → Op N → Prop} [∀ s p o, Decidable (C s p o)]

def move (C : State N → Fin N → Op N → Prop) [∀ s p o, Decidable (C s p o)] (s : State N)
    (m : Fin N × Op N) : Option (State N) :=
  if C s m.1 m.2 then step m.1 s m.2 else none

lemma reach_of_play {ms : List (Fin N × Op N)} (h : play (move C) ms s₀ = some s) :
    Reach C s₀ s := by
  refine play_induction .refl (fun x y m _ hx hm => ?_) h
  obtain ⟨hC, hs⟩ := Option.ite_none_right_eq_some.mp hm
  exact hx.step hC hs

end run

/-- One file, with inode number 5 and one link. -/
def oneFile : State 2 := { disk := update (fun _ => {}) 5 ⟨2, 1, 0⟩ }

lemma oneFile_start : Start oneFile where
  inode _ := ⟨rfl, rfl⟩
  refs _ _ := rfl
  fresh _ _ := rfl
  pc _ := rfl
  linked i := by
    simp only [oneFile, update_apply]
    split <;> simp

/-- Process 0 looks the file up, unlinks it and drops it, up to the last step of `iput`. -/
def removal : List (Fin 2 × Op 2) :=
  [(0, .iget 5), (0, .ilock 0), (0, .load), (0, .change 0 0 0), (0, .iunlock 0), (0, .iput 0),
    (0, .free), (0, .unlock)]

/-- Process 1 creates a file with the number that was freed, and unlinks and drops it. -/
def reuse : List (Fin 2 × Op 2) :=
  [(1, .ialloc 5 2), (1, .take), (1, .ilock 0), (1, .load), (1, .change 0 1 0), (1, .iunlock 0),
    (1, .ilock 0), (1, .load), (1, .change 0 0 0), (1, .iunlock 0), (1, .iput 0)]

/-- Process 0 has the file locked and process 1 looks it up. -/
theorem cache_coherent_locked : ∃ s s', Reach (fun _ _ _ => True) oneFile s ∧
    (s.inode 0).lock = some 0 ∧ s.pc 0 = .out ∧ step 1 s (.iget 5) = some s' ∧ Leaves 0 s s' := by
  have hrun : ((play (move fun _ _ _ => True) (removal.take 3) oneFile).bind fun s =>
      (step 1 s (.iget 5)).map fun _ => ((s.inode 0).lock, s.pc 0)) = some (some 0, .out) := by
    decide +kernel
  obtain ⟨s, hs, hrun⟩ := Option.bind_eq_some_iff.mp hrun
  obtain ⟨s', hstep, he⟩ := Option.map_eq_some_iff.mp hrun
  obtain ⟨hl, hp⟩ := Prod.mk.inj he
  have hreach := reach_of_play hs
  exact ⟨s, s', hreach, hl, hp, hstep,
    (cache_coherent oneFile_start hreach).still 0 0 hl hp 1 _ s' (by decide) hstep⟩

/-- The run `removal` meets the condition, and its last step leaves the inode free. -/
theorem inode_lifetime_removed : Start oneFile ∧ ∃ s s', Reach Calm oneFile s ∧
    step 0 s .last = some s' ∧ (s.inode 0).ref = 1 ∧ (s'.inode 0).ref = 0 ∧ FreesLast s s' := by
  have hsome : ((play (move Calm) removal oneFile).bind fun s => step 0 s .last).isSome = true := by
    decide +kernel
  have hrefs : ((play (move Calm) removal oneFile).bind fun s => (step 0 s .last).map fun s' =>
      ((s.inode 0).ref, (s'.inode 0).ref)) = some (1, 0) := by decide +kernel
  obtain ⟨s', hs'⟩ := Option.isSome_iff_exists.mp hsome
  obtain ⟨s, hs, hstep⟩ := Option.bind_eq_some_iff.mp hs'
  rw [hs, Option.bind_some, hstep] at hrefs
  have hr := Prod.mk.inj (Option.some.inj hrefs)
  have hreach := reach_of_play hs
  exact ⟨oneFile_start, s, s', hreach, hstep, hr.1, hr.2,
    (inode_lifetime oneFile_start).2 s hreach 0 .last s' trivial hstep⟩

/-- If `iput` is delayed before it drops the reference, and its number is used again meanwhile,
the last reference goes without the inode being freed. -/
theorem inode_not_freed : Start oneFile ∧ ∃ s s', Reach (fun _ _ _ => True) oneFile s ∧
    step 0 s .last = some s' ∧ ¬ FreesLast s s' := by
  have hsome : ((play (move fun _ _ _ => True) (removal ++ reuse) oneFile).bind fun s =>
      step 0 s .last).isSome = true := by
    decide +kernel
  have hrefs : ((play (move fun _ _ _ => True) (removal ++ reuse) oneFile).bind fun s =>
      (step 0 s .last).map fun s' => ((s.inode 0).ref, (s'.inode 0).ref, (s.inode 0).inum,
        s'.disk 5)) = some (1, 0, 5, ⟨2, 0, 0⟩) := by
    decide +kernel
  obtain ⟨s', hs'⟩ := Option.isSome_iff_exists.mp hsome
  obtain ⟨s, hs, hstep⟩ := Option.bind_eq_some_iff.mp hs'
  rw [hs, Option.bind_some, hstep] at hrefs
  simp only [Option.map_some, Option.some.injEq, Prod.mk.injEq] at hrefs
  obtain ⟨h1, h0, hi, hd⟩ := hrefs
  refine ⟨oneFile_start, s, s', reach_of_play hs, hstep, fun h => ?_⟩
  have := h 0 h1 h0
  rw [hi, hd] at this
  exact absurd (this rfl) (by decide)

end Xv6.Lifetime
