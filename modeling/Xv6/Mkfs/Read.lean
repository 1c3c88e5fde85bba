import Xv6.Fs.Dir
import Xv6.Mkfs.Append

/-!
What the kernel reads from an image that `iappend` has written.
-/

namespace Xv6.Mkfs

open Lib.Bytes Lib.Wp Lib.Conc Fs Function List

variable {N : ℕ} {w : World N}

/-! ### The kernel's readi, run with no other process in between -/

/-- No buffer is locked, the disk answers, and the process holds no spin lock. -/
structure Quiet (w : World N) : Prop where
  buf : ∀ b, w.bufLock b = none
  desc : w.desc = true
  done : w.done = true
  spin : w.spin w.cur = []

lemma wp_read {α : Type} (f : World N → α) (Q : α → World N → Prop) (E : Halt → World N → Prop) :
    wp (Fs.read f).alone Q E w ↔ Q (f w) w := by
  unfold Fs.read
  rw [Prog.alone_lift]
  simp only [wp_map, wp_get]

lemma wp_write (f : World N → World N) (Q : Unit → World N → Prop) (E : Halt → World N → Prop) :
    wp (write f).alone Q E w ↔ Q () (f w) := by
  unfold write
  rw [Prog.alone_lift, wp_modify]

lemma wp_sleepWhile {c : Prop} [Decidable c] {r : Res} {s : World N} (hc : ¬ c)
    (Q : Unit → World N → Prop) (E : Halt → World N → Prop) (h : Q () w) :
    wp (sleepWhile s c r) Q E w := by
  unfold sleepWhile
  simp only [wp_bind, wp_throwIf]
  exact ⟨fun hs => absurd hs.1 hc, fun _ => ⟨fun hs => absurd hs hc, fun _ => h⟩⟩

/-- The state in which the process has the buffer of block `b`. -/
def withBuf (w : World N) (b : ℕ) : World N :=
  { w with bufLock := update w.bufLock b (some w.cur) }

lemma wp_bread (hq : Quiet w) (b : ℕ) (Q : Unit → World N → Prop) (E : Halt → World N → Prop)
    (h : Q () (withBuf w b)) : wp (bread b).alone Q E w := by
  unfold bread acquireBuf virtioDiskRw
  simp only [Prog.alone_bind, Prog.alone_lift, wp_bind, wp_get]
  refine wp_sleepWhile (not_not.mpr (hq.buf b)) _ _ ?_
  rw [wp_set]
  exact wp_sleepWhile (by simp [hq.desc]) _ _ (wp_sleepWhile (by simp [hq.done]) _ _ h)

lemma wp_brelse (hq : Quiet w) (b : ℕ) (Q : Unit → World N → Prop) (E : Halt → World N → Prop)
    (h : Q () w) : wp (brelse b).alone Q E (withBuf w b) := by
  unfold brelse withBuf
  rw [Prog.alone_lift]
  simp only [wp_bind, wp_get, wp_throwIf, wp_set, update_self, update_idem]
  refine ⟨fun hne => absurd rfl hne, fun _ => ?_⟩
  rw [← hq.buf b, update_eq_self]
  exact h

lemma wp_bmap {sb : Superblock} {j bn : ℕ} (hq : Quiet w) (hbn : bn < MAXFILE)
    (hne : bmapAddr w.block (w.inode j).din bn ≠ 0) (Q : ℕ → World N → Prop)
    (E : Halt → World N → Prop) (h : Q (bmapAddr w.block (w.inode j).din bn) w) :
    wp (bmap sb j bn).alone Q E w := by
  have hsz := sizes
  have hdirect : ∀ k, (w.inode j).din.addrs k ≠ 0 → ∀ Q' : ℕ → World N → Prop,
      Q' ((w.inode j).din.addrs k) w → wp (bmapDirect sb j k).alone Q' E w := by
    intro k hk Q' hQ'
    unfold bmapDirect getInode
    rw [Prog.alone_bind, wp_bind, wp_read, if_neg hk]
    exact hQ'
  unfold bmap
  unfold bmapAddr slotOf at hne h
  rcases Nat.lt_or_ge bn NDIRECT with hd | hd
  · rw [if_pos hd] at hne h ⊢
    rw [slotAddr_direct hd.le] at hne h
    exact hdirect bn hne Q h
  · rw [if_neg (by omega)] at hne h ⊢
    unfold slotAddr at hne h
    rw [if_neg (by omega)] at hne h
    split at hne
    · exact absurd rfl hne
    · next h12 =>
      rw [if_neg h12, show bn + 1 - NDIRECT - 1 = bn - NDIRECT by omega] at h
      rw [show bn + 1 - NDIRECT - 1 = bn - NDIRECT by omega] at hne
      rw [if_pos (by omega), Prog.alone_bind, wp_bind]
      refine hdirect NDIRECT h12 _ ?_
      rw [Prog.alone_bind, wp_bind]
      refine wp_bread hq _ _ _ ?_
      unfold getBuf
      rw [Prog.alone_bind, wp_bind, wp_read]
      show wp (Prog.alone (if le (w.block ((w.inode j).din.addrs NDIRECT)) (4 * (bn - NDIRECT)) 4 = 0
        then _ else _)) Q E _
      rw [if_neg hne, Prog.alone_bind, wp_bind]
      exact wp_brelse hq _ _ _ h

/-- The bytes of a file that has the blocks for them. -/
def bytesAt (w : World N) (j x : ℕ) : UInt8 :=
  byte (w.block (bmapAddr w.block (w.inode j).din (x / BSIZE))) (x % BSIZE)

lemma wp_readLoop {sb : Superblock} {j : ℕ} {dst : ℕ → ℕ → Bool} (hq : Quiet w)
    (hdst : ∀ tot m, dst tot m = true) {fuel tot off k : ℕ} (hk : k ≤ fuel)
    (hmap : ∀ x, off ≤ x → x < off + k → x / BSIZE < MAXFILE ∧
      bmapAddr w.block (w.inode j).din (x / BSIZE) ≠ 0)
    (E : Halt → World N → Prop) :
    wp (readLoop sb j dst fuel tot off k).alone (fun bytes w' =>
      bytes = (List.range k).map (fun t => bytesAt w j (off + t)) ∧ w' = w) E w := by
  induction fuel generalizing tot off k with
  | zero =>
    obtain rfl : k = 0 := by omega
    exact ⟨rfl, rfl⟩
  | succ fuel ih =>
    unfold readLoop
    split
    · next hk0 =>
      subst hk0
      exact ⟨rfl, rfl⟩
    · next hk0 =>
      obtain ⟨hlt, hne⟩ := hmap off le_rfl (by omega)
      rw [Prog.alone_bind, wp_bind]
      refine wp_bmap hq hlt hne _ _ ?_
      rw [Prog.alone_bind, wp_bind]
      refine wp_bread hq _ _ _ ?_
      unfold getBuf
      rw [Prog.alone_bind, wp_bind, wp_read, Prog.alone_bind, wp_bind]
      refine wp_brelse hq _ _ _ ?_
      rw [if_pos (hdst _ _), Prog.alone_bind, wp_bind]
      have hm : 0 < min k (BSIZE - off % BSIZE) := by
        have : off % BSIZE < BSIZE := Nat.mod_lt _ (by decide)
        omega
      refine wp_mono (ih (by omega)
        fun x h1 h2 => hmap x (by omega) (by omega)) ?_ fun _ _ h => h
      rintro rest w' ⟨rfl, rfl⟩
      refine ⟨?_, rfl⟩
      generalize hmdef : min k (BSIZE - off % BSIZE) = m at *
      have hrange : List.range k = List.range m ++ (List.range (k - m)).map (m + ·) := by
        rw [← range_add]
        congr 1
        omega
      rw [hrange, map_append, map_map]
      congr 1
      · refine map_congr_left fun i hi => ?_
        have hi := mem_range.mp hi
        unfold bytesAt
        rw [show (off + i) / BSIZE = off / BSIZE by rw [show BSIZE = 1024 from rfl] at *; omega,
          show (off + i) % BSIZE = off % BSIZE + i by rw [show BSIZE = 1024 from rfl] at *; omega]
        rfl
      · refine map_congr_left fun i _ => ?_
        rw [comp_apply, Nat.add_assoc]

lemma wp_readi (sb : Superblock) (j : ℕ) {dst : ℕ → ℕ → Bool} (hq : Quiet w)
    (hdst : ∀ tot m, dst tot m = true) {off n : ℕ} (hoff : off + n < 2 ^ 32) (C : List UInt8)
    (hsize : (w.inode j).din.size = C.length)
    (hmap : ∀ x < C.length, x / BSIZE < MAXFILE ∧
      bmapAddr w.block (w.inode j).din (x / BSIZE) ≠ 0 ∧ bytesAt w j x = C.getD x 0)
    (E : Halt → World N → Prop) :
    wp (readi sb j dst off n).alone (fun bytes _ => bytes = (C.drop off).take n) E w := by
  have hcount : readCount (w.inode j).din.size off n = min n (C.length - off) := by
    unfold readCount
    rw [hsize, Nat.mod_eq_of_lt hoff]
    split_ifs <;> omega
  unfold readi getInode setReading
  rw [Prog.alone_bind, wp_bind, wp_read, Prog.alone_bind, wp_bind, wp_write, hcount, Prog.alone_bind,
    wp_bind]
  have hq' : Quiet { w with reading := update w.reading w.cur true } :=
    ⟨hq.buf, hq.desc, hq.done, hq.spin⟩
  refine wp_mono (wp_readLoop hq' hdst le_rfl (fun x h1 h2 => ?_) E) ?_ fun _ _ h => h
  · have := hmap x (by omega)
    exact ⟨this.1, this.2.1⟩
  · rintro bytes w' ⟨rfl, rfl⟩
    rw [Prog.alone_bind, wp_bind, wp_write]
    show (List.range (min n (C.length - off))).map (fun t => bytesAt w j (off + t)) = _
    refine ext_getElem (by simp) fun t h1 h2 => ?_
    rw [length_map, length_range] at h1
    rw [getElem_map, getElem_range, (hmap (off + t) (by omega)).2.2,
      getD_eq_getElem _ _ (by omega), getElem_take, getElem_drop]

/-! ### Runs of iappend -/

def iallocs : List ℕ → MkM Unit
  | [] => return ()
  | t :: ts => do
    let _ ← ialloc t
    iallocs ts

def appendAll : List (ℕ × List UInt8) → MkM Unit
  | [] => return ()
  | (i, p) :: calls => do
    iappend i p
    appendAll calls

/-- An image with inodes of the given types, to which the calls are made. -/
def build (types : List ℕ) (calls : List (ℕ × List UInt8)) : MkM Unit := do
  format
  iallocs types
  appendAll calls

/-- The buffers appended to inode `i`, one after the other. -/
def appended (calls : List (ℕ × List UInt8)) (i : ℕ) : List UInt8 :=
  (calls.filter fun c => c.1 = i).flatMap Prod.snd

lemma appended_cons (i : ℕ) (p : List UInt8) (calls : List (ℕ × List UInt8)) (D : ℕ → List UInt8)
    (j : ℕ) : grow D i p j ++ appended calls j = D j ++ appended ((i, p) :: calls) j := by
  unfold grow appended
  rcases eq_or_ne j i with rfl | hne
  · rw [update_self, filter_cons_of_pos (by simp), flatMap_cons, append_assoc]
  · rw [update_of_ne hne, filter_cons_of_neg (by simpa using hne.symm)]

/-- How a run of `iappend` can fail. -/
def Overflows (C : ℕ → List UInt8) (e : Fail) : Prop :=
  (e = .abort ∧ ∃ i < NI, MAXFILE * BSIZE < (C i).length) ∨
    (e = .exit ∧ FSSIZE < total (blocksOf C))

lemma wp_appendAll {D : ℕ → List UInt8} {s : Mk} {calls : List (ℕ × List UInt8)} (h : Holds D s)
    (hc : ∀ c ∈ calls, c.1 < NI) :
    wp (appendAll calls) (fun _ s' => Holds (fun i => D i ++ appended calls i) s')
      (fun e _ => Overflows (fun i => D i ++ appended calls i) e) s := by
  induction calls generalizing D s with
  | nil =>
    have hD : (fun i => D i ++ appended [] i) = D := funext fun i => append_nil (D i)
    rw [hD]
    exact h
  | cons call calls ih =>
    obtain ⟨i, p⟩ := call
    have hi : i < NI := hc (i, p) mem_cons_self
    have hD : (fun j => grow D i p j ++ appended calls j) =
        fun j => D j ++ appended ((i, p) :: calls) j := funext (appended_cons i p calls D)
    have hgrow : ∀ j, (grow D i p j).length ≤ (D j ++ appended ((i, p) :: calls) j).length := by
      intro j
      rw [← appended_cons, length_append]
      exact Nat.le_add_right _ _
    unfold appendAll
    rw [wp_bind]
    refine wp_mono (wp_iappend h hi p) ?_ ?_
    · rintro - s' ⟨h', -⟩
      have := ih h' fun c hmem => hc c (mem_cons_of_mem _ hmem)
      rwa [hD] at this
    · rintro e s' (⟨rfl, ho⟩ | ⟨rfl, ho⟩)
      · refine .inl ⟨rfl, i, hi, lt_of_lt_of_le ho ?_⟩
        have := hgrow i
        unfold grow at this
        rwa [update_self, length_append] at this
      · exact .inr ⟨rfl, lt_of_lt_of_le ho (total_mono fun j => blocks_mono (hgrow j))⟩

lemma wp_iallocs {s : Mk} {types : List ℕ} (h : Holds (fun _ => []) s)
    (hty : ∀ t ∈ types, t < 2 ^ 16) (hn : s.freeinode + types.length ≤ NI) (E : Fail → Mk → Prop) :
    wp (iallocs types) (fun _ s' => Holds (fun _ => []) s') E s := by
  induction types generalizing s with
  | nil => exact h
  | cons t ts ih =>
    rw [length_cons] at hn
    unfold iallocs
    rw [wp_bind]
    refine wp_mono (wp_ialloc h (by omega) rfl (hty t mem_cons_self) E) ?_ fun _ _ he => he
    rintro i s' ⟨h', -, hfi⟩
    exact ih h' (fun u hu => hty u (mem_cons_of_mem _ hu)) (by omega)

lemma wp_build (types : List ℕ) (calls : List (ℕ × List UInt8)) (hty : ∀ t ∈ types, t < 2 ^ 16)
    (hn : types.length < NI) (hc : ∀ c ∈ calls, c.1 < NI) :
    wp (build types calls) (fun _ s => Holds (appended calls) s)
      (fun e _ => Overflows (appended calls) e) start := by
  unfold build
  rw [wp_bind]
  refine wp_mono wp_format ?_ fun _ _ he => he.elim
  rintro - s ⟨h, hfi⟩
  rw [wp_bind]
  refine wp_mono (wp_iallocs h hty (by omega) _) ?_ fun _ _ he => he
  rintro - s' h'
  exact wp_appendAll h' hc

/-- The files are not too long, and there are enough blocks for them. -/
def Room (C : ℕ → List UInt8) : Prop :=
  (∀ i < NI, (C i).length ≤ MAXFILE * BSIZE) ∧ total (blocksOf C) ≤ FSSIZE

lemma Holds.room {D : ℕ → List UInt8} {s : Mk} (h : Holds D s) : Room D := by
  refine ⟨fun i hi => le_trans (h.built.len i hi) (Nat.mul_le_mul_right _ (h.built.few i hi)), ?_⟩
  have := h.built.count
  have := h.fb
  unfold total
  omega

lemma Room.not_overflows {C : ℕ → List UInt8} (h : Room C) (e : Fail) : ¬ Overflows C e := by
  rintro (⟨-, i, hi, hlt⟩ | ⟨-, hlt⟩)
  · exact absurd (h.1 i hi) (by omega)
  · exact absurd h.2 (by omega)

/-- The kernel has inode `i` of the image in entry `j` of its cache. -/
structure Loaded (w : World N) (img : ℕ → Block) (i j : ℕ) : Prop where
  quiet : Quiet w
  block : w.block = img
  din : (w.inode j).din = dinode sb img i

/-- **mkfs and the kernel agree on the format.** Whatever is appended to inodes in the inode
blocks, in any order, as long as it fits: for each inode the size that the kernel finds is that of
what was appended, and `readi` returns the part of it that is asked for. -/
theorem readi_appended (types : List ℕ) (calls : List (ℕ × List UInt8))
    (hty : ∀ t ∈ types, t < 2 ^ 16) (hn : types.length < NI) (hc : ∀ c ∈ calls, InArea c.1) :
    ((∃ s, build types calls start = .ok () s) ↔ Room (appended calls)) ∧
    ∀ s, build types calls start = .ok () s → ∀ i, InArea i →
      (dinode sb s.img i).size = (appended calls i).length ∧
      ∀ (N : ℕ) (w : World N) (j : ℕ) (dst : ℕ → ℕ → Bool) (off n : ℕ), Loaded w s.img i j →
        (∀ tot m, dst tot m = true) → off + n < 2 ^ 32 →
        ∃ w', (readi sb j dst off n).alone w = .ok (((appended calls i).drop off).take n) w' := by
  have hrun := wp_build types calls hty hn fun c hmem => inArea_iff.mp (hc c hmem)
  refine ⟨⟨fun ⟨s, hs⟩ => (wp_ok hrun hs).room, fun hroom => ?_⟩, fun s hs i hi => ?_⟩
  · obtain ⟨_, s, hs, -⟩ := wp_run hrun fun e _ => hroom.not_overflows e
    exact ⟨s, hs⟩
  · have h := wp_ok hrun hs
    have hi' := inArea_iff.mp hi
    refine ⟨h.size i hi', fun N w j dst off n hw hdst hoff => ?_⟩
    have hread := wp_readi sb j hw.quiet hdst hoff (appended calls i)
      (by rw [hw.din]; exact h.size i hi') (fun x hx => ?_) fun _ _ => False
    · obtain ⟨_, w', hw', rfl⟩ := wp_run hread fun _ _ => not_false
      exact ⟨w', hw'⟩
    · have hx' : x / BSIZE < blocksOf (appended calls) i := by
        unfold blocksOf blocks
        rw [show BSIZE = 1024 from rfl]
        omega
      have hfew := h.built.few i hi'
      have hs := (h.built.slot i hi' _ (slotOf_lt (lt_of_lt_of_le hx' hfew))).mpr
        (hasSlot_slotOf.mpr hx')
      unfold bytesAt
      rw [hw.block, hw.din]
      exact ⟨lt_of_lt_of_le hx' hfew, hs, h.built.data i hi' x hx'⟩

/-- Two bytes in inode 1. -/
def twoBytes : List (ℕ × List UInt8) := [(1, [7, 8])]

lemma twoBytes_room : Room (appended twoBytes) := ⟨by decide +kernel, by decide +kernel⟩

/-- The kernel with inode `i` of the image in the first entry of its cache, locked by `p`. -/
def kernelWith (p : Fin N) (img : ℕ → Block) (i : ℕ) : World N :=
  (bootWorld p img).setInode 0 fun ip =>
    { ip with inum := i, valid := true, lock := some p, din := dinode sb img i }

lemma kernelWith_loaded (p : Fin N) (img : ℕ → Block) (i : ℕ) :
    Loaded (kernelWith p img i) img i 0 where
  quiet := ⟨fun _ => rfl, rfl, rfl, rfl⟩
  block := rfl
  din := by simp only [kernelWith, World.setInode, update_self]

theorem readi_appended_two : ∃ s w', build [T_DIR] twoBytes start = .ok () s ∧
    (readi sb 0 (fun _ _ => true) 1 5).alone (kernelWith (0 : Fin 1) s.img 1) = .ok [8] w' := by
  have h := readi_appended [T_DIR] twoBytes (by decide) (by decide) (by decide)
  obtain ⟨s, hs⟩ := h.1.mpr twoBytes_room
  obtain ⟨w', hw'⟩ := ((h.2 s hs 1 (by decide)).2 1 _ 0 (fun _ _ => true) 1 5
    (kernelWith_loaded 0 s.img 1) (fun _ _ => rfl) (by decide))
  exact ⟨s, w', hs, hw'⟩

lemma wp_readi_wrap (w : World N) (sb : Superblock) (j : ℕ) (dst : ℕ → ℕ → Bool) {off n : ℕ}
    (h : (off + n) % 2 ^ 32 < off) (E : Halt → World N → Prop) :
    wp (readi sb j dst off n).alone (fun bytes _ => bytes = []) E w := by
  have hcount : readCount (w.inode j).din.size off n = 0 := by
    unfold readCount
    rw [if_pos (.inr h)]
  unfold readi getInode setReading
  rw [Prog.alone_bind, wp_bind, wp_read, Prog.alone_bind, wp_bind, wp_write, hcount]
  rfl

/-- Nine bytes in inode 1, and a byte in inode 224. -/
def outside : List (ℕ × List UInt8) := [(1, List.replicate 9 0), (224, [9])]

lemma iblock_outside : sb.iblock 224 = nmeta := by decide

lemma wp_iappend_outside {s : Mk} (hlen : s.len = FSSIZE) (hfb : s.freeblock = 47)
    (h46 : s.img nmeta = zeroes) (E : Fail → Mk → Prop) :
    wp (iappend 224 [9]) (fun _ s' => byte (s'.img nmeta) 8 = 1 ∧ ∀ b < nmeta, s'.img b = s.img b)
      E s := by
  have hl := layout
  have hdin : dinodeAt (zeroes : Block) (224 % IPB) = Dinode.fresh 0 := dinodeAt_zeroes _
  have hs46 : seek nmeta = nmeta := by decide
  have hs47 : seek 47 = 47 := by decide
  have h0 : (Dinode.fresh 0).size = 0 ∧ (Dinode.fresh 0).addrs 0 = 0 := ⟨rfl, rfl⟩
  unfold iappend rinode winode
  simp only [wp_bind, wp_rsect, wp_pure, iblock_outside, hs46]
  refine ⟨fun hle => absurd hle (by omega), fun _ => ?_⟩
  rw [h46, hdin]
  simp only [appendLoop, appendBlock, h0, Nat.zero_div, length_singleton]
  rw [if_neg (by decide), if_pos (by decide), if_pos trivial]
  simp only [wp_bind, wp_throwIf, wp_newBlock, wp_pure, wp_rsect, wp_wsect, hfb, hs47, hs46]
  refine ⟨fun h => absurd h (by decide), fun _ => ⟨fun hle => absurd hle (by omega), fun _ => ?_⟩⟩
  refine ⟨fun hle => absurd hle (by omega), fun _ => ⟨?_, fun b hb => ?_⟩⟩
  · rw [update_self]
    exact byte_copy_in _ _ (by decide) (by decide) (by decide)
  · rw [update_of_ne (by omega), update_of_ne (by omega)]

lemma zeroes_room : Room (grow (fun _ => []) 1 (List.replicate 9 0)) :=
  ⟨by decide +kernel, by decide +kernel⟩

/-- The image of the two appends: inode 1 is as the first one left it, and its block is not. -/
lemma build_outside : ∃ s, build [] outside start = .ok () s ∧ (dinode sb s.img 1).size = 9 ∧
    (dinode sb s.img 1).addrs 0 = nmeta ∧ byte (s.img nmeta) 8 = 1 := by
  have hl := layout
  have hrun : wp (build [] outside) (fun _ s => (dinode sb s.img 1).size = 9 ∧
      (dinode sb s.img 1).addrs 0 = nmeta ∧ byte (s.img nmeta) 8 = 1) (fun _ _ => False) start := by
    unfold build
    rw [wp_bind]
    refine wp_mono wp_format ?_ fun _ _ he => he
    rintro - s ⟨h, -⟩
    simp only [iallocs, outside, appendAll, pure_bind, wp_bind]
    refine wp_mono (wp_iappend h (by decide) _) ?_ ?_
    · rintro - s' ⟨h', -⟩
      have hfb : s'.freeblock = 47 := h'.built.count.trans (by decide +kernel)
      have haddr : bmapAddr s'.img (dinode sb s'.img 1) 0 = nmeta := by
        have := h'.built.range 1 (by decide) (slotOf 0) (by decide) (hasSlot_slotOf.mpr (by decide))
        unfold bmapAddr
        omega
      have h46 : s'.img nmeta = zeroes := by
        refine ext_byte fun x hx => ?_
        have hdiv : x / BSIZE = 0 := Nat.div_eq_of_lt hx
        have := h'.built.data 1 (by decide) x (by rw [hdiv]; decide)
        rw [hdiv, haddr, Nat.mod_eq_of_lt hx] at this
        rw [this, byte_zeroes]
        unfold grow
        rw [update_self, nil_append, getD_eq_getElem?_getD, List.getElem?_replicate]
        split <;> rfl
      refine wp_mono (wp_iappend_outside h'.len hfb h46 _) ?_ fun _ _ he => he
      rintro - s'' ⟨hbyte, hlow⟩
      have hdin : dinode sb s''.img 1 = dinode sb s'.img 1 :=
        congrArg (dinodeAt · _) (hlow _ (iblock_lt (by decide)))
      rw [wp_pure, hdin]
      exact ⟨h'.size 1 (by decide), haddr, hbyte⟩
    · intro e s' ho
      refine absurd (Or.imp (And.imp_right fun ho => ⟨1, by decide, ?_⟩) id ho)
        (zeroes_room.not_overflows e)
      exact ho
  obtain ⟨_, s, hs, h⟩ := wp_run hrun fun _ _ => not_false
  exact ⟨s, hs, h⟩

/-- `readi` does not return the slice with an offset and a length whose sum is `2^32`, nor where
there was an append to a number whose inode is not in an inode block. -/
theorem readi_appended_wraps :
    (∃ s w' bytes, build [T_DIR] twoBytes start = .ok () s ∧
      (readi sb 0 (fun _ _ => true) 1 (2 ^ 32 - 1)).alone (kernelWith (0 : Fin 1) s.img 1) =
          .ok bytes w' ∧
        bytes ≠ ((appended twoBytes 1).drop 1).take (2 ^ 32 - 1)) ∧
    ∃ s w' bytes, build [] outside start = .ok () s ∧
      (readi sb 0 (fun _ _ => true) 8 1).alone (kernelWith (0 : Fin 1) s.img 1) = .ok bytes w' ∧
        bytes ≠ ((appended outside 1).drop 8).take 1 := by
  constructor
  · have hrun := wp_build [T_DIR] twoBytes (by decide) (by decide) (by decide)
    obtain ⟨_, s, hs, -⟩ := wp_run hrun fun e _ => twoBytes_room.not_overflows e
    have hwrap : (1 + (2 ^ 32 - 1)) % 2 ^ 32 < 1 := by decide
    obtain ⟨_, w', hw', rfl⟩ := wp_run (wp_readi_wrap (kernelWith (0 : Fin 1) s.img 1) sb 0
      (fun _ _ => true) hwrap fun _ _ => False) fun _ _ => not_false
    exact ⟨s, w', [], hs, hw', by decide⟩
  · obtain ⟨s, hs, hsize, haddr, hbyte⟩ := build_outside
    set w := kernelWith (0 : Fin 1) s.img 1
    have hk : Loaded w s.img 1 0 := kernelWith_loaded 0 s.img 1
    have hmap : ∀ x < 9, bmapAddr s.img (dinode sb s.img 1) (x / BSIZE) = nmeta := fun x hx => by
      rw [Nat.div_eq_of_lt (lt_trans hx (by decide)), ← haddr]
      rfl
    have hbytes : ∀ x < ((List.range 9).map (byte (s.img nmeta))).length, x / BSIZE < MAXFILE ∧
        bmapAddr w.block (w.inode 0).din (x / BSIZE) ≠ 0 ∧
        bytesAt w 0 x = ((List.range 9).map (byte (s.img nmeta))).getD x 0 := by
      intro x hx
      have hlt : x < BSIZE := lt_trans (b := 9) hx (by decide)
      rw [getD_eq_getElem _ _ hx, getElem_map, getElem_range]
      unfold bytesAt
      rw [hk.din, hk.block, hmap x hx, Nat.mod_eq_of_lt hlt, Nat.div_eq_of_lt hlt]
      exact ⟨by decide, by decide, rfl⟩
    obtain ⟨_, w', hw', rfl⟩ := wp_run (wp_readi (w := w) sb 0 hk.quiet
      (fun _ _ => rfl) (show 8 + 1 < 2 ^ 32 by decide) ((List.range 9).map (byte (s.img nmeta)))
      (by rw [hk.din, hsize]; rfl) hbytes fun _ _ => False) fun _ _ => not_false
    refine ⟨s, w', _, hs, hw', ?_⟩
    show [byte (s.img nmeta) 8] ≠ [0]
    rw [hbyte]
    decide

end Xv6.Mkfs
