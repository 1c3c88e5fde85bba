import Xv6.Mkfs.Built

/-!
`iappend` against the contents of the inodes.
-/

namespace Xv6.Mkfs

open Lib.Bytes Lib.Wp Lib.Sum Fs Function List

variable {c : ℕ → ℕ} {D : ℕ → List UInt8} {T : ℕ → Dinode} {s : Mk} {i : ℕ}

lemma seek_eq {sec : ℕ} (h : sec < 2 ^ 22) : seek sec = sec := by
  unfold seek
  rw [show BSIZE = 1024 from rfl]
  omega

@[simp] lemma wp_rsect (sec : ℕ) (Q : Block → Mk → Prop) (E : Fail → Mk → Prop) (s : Mk) :
    wp (rsect sec) Q E s ↔
      (s.len ≤ seek sec → E .exit s) ∧ (¬ s.len ≤ seek sec → Q (s.img (seek sec)) s) := by
  unfold rsect
  simp only [wp_bind, wp_get, wp_throwIf, wp_pure]

@[simp] lemma wp_wsect (sec : ℕ) (b : Block) (Q : Unit → Mk → Prop) (E : Fail → Mk → Prop) (s : Mk) :
    wp (wsect sec b) Q E s ↔ Q () { s with
      img := update s.img (seek sec) b, len := max s.len (seek sec + 1) } := Iff.rfl

@[simp] lemma wp_newBlock (Q : ℕ → Mk → Prop) (E : Fail → Mk → Prop) (s : Mk) :
    wp newBlock Q E s ↔ Q s.freeblock { s with freeblock := s.freeblock + 1 } := Iff.rfl

/-- The blocks that files of these lengths in blocks take, with the blocks before them. -/
def total (c : ℕ → ℕ) : ℕ := nmeta + ∑ i ∈ Finset.range NI, need (c i)

/-- What stays while an inode's blocks are written: the length of the image, the counter of inodes
and the blocks before the data. -/
structure Frame (s s' : Mk) : Prop where
  len : s'.len = s.len
  freeinode : s'.freeinode = s.freeinode
  low : ∀ b < nmeta, s'.img b = s.img b

lemma Frame.refl (s : Mk) : Frame s s := ⟨rfl, rfl, fun _ _ => rfl⟩

lemma Frame.trans {s' s'' : Mk} (h : Frame s s') (h' : Frame s' s'') : Frame s s'' :=
  ⟨h'.len.trans h.len, h'.freeinode.trans h.freeinode, fun b hb => (h'.low b hb).trans (h.low b hb)⟩

lemma frame_write {b : ℕ} {f : Block} (hb : nmeta ≤ b) (hlen : b < s.len) :
    Frame s { s with img := update s.img b f, len := max s.len (b + 1) } :=
  ⟨max_eq_left hlen, rfl, fun _ h => update_of_ne (by omega) _ _⟩

lemma wp_appendBlock (h : Built c D T s.img s.freeblock) (hlen : s.len = FSSIZE)
    (hfb : s.freeblock ≤ FSSIZE) (hi : i < NI) {fbn : ℕ} (hfbn : fbn < MAXFILE) (hc : fbn ≤ c i) :
    wp (appendBlock (T i) fbn) (fun r s' => Frame s s' ∧
        Built (update c i (max (c i) (fbn + 1))) D (update T i r.1) s'.img s'.freeblock ∧
        r.2 = bmapAddr s'.img r.1 fbn ∧ (s'.freeblock ≤ FSSIZE ∨ s'.freeblock = r.2 + 1))
      (fun e _ => e = .exit ∧ FSSIZE < total (update c i (max (c i) (fbn + 1)))) s := by
  have hsz := sizes
  have hl := layout
  have hlt := h.fb_lt
  rcases Nat.lt_or_ge fbn (c i) with hold | hnew
  · -- the block is there
    rw [Nat.max_eq_left hold, update_eq_self]
    have hs := (h.slot i hi _ (slotOf_lt hfbn)).mpr (hasSlot_slotOf.mpr hold)
    unfold appendBlock
    rcases Nat.lt_or_ge fbn NDIRECT with hd | hd
    · rw [show slotOf fbn = fbn from if_pos hd, slotAddr_direct hd.le] at hs
      rw [if_pos hd, if_neg hs, wp_pure, update_eq_self]
      refine ⟨.refl s, h, ?_, .inl hfb⟩
      unfold bmapAddr
      rw [show slotOf fbn = fbn from if_pos hd, slotAddr_direct hd.le]
    · obtain ⟨-, hne, hr, hr', haddr⟩ := h.has_indirect hi (by omega)
      rw [haddr fbn hd] at hs
      rw [if_neg (by omega), if_neg hne]
      simp only [pure_bind, wp_bind, wp_rsect, seek_eq (show (T i).addrs NDIRECT < 2 ^ 22 by omega)]
      refine ⟨fun hle => absurd hle (by omega), fun _ => ?_⟩
      rw [if_neg hs, wp_pure, update_eq_self]
      exact ⟨.refl s, h, (haddr fbn hd).symm, .inl hfb⟩
  · -- the block is new
    have hci : fbn = c i := by omega
    rw [Nat.max_eq_right (by omega)]
    subst hci
    have hs : slotAddr s.img (T i) (slotOf (c i)) = 0 := by
      by_contra hz
      exact lt_irrefl _ (hasSlot_slotOf.mp ((h.slot i hi _ (slotOf_lt hfbn)).mp hz))
    unfold appendBlock
    rcases Nat.lt_trichotomy (c i) NDIRECT with hd | hd | hd
    · have hB := h.direct hi hd
      rw [show slotOf (c i) = c i from if_pos hd, slotAddr_direct hd.le] at hs
      rw [if_pos hd, if_pos hs]
      simp only [wp_bind, wp_newBlock, wp_pure]
      refine ⟨⟨rfl, rfl, fun _ _ => rfl⟩, hB, ?_, .inr trivial⟩
      unfold bmapAddr
      rw [show slotOf (c i) = c i from if_pos hd, Built.slotAddr_setAddr hd, if_pos rfl]
    · have hB := h.indirect hi hd
      have h12 : (T i).addrs NDIRECT = 0 := by
        by_contra hz
        have := (h.slot i hi NDIRECT (by decide)).mp (by rwa [slotAddr_direct le_rfl])
        unfold HasSlot at this
        rw [if_neg (lt_irrefl _), if_pos rfl] at this
        omega
      have hfresh : ((T i).setAddr NDIRECT s.freeblock).addrs NDIRECT = s.freeblock :=
        by simp only [Dinode.setAddr, update_self]
      rw [if_neg (by omega), if_pos h12]
      simp only [wp_bind, wp_newBlock, wp_pure, wp_rsect, hfresh,
        seek_eq (show s.freeblock < 2 ^ 22 by omega)]
      refine ⟨fun hle => ⟨trivial, ?_⟩, fun hlt => ?_⟩
      · have := hB.count
        unfold total
        omega
      · rw [h.zero _ le_rfl, le_zeroes, if_pos rfl]
        simp only [wp_bind, wp_newBlock, wp_wsect, wp_pure,
          seek_eq (show s.freeblock < 2 ^ 22 by omega)]
        rw [← h.zero _ le_rfl, show 4 * (c i - NDIRECT) = 0 by omega]
        refine ⟨⟨max_eq_left (by omega), rfl, fun b hb => update_of_ne (by have := h.count; omega) _ _⟩,
          hB, ?_, .inr trivial⟩
        unfold bmapAddr
        rw [h.slotAddr_indirect, show slotOf (c i) = NDIRECT + 1 by rw [hd]; rfl, if_neg (by omega),
          if_neg (by omega), if_pos rfl]
    · have hB := h.entry hi hd hfbn
      obtain ⟨-, hne, hr, hr', haddr⟩ := h.has_indirect hi hd
      rw [haddr (c i) hd.le] at hs
      rw [if_neg (by omega), if_neg hne]
      simp only [pure_bind, wp_bind, wp_rsect, seek_eq (show (T i).addrs NDIRECT < 2 ^ 22 by omega)]
      refine ⟨fun hle => absurd hle (by omega), fun _ => ?_⟩
      rw [if_pos hs]
      simp only [wp_bind, wp_newBlock, wp_wsect, wp_pure,
        seek_eq (show (T i).addrs NDIRECT < 2 ^ 22 by omega), update_eq_self]
      refine ⟨⟨max_eq_left (by omega), rfl, fun b hb => update_of_ne (by omega) _ _⟩, hB, ?_,
        .inr trivial⟩
      unfold bmapAddr
      have hslot : slotOf (c i) = c i + 1 := if_neg (by omega)
      rw [hslot, h.slotAddr_entry hd hne (hslot ▸ slotOf_lt hfbn), if_pos rfl]

/-! ### Contents -/

/-- How many blocks a file of `n` bytes has. -/
def blocks (n : ℕ) : ℕ := (n + (BSIZE - 1)) / BSIZE

def blocksOf (D : ℕ → List UInt8) (i : ℕ) : ℕ := blocks (D i).length

lemma blocks_mono {m n : ℕ} (h : m ≤ n) : blocks m ≤ blocks n :=
  Nat.div_le_div_right (Nat.add_le_add_right h _)

/-- The bytes of inode `i` with `p` after them. -/
def grow (D : ℕ → List UInt8) (i : ℕ) (p : List UInt8) : ℕ → List UInt8 := update D i (D i ++ p)

lemma grow_grow (D : ℕ → List UInt8) (i : ℕ) (p q : List UInt8) :
    grow (grow D i p) i q = grow D i (p ++ q) := by
  unfold grow
  rw [update_self, update_idem, append_assoc]

lemma blocksOf_grow (D : ℕ → List UInt8) (i : ℕ) (p : List UInt8) :
    blocksOf (grow D i p) = update (blocksOf D) i (blocks ((D i).length + p.length)) := by
  funext j
  unfold blocksOf grow
  rcases eq_or_ne j i with rfl | hne
  · rw [update_self, update_self, length_append]
  · rw [update_of_ne hne, update_of_ne hne]

lemma need_mono {m n : ℕ} (h : m ≤ n) : need m ≤ need n := by
  unfold need
  split_ifs <;> omega

lemma total_mono {c' : ℕ → ℕ} (h : ∀ i, c i ≤ c' i) : total c ≤ total c' :=
  Nat.add_le_add_left (Finset.sum_le_sum fun i _ => need_mono (h i)) _

/-- How `iappend` of `p` to inode `i` can fail: the file is too long, or the image is full. -/
def Overflow (D : ℕ → List UInt8) (i : ℕ) (p : List UInt8) (e : Fail) : Prop :=
  (e = .abort ∧ MAXFILE * BSIZE < (D i).length + p.length) ∨
    (e = .exit ∧ FSSIZE < total (blocksOf (grow D i p)))

lemma grow_nil (D : ℕ → List UInt8) (i : ℕ) : grow D i [] = D := by
  unfold grow
  rw [append_nil, update_eq_self]

lemma round {L n : ℕ} (hn : 0 < n) :
    0 < min n ((L / BSIZE + 1) * BSIZE - L) ∧ L / BSIZE ≤ blocks L ∧
      L = L / BSIZE * BSIZE + (L - L / BSIZE * BSIZE) ∧
      L - L / BSIZE * BSIZE + min n ((L / BSIZE + 1) * BSIZE - L) ≤ BSIZE ∧
      max (blocks L) (L / BSIZE + 1) = blocks (L + min n ((L / BSIZE + 1) * BSIZE - L)) := by
  unfold blocks
  rw [show BSIZE = 1024 from rfl]
  omega

lemma wp_appendLoop {k : ℕ} {p : List UInt8} (h : Built (blocksOf D) D T s.img s.freeblock)
    (hlen : s.len = FSSIZE) (hfb : s.freeblock ≤ FSSIZE) (hi : i < NI) (hk : p.length ≤ k) :
    wp (appendLoop k (T i) (D i).length p) (fun r s' => Frame s s' ∧
        Built (blocksOf (grow D i p)) (grow D i p) (update T i r.1) s'.img s'.freeblock ∧
        s'.freeblock ≤ FSSIZE ∧ r.2 = (D i).length + p.length)
      (fun e _ => Overflow D i p e) s := by
  induction k generalizing s D T p with
  | zero =>
    obtain rfl : p = [] := length_eq_zero_iff.mp (by omega)
    unfold appendLoop
    rw [wp_pure, update_eq_self]
    rw [grow_nil]
    exact ⟨.refl s, h, hfb, rfl⟩
  | succ k ih =>
    unfold appendLoop
    split
    · next hp =>
      obtain rfl : p = [] := length_eq_zero_iff.mp hp
      rw [wp_pure, update_eq_self]
      rw [grow_nil]
      exact ⟨.refl s, h, hfb, rfl⟩
    · next hp =>
      simp only [wp_bind, wp_throwIf]
      refine ⟨fun hmax => .inl ⟨rfl, ?_⟩, fun hmax => ?_⟩
      · have := (Nat.le_div_iff_mul_le (by decide)).mp hmax
        omega
      · obtain ⟨hn1, hle, hoff, hroom, hmx⟩ := round (L := (D i).length) (n := p.length) (by omega)
        set n1 := min p.length (((D i).length / BSIZE + 1) * BSIZE - (D i).length) with hn1def
        have htake : (p.take n1).length = n1 := by
          rw [length_take]
          omega
        have hc : update (blocksOf D) i (max (blocksOf D i) ((D i).length / BSIZE + 1)) =
            blocksOf (grow D i (p.take n1)) := by
          rw [blocksOf_grow, htake, ← hmx]
          rfl
        have hsplit : grow (grow D i (p.take n1)) i (p.drop n1) = grow D i p := by
          rw [grow_grow, take_append_drop]
        have htot : total (blocksOf (grow D i (p.take n1))) ≤ total (blocksOf (grow D i p)) := by
          refine total_mono fun j => blocks_mono ?_
          unfold grow
          rcases eq_or_ne j i with rfl | hne
          · rw [update_self, update_self, length_append, length_append, htake]
            omega
          · rw [update_of_ne hne, update_of_ne hne]
        refine wp_mono (wp_appendBlock h hlen hfb hi (by omega) hle) ?_ ?_
        · rintro ⟨din, x⟩ s₁ ⟨hF, hB, hxe, hx⟩
          dsimp only at hB hxe hx ⊢
          have hlt₁ := hB.fb_lt
          have hcount := hB.count
          rw [hc] at hB hcount
          have hbn : (D i).length / BSIZE < blocksOf (grow D i (p.take n1)) i := by
            rw [← hc, update_self]
            omega
          have hr := hB.range i hi _ (slotOf_lt (by omega)) (hasSlot_slotOf.mpr hbn)
          rw [update_self, show slotAddr s₁.img din (slotOf ((D i).length / BSIZE)) = x from hxe.symm]
            at hr
          rw [wp_rsect, seek_eq (by omega), hF.len, hlen]
          refine ⟨fun hfull => .inr ⟨rfl, ?_⟩, fun hfree => ?_⟩
          · unfold total at htot ⊢
            omega
          · -- the bytes go to the end of the block, and the rest is appended by the next rounds
            have hS := hB.store hi hbn hoff hroom (Nat.min_le_left _ _ : n1 ≤ p.length)
            rw [update_self, ← hxe] at hS
            rw [wp_wsect, seek_eq (by omega)]
            have hD : (grow D i (p.take n1) i).length = (D i).length + n1 := by
              unfold grow
              rw [update_self, length_append, htake]
            have hrest := ih (D := grow D i (p.take n1)) (T := update T i din) (p := p.drop n1)
              (s := { s₁ with
                img := update s₁.img x (copy (s₁.img x) ((D i).length - (D i).length / BSIZE * BSIZE)
                  n1 fun k => p.getD k 0)
                len := max s₁.len (x + 1) }) hS (by show max s₁.len (x + 1) = FSSIZE; rw [hF.len]; omega)
              (by show s₁.freeblock ≤ FSSIZE; omega) (by rw [length_drop]; omega)
            rw [update_self, hD] at hrest
            refine wp_mono hrest ?_ ?_
            · rintro ⟨din', off⟩ s₂ ⟨hF', hB', hfb', hoff'⟩
              dsimp only at hB' hoff' ⊢
              rw [hsplit, update_idem] at hB'
              refine ⟨hF.trans ((frame_write hr.1 (by rw [hF.len]; omega)).trans hF'), hB', hfb', ?_⟩
              rw [hoff', length_drop]
              omega
            · rintro e s₂ (⟨rfl, ho⟩ | ⟨rfl, ho⟩)
              · rw [hD, length_drop] at ho
                exact .inl ⟨rfl, by omega⟩
              · rw [hsplit] at ho
                exact .inr ⟨rfl, ho⟩
        · rintro e s₁ ⟨rfl, hfull⟩
          rw [hc] at hfull
          exact .inr ⟨rfl, by omega⟩

/-! ### Inodes -/

/-- The image has inodes with the contents `D`. -/
structure Holds (D : ℕ → List UInt8) (s : Mk) : Prop where
  built : Built (blocksOf D) D (dinode sb s.img) s.img s.freeblock
  size : ∀ i < NI, (dinode sb s.img i).size = (D i).length
  len : s.len = FSSIZE
  fb : s.freeblock ≤ FSSIZE

lemma iblock_lt (hi : i < NI) : sb.iblock i < nmeta := by
  have hb : sb.iblock i < sb.bmapstart := inArea_iff.mpr hi
  have hl := layout
  omega

lemma wp_rinode (hi : i < NI) (hlen : s.len = FSSIZE) (Q : Dinode → Mk → Prop)
    (E : Fail → Mk → Prop) (h : Q (dinode sb s.img i) s) : wp (rinode i) Q E s := by
  have := iblock_lt hi
  have := layout
  unfold rinode
  simp only [wp_bind, wp_rsect, wp_pure, seek_eq (show sb.iblock i < 2 ^ 22 by omega)]
  exact ⟨fun hle => absurd hle (by omega), fun _ => h⟩

/-- The image after inode `i` is written. -/
def putInode (s : Mk) (i : ℕ) (d : Dinode) : Mk :=
  { s with img := update s.img (sb.iblock i) (putDinode (s.img (sb.iblock i)) (i % IPB) d) }

lemma wp_winode (hi : i < NI) (hlen : s.len = FSSIZE) (d : Dinode) (Q : Unit → Mk → Prop)
    (E : Fail → Mk → Prop) (h : Q () (putInode s i d)) : wp (winode i d) Q E s := by
  have := iblock_lt hi
  have := layout
  unfold winode
  simp only [wp_bind, wp_rsect, wp_wsect, seek_eq (show sb.iblock i < 2 ^ 22 by omega)]
  refine ⟨fun hle => absurd hle (by omega), fun _ => ?_⟩
  rw [max_eq_left (by omega)]
  exact h

lemma dinode_congr {img img' : ℕ → Block} (h : ∀ b < nmeta, img' b = img b) {j : ℕ} (hj : j < NI) :
    dinode sb img' j = dinode sb img j := by
  unfold dinode
  rw [h _ (iblock_lt hj)]

/-- Inode `i` is written with the addresses it has and the length of its contents. -/
lemma holds_putInode {d : Dinode} (h : Built (blocksOf D) D (update T i d) s.img s.freeblock)
    (hT : ∀ j < NI, dinode sb s.img j = T j) (hi : i < NI) (hd : d.size = (D i).length)
    (hsize : ∀ j < NI, j ≠ i → (T j).size = (D j).length) (hlen : s.len = FSSIZE)
    (hfb : s.freeblock ≤ FSSIZE) : Holds D (putInode s i d) := by
  have hfits : d.Fits := by
    have := h.fits i hi
    rwa [update_self] at this
  have hdin : ∀ j, dinode sb (putInode s i d).img j = update (dinode sb s.img) i d j := fun j =>
    congrFun (dinode_putDinode sb s.img hfits) j
  refine ⟨h.congr (fun j hj => ?_) (fun b hb => ?_), fun j hj => ?_, hlen, hfb⟩
  · rw [hdin]
    have := h.fits j hj
    rcases eq_or_ne j i with rfl | hne
    · rw [update_self, update_self]
      exact ⟨rfl, hfits⟩
    · rw [update_of_ne hne] at this
      rw [update_of_ne hne, update_of_ne hne, hT j hj]
      exact ⟨rfl, this⟩
  · exact update_of_ne (by have := iblock_lt hi; omega) _ _
  · rw [hdin]
    rcases eq_or_ne j i with rfl | hne
    · rw [update_self, hd]
    · rw [update_of_ne hne, hT j hj, hsize j hj hne]

lemma wp_iappend (h : Holds D s) (hi : i < NI) (p : List UInt8) :
    wp (iappend i p) (fun _ s' => Holds (grow D i p) s' ∧ s'.freeinode = s.freeinode)
      (fun e _ => Overflow D i p e) s := by
  unfold iappend
  rw [wp_bind]
  refine wp_rinode hi h.len _ _ ?_
  rw [h.size i hi, wp_bind]
  refine wp_mono (wp_appendLoop h.built h.len h.fb hi le_rfl) ?_ fun _ _ he => he
  rintro ⟨din, off⟩ s' ⟨hF, hB, hfb, hoff⟩
  dsimp only at hB hoff ⊢
  refine wp_winode hi (hF.len.trans h.len) _ _ _ ⟨?_, hF.freeinode⟩
  have hgrow : (grow D i p i).length = (D i).length + p.length := by
    unfold grow
    rw [update_self, length_append]
  refine holds_putInode (T := dinode sb s.img) (hB.congr (fun j hj => ?_) fun _ _ => rfl)
    (fun j hj => dinode_congr hF.low hj) hi (hoff.trans hgrow.symm) (fun j hj hne => ?_)
    (hF.len.trans h.len) hfb
  · have hfits := hB.fits j hj
    rcases eq_or_ne j i with rfl | hne
    · rw [update_self] at hfits ⊢
      rw [update_self]
      refine ⟨rfl, hfits.type, hfits.major, hfits.minor, hfits.nlink, ?_, hfits.addrs, hfits.few⟩
      have hlen := hB.len j hj
      have hfew := hB.few j hj
      have hmax : blocksOf (grow D j p) j * BSIZE ≤ MAXFILE * BSIZE := Nat.mul_le_mul_right _ hfew
      have hlt : MAXFILE * BSIZE < 2 ^ 32 := by decide
      show off < 2 ^ 32
      omega
    · rw [update_of_ne hne] at hfits ⊢
      rw [update_of_ne hne]
      exact ⟨rfl, hfits⟩
  · rw [h.size j hj]
    unfold grow
    rw [update_of_ne hne]

/-! ### The empty image -/

lemma dinodeAt_zeroes (k : ℕ) : dinodeAt zeroes k = Dinode.fresh 0 := by
  ext
  case type | major | minor | nlink | size => exact le_zeroes _ _
  case addrs i =>
    simp only [dinodeAt, le_zeroes, Dinode.fresh, ite_self]

lemma slotAddr_fresh {img : ℕ → Block} {d : Dinode} (h : d.addrs = fun _ => 0) (k : ℕ) :
    slotAddr img d k = 0 := by
  unfold slotAddr
  rw [h]
  split
  · rfl
  · rw [if_pos rfl]

lemma not_hasSlot_zero {k : ℕ} : ¬ HasSlot 0 k := by
  unfold HasSlot
  split_ifs <;> omega

lemma holds_empty (hino : ∀ i < NI, s.img (sb.iblock i) = zeroes)
    (hzero : ∀ b, nmeta ≤ b → s.img b = zeroes) (hlen : s.len = FSSIZE)
    (hfb : s.freeblock = nmeta) : Holds (fun _ => []) s := by
  have hd : ∀ i < NI, dinode sb s.img i = Dinode.fresh 0 := fun i hi => by
    unfold dinode
    rw [hino i hi, dinodeAt_zeroes]
  have h0 : ∀ i, blocksOf (fun _ => []) i = 0 := fun i => by
    unfold blocksOf
    rw [length_nil]
    decide
  have hno : ∀ i k, ¬ HasSlot (blocksOf (fun _ => []) i) k := fun i k => by
    rw [h0]
    exact not_hasSlot_zero
  refine ⟨?_, fun i hi => by rw [hd i hi]; rfl, hlen, ?_⟩
  · constructor
    case count =>
      rw [hfb, Finset.sum_eq_zero fun i _ => by rw [h0]; rfl, Nat.add_zero]
    case few => exact fun i _ => by rw [h0]; exact Nat.zero_le _
    case len => exact fun _ _ => Nat.zero_le _
    case fits =>
      intro i hi
      exact dinodeAt_fits _ _
    case slot =>
      intro i hi k _
      rw [hd i hi, slotAddr_fresh rfl]
      exact ⟨fun h => absurd rfl h, fun h => absurd h (hno i k)⟩
    case range => exact fun i _ k _ h => absurd h (hno i k)
    case inj => exact fun i _ _ _ k _ _ _ h => absurd h (hno i k)
    case data => exact fun i _ x h => absurd (h0 i ▸ h) (Nat.not_lt_zero _)
    case zero =>
      intro b hb
      exact hzero b (by omega)
  · rw [hfb]
    decide

lemma wp_wipe {n : ℕ} (hn : n < 2 ^ 22) :
    wp (forUp (fun i => pure (decide (i < n))) (fun i => wsect i zeroes) 0 (n + 1))
      (fun _ t => t.img = (fun _ => zeroes) ∧ t.len = n ∧ t.freeinode = 1 ∧ t.freeblock = nmeta)
      (fun _ _ => False) start := by
  refine wp_forUp (fun j (t : Mk) => t.img = (fun _ => zeroes) ∧ t.len = j ∧ t.freeinode = 1 ∧
    t.freeblock = nmeta) (Nat.zero_le n) (by omega) ⟨rfl, rfl, rfl, rfl⟩ ?_ ?_
  · intro j t _
    rw [wp_pure]
    exact ⟨decide_eq_true_iff, rfl⟩
  · rintro j t _ hj ⟨himg, hlen, hino, hfb⟩
    rw [wp_wsect, seek_eq (by omega)]
    refine ⟨?_, ?_, hino, hfb⟩
    · show update t.img j zeroes = _
      rw [himg]
      exact update_eq_self j _
    · show max t.len (j + 1) = j + 1
      omega

lemma wp_format : wp format (fun _ s => Holds (fun _ => []) s ∧ s.freeinode = 1)
    (fun _ _ => False) start := by
  have hl := layout
  unfold format
  -- the bound is kept abstract, or the loop would be unrolled
  generalize hn : FSSIZE = n
  rw [wp_bind]
  refine wp_mono (wp_wipe (by omega)) ?_ fun _ _ h => h
  rintro - t ⟨himg, hlen, hino, hfb⟩
  rw [wp_wsect, seek_eq (by omega)]
  refine ⟨holds_empty (fun i hi => ?_) (fun b hb => ?_) ?_ hfb, hino⟩
  · dsimp only
    have hge : sb.inodestart ≤ sb.iblock i := Nat.le_add_left _ _
    rw [update_of_ne (by omega), himg]
  · dsimp only
    rw [update_of_ne (by omega), himg]
  · show max t.len (1 + 1) = FSSIZE
    omega

lemma wp_ialloc (h : Holds D s) (hi : s.freeinode < NI) (hD : D s.freeinode = []) {type : ℕ}
    (ht : type < 2 ^ 16) (E : Fail → Mk → Prop) :
    wp (ialloc type) (fun i s' => Holds D s' ∧ i = s.freeinode ∧ s'.freeinode = s.freeinode + 1)
      E s := by
  have h0 : ∀ k < NSLOT, slotAddr s.img (dinode sb s.img s.freeinode) k = 0 := by
    intro k hk
    by_contra hz
    have := (h.built.slot _ hi k hk).mp hz
    unfold blocksOf at this
    rw [hD] at this
    exact not_hasSlot_zero this
  have haddr : (dinode sb s.img s.freeinode).addrs = fun _ => 0 := by
    funext k
    rcases Nat.lt_or_ge NDIRECT k with hk | hk
    · exact (h.built.fits _ hi).few k hk
    · have hsz := sizes
      have := h0 k (by rw [show NSLOT = MAXFILE + 1 from rfl]; omega)
      rwa [slotAddr_direct hk] at this
  unfold ialloc
  simp only [wp_bind, wp_get, wp_set]
  refine wp_winode (s := { s with freeinode := s.freeinode + 1 }) hi h.len _ _ _ ?_
  rw [wp_pure]
  refine ⟨?_, rfl, rfl⟩
  refine holds_putInode (s := { s with freeinode := s.freeinode + 1 }) (T := dinode sb s.img)
    (h.built.congr (fun j hj => ?_) fun _ _ => rfl) (fun _ _ => rfl) hi (by rw [hD]; rfl)
    (fun j hj _ => h.size j hj) h.len h.fb
  rcases eq_or_ne j s.freeinode with rfl | hne
  · rw [update_self, haddr]
    exact ⟨rfl, ht, Nat.two_pow_pos 16, Nat.two_pow_pos 16, Nat.one_lt_two_pow (by decide),
      Nat.two_pow_pos 32, fun _ => Nat.two_pow_pos 32, fun _ _ => rfl⟩
  · rw [update_of_ne hne]
    exact ⟨rfl, h.built.fits j hj⟩

end Xv6.Mkfs
