import Xv6.Lib.Sum
import Xv6.Mkfs.Program

/-!
What an image under construction is: which blocks each inode has, and what is in them.

The blocks are handed out in order, so the blocks below `freeblock` are those of the inodes, each
in one slot, and the blocks from there on are zero.
-/

namespace Xv6.Mkfs

open Lib.Bytes Lib.Wp Lib.Sum Fs Function List

lemma layout : nmeta = 46 ∧ sb.inodestart = 32 ∧ sb.bmapstart = 45 ∧ sb.ninodes = 200 ∧
    FSSIZE = 1000 ∧ sb.size = 1000 ∧ sb.nmeta = 46 := by decide

/-- The inodes that fit in the inode blocks. -/
abbrev NI : ℕ := 208

/-- The inode is in an inode block. -/
def InArea (i : ℕ) : Prop := sb.iblock i < sb.bmapstart

instance : DecidablePred InArea := fun _ => inferInstanceAs (Decidable (_ < _))

lemma inArea_iff {i : ℕ} : InArea i ↔ i < NI := by
  have hl := layout
  have hsz := sizes
  unfold InArea Superblock.iblock
  rw [show IPB = 16 from rfl, show NI = 208 from rfl]
  omega

/-- A file of `c` blocks has a number in slot `k`. -/
def HasSlot (c k : ℕ) : Prop :=
  if k < NDIRECT then k < c else if k = NDIRECT then NDIRECT < c else k - 1 < c

/-- How many blocks a file of `c` blocks takes, with the indirect block. -/
def need (c : ℕ) : ℕ := if NDIRECT < c then c + 1 else c

lemma need_lt (c : ℕ) : need c < need (c + 1) := by
  unfold need
  split_ifs <;> omega

lemma hasSlot_slotOf {c bn : ℕ} : HasSlot c (slotOf bn) ↔ bn < c := by
  have hsz := sizes
  unfold HasSlot slotOf
  split_ifs <;> omega

lemma HasSlot.mono {c c' k : ℕ} (h : HasSlot c k) (hc : c ≤ c') : HasSlot c' k := by
  have hsz := sizes
  unfold HasSlot at *
  split_ifs at * <;> omega

/-- The `i`th inode has `c i` blocks with the bytes `D i`, and what follows them is zero. `T` gives
the inodes and `fb` the first block that is free. -/
structure Built (c : ℕ → ℕ) (D : ℕ → List UInt8) (T : ℕ → Dinode) (img : ℕ → Block) (fb : ℕ) :
    Prop where
  count : fb = nmeta + ∑ i ∈ Finset.range NI, need (c i)
  few : ∀ i < NI, c i ≤ MAXFILE
  len : ∀ i < NI, (D i).length ≤ c i * BSIZE
  fits : ∀ i < NI, (T i).Fits
  slot : ∀ i < NI, ∀ k < NSLOT, slotAddr img (T i) k ≠ 0 ↔ HasSlot (c i) k
  range : ∀ i < NI, ∀ k < NSLOT, HasSlot (c i) k →
    nmeta ≤ slotAddr img (T i) k ∧ slotAddr img (T i) k < fb
  inj : ∀ i < NI, ∀ j < NI, ∀ k < NSLOT, ∀ l < NSLOT, HasSlot (c i) k → HasSlot (c j) l →
    slotAddr img (T i) k = slotAddr img (T j) l → i = j ∧ k = l
  data : ∀ i < NI, ∀ x, x / BSIZE < c i →
    byte (img (bmapAddr img (T i) (x / BSIZE))) (x % BSIZE) = (D i).getD x 0
  zero : ∀ b, fb ≤ b → img b = zeroes

variable {c : ℕ → ℕ} {D : ℕ → List UInt8} {T : ℕ → Dinode} {img : ℕ → Block} {fb i : ℕ}

variable {k : ℕ} {img' : ℕ → Block} {d : Dinode}

lemma sum_range_update (c : ℕ → ℕ) {n : ℕ} (hi : i < NI) :
    (∑ j ∈ Finset.range NI, need (update c i n j)) + need (c i) =
      (∑ j ∈ Finset.range NI, need (c j)) + need n := by
  have hmem : i ∈ Finset.range NI := Finset.mem_range.mpr hi
  have hf : (fun j => need (update c i n j)) = update (fun j => need (c j)) i (need n) :=
    funext fun j => apply_update (fun _ => need) c i n j
  rw [hf, Finset.sum_update_of_mem hmem,
    Finset.sum_eq_add_sum_sdiff_singleton_of_mem hmem fun j => need (c j)]
  omega

namespace Built

lemma slot_congr (h : Built c D T img fb) {j : ℕ} (hj : j < NI)
    (himg : HasSlot (c j) NDIRECT → img' (slotAddr img (T j) NDIRECT) =
      img (slotAddr img (T j) NDIRECT)) (k : ℕ) :
    slotAddr img' (T j) k = slotAddr img (T j) k := by
  have h12 := h.slot j hj NDIRECT (by decide)
  rw [slotAddr_direct le_rfl] at h12 himg
  exact slotAddr_congr fun _ hne => himg (h12.mp hne)

end Built

/-- One more block for inode `i`. Only the new blocks and the inode's indirect block `a` change. -/
structure Extension (c : ℕ → ℕ) (T : ℕ → Dinode) (img : ℕ → Block) (fb i : ℕ) (d : Dinode)
    (img' : ℕ → Block) (fb' a : ℕ) : Prop where
  fits : d.Fits
  old : ∀ k < NSLOT, HasSlot (c i) k → slotAddr img' d k = slotAddr img (T i) k
  new : ∀ k < NSLOT, HasSlot (c i + 1) k → ¬ HasSlot (c i) k →
    fb ≤ slotAddr img' d k ∧ slotAddr img' d k < fb'
  inj : ∀ k < NSLOT, ∀ l < NSLOT, HasSlot (c i + 1) k → ¬ HasSlot (c i) k → HasSlot (c i + 1) l →
    ¬ HasSlot (c i) l → slotAddr img' d k = slotAddr img' d l → k = l
  none : ∀ k < NSLOT, ¬ HasSlot (c i + 1) k → slotAddr img' d k = 0
  count : fb' + need (c i) = fb + need (c i + 1)
  place : fb ≤ a ∨ (HasSlot (c i) NDIRECT ∧ a = slotAddr img (T i) NDIRECT)
  frame : ∀ b, b ≠ a → img' b = img b
  zero : ∀ b, fb' ≤ b → img' b = zeroes
  blank : img' (bmapAddr img' d (c i)) = zeroes

namespace Extension

variable {fb' a j l : ℕ} (E : Extension c T img fb i d img' fb' a) (h : Built c D T img fb)
  (hi : i < NI)

include E

lemma le : fb ≤ fb' := by
  have := need_lt (c i)
  have := E.count
  omega

lemma new_or_old (hk : k < NSLOT) :
    ¬ HasSlot (c i) k ∨ HasSlot (c i) k ∧ slotAddr img' d k = slotAddr img (T i) k :=
  (em _).symm.imp_right fun hs => ⟨hs, E.old k hk hs⟩

include h

/-- A new number is not below `fb`, an old one is. -/
lemma ne_old (hj : j < NI) (hk : k < NSLOT) (hl : l < NSLOT) (hs : HasSlot (c i + 1) k)
    (hn : ¬ HasSlot (c i) k) (hs' : HasSlot (c j) l) : slotAddr img' d k ≠ slotAddr img (T j) l := by
  have := (E.new k hk hs hn).1
  have := (h.range j hj l hl hs').2
  omega

include hi

/-- The block that changes is no old block of a file but the indirect one. -/
lemma slot_eq (hj : j < NI) (hk : k < NSLOT) (hs : HasSlot (c j) k)
    (he : slotAddr img (T j) k = a) : j = i ∧ k = NDIRECT := by
  rcases E.place with ha | ⟨h12, ha⟩
  · have := (h.range j hj k hk hs).2
    omega
  · exact h.inj j hj i hi k hk NDIRECT (by decide) hs h12 (he.trans ha)

lemma other (hj : j < NI) (hne : j ≠ i) (k : ℕ) : slotAddr img' (T j) k = slotAddr img (T j) k :=
  h.slot_congr hj (fun h12 => E.frame _ fun he => hne (E.slot_eq h hi hj (by decide) h12 he).1) k

lemma keep (hj : j < NI) {bn : ℕ} (hbn : bn < c j) :
    img' (bmapAddr img (T j) bn) = img (bmapAddr img (T j) bn) := by
  refine E.frame _ fun he => slotOf_ne bn (E.slot_eq h hi hj ?_ (hasSlot_slotOf.mpr hbn) he).2
  exact slotOf_lt (lt_of_lt_of_le hbn (h.few j hj))

lemma slot_iff (hk : k < NSLOT) : slotAddr img' d k ≠ 0 ↔ HasSlot (c i + 1) k := by
  constructor
  · intro hz
    by_contra hs
    exact hz (E.none k hk hs)
  · intro hs
    rcases E.new_or_old hk with hn | ⟨ho, he⟩
    · have := (E.new k hk hs hn).1
      have := h.count
      have := layout
      omega
    · rw [he]
      exact (h.slot i hi k hk).mpr ho

lemma range (hk : k < NSLOT) (hs : HasSlot (c i + 1) k) :
    nmeta ≤ slotAddr img' d k ∧ slotAddr img' d k < fb' := by
  have := E.le
  rcases E.new_or_old hk with hn | ⟨ho, he⟩
  · have := E.new k hk hs hn
    have := h.count
    omega
  · have := h.range i hi k hk ho
    omega

lemma inj_self (hk : k < NSLOT) (hl : l < NSLOT) (hs : HasSlot (c i + 1) k)
    (hs' : HasSlot (c i + 1) l) (he : slotAddr img' d k = slotAddr img' d l) : k = l := by
  rcases E.new_or_old hk with hn | ⟨ho, heq⟩ <;> rcases E.new_or_old hl with hn' | ⟨ho', heq'⟩
  · exact E.inj k hk l hl hs hn hs' hn' he
  · exact absurd (he.trans heq') (E.ne_old h hi hk hl hs hn ho')
  · exact absurd (he.symm.trans heq) (E.ne_old h hi hl hk hs' hn' ho)
  · rw [heq, heq'] at he
    exact (h.inj i hi i hi k hk l hl ho ho' he).2

lemma ne_other (hj : j < NI) (hne : j ≠ i) (hk : k < NSLOT) (hl : l < NSLOT)
    (hs : HasSlot (c i + 1) k) (hs' : HasSlot (c j) l) :
    slotAddr img' d k ≠ slotAddr img' (T j) l := by
  rw [E.other h hi hj hne]
  rcases E.new_or_old hk with hn | ⟨ho, heq⟩
  · exact E.ne_old h hj hk hl hs hn hs'
  · rw [heq]
    exact fun he => hne (h.inj i hi j hj k hk l hl ho hs' he).1.symm

lemma data (x : ℕ) (hx : x / BSIZE < c i + 1) :
    byte (img' (bmapAddr img' d (x / BSIZE))) (x % BSIZE) = (D i).getD x 0 := by
  rcases Nat.lt_or_ge (x / BSIZE) (c i) with hlt | hge
  · have hb : bmapAddr img' d (x / BSIZE) = bmapAddr img (T i) (x / BSIZE) :=
      E.old _ (slotOf_lt (lt_of_lt_of_le hlt (h.few i hi))) (hasSlot_slotOf.mpr hlt)
    rw [hb, E.keep h hi hi hlt]
    exact h.data i hi x hlt
  · have hx' : x / BSIZE = c i := by omega
    rw [hx', E.blank, byte_zeroes, getD_eq_default]
    have := Nat.div_add_mod x BSIZE
    rw [hx', Nat.mul_comm] at this
    exact le_trans (h.len i hi) (by omega)

lemma data_other (hj : j < NI) (hne : j ≠ i) (x : ℕ) (hx : x / BSIZE < c j) :
    byte (img' (bmapAddr img' (T j) (x / BSIZE))) (x % BSIZE) = (D j).getD x 0 := by
  have hb : bmapAddr img' (T j) (x / BSIZE) = bmapAddr img (T j) (x / BSIZE) := E.other h hi hj hne _
  rw [hb, E.keep h hi hj hx]
  exact h.data j hj x hx

end Extension

namespace Built

lemma extend {fb' a : ℕ} (h : Built c D T img fb) (hi : i < NI) (hm : c i < MAXFILE)
    (E : Extension c T img fb i d img' fb' a) :
    Built (update c i (c i + 1)) D (update T i d) img' fb' where
  count := by
    have := sum_range_update c (n := c i + 1) hi
    have := h.count
    have := E.count
    omega
  few := (forall_update_iff c fun j n => j < NI → n ≤ MAXFILE).mpr ⟨fun _ => hm, fun j _ => h.few j⟩
  len := (forall_update_iff c fun j n => j < NI → (D j).length ≤ n * BSIZE).mpr
    ⟨fun _ => le_trans (h.len i hi) (Nat.mul_le_mul_right _ (Nat.le_succ _)), fun j _ => h.len j⟩
  fits := (forall_update_iff T fun j d => j < NI → d.Fits).mpr ⟨fun _ => E.fits, fun j _ => h.fits j⟩
  slot j hj k hk := by
    rcases eq_or_ne j i with rfl | hne
    · rw [update_self, update_self]
      exact E.slot_iff h hi hk
    · rw [update_of_ne hne, update_of_ne hne, E.other h hi hj hne]
      exact h.slot j hj k hk
  range j hj k hk hs := by
    rcases eq_or_ne j i with rfl | hne
    · rw [update_self] at hs ⊢
      exact E.range h hi hk hs
    · rw [update_of_ne hne] at hs ⊢
      rw [E.other h hi hj hne]
      exact (h.range j hj k hk hs).imp_right fun hlt => hlt.trans_le E.le
  inj j hj j' hj' k hk l hl hs hs' he := by
    rcases eq_or_ne i j with rfl | hne <;> rcases eq_or_ne i j' with rfl | hne'
    · rw [update_self] at hs hs' he
      exact ⟨rfl, E.inj_self h hi hk hl hs hs' he⟩
    · rw [update_self] at hs he
      rw [update_of_ne hne'.symm] at hs' he
      exact absurd he (E.ne_other h hi hj' hne'.symm hk hl hs hs')
    · rw [update_self] at hs' he
      rw [update_of_ne hne.symm] at hs he
      exact absurd he.symm (E.ne_other h hi hj hne.symm hl hk hs' hs)
    · rw [update_of_ne hne.symm] at hs he
      rw [update_of_ne hne'.symm] at hs' he
      rw [E.other h hi hj hne.symm, E.other h hi hj' hne'.symm] at he
      exact h.inj j hj j' hj' k hk l hl hs hs' he
  data j hj x hx := by
    rcases eq_or_ne j i with rfl | hne
    · rw [update_self] at hx ⊢
      exact E.data h hi x hx
    · rw [update_of_ne hne] at hx ⊢
      exact E.data_other h hi hj hne x hx
  zero := E.zero

lemma fb_lt (h : Built c D T img fb) : fb < 2 ^ 17 := by
  have hl := layout
  have hsum : ∑ i ∈ Finset.range NI, need (c i) ≤ ∑ _i ∈ Finset.range NI, 269 := by
    refine Finset.sum_le_sum fun i hi => ?_
    have := h.few i (Finset.mem_range.mp hi)
    have hsz := sizes
    unfold need
    split_ifs <;> omega
  rw [Finset.sum_const, Finset.card_range, Nat.nsmul_eq_mul] at hsum
  have := h.count
  rw [show NI = 208 from rfl] at hsum this
  omega

lemma slotAddr_setAddr {l b : ℕ} (hk : k < NDIRECT) :
    slotAddr img (d.setAddr k b) l = if l = k then b else slotAddr img d l := by
  unfold slotAddr Dinode.setAddr
  simp only [update_of_ne (show NDIRECT ≠ k by omega), update_apply]
  split_ifs <;> first | rfl | omega

lemma fits_setAddr {b : ℕ} (hd : d.Fits) (hk : k ≤ NDIRECT) (hb : b < 2 ^ 32) : (d.setAddr k b).Fits := by
  refine ⟨hd.type, hd.major, hd.minor, hd.nlink, hd.size, fun i => ?_, fun i hi => ?_⟩
  · simp only [Dinode.setAddr, update_apply]
    split
    · exact hb
    · exact hd.addrs i
  · simp only [Dinode.setAddr, update_of_ne (show i ≠ k by omega)]
    exact hd.few i hi

section

variable (h : Built c D T img fb)

include h

/-- One more block where `fb` is the only number that is new. -/
lemma extend_one (hi : i < NI) (hm : c i < MAXFILE) (hne : c i ≠ NDIRECT) {a : ℕ} (hfits : d.Fits)
    (hslot : ∀ k < NSLOT, slotAddr img' d k = if k = slotOf (c i) then fb else slotAddr img (T i) k)
    (ha : fb ≤ a ∨ (HasSlot (c i) NDIRECT ∧ a = slotAddr img (T i) NDIRECT))
    (himg : ∀ b, b ≠ a → img' b = img b) (hzero : ∀ b, fb ≤ b → img' b = zeroes) :
    Built (update c i (c i + 1)) D (update T i d) img' (fb + 1) := by
  have hcases : ∀ k, HasSlot (c i + 1) k → ¬ HasSlot (c i) k → k = slotOf (c i) := by
    intro k h1 h2
    unfold HasSlot at h1 h2
    unfold slotOf
    split_ifs at * <;> omega
  refine h.extend hi hm ⟨hfits, ?_, ?_, ?_, ?_, ?_, ha, himg, fun b hb => hzero b (by omega), ?_⟩
  · intro k hk hs
    rw [hslot k hk, if_neg]
    rintro rfl
    exact lt_irrefl _ (hasSlot_slotOf.mp hs)
  · intro k hk h1 h2
    rw [hslot k hk, if_pos (hcases k h1 h2)]
    omega
  · intro k _ l _ h1 h2 h3 h4 _
    rw [hcases k h1 h2, hcases l h3 h4]
  · intro k hk hn
    rw [hslot k hk, if_neg]
    · by_contra hz
      exact hn (((h.slot i hi k hk).mp hz).mono (Nat.le_succ _))
    · rintro rfl
      exact hn (hasSlot_slotOf.mpr (Nat.lt_succ_self _))
  · unfold need
    split_ifs <;> omega
  · unfold bmapAddr
    rw [hslot _ (slotOf_lt hm), if_pos rfl]
    exact hzero fb le_rfl

lemma direct (hi : i < NI) (hm : c i < NDIRECT) :
    Built (update c i (c i + 1)) D (update T i ((T i).setAddr (c i) fb)) img (fb + 1) := by
  have hsz := sizes
  have hlt := h.fb_lt
  refine h.extend_one hi (by omega) hm.ne (a := fb) (fits_setAddr (h.fits i hi) hm.le (by omega))
    (fun k _ => ?_) (.inl le_rfl) (fun _ _ => rfl) h.zero
  rw [slotAddr_setAddr hm, show slotOf (c i) = c i from if_pos hm]

lemma slotAddr_indirect (i k : ℕ) :
    slotAddr (update img fb (putLe (img fb) 0 4 (fb + 1))) ((T i).setAddr NDIRECT fb) k =
      if k < NDIRECT then (T i).addrs k else if k = NDIRECT then fb else
        if k = NDIRECT + 1 then fb + 1 else 0 := by
  have hsz := sizes
  have hlt := h.fb_lt
  have hl := layout
  have hcount := h.count
  have hentry : ∀ l, le (putLe (img fb) 0 4 (fb + 1)) (4 * l) 4 = if l = 0 then fb + 1 else 0 := by
    intro l
    rw [h.zero fb le_rfl]
    split
    · next h0 => rw [h0]; exact le_putLe_of_lt _ (by omega) (by omega)
    · rw [le_putLe_of_disjoint _ _ (by omega), le_zeroes]
  unfold slotAddr Dinode.setAddr
  simp only [update_self]
  rcases Nat.lt_trichotomy k NDIRECT with hk | rfl | hk
  · rw [if_pos hk.le, if_pos hk, update_of_ne hk.ne]
  · rw [if_pos le_rfl, if_neg (lt_irrefl _), if_pos rfl, update_self]
  · rw [if_neg (by omega), if_neg (by omega), if_neg (by omega), if_neg (by omega), hentry]
    split_ifs <;> first | rfl | omega

lemma slotAddr_entry (hm : NDIRECT < c i) (hne : (T i).addrs NDIRECT ≠ 0) (hk : k < NSLOT) :
    slotAddr (update img ((T i).addrs NDIRECT)
      (putLe (img ((T i).addrs NDIRECT)) (4 * (c i - NDIRECT)) 4 fb)) (T i) k =
        if k = c i + 1 then fb else slotAddr img (T i) k := by
  have hsz := sizes
  have hlt := h.fb_lt
  have hns : NSLOT = MAXFILE + 1 := rfl
  unfold slotAddr
  rw [update_self]
  split_ifs with h1 h2 h3
  · omega
  · rfl
  · rw [h3]
    exact (congrArg (fun o => le _ o 4) (by omega)).trans (le_putLe_of_lt _ (by omega) (by omega))
  · rw [le_putLe_of_disjoint _ _ (by omega)]

lemma indirect (hi : i < NI) (hm : c i = NDIRECT) :
    Built (update c i (c i + 1)) D (update T i ((T i).setAddr NDIRECT fb))
      (update img fb (putLe (img fb) 0 4 (fb + 1))) (fb + 2) := by
  have hsz := sizes
  have hlt := h.fb_lt
  have hl := layout
  have hcount := h.count
  have hslot := h.slotAddr_indirect i
  have hcases : ∀ k, HasSlot (c i + 1) k → ¬ HasSlot (c i) k → k = NDIRECT ∨ k = NDIRECT + 1 := by
    intro k h1 h2
    unfold HasSlot at h1 h2
    split_ifs at h1 h2 <;> omega
  refine h.extend (a := fb) hi (by omega) ⟨fits_setAddr (h.fits i hi) le_rfl (by omega), ?_, ?_, ?_,
    ?_, ?_, .inl le_rfl, fun b hb => update_of_ne hb _ _,
    fun b hb => by rw [update_of_ne (by omega)]; exact h.zero b (by omega), ?_⟩
  · intro k _ hs
    have hk : k < NDIRECT := by
      unfold HasSlot at hs
      split_ifs at hs <;> omega
    rw [hslot, if_pos hk, slotAddr_direct hk.le]
  · intro k _ h1 h2
    rw [hslot]
    rcases hcases k h1 h2 with rfl | rfl <;> split_ifs <;> omega
  · intro k _ l _ h1 h2 h3 h4
    rw [hslot, hslot]
    rcases hcases k h1 h2 with rfl | rfl <;> rcases hcases l h3 h4 with rfl | rfl <;>
      split_ifs <;> omega
  · intro k hk hn
    rw [hslot]
    unfold HasSlot at hn
    split_ifs at hn ⊢ <;> first | rfl | omega
  · unfold need
    split_ifs <;> omega
  · unfold bmapAddr
    rw [hslot, show slotOf (c i) = NDIRECT + 1 by rw [hm]; rfl, if_neg (by omega), if_neg (by omega),
      if_pos rfl, update_of_ne (by omega)]
    exact h.zero _ (by omega)

lemma has_indirect (hi : i < NI) (hm : NDIRECT < c i) :
    HasSlot (c i) NDIRECT ∧
      (T i).addrs NDIRECT ≠ 0 ∧ nmeta ≤ (T i).addrs NDIRECT ∧ (T i).addrs NDIRECT < fb ∧
      ∀ bn, NDIRECT ≤ bn → slotAddr img (T i) (slotOf bn) =
        le (img ((T i).addrs NDIRECT)) (4 * (bn - NDIRECT)) 4 := by
  have h12 : HasSlot (c i) NDIRECT := by
    unfold HasSlot
    rw [if_neg (lt_irrefl _), if_pos rfl]
    exact hm
  have hne := (h.slot i hi NDIRECT (by decide)).mpr h12
  have hr := h.range i hi NDIRECT (by decide) h12
  rw [slotAddr_direct le_rfl] at hne hr
  refine ⟨h12, hne, hr.1, hr.2, fun bn hbn => ?_⟩
  unfold slotAddr
  rw [show slotOf bn = bn + 1 from if_neg (by omega), if_neg (by omega), if_neg hne,
    show bn + 1 - NDIRECT - 1 = bn - NDIRECT by omega]

lemma entry (hi : i < NI) (hm : NDIRECT < c i) (hm' : c i < MAXFILE) :
    Built (update c i (c i + 1)) D T (update img ((T i).addrs NDIRECT)
      (putLe (img ((T i).addrs NDIRECT)) (4 * (c i - NDIRECT)) 4 fb)) (fb + 1) := by
  obtain ⟨h12, hne, -, hrange, -⟩ := h.has_indirect hi hm
  rw [← update_eq_self i T, update_self]
  refine h.extend_one hi hm' hm.ne' (h.fits i hi) (fun k hk => ?_)
    (.inr ⟨h12, (slotAddr_direct le_rfl).symm⟩) (fun b hb => update_of_ne hb _ _) (fun b hb => ?_)
  · rw [show slotOf (c i) = c i + 1 from if_neg (by omega)]
    exact h.slotAddr_entry hm hne hk
  · rw [update_of_ne (by omega)]
    exact h.zero b hb

/-- The numbers in the slots are what they were. -/
lemma same_slots {D' : ℕ → List UInt8} {T' : ℕ → Dinode}
    (hslot : ∀ j < NI, ∀ k, slotAddr img' (T' j) k = slotAddr img (T j) k)
    (hlen : ∀ j < NI, (D' j).length ≤ c j * BSIZE) (hfits : ∀ j < NI, (T' j).Fits)
    (hdata : ∀ j < NI, ∀ x, x / BSIZE < c j →
      byte (img' (bmapAddr img (T j) (x / BSIZE))) (x % BSIZE) = (D' j).getD x 0)
    (hzero : ∀ b, fb ≤ b → img' b = zeroes) : Built c D' T' img' fb := by
  refine ⟨h.count, h.few, hlen, hfits, fun j hj k hk => ?_, fun j hj k hk => ?_,
    fun j hj j' hj' k hk l hl => ?_, fun j hj x hx => ?_, hzero⟩
  · rw [hslot j hj]
    exact h.slot j hj k hk
  · rw [hslot j hj]
    exact h.range j hj k hk
  · rw [hslot j hj, hslot j' hj']
    exact h.inj j hj j' hj' k hk l hl
  · rw [show bmapAddr img' (T' j) (x / BSIZE) = _ from hslot j hj _]
    exact hdata j hj x hx

/-- Bytes are put at the end of a file that has room for them in its last block. -/
lemma store (hi : i < NI) {bn o n : ℕ} {p : List UInt8} (hbn : bn < c i)
    (hoff : (D i).length = bn * BSIZE + o) (hn : o + n ≤ BSIZE) (hnp : n ≤ p.length) :
    Built c (update D i (D i ++ p.take n)) T (update img (bmapAddr img (T i) bn)
      (copy (img (bmapAddr img (T i) bn)) o n fun k => p.getD k 0)) fb := by
  have hs : HasSlot (c i) (slotOf bn) := hasSlot_slotOf.mpr hbn
  have hlt : slotOf bn < NSLOT := slotOf_lt (lt_of_lt_of_le hbn (h.few i hi))
  have hslot : ∀ j < NI, ∀ k, slotAddr (update img (bmapAddr img (T i) bn)
      (copy (img (bmapAddr img (T i) bn)) o n fun k => p.getD k 0)) (T j) k =
        slotAddr img (T j) k := fun j hj => h.slot_congr hj fun h12 => update_of_ne (fun he =>
    slotOf_ne bn (h.inj j hj i hi NDIRECT (by decide) _ hlt h12 hs he).2.symm) _ _
  refine h.same_slots hslot (fun j hj => ?_) h.fits (fun j hj x hx => ?_) fun b hb => ?_
  · rcases eq_or_ne j i with rfl | hne
    · rw [update_self, length_append, length_take, hoff]
      calc bn * BSIZE + o + min n p.length ≤ bn * BSIZE + BSIZE := by omega
        _ = (bn + 1) * BSIZE := (Nat.succ_mul bn BSIZE).symm
        _ ≤ c j * BSIZE := Nat.mul_le_mul_right _ hbn
    · rw [update_of_ne hne]; exact h.len j hj
  · by_cases hji : j = i ∧ x / BSIZE = bn
    · obtain ⟨rfl, hxb⟩ := hji
      have hold := h.data j hj x hx
      have hmod : x % BSIZE < BSIZE := Nat.mod_lt x (by decide)
      have hxeq : x = bn * BSIZE + x % BSIZE := by
        have := Nat.div_add_mod x BSIZE
        rw [hxb, Nat.mul_comm] at this
        exact this.symm
      rw [hxb] at hold ⊢
      rw [update_self, update_self, byte_copy _ _ _ _ hmod, hold]
      split
      · next hin =>
        rw [getD_append_right _ _ _ _ (by omega)]
        simp only [getD_eq_getElem?_getD, List.getElem?_take]
        rw [if_pos (by omega), show x - (D j).length = x % BSIZE - o by omega]
      · next hout =>
        rcases Nat.lt_or_ge x (D j).length with hlt | hge
        · rw [getD_append _ _ _ _ hlt]
        · rw [getD_eq_default _ _ hge, getD_eq_default]
          rw [length_append, length_take]
          omega
    · have hne : bmapAddr img (T j) (x / BSIZE) ≠ bmapAddr img (T i) bn := fun he => by
        have := h.inj j hj i hi _ (slotOf_lt (lt_of_lt_of_le hx (h.few j hj))) _ hlt
          (hasSlot_slotOf.mpr hx) hs he
        exact hji ⟨this.1, slotOf_injective this.2⟩
      rw [update_of_ne hne, h.data j hj x hx]
      rcases eq_or_ne j i with rfl | hji'
      · -- the bytes of another block of the file stay
        rw [update_self]
        have hxbn : x / BSIZE ≠ bn := fun hx' => hji ⟨rfl, hx'⟩
        rcases Nat.lt_or_ge x (D j).length with hlt | hge
        · rw [getD_append _ _ _ _ hlt]
        · have hgt : bn + 1 ≤ x / BSIZE := by
            have : bn ≤ x / BSIZE := (Nat.le_div_iff_mul_le (by decide)).mpr (by omega)
            omega
          have hx' := (Nat.le_div_iff_mul_le (by decide)).mp hgt
          rw [Nat.succ_mul] at hx'
          rw [getD_eq_default _ _ hge, getD_eq_default]
          rw [length_append, length_take]
          omega
      · rw [update_of_ne hji']
  · have := (h.range i hi _ hlt hs).2
    rw [update_of_ne]
    · exact h.zero b hb
    · show b ≠ slotAddr img (T i) (slotOf bn)
      omega

/-- The blocks before the data do not matter, nor what an inode has besides addresses. -/
lemma congr {T' : ℕ → Dinode} (hT : ∀ i < NI, (T' i).addrs = (T i).addrs ∧ (T' i).Fits)
    (himg : ∀ b, nmeta ≤ b → img' b = img b) : Built c D T' img' fb := by
  have hslot : ∀ j < NI, ∀ k, slotAddr img' (T' j) k = slotAddr img (T j) k := by
    intro j hj k
    rw [← h.slot_congr hj (fun h12 => himg _ (h.range j hj _ (by decide) h12).1) k]
    unfold slotAddr
    rw [(hT j hj).1]
  refine h.same_slots hslot h.len (fun i hi => (hT i hi).2) (fun j hj x hx => ?_) fun b hb => ?_
  · have hr : nmeta ≤ bmapAddr img (T j) (x / BSIZE) :=
      (h.range j hj _ (slotOf_lt (lt_of_lt_of_le hx (h.few j hj))) (hasSlot_slotOf.mpr hx)).1
    rw [himg _ hr]
    exact h.data j hj x hx
  · rw [himg b (by have := h.count; omega)]
    exact h.zero b hb

end

end Built

end Xv6.Mkfs
