import Xv6.Commit

/-!
`recover_from_log` at boot: it always runs to its end, and it may be stopped and started
again.

Recovery unpins the blocks it installs although nothing pinned them, so their counts go
below zero and wrap.
-/

namespace Xv6.Recovery

open Lib.Wp Lib.Bytes Bio LogState Io IoSpec Redo Commit

variable {s : Store} {A : ℕ → Option Block} {P : ℕ → UInt32} {start size : ℕ} {t : Disk}

/-- The log `read_head` leaves when the header block is `x`. -/
def headed (l : Log) (x : Block) : Log :=
  { l with lh := ⟨headN x, fun i => if i < (headN x).toNat then headBlock x i else l.lh.block i⟩ }

lemma headed_block (l : Log) {x : Block} {i : ℕ} (hi : i < (headN x).toNat) :
    (headed l x).lh.block i = headBlock x i := if_pos hi

@[simp] lemma headed_blocks (l : Log) (x : Block) : (headed l x).lh.blocks = headBlocks x := by
  unfold LogHeader.blocks headBlocks
  exact List.map_congr_left fun i hi => headed_block l (List.mem_range.mp hi)

lemma headBlock_lt (x : Block) (i : ℕ) : headBlock x i < 2 ^ 32 := le_lt x _ 4

lemma headBlocks_length (x : Block) : (headBlocks x).length = (headN x).toNat := by
  simp [headBlocks]

lemma readHead_spec (h : Rep s A P ∅) (hst : s.log.start = start) (hdev : s.log.dev = ROOTDEV)
    (hP : P start = 0) {x : Block} (hx : A start = some x) (hn : headN x ≤ LOGSIZE) :
    wp (readHead : IoM Unit)
      (fun _ s' => Rep s' A P ∅ ∧ s'.disk = s.disk ∧ s'.trace = s.trace ∧ s'.pid = s.pid ∧
        s'.log = headed s.log x)
      (NoBuf 0 P s) s := by
  have hP1 : P start + 1 ≠ 0 := by rw [hP]; decide
  unfold readHead
  simp only [wp_bind, monadLift_self, wp_getLog, hdev, hst]
  refine wp_mono (bread_spec h (b := start) (by simp) (by simp) hP1) (fun i s1 g1 => ?_) ?_
  · simp only [takeHead, data, wp_bind, wp_get, wp_pure, wp_throwIf, wp_modify]
    rw [g1.known x hx]
    refine ⟨fun hgt => absurd hgt (by omega), fun _ => ?_⟩
    have h2 : Rep { s1 with log := headed s1.log x } A P (insert i ∅) := { g1.rep with }
    refine wp_mono (brelse_spec h2 (i := i) (b := start) (by simp) g1.blockno
      (fun hP0 d hd => ?_)) ?_ (fun _ _ h => h)
    · show s1.disk start = d
      rw [g1.disk]; exact g1.clean hP0 d hd
    rintro _ s3 ⟨h3, hf3, -⟩
    rw [Finset.erase_insert (Finset.notMem_empty i)] at h3
    refine ⟨h3, ?_, ?_, ?_, ?_⟩ <;> rw [hf3] <;> simp [g1.disk, g1.trace, g1.log, g1.pid]
  · rintro e _ ⟨rfl, rfl, hall, -⟩
    exact noBuf_of_busy h (by simp) rfl rfl hall

lemma NoBuf.impossible {e : Stop} {s' : Store} (h : NoBuf 0 P s e s') {L : List ℕ}
    (hL : ∀ b, P b ≠ 0 → b ∈ L) (hlen : L.length < NBUF) : False := by
  have := h.2.2.2 L hL
  omega

/-- What recovery leaves each block owed: it unpins what was never pinned. -/
def leak (L : List ℕ) : ℕ → UInt32 := unpinned (fun _ => 0) L

lemma mem_of_leak {L : List ℕ} {b : ℕ} (h : leak L b ≠ 0) : b ∈ L := by
  by_contra hb
  exact h (by simp [leak, unpinned, hb])

/-- **Recovery from a sound disk runs to its end and gives the target**, and every disk on
the way is sound for the same target. -/
theorem recoverFromLog_spec (h : Rep s (fun b => some (s.disk b)) (fun _ => 0) ∅)
    (hst : s.log.start = start) (hdev : s.log.dev = ROOTDEV)
    (hsound : Sound start size t s.disk) {d₀ : Disk} {Φ : Disk → Prop} (hist : Hist d₀ Φ s)
    (hΦ : ∀ d, Sound start size t d → Φ d) :
    wp (recoverFromLog : IoM Unit)
      (fun _ s' => Rep s' (outside start size fun b => some (t b))
          (leak (headBlocks (s.disk start))) ∅ ∧
        s'.log = cleared (headed s.log (s.disk start)) ∧ s'.pid = s.pid ∧ Hist d₀ Φ s' ∧
        headBlocks (s'.disk start) = [] ∧ ∀ b, ¬ InLog start size b → s'.disk b = t b)
      (fun _ _ => False) s := by
  set x := s.disk start with hx
  have hlen : (headN x).toNat < NBUF := by rw [← headBlocks_length]; exact hsound.bound
  have hroom : (headN x).toNat < size := by rw [← headBlocks_length]; exact hsound.room
  have hin : InLog start size start := ⟨le_rfl, by omega⟩
  unfold recoverFromLog
  simp only [wp_bind, monadLift_self]
  refine wp_mono (readHead_spec h hst hdev rfl (x := x) rfl ?_) ?_
    (fun _ _ h' => NoBuf.impossible h' (L := []) (by simp) (by decide))
  · have := LOGSIZE_eq; have := NBUF_eq; omega
  rintro _ s1 ⟨h1, hd1, ht1, hpid1, hlog1⟩
  have hblocks : s1.log.lh.blocks = headBlocks x := by rw [hlog1]; exact headed_blocks s.log x
  have hn1 : s1.log.lh.n = headN x := by rw [hlog1]; rfl
  have hblock : ∀ i < (headN x).toNat, s1.log.lh.block i = headBlock x i := fun i hi => by
    rw [hlog1]; exact headed_block s.log hi
  have hl1 : LogOk start size s1.log := by
    constructor
    case at_start => rw [hlog1]; exact hst
    case dev => rw [hlog1]; exact hdev
    case le => rw [hn1]; have := LOGSIZE_eq; have := NBUF_eq; omega
    case room => rw [hn1]; omega
    case nodup => rw [hblocks]; exact hsound.nodup
    case home => rw [hblocks]; exact hsound.home
    case word =>
      intro b hb
      rw [hblocks, headBlocks, List.mem_map] at hb
      obtain ⟨i, -, rfl⟩ := hb
      exact headBlock_lt x i
  -- the slot of each entry
  let v : ℕ → Block := fun b => s.disk (start + (headBlocks x).idxOf b + 1)
  have hv : ∀ i < s1.log.lh.n.toNat, s.disk (start + i + 1) = v (s1.log.lh.block i) := by
    intro i hi
    have hb : (headBlocks x).idxOf (s1.log.lh.block i) = i := by
      have hi' : i < s1.log.lh.blocks.length := by simpa using hi
      rw [← hblocks, ← blocks_getElem _ hi']
      exact List.Nodup.idxOf_getElem hl1.nodup i hi'
    simp only [v, hb]
  refine wp_mono (installTrans_spec h1 hl1 (v := v) (fun i hi => congrArg some (hv i hi))
    (fun _ _ => by decide) (fun _ _ => rfl) ?_ (fun i hi => ?_) (fun i hi => ?_)
    (hd1 ▸ hsound) (hist.congr hd1 ht1) hΦ) ?_ ?_
  · rw [hd1, hblocks]
  · rw [hn1] at hi; rw [hd1, hblock i hi]
  · rw [hd1]; exact hv i hi
  · rintro _ s2 ⟨h2, hlog2, hpid2, hist2, hsound2, hd2, -⟩
    rw [hblocks] at h2 hd2
    have hlogs : ∀ b, InLog start size b → s2.disk b = s.disk b := fun b hb => by
      rw [hd2, ← hd1]; exact if_neg fun hm => hsound.home b hm hb
    have hs2 : s2.disk start = x := hlogs start hin
    have hl2 : LogOk start size s2.log := hlog2 ▸ hl1
    rw [← wp_bind clearHead fun _ => writeHead]
    refine wp_mono (clear_spec h2 hl2 ?_ ?_ (fun i hi => ?_) (fun i hi => ?_) hsound2 hist2 hΦ)
      ?_ ?_
    · exact if_neg fun hm => hsound.home start hm hin
    · rw [hs2, hlog2, hblocks]
    · rw [hlog2, hn1] at hi
      rw [hs2, hlog2, hblock i hi]
    · rw [hlog2] at hi ⊢
      have hm : s1.log.lh.block i ∈ headBlocks x := hblocks ▸ block_mem hi
      rw [hlogs _ (hl1.slot hi), hv i hi, hd2]
      exact if_pos hm
    · rintro _ s3 ⟨⟨y, h3, hy, hd3⟩, hlog3, hpid3, hist3⟩
      have hout : ∀ b, ¬ InLog start size b → known (fun b => some (s.disk b)) v (headBlocks x) b =
          some (t b) := by
        intro b hb
        have htb := hsound.target b hb
        rw [recovered, ← hx] at htb
        rw [← htb, known]
        split <;> rfl
      have hne : ∀ b, ¬ InLog start size b → b ≠ start := fun b hb e => hb (e ▸ hin)
      refine ⟨h3.weaken fun b d hb => ?_, by rw [hlog3, hlog2, hlog1], by rw [hpid3, hpid2, hpid1],
        hist3, by rw [hd3]; simpa using hy, fun b hb => ?_⟩
      · unfold outside at hb
        split at hb
        · simp at hb
        · rename_i hb'
          rw [Function.update_of_ne (hne b hb'), hout b hb']; exact hb
      · rw [hd3, Function.update_of_ne (hne b hb), hd2]
        have := hout b hb
        unfold known at this
        split at this
        · rename_i hm
          exact (if_pos hm).trans (Option.some.inj this)
        · rename_i hm
          exact (if_neg hm).trans (hd1 ▸ Option.some.inj this)
    · rintro _ s3 ⟨-, hL⟩
      have := hL _ fun b hb => mem_of_leak hb
      rw [headBlocks_length] at this
      omega
  · rintro _ s2 ⟨-, hL⟩
    have := hL [] fun b hb => absurd rfl hb
    rw [hn1] at this
    simp only [List.length_nil] at this
    omega

end Xv6.Recovery
