import Xv6.IoSpec
import Xv6.Redo

/-!
The steps of `commit` and `recover_from_log`: what each writes to disk and what is known
of the blocks after it.

The block numbers of the transaction are those of the in-memory header; `P` says what each
is owed, which is one pin in a commit and nothing in a recovery.
-/

namespace Xv6.Commit

open Lib.Wp Lib.Bytes Bio LogState Io IoSpec Redo Function

variable {s : Store} {A : ℕ → Option Block} {P : ℕ → UInt32}

/-- A step that needs `k` buffers besides the one it asks for ran out of buffers, before any
of its writes. -/
def NoBuf (k : ℕ) (P : ℕ → UInt32) (s : Store) (e : Stop) (s' : Store) : Prop :=
  e = .panic "bget: no buffers" ∧ s'.disk = s.disk ∧ s'.trace = s.trace ∧
    ∀ L : List ℕ, (∀ b, P b ≠ 0 → b ∈ L) → NBUF ≤ L.length + k

variable {k b : ℕ} {lh : LogHeader}

lemma noBuf_of_busy {s' : Store} {H : Finset (Fin NBUF)} (h : Rep s' A P H)
    (hH : H.card ≤ k) (hd : s'.disk = s.disk) (ht : s'.trace = s.trace)
    (hall : ∀ i, (s'.bcache.buf i).refcnt ≠ 0) : NoBuf k P s (.panic "bget: no buffers") s' := by
  refine ⟨rfl, hd, ht, fun L hL => ?_⟩
  by_contra hlt
  obtain ⟨i, hi⟩ := h.exists_free hL (by omega)
  exact hall i hi

lemma erase_pair (i j : Fin NBUF) :
    ((insert i (insert j ∅) : Finset (Fin NBUF)).erase j).erase i = ∅ := by
  ext k
  simp only [Finset.mem_erase, Finset.mem_insert, Finset.notMem_empty]
  tauto

lemma writeLogBody_spec (h : Rep s A P ∅) {v : Block} (hk : k < LOGSIZE)
    (hdev : s.log.dev = ROOTDEV) (hv : A (s.log.lh.block k) = some v) (hP : P (s.log.lh.block k) = 1)
    (hslot : P (s.log.start + k + 1) = 0) :
    wp (writeLogBody k : IoM Unit)
      (fun _ s' => Rep s' (update A (s.log.start + k + 1) (some v)) P ∅ ∧
        s'.disk = update s.disk (s.log.start + k + 1) v ∧
        s'.trace = s.trace ++ [.write (s.log.start + k + 1) v] ∧ s'.log = s.log ∧
        s'.pid = s.pid)
      (NoBuf 1 P s) s := by
  set slot := s.log.start + k + 1 with hs
  set b := s.log.lh.block k with hbdef
  have hne : slot ≠ b := fun e => by rw [e, hP] at hslot; exact absurd hslot (by decide)
  unfold writeLogBody
  simp only [wp_bind, monadLift_self, wp_getLog, hdev, ← hs]
  refine wp_mono (bread_spec h (by simp) (by simp) (by rw [hslot]; decide)) (fun l s1 g1 => ?_) ?_
  · simp only [wp_lhBlock hk, g1.log, ← hbdef]
    refine wp_mono (bread_spec g1.rep (b := b) ?_ ?_ (by rw [hP]; decide)) (fun d s2 g2 => ?_) ?_
    · simp [g1.blockno, hne]
    · simp [g1.refcnt, hslot]
    · -- both buffers are held: copy, write, release
      have hl2 : s2.bcache.buf l = s1.bcache.buf l := g2.others l (by simp)
      have hdl : d ≠ l := fun e => g2.fresh (by simp [e])
      rw [wp_memmove, g2.known v hv]
      have h3 := g2.rep.setData (i := l) (b := slot) (by simp) (by rw [hl2]; exact g1.blockno)
        (by rw [hslot]; decide) v
      refine wp_mono (bwrite_spec h3 (i := l) (b := slot) (by simp) ?_) ?_ (fun _ _ h => h)
      · simpa [hl2] using g1.blockno
      rintro _ _ ⟨h4, rfl⟩
      refine wp_mono (brelse_spec h4 (i := d) (b := b) (by simp) ?_ ?_) ?_ (fun _ _ h => h)
      · simpa [set_buf_of_ne _ _ hdl] using g2.blockno
      · intro h0; rw [hP] at h0; exact absurd h0 (by decide)
      rintro _ s5 ⟨h5, hf5, ho5, -⟩
      refine wp_mono (brelse_spec h5 (i := l) (b := slot) (by simp [hdl.symm]) ?_ ?_) ?_
        (fun _ _ h => h)
      · rw [ho5 l hdl.symm]; simpa [hl2] using g1.blockno
      · intro _ x hx
        rw [hf5]
        simpa using hx
      rintro _ s6 ⟨h6, hf6, -⟩
      rw [Finset.erase_right_comm, erase_pair] at h6
      refine ⟨h6, ?_, ?_, ?_, ?_⟩ <;> rw [hf6, hf5] <;> simp [g2.disk, g1.disk, g2.trace, g1.trace,
        g2.log, g1.log, g2.pid, g1.pid]
    · rintro e _ ⟨rfl, rfl, -, hno⟩
      obtain ⟨i, hi⟩ := g1.rep.pinned b (by rw [hP]; decide)
      exact absurd hi (hno i)
  · rintro e _ ⟨rfl, rfl, hall, -⟩
    exact noBuf_of_busy h (by simp) rfl rfl hall

/-- One round of `install_trans` copies a log slot to its home and takes one off what the
home block is owed. -/
lemma installBody_spec (h : Rep s A P ∅) {v : Block} (hk : k < LOGSIZE)
    (hdev : s.log.dev = ROOTDEV) (hv : A (s.log.start + k + 1) = some v) (hslot : P (s.log.start + k + 1) = 0)
    (hne : s.log.start + k + 1 ≠ s.log.lh.block k) (hP : P (s.log.lh.block k) + 1 ≠ 0) :
    wp (installBody k : IoM Unit)
      (fun _ s' => Rep s' (update A (s.log.lh.block k) (some v))
          (update P (s.log.lh.block k) (P (s.log.lh.block k) - 1)) ∅ ∧
        s'.disk = update s.disk (s.log.lh.block k) v ∧
        s'.trace = s.trace ++ [.write (s.log.lh.block k) v] ∧ s'.log = s.log ∧ s'.pid = s.pid ∧
        ∃ i, s'.bcache.Has ROOTDEV (s.log.lh.block k) i)
      (NoBuf 1 P s) s := by
  set slot := s.log.start + k + 1 with hs
  set b := s.log.lh.block k with hbdef
  unfold installBody
  simp only [wp_bind, monadLift_self, wp_getLog, hdev, ← hs]
  refine wp_mono (bread_spec h (by simp) (by simp) (by rw [hslot]; decide)) (fun l s1 g1 => ?_) ?_
  · simp only [wp_lhBlock hk, g1.log, ← hbdef]
    refine wp_mono (bread_spec g1.rep (b := b) ?_ ?_ hP) (fun d s2 g2 => ?_) ?_
    · simp [g1.blockno, hne]
    · simp [g1.refcnt, hslot]
    · have hl2 : s2.bcache.buf l = s1.bcache.buf l := g2.others l (by simp)
      have hdl : d ≠ l := fun e => g2.fresh (by simp [e])
      rw [wp_memmove, hl2, g1.known v hv]
      have h3 := g2.rep.setData (i := d) (b := b) (by simp) g2.blockno hP v
      refine wp_mono (bwrite_spec h3 (i := d) (b := b) (by simp) (by simpa using g2.blockno)) ?_
        (fun _ _ h => h)
      rintro _ _ ⟨h4, rfl⟩
      have hslotd : update s2.disk b v slot = v := by
        rw [update_of_ne hne, g2.disk, g1.disk]
        exact g1.clean hslot v hv
      -- `bunpin` takes one off, whatever the count was
      have h5 := h4.count (i := d) (b := b) (f := decRef) (r := P b - 1) (by simp)
        (by simpa using g2.blockno) (by simp [decRef, g2.refcnt])
        (by intro _ x hx; simpa using hx)
      rw [wp_unpin]
      refine wp_mono (brelse_spec h5 (i := l) (b := slot) (by simp) ?_ ?_) ?_ (fun _ _ h => h)
      · simpa [set_buf_of_ne _ _ hdl.symm, hl2] using g1.blockno
      · intro _ x hx
        rw [update_of_ne hne, hv] at hx
        simpa [hslotd] using Option.some.inj hx
      rintro _ s6 ⟨h6, hf6, ho6, -⟩
      refine wp_mono (brelse_spec h6 (i := d) (b := b) (by simp [hdl]) ?_ ?_) ?_ (fun _ _ h => h)
      · rw [ho6 d hdl]; simpa [decRef] using g2.blockno
      · intro _ x hx
        rw [hf6]
        simpa using hx
      rintro _ s7 ⟨h7, hf7, -, hhas⟩
      rw [erase_pair] at h7
      refine ⟨h7, ?_, ?_, ?_, ?_, d, hhas⟩ <;> rw [hf7, hf6] <;> simp [g2.disk, g1.disk, g2.trace, g1.trace,
        g2.log, g1.log, g2.pid, g1.pid]
    · rintro e _ ⟨rfl, rfl, hall, -⟩
      exact noBuf_of_busy g1.rep (by simp) g1.disk g1.trace hall
  · rintro e _ ⟨rfl, rfl, hall, -⟩
    exact noBuf_of_busy h (by simp) rfl rfl hall

lemma writeHead_spec (h : Rep s A P ∅) {start : ℕ} (hst : s.log.start = start)
    (hdev : s.log.dev = ROOTDEV) (hP : P start = 0) :
    wp (writeHead : IoM Unit)
      (fun _ s' => (∃ x, Rep s' (update A start (some (putHead x s.log.lh))) P ∅ ∧
          s'.disk = update s.disk start (putHead x s.log.lh) ∧
          s'.trace = s.trace ++ [.write start (putHead x s.log.lh)]) ∧ s'.log = s.log ∧
        s'.pid = s.pid ∧ ∀ L : List ℕ, L.Nodup → (∀ b ∈ L, P b ≠ 0) → L.length < NBUF)
      (NoBuf 0 P s) s := by
  have hP1 : P start + 1 ≠ 0 := by rw [hP]; decide
  unfold writeHead
  simp only [wp_bind, monadLift_self, wp_getLog, hdev, hst]
  refine wp_mono (bread_spec h (b := start) (by simp) (by simp) hP1) (fun i s1 g1 => ?_) ?_
  · rw [wp_giveHead]
    set x := (s1.bcache.buf i).data
    have h2 := g1.rep.setData (i := i) (by simp) g1.blockno hP1 (putHead x s1.log.lh)
    refine wp_mono (bwrite_spec h2 (i := i) (b := start) (by simp)
      (by simpa using g1.blockno)) ?_ (fun _ _ h => h)
    rintro _ _ ⟨h3, rfl⟩
    refine wp_mono (brelse_spec h3 (i := i) (b := start) (by simp)
      (by simpa using g1.blockno) (fun _ y hy => by simpa using hy)) ?_ (fun _ _ h => h)
    rintro _ s4 ⟨h4, hf4, -⟩
    rw [Finset.erase_insert (Finset.notMem_empty i), g1.log] at h4
    have hroom : ∀ L : List ℕ, L.Nodup → (∀ b ∈ L, P b ≠ 0) → L.length < NBUF := fun L hnd hL =>
      g1.rep.length_le hnd hL (by simpa [g1.blockno] using fun hm => hL _ hm hP)
    refine ⟨⟨x, h4, ?_, ?_⟩, ?_, ?_, hroom⟩ <;> rw [hf4] <;>
      simp [g1.disk, g1.trace, g1.log, g1.pid]
  · rintro e _ ⟨rfl, rfl, hall, -⟩
    exact noBuf_of_busy h (by simp) rfl rfl hall

/-! ### The loops -/

/-- The in-memory log describes a transaction that fits the log area of the disk. -/
structure LogOk (start size : ℕ) (l : Log) : Prop where
  at_start : l.start = start
  dev : l.dev = ROOTDEV
  le : l.lh.n ≤ LOGSIZE
  room : l.lh.n < size
  nodup : l.lh.blocks.Nodup
  home : ∀ b ∈ l.lh.blocks, ¬ InLog start size b
  word : ∀ b ∈ l.lh.blocks, b < 2 ^ 32

variable {start size : ℕ} {t : Disk} {d₀ : Disk} {Φ : Disk → Prop}

section

variable {l : Log} {i : ℕ} (h : LogOk start size l)

include h

lemma LogOk.slot (hi : i < l.lh.n.toNat) :
    InLog start size (start + i + 1) := by
  have := h.room
  exact ⟨by omega, by omega⟩

lemma LogOk.fuel : l.lh.n.toNat < 0 + (LOGSIZE + 1) := by
  have := h.le
  omega

lemma LogOk.lt (hi : i < l.lh.n.toNat) :
    i < LOGSIZE := by
  have := h.le
  omega

lemma LogOk.ne_home {c : ℕ} (hb : InLog start size b) (hc : c ∈ l.lh.blocks) : b ≠ c :=
  fun e => h.home c hc (e ▸ hb)

end

/-- **`write_log` puts the cached contents of every block of the transaction in its slot**,
and touches the disk nowhere else. -/
lemma writeLog_spec (h : Rep s A P ∅) (hl : LogOk start size s.log) {v : ℕ → Block}
    (hv : ∀ b ∈ s.log.lh.blocks, A b = some (v b)) (hP : ∀ b ∈ s.log.lh.blocks, P b = 1)
    (hP0 : ∀ b, InLog start size b → P b = 0) (hempty : headBlocks (s.disk start) = [])
    (ht : ∀ b, ¬ InLog start size b → s.disk b = t b) (hs : 0 < size)
    (hist : Hist d₀ Φ s) (hΦ : ∀ d, Sound start size t d → Φ d) :
    wp (writeLog : IoM Unit)
      (fun _ s' => ∃ A', Rep s' A' P ∅ ∧ s'.log = s.log ∧ s'.pid = s.pid ∧ Hist d₀ Φ s' ∧
        (∀ i < s.log.lh.n.toNat, A' (start + i + 1) = some (v (s.log.lh.block i)) ∧
          s'.disk (start + i + 1) = v (s.log.lh.block i)) ∧
        ∀ b, ¬ InLog start size b ∨ b = start → A' b = A b ∧ s'.disk b = s.disk b)
      (fun _ s' => Hist d₀ Φ s' ∧ ∀ L : List ℕ, (∀ b, P b ≠ 0 → b ∈ L) → NBUF ≤ L.length + 1) s := by
  unfold writeLog
  refine wp_forUp (fun k s' => ∃ A', Rep s' A' P ∅ ∧ s'.log = s.log ∧ s'.pid = s.pid ∧
      Hist d₀ Φ s' ∧
      (∀ i < k, A' (start + i + 1) = some (v (s.log.lh.block i)) ∧
        s'.disk (start + i + 1) = v (s.log.lh.block i)) ∧
      ∀ b, ¬ InLog start size b ∨ b = start → A' b = A b ∧ s'.disk b = s.disk b)
    (Nat.zero_le _) hl.fuel ⟨A, h, rfl, rfl, hist, fun i hi => by omega, fun _ _ => ⟨rfl, rfl⟩⟩
    (fun k s1 ⟨_, _, hlog, _⟩ => wp_lhMore k (by rw [hlog])) ?_
  rintro k s1 - hk ⟨A1, h1, hlog, hpid, hist1, hdone, hrest⟩
  have hmem := block_mem hk
  have hslot := hl.slot hk
  have hb := hrest _ (.inl (hl.home _ hmem))
  have hst := hl.at_start
  refine wp_mono (writeLogBody_spec h1 (k := k) (v := v (s.log.lh.block k)) (hl.lt hk)
    (by rw [hlog]; exact hl.dev) ?_ ?_ ?_) ?_ ?_
  · rw [hlog, hb.1]; exact hv _ hmem
  · rw [hlog]; exact hP _ hmem
  · rw [hlog, hst]; exact hP0 _ hslot
  · rintro _ s2 ⟨h2, hd2, ht2, hlog2, hpid2⟩
    rw [hlog, hst] at h2 hd2 ht2
    have hne : ∀ b, ¬ InLog start size b ∨ b = start → b ≠ start + k + 1 := by
      rintro b (hb | rfl)
      · exact fun e => hb (e ▸ hslot)
      · omega
    refine ⟨_, h2, by rw [hlog2, hlog], by rw [hpid2, hpid], hist1.write hd2 ht2 (hΦ _ ?_), ?_, ?_⟩
    · refine sound_slot hs ?_ (fun b hb => ?_) hslot (by omega) _
      · rw [(hrest start (.inr rfl)).2]; exact hempty
      · rw [(hrest b (.inl hb)).2]; exact ht b hb
    · intro i hi
      by_cases hik : i = k
      · subst hik; simp [hd2]
      · have hne' : start + i + 1 ≠ start + k + 1 := by omega
        rw [hd2, update_of_ne hne', update_of_ne hne']
        exact hdone i (by omega)
    · intro b hb
      rw [hd2, update_of_ne (hne b hb), update_of_ne (hne b hb)]
      exact hrest b hb
  · rintro e s2 ⟨-, hd2, ht2, hL⟩
    exact ⟨hist1.congr hd2 ht2, hL⟩

/-- What is known after the blocks of `L` have got the contents `v`. -/
def known (A : ℕ → Option Block) (v : ℕ → Block) (L : List ℕ) : ℕ → Option Block :=
  fun b => if b ∈ L then some (v b) else A b

/-- What the blocks are owed after those of `L` have been unpinned. -/
def unpinned (P : ℕ → UInt32) (L : List ℕ) : ℕ → UInt32 :=
  fun b => if b ∈ L then P b - 1 else P b

@[simp] lemma known_nil (A : ℕ → Option Block) (v : ℕ → Block) : known A v [] = A := by
  funext b; simp [known]

@[simp] lemma unpinned_nil (P : ℕ → UInt32) : unpinned P [] = P := by
  funext b; simp [unpinned]

lemma mem_take_succ (hk : k < lh.n.toNat) :
    b ∈ lh.blocks.take (k + 1) ↔ b ∈ lh.blocks.take k ∨ b = lh.block k := by
  have hlen : k < lh.blocks.length := by simpa using hk
  rw [List.take_succ_eq_append_getElem hlen, blocks_getElem]
  simp

lemma block_notMem_take (hnd : lh.blocks.Nodup) (hk : k < lh.n.toNat) :
    lh.block k ∉ lh.blocks.take k := by
  intro hm
  obtain ⟨i, hi, he⟩ := List.mem_iff_getElem.mp hm
  rw [List.getElem_take, blocks_getElem] at he
  have hi' : i < k := by simp at hi; omega
  have := block_inj hnd (by omega) hk he
  omega

lemma known_succ (A : ℕ → Option Block) (v : ℕ → Block) (hk : k < lh.n.toNat) :
    update (known A v (lh.blocks.take k)) (lh.block k) (some (v (lh.block k))) =
      known A v (lh.blocks.take (k + 1)) := by
  funext b
  unfold known
  by_cases hb : b = lh.block k
  · subst hb; simp [mem_take_succ hk]
  · simp [hb, mem_take_succ hk]

lemma unpinned_succ (P : ℕ → UInt32) (hnd : lh.blocks.Nodup) (hk : k < lh.n.toNat) :
    update (unpinned P (lh.blocks.take k)) (lh.block k)
        (unpinned P (lh.blocks.take k) (lh.block k) - 1) =
      unpinned P (lh.blocks.take (k + 1)) := by
  funext b
  unfold unpinned
  by_cases hb : b = lh.block k
  · subst hb; simp [mem_take_succ hk, block_notMem_take hnd hk]
  · simp [hb, mem_take_succ hk]

/-- **`install_trans` brings every slot home** and changes nothing recovery would not. -/
lemma installTrans_spec (h : Rep s A P ∅) (hl : LogOk start size s.log) {v : ℕ → Block}
    (hv : ∀ i < s.log.lh.n.toNat, A (start + i + 1) = some (v (s.log.lh.block i)))
    (hP : ∀ b ∈ s.log.lh.blocks, P b + 1 ≠ 0) (hP0 : ∀ b, InLog start size b → P b = 0)
    (hhead : headBlocks (s.disk start) = s.log.lh.blocks)
    (hblock : ∀ i < s.log.lh.n.toNat, headBlock (s.disk start) i = s.log.lh.block i)
    (hslot : ∀ i < s.log.lh.n.toNat, s.disk (start + i + 1) = v (s.log.lh.block i))
    (hsound : Sound start size t s.disk) (hist : Hist d₀ Φ s)
    (hΦ : ∀ d, Sound start size t d → Φ d) :
    wp (installTrans : IoM Unit)
      (fun _ s' => Rep s' (known A v s.log.lh.blocks) (unpinned P s.log.lh.blocks) ∅ ∧
        s'.log = s.log ∧ s'.pid = s.pid ∧ Hist d₀ Φ s' ∧ Sound start size t s'.disk ∧
        (s'.disk = fun b => if b ∈ s.log.lh.blocks then v b else s.disk b) ∧
        ∀ k, s.log.lh.n.toNat = k + 1 → ∃ i, s'.bcache.Has ROOTDEV (s.log.lh.block k) i)
      (fun _ s' => Hist d₀ Φ s' ∧
        ∀ L : List ℕ, (∀ b, P b ≠ 0 → b ∈ L) → NBUF ≤ L.length + s.log.lh.n.toNat) s := by
  unfold installTrans
  refine wp_mono (wp_forUp (n := s.log.lh.n.toNat) (fun k s' =>
      Rep s' (known A v (s.log.lh.blocks.take k)) (unpinned P (s.log.lh.blocks.take k)) ∅ ∧
      s'.log = s.log ∧ s'.pid = s.pid ∧ Hist d₀ Φ s' ∧ Sound start size t s'.disk ∧
      (s'.disk = fun b => if b ∈ s.log.lh.blocks.take k then v b else s.disk b) ∧
      ∀ j, k = j + 1 → ∃ i, s'.bcache.Has ROOTDEV (s.log.lh.block j) i)
    (Nat.zero_le _) hl.fuel ⟨by simpa using h, rfl, rfl, hist, hsound, by simp, fun j hj => by omega⟩
    (fun k s1 ⟨_, hlog, _⟩ => wp_lhMore k (by rw [hlog])) ?_) ?_ (fun _ _ h' => h')
  · rintro k s1 - hk ⟨h1, hlog, hpid, hist1, hsound1, hdisk, -⟩
    have hmem := block_mem hk
    have hin := hl.slot hk
    have hst := hl.at_start
    have htake : ∀ b, InLog start size b → b ∉ s.log.lh.blocks.take k := fun b hb hm =>
      hl.home b (List.mem_of_mem_take hm) hb
    have hstart : s1.disk start = s.disk start := by
      rw [hdisk]; exact if_neg (htake start ⟨le_rfl, by have := hl.room; omega⟩)
    have hs1slot : s1.disk (start + k + 1) = v (s.log.lh.block k) := by
      rw [hdisk]; exact (if_neg (htake _ hin)).trans (hslot k hk)
    refine wp_mono (installBody_spec h1 (k := k) (v := v (s.log.lh.block k)) (hl.lt hk)
      ?_ ?_ ?_ ?_ ?_) ?_ ?_
    · rw [hlog]; exact hl.dev
    · rw [hlog, hst, known, if_neg (htake _ hin)]; exact hv k hk
    · rw [hlog, hst, unpinned, if_neg (htake _ hin)]; exact hP0 _ hin
    · rw [hlog, hst]; exact hl.ne_home hin hmem
    · rw [hlog, unpinned, if_neg (block_notMem_take hl.nodup hk)]; exact hP _ hmem
    · rintro _ s2 ⟨h2, hd2, ht2, hlog2, hpid2, hhas⟩
      rw [hlog] at h2 hd2 ht2 hhas
      rw [known_succ A v hk, unpinned_succ P hl.nodup hk] at h2
      have hs2 : Sound start size t s2.disk := by
        have hlen : k < (headBlocks (s1.disk start)).length := by
          rw [hstart, hhead]; simpa using hk
        have := sound_install hsound1 hlen
        rwa [hstart, hblock k hk, hs1slot, ← hd2] at this
      refine ⟨h2, by rw [hlog2, hlog], by rw [hpid2, hpid], hist1.write hd2 ht2 ?_, hs2, ?_,
        fun j hj => ?_⟩
      · rw [← hd2]; exact hΦ _ hs2
      · rw [hd2, hdisk]
        funext b
        by_cases hb : b = s.log.lh.block k
        · subst hb; simp [mem_take_succ hk]
        · simp [hb, mem_take_succ hk]
      · rwa [← Nat.succ_injective hj]
    · rintro e s2 ⟨-, hd2, ht2, hL⟩
      refine ⟨hist1.congr hd2 ht2, fun L hPL => ?_⟩
      have := hL (L ++ s.log.lh.blocks.take k) fun b hb => ?_
      · simp only [List.length_append, List.length_take, blocks_length] at this
        omega
      · by_cases hm : b ∈ s.log.lh.blocks.take k
        · exact List.mem_append_right _ hm
        · rw [unpinned, if_neg hm] at hb
          exact List.mem_append_left _ (hPL b hb)
  · rintro _ s' ⟨h', hlog, hpid, hist', hsound', hdisk, hhas⟩
    have hall : s.log.lh.blocks.take s.log.lh.n.toNat = s.log.lh.blocks := by
      rw [← blocks_length, List.take_length]
    rw [hall] at h' hdisk
    exact ⟨h', hlog, hpid, hist', hsound', hdisk, hhas⟩

/-- The log after `log.lh.n = 0`. -/
def cleared (l : Log) : Log := { l with lh := { l.lh with n := 0 } }

lemma headBlocks_cleared (x : Block) (l : Log) : headBlocks (putHead x (cleared l).lh) = [] :=
  headBlocks_eq_nil (headN_putHead x le_rfl (by simp [cleared]))

/-- The end of a commit and of a recovery: every slot is home and the header is cleared. -/
lemma clear_spec (h : Rep s A P ∅) (hl : LogOk start size s.log) (hP0 : P start = 0)
    (hhead : headBlocks (s.disk start) = s.log.lh.blocks)
    (hblock : ∀ i < s.log.lh.n.toNat, headBlock (s.disk start) i = s.log.lh.block i)
    (hhome : ∀ i < s.log.lh.n.toNat, s.disk (s.log.lh.block i) = s.disk (start + i + 1))
    (hsound : Sound start size t s.disk) (hist : Hist d₀ Φ s)
    (hΦ : ∀ d, Sound start size t d → Φ d) :
    wp (do clearHead; writeHead : IoM Unit)
      (fun _ s' => (∃ y, Rep s' (update A start (some y)) P ∅ ∧ headBlocks y = [] ∧
          s'.disk = update s.disk start y) ∧
        s'.log = cleared s.log ∧ s'.pid = s.pid ∧ Hist d₀ Φ s')
      (fun _ s' => Hist d₀ Φ s' ∧ ∀ L : List ℕ, (∀ b, P b ≠ 0 → b ∈ L) → NBUF ≤ L.length)
      s := by
  simp only [wp_bind, wp_clearHead]
  have h1 : Rep { s with log := cleared s.log } A P ∅ := { h with }
  refine wp_mono (writeHead_spec h1 hl.at_start hl.dev hP0) ?_ ?_
  · rintro _ s2 ⟨⟨x, h2, hd2, ht2⟩, hlog2, hpid2, -⟩
    refine ⟨⟨_, h2, headBlocks_cleared x s.log, hd2⟩, hlog2, hpid2,
      hist.write hd2 ht2 (hΦ _ (sound_clear hsound (fun i hi => ?_) (headBlocks_cleared x s.log)))⟩
    have hi' : i < s.log.lh.n.toNat := by rw [hhead] at hi; simpa using hi
    rw [hblock i hi']; exact hhome i hi'
  · rintro e s2 ⟨-, hd2, ht2, hL⟩
    exact ⟨hist.congr hd2 ht2, hL⟩

/-- One pin for each block of the list. -/
def pinOf (L : List ℕ) : ℕ → UInt32 := fun b => if b ∈ L then 1 else 0

@[simp] lemma pinOf_nil : pinOf [] = fun _ => 0 := by funext b; simp [pinOf]

lemma unpinned_pinOf (L : List ℕ) : unpinned (pinOf L) L = fun _ => 0 := by
  funext b
  unfold unpinned pinOf
  split <;> simp

/-- Knowledge outside the log. -/
def outside (start size : ℕ) (A : ℕ → Option Block) : ℕ → Option Block :=
  fun b => if InLog start size b then none else A b

/-- The disk after the blocks of `L` have got the contents `v`. -/
def applied (t : Disk) (v : ℕ → Block) (L : List ℕ) : Disk := fun b => if b ∈ L then v b else t b

lemma mem_of_pinOf {L : List ℕ} (h : pinOf L b ≠ 0) : b ∈ L := by
  by_contra hm
  exact h (if_neg hm)

lemma pinOf_inLog {L : List ℕ} (h : ∀ b ∈ L, ¬ InLog start size b)
    (hb : InLog start size b) : pinOf L b = 0 := if_neg fun hm => h b hm hb

/-- The disk once the transaction is installed: the header still lists it, and each of its
slots is home. -/
structure Installed (start size : ℕ) (t : Disk) (v : ℕ → Block) (lh : LogHeader) (d : Disk) :
    Prop where
  sound : Sound start size (applied t v lh.blocks) d
  blocks : headBlocks (d start) = lh.blocks
  block : ∀ i < lh.n.toNat, headBlock (d start) i = lh.block i
  slot : ∀ i < lh.n.toNat, d (start + i + 1) = v (lh.block i)
  home : ∀ b, ¬ InLog start size b → d b = applied t v lh.blocks b

section

variable {v : ℕ → Block} (h : Rep s A (pinOf s.log.lh.blocks) ∅) (hl : LogOk start size s.log)
  (hn : 0 ≤ s.log.lh.n) (hv : ∀ b ∈ s.log.lh.blocks, A b = some (v b))
  (hempty : headBlocks (s.disk start) = []) (ht : ∀ b, ¬ InLog start size b → s.disk b = t b)
  (hs : 0 < size) (hist : Hist d₀ Φ s)
  (hΦ : ∀ d, Sound start size t d ∨ Sound start size (applied t v s.log.lh.blocks) d → Φ d)

include h hl hn hv hempty ht hs hist hΦ

/-- **The copying part of a commit**: the blocks go to their slots, the header makes them
durable, and they are installed and unpinned. -/
lemma install_spec :
    wp (do writeLog; writeHead; installTrans : IoM Unit)
      (fun _ s' => (∃ A', Rep s' A' (fun _ => 0) ∅ ∧ ∀ b, ¬ InLog start size b → A' b = A b) ∧
        s'.log = s.log ∧ s'.pid = s.pid ∧ Hist d₀ Φ s' ∧
        Installed start size t v s.log.lh s'.disk ∧
        ∀ k, s.log.lh.n.toNat = k + 1 → ∃ i, s'.bcache.Has ROOTDEV (s.log.lh.block k) i)
      (fun _ s' => Hist d₀ Φ s' ∧ NBUF ≤ 2 * s.log.lh.n.toNat + 1) s := by
  have hlenb := blocks_length s.log.lh
  have hst0 : InLog start size start := ⟨le_rfl, by omega⟩
  simp only [wp_bind]
  refine wp_mono (writeLog_spec h hl hv (fun b hb => if_pos hb) (fun b hb => pinOf_inLog hl.home hb)
    hempty ht hs hist fun d hd => hΦ d (.inl hd)) ?_
    (fun _ _ h' => ⟨h'.1, by have := h'.2 _ fun b hb => mem_of_pinOf hb; omega⟩)
  rintro _ s1 ⟨A1, h1, hlog1, hpid1, hist1, hslot1, hrest1⟩
  have hl1 : LogOk start size s1.log := hlog1 ▸ hl
  -- the commit point
  refine wp_mono (writeHead_spec h1 hl1.at_start hl1.dev (pinOf_inLog hl.home hst0)) ?_
    (fun _ s2 h2 => ⟨hist1.congr h2.2.1 h2.2.2.1,
      by have := h2.2.2.2 _ fun b hb => mem_of_pinOf hb; omega⟩)
  rintro _ s2 ⟨⟨x, h2, hd2, ht2⟩, hlog2, hpid2, hroom⟩
  have hlogs : s2.log = s.log := hlog2.trans hlog1
  have hl2 : LogOk start size s2.log := hlogs ▸ hl
  have hheads : headBlocks (putHead x s1.log.lh) = s.log.lh.blocks := by
    rw [hlog1]; exact headBlocks_putHead x hn hl.le hl.word
  have hblock : ∀ i < s.log.lh.n.toNat,
      headBlock (putHead x s1.log.lh) i = s.log.lh.block i := fun i hi => by
    rw [hlog1]; exact headBlock_putHead x hl.le hi (hl.word _ (block_mem hi))
  have hlen : s.log.lh.blocks.length < NBUF :=
    hroom _ hl.nodup fun b hb => by rw [pinOf, if_pos hb]; decide
  have hsound2 : Sound start size (applied t v s.log.lh.blocks) s2.disk := by
    rw [hd2]
    refine sound_commit (v := v) (by rw [hheads]; exact hlen) ?_ (by rw [hheads]; exact hl.nodup)
      (by rw [hheads]; exact hl.home) (fun i hi => ?_) (fun b hb => ?_)
    · rw [hheads, blocks_length]; have := hl.room; omega
    · rw [hheads, blocks_length] at hi
      rw [hblock i hi]; exact (hslot1 i hi).2
    · rw [hheads, (hrest1 b (.inl hb)).2, ht b hb]; rfl
  have hist2 : Hist d₀ Φ s2 := hist1.write hd2 ht2 (hd2 ▸ hΦ _ (.inr hsound2))
  have hs2 : s2.disk start = putHead x s1.log.lh := by rw [hd2]; simp
  have hslot2 : ∀ i < s.log.lh.n.toNat, s2.disk (start + i + 1) = v (s.log.lh.block i) :=
    fun i hi => by rw [hd2, update_of_ne (by omega)]; exact (hslot1 i hi).2
  refine wp_mono (installTrans_spec h2 hl2 (v := v) (fun i hi => ?_) (fun b hb => ?_)
    (fun b hb => pinOf_inLog hl.home hb) ?_ (fun i hi => ?_) (fun i hi => ?_) hsound2 hist2
    fun d hd => hΦ d (.inr hd)) ?_ (fun _ _ h' =>
      ⟨h'.1, by have := h'.2 _ fun b hb => mem_of_pinOf hb; rw [hlogs] at this; omega⟩)
  · rw [hlogs] at hi ⊢
    rw [update_of_ne (by omega)]; exact (hslot1 i hi).1
  · rw [hlogs] at hb; rw [pinOf, if_pos hb]; decide
  · rw [hs2, hlogs]; exact hheads
  · rw [hlogs] at hi ⊢; rw [hs2]; exact hblock i hi
  · rw [hlogs] at hi ⊢; exact hslot2 i hi
  rw [hlogs]
  rintro _ s3 ⟨h3, hlog3, hpid3, hist3, hsound3, hd3, hhas3⟩
  have hout : ∀ b, InLog start size b → s3.disk b = s2.disk b := fun b hb => by
    rw [hd3]; exact if_neg fun hm => hl.home b hm hb
  have hstart : s3.disk start = putHead x s1.log.lh := by rw [hout start hst0, hs2]
  have hne : ∀ b, ¬ InLog start size b → b ≠ start := fun b hb e => hb (e ▸ hst0)
  rw [unpinned_pinOf] at h3
  refine ⟨⟨_, h3, fun b hb => ?_⟩, hlog3, by rw [hpid3, hpid2, hpid1], hist3,
    ⟨hsound3, ?_, ?_, ?_, ?_⟩, hhas3⟩
  · rw [known]
    split
    · exact (hv b ‹_›).symm
    · rw [update_of_ne (hne b hb), (hrest1 b (.inl hb)).1]
  · rw [hstart]; exact hheads
  · intro i hi; rw [hstart]; exact hblock i hi
  · intro i hi; rw [hout _ (hl.slot hi)]; exact hslot2 i hi
  · intro b hb
    rw [hd3]
    simp only [applied]
    split
    · rfl
    · rw [hd2, update_of_ne (hne b hb), (hrest1 b (.inl hb)).2, ht b hb]

/-- **`commit` makes the cached contents of the logged blocks the contents of the disk**,
and wherever it is stopped, recovery gives the disk without or with all of them. -/
theorem commit_spec :
    wp (commit : IoM Unit)
      (fun _ s' => Rep s' (outside start size A) (fun _ => 0) ∅ ∧ s'.log = cleared s.log ∧
        s'.pid = s.pid ∧ Hist d₀ Φ s' ∧ headBlocks (s'.disk start) = [] ∧
        (∀ b, ¬ InLog start size b → s'.disk b = applied t v s.log.lh.blocks b) ∧
        ∀ i < s.log.lh.n.toNat, s'.disk (start + i + 1) = v (s.log.lh.block i))
      (fun _ s' => Hist d₀ Φ s' ∧ NBUF ≤ 2 * s.log.lh.n.toNat + 1) s := by
  have hst0 : InLog start size start := ⟨le_rfl, by omega⟩
  have hne : ∀ b, ¬ InLog start size b → b ≠ start := fun b hb e => hb (e ▸ hst0)
  unfold commit
  rw [wp_bind]
  simp only [monadLift_self, wp_getLog, wp_doIf]
  refine ⟨fun hpos => ?_, fun hzero => ?_⟩
  · have hfold : (do writeLog; writeHead; installTrans; clearHead; writeHead : IoM Unit) =
        (do (do writeLog; writeHead; installTrans); clearHead; writeHead) := by
      simp only [bind_assoc]
    rw [hfold, wp_bind]
    refine wp_mono (install_spec h hl hn hv hempty ht hs hist hΦ) ?_ (fun _ _ h' => h')
    rintro _ s3 ⟨⟨A3, h3, hA3⟩, hlog3, hpid3, hist3, hinst, -⟩
    -- the header is cleared
    refine wp_mono (clear_spec h3 (hlog3 ▸ hl) rfl ?_ (fun i hi => ?_) (fun i hi => ?_) hinst.sound
      hist3 fun d hd => hΦ d (.inr hd)) ?_ (fun _ _ h' =>
        ⟨h'.1, by have := h'.2 [] (fun b hb => absurd rfl hb); simp at this⟩)
    · rw [hlog3]; exact hinst.blocks
    · rw [hlog3] at hi ⊢; exact hinst.block i hi
    · rw [hlog3] at hi ⊢
      rw [hinst.slot i hi, hinst.home _ (hl.home _ (block_mem hi))]
      exact if_pos (block_mem hi)
    rintro _ s4 ⟨⟨y, h4, hy, hd4⟩, hlog4, hpid4, hist4⟩
    refine ⟨h4.weaken fun b d hb => ?_, by rw [hlog4, hlog3], by rw [hpid4, hpid3], hist4,
      by rw [hd4]; simpa using hy, fun b hb => ?_, fun i hi => ?_⟩
    · unfold outside at hb
      split at hb
      · simp at hb
      · rename_i hout
        rw [update_of_ne (hne b hout), hA3 b hout]
        exact hb
    · rw [hd4, update_of_ne (hne b hb)]
      exact hinst.home b hb
    · rw [hd4, update_of_ne (by omega)]
      exact hinst.slot i hi
  · -- nothing was logged
    have hn0 : s.log.lh.n = 0 := by omega
    have hnil : s.log.lh.blocks = [] := by simp [LogHeader.blocks, hn0]
    rw [hnil, pinOf_nil] at h
    refine ⟨h.weaken fun b d hb => ?_, ?_, trivial, hist, hempty, fun b hb => ?_, fun i hi => ?_⟩
    · unfold outside at hb
      split at hb
      · simp at hb
      · exact hb
    · simp only [cleared, ← hn0]
    · rw [ht b hb, hnil]; simp [applied]
    · rw [hn0] at hi
      simp at hi

end

end Xv6.Commit
