import Xv6.Recovery

/-!
A transaction of one process: `begin_op`, a `log_write` for each block, `end_op`.

Between transactions the header is empty and the disk has the current contents of every
block outside the log. Inside one, the blocks logged so far are pinned in the cache and
the disk still has the old contents.
-/

namespace Xv6.Transaction

open Lib.Wp Lib.Bytes Bio LogState Io IoSpec Redo Commit Function List

variable {s : Store} {A : ℕ → Option Block} {H : Finset (Fin NBUF)} {start size : ℕ} {t : Disk}

lemma pinOf_snoc (L : List ℕ) (b : ℕ) : update (pinOf L) b 1 = pinOf (L ++ [b]) := by
  funext c
  by_cases hc : c = b
  · subst hc; simp [pinOf]
  · simp [pinOf, hc]

/-- Why `log_write` refuses. -/
def LogFull (s : Store) (e : Stop) : Prop :=
  (e = .panic "too big a transaction" ∧ (LOGSIZE ≤ s.log.lh.n ∨ s.log.size - 1 ≤ s.log.lh.n)) ∨
  (e = .panic "log_write outside of trans" ∧ s.log.outstanding < 1)

/-- What `log_write` does to the in-memory header. -/
def Logged (l l' : Log) (b : ℕ) : Prop :=
  (b ∈ l.lh.blocks ∧ l' = l) ∨
  (b ∉ l.lh.blocks ∧ l.lh.n < LOGSIZE ∧ l' = { l with lh := l'.lh } ∧ l'.lh.n = l.lh.n + 1 ∧
    l'.lh.blocks = l.lh.blocks ++ [b])

/-- **`log_write` puts the block of a held buffer in the header and pins it**, once. -/
lemma logWrite_spec (h : Rep s A (pinOf s.log.lh.blocks) H) {i : Fin NBUF} {b : ℕ} (hi : i ∈ H)
    (hb : (s.bcache.buf i).blockno = b) (h0 : 0 ≤ s.log.lh.n) :
    wp (logWrite i : IoM Unit)
      (fun _ s' => Rep s' A (pinOf s'.log.lh.blocks) H ∧ Logged s.log s'.log b ∧
        s.log.lh.n < LOGSIZE ∧ s.log.lh.n < s.log.size - 1 ∧
        s' = { s with
          bcache := s'.bcache, log := s'.log
          trace := s.trace ++ [.checked s.pid b] ++ [.logged s.pid b (s.bcache.buf i).data] } ∧
        ∀ j, s'.bcache.buf j = { s.bcache.buf j with refcnt := (s'.bcache.buf j).refcnt })
      (fun e s' => s' = s ∧ LogFull s e) s := by
  unfold logWrite logWriteTest logWriteLocked
  simp only [wp_bind, monadLift_self, wp_get, hb]
  by_cases hfull : s.log.lh.n ≥ LOGSIZE ∨ s.log.lh.n ≥ (s.log.size : ℤ) - 1
  · simp only [logWriteCheck, if_pos hfull, wp_throw]
    exact ⟨trivial, .inl ⟨rfl, hfull⟩⟩
  by_cases hout : s.log.outstanding < 1
  · simp only [logWriteCheck, if_neg hfull, if_pos hout, wp_throw]
    exact ⟨trivial, .inr ⟨rfl, hout⟩⟩
  simp only [logWriteCheck, if_neg hfull, if_neg hout, wp_set, hb]
  have hlt : s.log.lh.n < LOGSIZE ∧ s.log.lh.n < (s.log.size : ℤ) - 1 := by omega
  rcases logWriteCs_cases h0 hlt.1.le b with ⟨hmem, heq⟩ | ⟨hnew, -, l', heq, hl', hbl⟩ | ⟨-, hn, -⟩
  · -- absorbed
    simp only [heq, wp_set, Bool.false_eq_true, if_false]
    exact ⟨{ h with }, .inl ⟨hmem, rfl⟩, hlt.1, hlt.2, trivial, fun _ => trivial⟩
  · -- appended
    simp only [heq, wp_set, if_true]
    have href : (s.bcache.buf i).refcnt = 1 := by
      rw [h.refcnt i (h.dev i hi), hb, if_pos hi, pinOf, if_neg hnew]; rfl
    have h2 := h.count (i := i) (b := b) (f := incRef) (r := 1) hi hb (by simp [incRef, href])
      (fun h11 => absurd h11 (by decide))
    rw [pinOf_snoc, ← hbl] at h2
    refine ⟨{ h2 with }, .inr ⟨hnew, hlt.1, by rw [hl'], by rw [hl'], hbl⟩, hlt.1, hlt.2, trivial,
      fun j => ?_⟩
    by_cases hj : j = i
    · subst hj; simp [bpin, incRef]
    · simp [bpin, set_buf_of_ne _ _ hj]
  · omega

/-! ### Idle and in a transaction -/

/-- A block of a transaction with its new contents. -/
abbrev Txn := List (ℕ × Block)

/-- The disk after the writes of a transaction. -/
def applyTxn (w : Txn) (d : Disk) : Disk := w.foldl (fun d p => update d p.1 p.2) d

lemma applyTxn_snoc (w : Txn) (p : ℕ × Block) (d : Disk) :
    applyTxn (w ++ [p]) d = update (applyTxn w d) p.1 p.2 := by
  simp [applyTxn, foldl_append]

lemma applyTxn_of_notMem (w : Txn) (d : Disk) {b : ℕ} (hb : b ∉ w.map Prod.fst) :
    applyTxn w d b = d b := by
  induction w using List.reverseRecOn with
  | nil => rfl
  | append_singleton w p ih =>
    simp only [map_append, map_cons, map_nil, mem_append,
      mem_singleton, not_or] at hb
    rw [applyTxn_snoc, update_of_ne hb.2, ih hb.1]

/-- Modify one block of the disk under the logging protocol. -/
def writeBlock (p : ℕ × Block) : IoM Unit := do
  let i ← bread ROOTDEV p.1
  setData i p.2
  logWrite i
  brelse i

def transaction (w : Txn) : IoM Unit := do
  beginOp
  forM w writeBlock
  endOp

/-- A transaction the log has room for: distinct home blocks, no more than the header and
the log area hold. -/
structure Txn.Ok (start size : ℕ) (w : Txn) : Prop where
  length : w.length ≤ min LOGSIZE (size - 1)
  nodup : (w.map Prod.fst).Nodup
  home : ∀ b ∈ w.map Prod.fst, ¬ InLog start size b
  word : ∀ b ∈ w.map Prod.fst, b < 2 ^ 32

/-- The log area of the disk and of the in-memory log. -/
structure LogAt (start size : ℕ) (l : Log) : Prop where
  at_start : l.start = start
  at_size : l.size = size
  dev : l.dev = ROOTDEV

/-- No transaction is open and the disk has all of `t` outside the log. -/
structure Idle (start size : ℕ) (t : Disk) (s : Store) : Prop where
  rep : Rep s (outside start size fun b => some (t b)) (fun _ => 0) ∅
  at_log : LogAt start size s.log
  n : s.log.lh.n = 0
  outstanding : s.log.outstanding = 0
  committing : s.log.committing = false
  empty : headBlocks (s.disk start) = []
  home : ∀ b, ¬ InLog start size b → s.disk b = t b

/-- Of the transaction that is open, `k` operations are outstanding and `w` is logged. -/
structure Open (start size : ℕ) (t : Disk) (k : ℤ) (w : Txn) (s : Store) : Prop where
  rep : Rep s (outside start size fun b => some (applyTxn w t b)) (pinOf s.log.lh.blocks) ∅
  at_log : LogAt start size s.log
  n : s.log.lh.n = w.length
  blocks : s.log.lh.blocks = w.map Prod.fst
  outstanding : s.log.outstanding = k
  committing : s.log.committing = false
  empty : headBlocks (s.disk start) = []
  home : ∀ b, ¬ InLog start size b → s.disk b = t b

variable {d₀ : Disk} {Φ : Disk → Prop}

lemma Idle.open (h : Idle start size t s) : Open start size t 0 [] s := by
  have hbl : s.log.lh.blocks = [] := by simp [LogHeader.blocks, h.n]
  constructor
  case rep => rw [hbl, pinOf_nil]; exact h.rep
  case at_log => exact h.at_log
  case n => exact h.n
  case blocks => exact hbl
  case outstanding => exact h.outstanding
  case committing => exact h.committing
  case empty => exact h.empty
  case home => exact h.home

variable {k : ℤ} {w w' : Txn}

/-- **`begin_op` with room for one more operation.** -/
lemma beginOp_spec (h : Open start size t k w s)
    (hroom : w.length + (k + 1) * MAXOPBLOCKS ≤ LOGSIZE) (hist : Hist d₀ Φ s)
    {E : Stop → Store → Prop} :
    wp beginOp (fun _ s' => Open start size t (k + 1) w s' ∧ Hist d₀ Φ s' ∧ s'.pid = s.pid ∧
      s'.trace = s.trace ++ [.began s.pid]) E s := by
  unfold beginOp beginOpCs
  simp only [wp_bind, wp_get, h.committing, h.n, h.outstanding, if_neg (not_lt.mpr hroom),
    Bool.false_eq_true, if_false, wp_set]
  refine ⟨?_, hist.quiet (fun _ => rfl) rfl rfl, trivial, trivial⟩
  constructor
  case rep => exact { h.rep with }
  case at_log => exact ⟨h.at_log.at_start, h.at_log.at_size, h.at_log.dev⟩
  case n => exact h.n
  case blocks => exact h.blocks
  case outstanding => rfl
  case committing => rfl
  case empty => exact h.empty
  case home => exact h.home

lemma outside_snoc {p : ℕ × Block} (hp : ¬ InLog start size p.1) :
    update (outside start size fun b => some (applyTxn w t b)) p.1 (some p.2) =
      outside start size fun b => some (applyTxn (w ++ [p]) t b) := by
  funext b
  rw [applyTxn_snoc]
  by_cases hb : b = p.1
  · subst hb; simp [outside, hp]
  · simp [outside, hb]

lemma pin_succ_ne (L : List ℕ) (b : ℕ) : pinOf L b + 1 ≠ 0 := by
  unfold pinOf; split <;> decide

/-- **One block of the transaction**: its new contents are in the cache, pinned. There is
always a buffer for it. -/
lemma writeBlock_spec {p : ℕ × Block} (h : Open start size t k w s)
    (hk : 1 ≤ k) (hok : (w ++ [p]).Ok start size) (hist : Hist d₀ Φ s)
    {E : Stop → Store → Prop} :
    wp (writeBlock p) (fun _ s' => Open start size t k (w ++ [p]) s' ∧ Hist d₀ Φ s' ∧
      s'.pid = s.pid ∧
      s'.trace = s.trace ++ [.checked s.pid p.1] ++ [.logged s.pid p.1 p.2]) E s := by
  have hLS := LOGSIZE_eq
  have hNB := NBUF_eq
  have hlen : w.length + 1 ≤ LOGSIZE ∧ w.length + 1 ≤ size - 1 := by
    have := hok.length
    rw [length_append, length_singleton] at this
    omega
  have hmem : p.1 ∈ (w ++ [p]).map Prod.fst := by simp
  have hp := hok.home p.1 hmem
  have hnew : p.1 ∉ s.log.lh.blocks := by
    have := hok.nodup
    rw [map_append, nodup_append] at this
    rw [h.blocks]
    exact fun hm => this.2.2 p.1 hm p.1 (by simp) rfl
  have hpin : pinOf s.log.lh.blocks p.1 + 1 ≠ 0 := pin_succ_ne _ _
  unfold writeBlock
  simp only [wp_bind]
  refine wp_mono (bread_spec h.rep (b := p.1) (by simp) (by simp) hpin) (fun i s1 g1 => ?_) ?_
  · simp only [setData, setBuf, wp_modify]
    have h2 := g1.rep.setData (i := i) (by simp) g1.blockno hpin p.2
    rw [outside_snoc hp, ← g1.log] at h2
    refine wp_mono (logWrite_spec h2 (i := i) (b := p.1) (by simp) (by simpa using g1.blockno) ?_)
      ?_ ?_
    · show 0 ≤ s1.log.lh.n
      rw [g1.log, h.n]; omega
    · rintro _ s3 ⟨h3, hlogged, -, -, hf3, hbuf3⟩
      rcases hlogged with ⟨hold, -⟩ | ⟨-, -, hl3, hn3, hbl3⟩
      · exact absurd (g1.log ▸ hold) hnew
      simp only [g1.log] at hl3 hn3 hbl3
      have hin3 : p.1 ∈ s3.log.lh.blocks := by rw [hbl3]; simp
      refine wp_mono (brelse_spec h3 (i := i) (b := p.1) (by simp) ?_ ?_) ?_ (fun _ _ h => h)
      · rw [hbuf3 i]; simpa using g1.blockno
      · intro h0
        rw [pinOf, if_pos hin3] at h0
        exact absurd h0 (by decide)
      rintro _ s4 ⟨h4, hf4, -⟩
      rw [Finset.erase_insert (Finset.notMem_empty i)] at h4
      have hlog4 : s4.log = s3.log := by rw [hf4]
      have hd4 : s4.disk = s.disk := by rw [hf4]; simp only; rw [hf3]; exact g1.disk
      have ht4 : s4.trace = s.trace ++ [.checked s.pid p.1] ++ [.logged s.pid p.1 p.2] := by
        rw [hf4]; simp only; rw [hf3]; simp [g1.trace, g1.pid]
      have hist3 : Hist d₀ Φ { s with trace := s.trace ++ [.checked s.pid p.1] } :=
        hist.quiet (fun _ => rfl) rfl rfl
      refine ⟨?_, hist3.quiet (fun _ => rfl) hd4 ht4, ?_, ht4⟩
      swap
      · rw [hf4, hf3]; exact g1.pid
      constructor
      case rep => rw [hlog4]; exact h4
      case at_log =>
        rw [hlog4, hl3]
        exact ⟨h.at_log.at_start, h.at_log.at_size, h.at_log.dev⟩
      case n => rw [hlog4, hn3, h.n]; simp
      case blocks => rw [hlog4, hbl3, h.blocks]; simp
      case outstanding => rw [hlog4, hl3]; exact h.outstanding
      case committing => rw [hlog4, hl3]; exact h.committing
      case empty => rw [hd4]; exact h.empty
      case home => rw [hd4]; exact h.home
    · rintro _ _ ⟨-, ⟨-, hfull⟩ | ⟨-, hfull⟩⟩
      · have hn1 : s1.log.lh.n = w.length := by rw [g1.log]; exact h.n
        have hs1 : s1.log.size = size := by rw [g1.log]; exact h.at_log.at_size
        simp only [hn1, hs1] at hfull
        omega
      · have ho1 : s1.log.outstanding = k := by rw [g1.log]; exact h.outstanding
        simp only [ho1] at hfull
        omega
  · rintro _ _ ⟨-, -, hall, -⟩
    obtain ⟨j, hj⟩ := h.rep.exists_free (L := s.log.lh.blocks) (fun b hb => by
      by_contra hm
      exact hb (by rw [pinOf, if_neg hm])) (by rw [h.blocks]; simp; omega)
    exact absurd hj (hall j)

lemma Txn.Ok.of_append (h : (w ++ w').Ok start size) : w.Ok start size := by
  have hsub : ∀ b ∈ w.map Prod.fst, b ∈ (w ++ w').map Prod.fst := fun b hb => by
    rw [map_append]; exact mem_append_left _ hb
  constructor
  case length => have := h.length; rw [length_append] at this; omega
  case nodup => have := h.nodup; rw [map_append] at this; exact this.of_append_left
  case home => exact fun b hb => h.home b (hsub b hb)
  case word => exact fun b hb => h.word b (hsub b hb)

lemma writeBlocks_spec (h : Open start size t k w s) (hk : 1 ≤ k)
    (hok : (w ++ w').Ok start size) (hist : Hist d₀ Φ s) {E : Stop → Store → Prop} :
    wp (forM w' writeBlock) (fun _ s' => Open start size t k (w ++ w') s' ∧ Hist d₀ Φ s') E s := by
  induction w' generalizing w s with
  | nil => simpa using ⟨h, hist⟩
  | cons p w' ih =>
    rw [append_cons] at hok ⊢
    simp only [forM_cons, wp_bind]
    refine wp_mono (writeBlock_spec h hk hok.of_append hist) ?_ (fun _ _ h' => h')
    rintro _ s1 ⟨h1, hist1, -⟩
    exact ih h1 hok hist1

lemma Open.logOk {l : Log} (h : Open start size t k w s) (hok : w.Ok start size)
    (hs : 0 < size) (hstart : l.start = s.log.start) (hdev : l.dev = s.log.dev) (hlh : l.lh = s.log.lh) :
    LogOk start size l := by
  have hlen := hok.length
  constructor
  case at_start => rw [hstart]; exact h.at_log.at_start
  case dev => rw [hdev]; exact h.at_log.dev
  case le | room => rw [hlh, h.n]; omega
  case nodup => rw [hlh, h.blocks]; exact hok.nodup
  case home => rw [hlh, h.blocks]; exact hok.home
  case word => rw [hlh, h.blocks]; exact hok.word

lemma endOp_spec (h : Open start size t 1 w s) (hok : w.Ok start size) (hs : 0 < size)
    (hist : Hist d₀ Φ s)
    (hΦ : ∀ d, Sound start size t d ∨ Sound start size (applyTxn w t) d → Φ d) :
    wp (endOp : IoM Unit) (fun _ s' => Idle start size (applyTxn w t) s' ∧ Hist d₀ Φ s' ∧
        ∀ i < w.length, s'.disk (start + i + 1) = applyTxn w t (s.log.lh.block i))
      (fun _ s' => Hist d₀ Φ s' ∧ NBUF ≤ 2 * w.length + 1) s := by
  have hn : s.log.lh.n.toNat = w.length := by rw [h.n]; rfl
  have happ : applied t (applyTxn w t) s.log.lh.blocks = applyTxn w t := by
    funext b
    unfold applied
    split
    · rfl
    · rename_i hb
      rw [h.blocks] at hb
      exact (applyTxn_of_notMem w t hb).symm
  unfold endOp endOpFirst endOpCs
  simp only [wp_bind, monadLift_self, wp_get, h.committing, h.outstanding, Bool.false_eq_true,
    if_false, sub_self, if_true, wp_set, wp_pure, wp_doIf]
  refine ⟨fun _ => ?_, fun hc => absurd trivial hc⟩
  set s1 : Store := { s with
    log := { s.log with outstanding := 0, committing := true }
    trace := s.trace ++ [.ended s.pid true] } with hs1
  have h1 : Rep s1 (outside start size fun b => some (applyTxn w t b)) (pinOf s1.log.lh.blocks) ∅ :=
    { h.rep with }
  have hl1 : LogOk start size s1.log := h.logOk hok hs rfl rfl rfl
  refine wp_mono (commit_spec h1 hl1 (v := applyTxn w t) (t := t) ?_ (fun b hb => ?_) h.empty
    h.home hs (hist.quiet (fun _ => rfl) rfl rfl) (fun d hd => ?_)) ?_ (fun _ _ h' =>
      ⟨h'.1, by rw [← hn]; exact h'.2⟩)
  · show 0 ≤ s.log.lh.n
    rw [h.n]; omega
  · rw [outside, if_neg (hl1.home b hb)]
  · rw [show s1.log.lh.blocks = s.log.lh.blocks from rfl, happ] at hd
    exact hΦ d hd
  · rintro _ s2 ⟨h2, hlog2, hpid2, hist2, hempty2, hhome2, hslot2⟩
    rw [show s1.log.lh.blocks = s.log.lh.blocks from rfl, happ] at hhome2
    rw [endOpLast, wp_modify]
    refine ⟨?_, hist2.quiet (fun _ => rfl) rfl rfl, fun i hi => hslot2 i (hn.symm ▸ hi)⟩
    have hA : outside start size (outside start size fun b => some (applyTxn w t b)) =
        outside start size fun b => some (applyTxn w t b) := by
      funext b; unfold outside; split <;> rfl
    rw [hA] at h2
    constructor
    case rep => exact { h2 with }
    case at_log =>
      rw [hlog2]
      exact ⟨h.at_log.at_start, h.at_log.at_size, h.at_log.dev⟩
    case n | outstanding => rw [hlog2]; rfl
    case committing => rfl
    case empty => exact hempty2
    case home => exact hhome2

/-- **A transaction that returns has made all its writes**, and wherever it stops,
recovery gives the disk without or with all of them. -/
theorem transaction_spec (h : Idle start size t s) (hok : w.Ok start size)
    (hs : 0 < size) (hist : Hist d₀ Φ s)
    (hΦ : ∀ d, Sound start size t d ∨ Sound start size (applyTxn w t) d → Φ d) :
    wp (transaction w) (fun _ s' => Idle start size (applyTxn w t) s' ∧ Hist d₀ Φ s')
      (fun _ s' => Hist d₀ Φ s' ∧ NBUF ≤ 2 * w.length + 1) s := by
  unfold transaction
  simp only [wp_bind]
  refine wp_mono (beginOp_spec h.open (by decide) hist) ?_ (fun _ _ h' => h')
  rintro _ s1 ⟨h1, hist1, -⟩
  refine wp_mono (writeBlocks_spec h1 (by decide) (by simpa using hok) hist1) ?_ (fun _ _ h' => h')
  rintro _ s2 ⟨h2, hist2⟩
  exact wp_mono (endOp_spec (by simpa using h2) hok hs hist2 hΦ) (fun _ _ h' => ⟨h'.1, h'.2.1⟩)
    (fun _ _ h' => h')

end Xv6.Transaction
