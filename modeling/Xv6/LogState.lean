import Xv6.Param
import Mathlib.Data.List.Nodup

/-!
The in-memory log of `kernel/log.c`, its on-disk header, and the critical sections of
`log.lock`.
-/

namespace Xv6.LogState

open Lib.Bytes Function List

/-- `struct logheader`; the entries of `block` are the 32 bits of an `int`. -/
structure LogHeader where
  n : ℤ
  block : ℕ → ℕ

structure Log where
  start : ℕ
  size : ℕ
  outstanding : ℤ
  committing : Bool
  dev : ℕ
  lh : LogHeader

/-- The block numbers in the header. -/
def LogHeader.blocks (h : LogHeader) : List ℕ := (List.range h.n.toNat).map h.block

/-! ### The header block -/

/-- `hb->n` -/
def headN (d : Block) : ℤ := toInt32 (le d 0 4)
/-- `hb->block[i]` -/
def headBlock (d : Block) (i : ℕ) : ℕ := le d (4 + 4 * i) 4

/-- The block numbers a header block on disk lists. -/
def headBlocks (d : Block) : List ℕ := (List.range (headN d).toNat).map (headBlock d)

/-- `for (i = 0; i < k; i++) hb->block[i] = block[i];` -/
def putBlocks (d : Block) (block : ℕ → ℕ) : ℕ → Block
  | 0 => d
  | k + 1 => putLe (putBlocks d block k) (4 + 4 * k) 4 (block k)

/-- The header block after `write_head` has copied the in-memory header into it. -/
def putHead (d : Block) (lh : LogHeader) : Block :=
  putBlocks (putLe d 0 4 (lh.n % 2 ^ 32).toNat) lh.block lh.n.toNat

section

variable {i : ℕ} {lh : LogHeader} (d : Block)

lemma le_putBlocks_low (block : ℕ → ℕ) (k : ℕ) :
    le (putBlocks d block k) 0 4 = le d 0 4 := by
  induction k with
  | zero => rfl
  | succ k ih => rw [putBlocks, le_putLe_of_disjoint _ _ (by omega), ih]

lemma le_putBlocks (block : ℕ → ℕ) {k : ℕ} (hk : k ≤ 255) (hi : i < k) (hb : block i < 2 ^ 32) :
    headBlock (putBlocks d block k) i = block i := by
  unfold headBlock
  induction k with
  | zero => omega
  | succ k ih =>
    rw [putBlocks]
    by_cases h : i = k
    · subst h
      exact le_putLe_of_lt _ (by simp only [BSIZE]; omega) (by simpa using hb)
    · rw [le_putLe_of_disjoint _ _ (by omega), ih (by omega) (by omega)]

lemma headN_putHead (h0 : 0 ≤ lh.n) (h1 : lh.n ≤ LOGSIZE) :
    headN (putHead d lh) = lh.n := by
  obtain ⟨m, hm⟩ := Int.eq_ofNat_of_zero_le h0
  have hL := LOGSIZE_eq
  have h2 : (lh.n % 2 ^ 32).toNat = m := by omega
  unfold headN putHead
  rw [le_putBlocks_low, h2, le_putLe_of_lt _ (by simp only [BSIZE]; omega) (by omega),
    toInt32_of_lt (by omega), hm]

lemma headBlock_putHead (h1 : lh.n ≤ LOGSIZE) (hi : i < lh.n.toNat) (hb : lh.block i < 2 ^ 32) :
    headBlock (putHead d lh) i = lh.block i :=
  le_putBlocks _ _ (by simp only [LOGSIZE, MAXOPBLOCKS] at h1; omega) hi hb

/-- What `write_head` puts on disk lists exactly the blocks of the in-memory header. -/
lemma headBlocks_putHead (h0 : 0 ≤ lh.n) (h1 : lh.n ≤ LOGSIZE) (hb : ∀ b ∈ lh.blocks, b < 2 ^ 32) :
    headBlocks (putHead d lh) = lh.blocks := by
  unfold headBlocks LogHeader.blocks
  rw [headN_putHead d h0 h1]
  refine map_congr_left fun i hi => ?_
  have hi := mem_range.mp hi
  exact headBlock_putHead d h1 hi (hb _ (mem_map_of_mem (mem_range.mpr hi)))

end

/-! ### The critical sections -/

/-- One pass through the loop of `begin_op`; `none` when it sleeps. -/
def beginOpCs (l : Log) : Option Log :=
  if l.committing then none
  else if l.lh.n + (l.outstanding + 1) * MAXOPBLOCKS > LOGSIZE then none
  else some { l with outstanding := l.outstanding + 1 }

/-- The first critical section of `end_op`; the flag is `do_commit`. -/
def endOpCs (l : Log) : Except Stop (Log × Bool) :=
  let l := { l with outstanding := l.outstanding - 1 }
  if l.committing then .error (.panic "log.committing")
  else if l.outstanding = 0 then .ok ({ l with committing := true }, true)
  else .ok (l, false)

/-- The tests `log_write` makes before it takes the lock. -/
def logWriteCheck (l : Log) : Except Stop Unit :=
  if l.lh.n ≥ LOGSIZE ∨ l.lh.n ≥ (l.size : ℤ) - 1 then .error (.panic "too big a transaction")
  else if l.outstanding < 1 then .error (.panic "log_write outside of trans")
  else .ok ()

/-- `for (i = 0; i < log.lh.n; i++) if (log.lh.block[i] == blockno) break;` -/
def absorb (lh : LogHeader) (b : ℕ) : ℕ := lh.blocks.findIdx (· == b)

/-- The critical section of `log_write`; the flag says that the block is new in the log. -/
def logWriteCs (l : Log) (b : ℕ) : Except Stop (Log × Bool) :=
  let i := absorb l.lh b
  if LOGSIZE ≤ i then .error .undefined
  else
    let lh := { l.lh with block := update l.lh.block i b }
    if (i : ℤ) = lh.n then .ok ({ l with lh := { lh with n := lh.n + 1 } }, true)
    else .ok ({ l with lh := lh }, false)

/-- **The ways through `begin_op`'s loop.** -/
lemma beginOpCs_cases (l : Log) :
    beginOpCs l = none ∨
    (l.committing = false ∧ l.lh.n + (l.outstanding + 1) * MAXOPBLOCKS ≤ LOGSIZE ∧
      beginOpCs l = some { l with outstanding := l.outstanding + 1 }) := by
  unfold beginOpCs
  split
  · exact .inl rfl
  · split
    · exact .inl rfl
    · exact .inr ⟨by simpa using ‹¬ l.committing = true›, not_lt.mp ‹_›, rfl⟩

/-- **The ways through `end_op`'s first critical section**, unless a commit runs. -/
lemma endOpCs_cases {l : Log} (h : l.committing = false) :
    (l.outstanding = 1 ∧
      endOpCs l = .ok ({ l with outstanding := 0, committing := true }, true)) ∨
    (l.outstanding ≠ 1 ∧ endOpCs l = .ok ({ l with outstanding := l.outstanding - 1 }, false)) := by
  simp only [endOpCs, h, Bool.false_eq_true, if_false]
  split
  · exact .inl ⟨by omega, by simp [*]⟩
  · exact .inr ⟨by omega, rfl⟩

@[simp] lemma blocks_length (h : LogHeader) : h.blocks.length = h.n.toNat := by
  simp [LogHeader.blocks]

lemma block_mem {h : LogHeader} {i : ℕ} (hi : i < h.n.toNat) : h.block i ∈ h.blocks :=
  mem_map_of_mem (mem_range.mpr hi)

lemma blocks_getElem (h : LogHeader) {i : ℕ} (hi : i < h.blocks.length) :
    h.blocks[i] = h.block i := by simp [LogHeader.blocks]

lemma block_inj {h : LogHeader} (hnd : h.blocks.Nodup) {i j : ℕ} (hi : i < h.n.toNat)
    (hj : j < h.n.toNat) (hij : h.block i = h.block j) : i = j := by
  rw [← blocks_getElem h (by simpa using hi), ← blocks_getElem h (by simpa using hj)] at hij
  exact (List.Nodup.getElem_inj_iff hnd).mp hij

/-- **The ways through `log_write`'s critical section**: the block is absorbed and nothing
changes, it is appended, or the array is full. -/
lemma logWriteCs_cases {l : Log} (h0 : 0 ≤ l.lh.n) (h1 : l.lh.n ≤ LOGSIZE) (b : ℕ) :
    (b ∈ l.lh.blocks ∧ logWriteCs l b = .ok (l, false)) ∨
    (b ∉ l.lh.blocks ∧ l.lh.n < LOGSIZE ∧ ∃ l', logWriteCs l b = .ok (l', true) ∧
      l' = { l with lh := ⟨l.lh.n + 1, update l.lh.block l.lh.n.toNat b⟩ } ∧
      l'.lh.blocks = l.lh.blocks ++ [b]) ∨
    (b ∉ l.lh.blocks ∧ l.lh.n = LOGSIZE ∧ logWriteCs l b = .error .undefined) := by
  by_cases hb : b ∈ l.lh.blocks
  · have hlt : absorb l.lh b < l.lh.blocks.length :=
      findIdx_lt_length_of_exists ⟨b, hb, by simp⟩
    have hget : l.lh.block (absorb l.lh b) = b := by
      have h := findIdx_getElem (w := hlt)
      rw [← blocks_getElem _ hlt]
      exact eq_of_beq h
    rw [blocks_length] at hlt
    have hbig : ¬ LOGSIZE ≤ absorb l.lh b := by omega
    have hne : ¬ ((absorb l.lh b : ℕ) : ℤ) = l.lh.n := by omega
    have hup : update l.lh.block (absorb l.lh b) b = l.lh.block := by
      rw [update_eq_self_iff]; exact hget.symm
    exact .inl ⟨hb, by simp only [logWriteCs, if_neg hbig, if_neg hne, hup]⟩
  · have hidx : absorb l.lh b = l.lh.n.toNat := by
      rw [absorb, findIdx_eq_length.mpr, blocks_length]
      intro x hx
      have : x ≠ b := fun h => hb (h ▸ hx)
      simpa using this
    by_cases hfull : l.lh.n = LOGSIZE
    · have : LOGSIZE ≤ absorb l.lh b := by rw [hidx]; omega
      exact .inr (.inr ⟨hb, hfull, by simp only [logWriteCs, if_pos this]⟩)
    · refine .inr (.inl ⟨hb, by omega, _, ?_, rfl, ?_⟩)
      · have h1 : ¬ LOGSIZE ≤ l.lh.n.toNat := by omega
        have h2 : ((l.lh.n.toNat : ℕ) : ℤ) = l.lh.n := by omega
        simp only [logWriteCs, hidx, if_neg h1, if_pos h2]
      · have h3 : (l.lh.n + 1).toNat = l.lh.n.toNat + 1 := by omega
        simp only [LogHeader.blocks, h3, range_succ, map_append, map_cons,
          map_nil, update_self]
        congr 1
        refine map_congr_left fun i hi => ?_
        have := mem_range.mp hi
        exact update_of_ne (by omega) _ _

end Xv6.LogState
