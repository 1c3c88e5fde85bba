import Xv6.Share.System

/-!
The buffer cache is transparent: whatever is recycled in between, a process that reads a
block gets what was last logged for it, or else what the disk had at boot. This is for
the blocks outside the log; the log's own blocks are written by `commit`.
-/

namespace Xv6.Transparent

open Lib.Conc Bio LogState Io Redo Protocol Machine Share

variable {N : ℕ} {c : Conf} {p p₀ : Fin N} {s : Sys N} {i : Fin NBUF} {b : ℕ}

lemma matches_of_idle (h : SysInv c s) (hup : s.up = true) (hidle : (s.proc p).todo = none) :
    ∃ ℓ, Inv c s.store ℓ ∧ Matches (s.proc p).client (ℓ p) := by
  obtain ⟨ℓ, hI, hrest⟩ := h
  rw [if_pos hup] at hrest
  have hp := hrest p
  rw [ProcOk, hidle] at hp
  exact ⟨ℓ, hI, hp⟩

lemma up_of_held (h : SysInv c s) (hi : (s.proc p).client.held i = some b) : s.up = true := by
  by_contra hup
  obtain ⟨ℓ, -, hrest⟩ := h
  rw [if_neg hup] at hrest
  obtain ⟨q, hb⟩ := hrest
  rw [hb.client p] at hi
  cases hi

lemma held_clean (h : SysInv c s) (hidle : (s.proc p).todo = none)
    (hi : (s.proc p).client.held i = some b) (hd : i ∉ (s.proc p).client.dirty) :
    ∃ (ℓ : Fin N → Local) (V : Disk) (pins : List ℕ),
      Cache s.store.bcache s.store.disk (Local.hands ∘ ℓ) V pins ∧
      LogInv c s.store.log s.store.trace (Local.role ∘ ℓ) V pins ∧
      s.store.bcache.Has ROOTDEV b i ∧ (s.store.bcache.buf i).data = V b ∧
      Settled (Local.hands ∘ ℓ) i := by
  obtain ⟨ℓ, ⟨V, pins, hC, hL⟩, hm⟩ := matches_of_idle h (up_of_held h hi) hidle
  obtain ⟨φ, hst, hraw⟩ := hm.st hi
  have hφ : ∀ x, φ ≠ .dirty x := fun x e => hd (hm.dirty i b x (e ▸ hst))
  obtain ⟨hhas, hok⟩ := hC.held p i b φ hst
  exact ⟨ℓ, V, pins, hC, hL, hhas, hC.data_eq hst hφ (valid_of_ok hok hraw), hC.settled hst hφ⟩

/-! ### Three runs -/

/-- A log of two blocks. -/
def smallConf : Conf := { mkfsConf with size := 2 }

instance : DecidablePred smallConf.W := fun b => inferInstanceAs (Decidable (46 ≤ b))

/-- Process `q` commits block 46, and process `p` reads block `b`. -/
def reading46 (q p : Fin 3) (b : ℕ) : List (Move 3) :=
  logged46 ++ .call q .endOp :: acts q 53 ++ .call p (.bread b) :: acts p 3

/-- Process `p` has buffer `i` for block `b`, and has not modified it. -/
def Reads (s : Sys N) (p : Fin N) (i : Fin NBUF) (b : ℕ) : Prop :=
  (s.proc p).todo = none ∧ (s.proc p).client.held i = some b ∧ i ∉ (s.proc p).client.dirty

section

-- the kernel computes the runs action by action
set_option maxRecDepth 1000000

lemma reads_of_play {c : Conf} [DecidablePred c.W] {p : Fin 3} {i : Fin NBUF} {b : ℕ}
    (ms : List (Move 3)) {x y : UInt8}
    (h : (play (move c) ms (init c 0)).map (fun s => ((s.proc p).todo.isNone &&
      (s.proc p).client.held i = some b && i ∉ (s.proc p).client.dirty,
      (s.store.bcache.buf i).data 0, latest c.disk s.store.trace b 0)) = some (true, x, y)) :
    ∃ s, Reach c (0 : Fin 3) s ∧ Reads s p i b ∧ (s.store.bcache.buf i).data 0 = x ∧
      latest c.disk s.store.trace b 0 = y := by
  obtain ⟨s, hs, hf⟩ := reach_of_play ms _ h
  simp only [Prod.mk.injEq, Bool.and_eq_true, decide_eq_true_eq, Option.isNone_iff_eq_none] at hf
  exact ⟨s, hs, ⟨hf.1.1.1, hf.1.1.2, hf.1.2⟩, hf.2⟩

lemma reads_46 : ∃ s, Reach mkfsConf (0 : Fin 3) s ∧ Reads s 1 1 46 ∧
    (s.store.bcache.buf 1).data 0 = 7 ∧ latest mkfsConf.disk s.store.trace 46 0 = 7 :=
  reads_of_play (reading46 0 1 46) (by decide +kernel)

lemma reads_3 : ∃ s, Reach mkfsConf (0 : Fin 3) s ∧ Reads s 0 2 3 ∧
    (s.store.bcache.buf 2).data 0 = 7 ∧ latest mkfsConf.disk s.store.trace 3 0 = 0 :=
  reads_of_play (reading46 0 0 3) (by decide +kernel)

/-- Processes 0 and 1 both pass the test of `log_write` before either has logged its block. They
commit, and process 0 reads block 4. -/
lemma reads_4 : ∃ s, Reach smallConf (0 : Fin 3) s ∧ Reads s 0 4 4 ∧
    (s.store.bcache.buf 4).data 0 = 7 ∧ latest smallConf.disk s.store.trace 4 0 = 0 :=
  reads_of_play (booted ++ .call 0 .beginOp :: acts 0 1 ++ .call 1 .beginOp :: acts 1 1 ++
    .call 0 (.bread 46) :: acts 0 3 ++ .call 1 (.bread 47) :: acts 1 3 ++
    .modify 0 1 46 (fun _ => 7) :: .modify 1 2 47 (fun _ => 7) ::
    .call 0 (.logWrite 1) :: .call 1 (.logWrite 2) :: acts 0 1 ++ acts 1 2 ++ acts 0 1 ++
    .call 0 (.brelse 1) :: acts 0 2 ++ .call 1 (.brelse 2) :: acts 1 2 ++
    .call 1 .endOp :: acts 1 1 ++ .call 0 .endOp :: acts 0 84 ++ .call 0 (.bread 4) :: acts 0 3)
    (by decide +kernel)

end

/-- **The buffer cache is transparent.** A buffer that a process has got for a block outside
the log, and not modified since, has the contents of the last `log_write` of the block, or
those of the disk at boot; a block has at most one buffer; and the list of buffers, read
either way, has each of them once. -/
theorem cache_transparent (hN : 3 * N + 1 < 2 ^ 32) (hc : Clean c) (hg : Good c)
    (h : Reach c p₀ s) :
    (∀ p i b, (s.proc p).todo = none → (s.proc p).client.held i = some b →
      i ∉ (s.proc p).client.dirty → ¬ InLog c.start c.size b →
      s.store.bcache.Has ROOTDEV b i ∧
      (s.store.bcache.buf i).data = latest c.disk s.store.trace b) ∧
    (∀ b i j, s.store.bcache.Has ROOTDEV b i → s.store.bcache.Has ROOTDEV b j → i = j) ∧
    (forwards s.store.bcache).Perm (List.finRange NBUF) ∧
    (backwards s.store.bcache).Perm (List.finRange NBUF) := by
  have hinv := sysInv_reach hN hc h
  have ⟨ℓ, ⟨V, pins, hC, _⟩, _⟩ := hinv
  obtain ⟨hf, hb⟩ := hC.linked.perm
  refine ⟨fun p i b hidle hi hd hout => ?_, fun b i j => hC.has_inj, hf, ?_⟩
  · obtain ⟨ℓ', V', pins', -, hL, hhas, hdata, -⟩ := held_clean hinv hidle hi hd
    refine ⟨hhas, ?_⟩
    rw [hdata]
    exact hL.told.latest hg b hout
  · rw [hb]
    exact (List.reverse_perm _).trans hf

/-- Process 1 reads block 46, which process 0 has logged and committed. -/
theorem cache_transparent_committed : ∃ s, Reach mkfsConf (0 : Fin 3) s ∧ Reads s 1 1 46 ∧
    (s.store.bcache.buf 1).data = latest mkfsConf.disk s.store.trace 46 ∧
    latest mkfsConf.disk s.store.trace 46 0 = 7 := by
  obtain ⟨s, hs, hr, -, hseven⟩ := reads_46
  obtain ⟨hidle, hheld, hclean⟩ := hr
  obtain ⟨hread, -⟩ := cache_transparent (by decide) clean_mkfsConf good_mkfsConf hs
  exact ⟨s, hs, ⟨hidle, hheld, hclean⟩, (hread 1 1 46 hidle hheld hclean (by decide)).2, hseven⟩

/-- **Blocks that do not keep their contents.** A process logs block 46 and commits; then it reads
block 3, the first slot of the log, and gets what it has logged for block 46. And with a log of
two blocks, two processes that both find it empty log a block each, and `write_log` writes one
of them to block 4, which is outside the log. -/
theorem log_block_changes :
    (∃ s : Sys 3, Reach mkfsConf (0 : Fin 3) s ∧ ∃ i, Reads s 0 i 3 ∧
      (s.store.bcache.buf i).data ≠ latest mkfsConf.disk s.store.trace 3) ∧
    ∃ s : Sys 3, Reach smallConf (0 : Fin 3) s ∧ ¬ InLog smallConf.start smallConf.size 4 ∧
      ∃ i, Reads s 0 i 4 ∧ (s.store.bcache.buf i).data ≠ latest smallConf.disk s.store.trace 4 := by
  constructor
  · obtain ⟨s, hs, hr, hdata, hlatest⟩ := reads_3
    refine ⟨s, hs, 2, hr, fun h => ?_⟩
    rw [h, hlatest] at hdata
    cases hdata
  · obtain ⟨s, hs, hr, hdata, hlatest⟩ := reads_4
    refine ⟨s, hs, by decide, 4, hr, fun h => ?_⟩
    rw [h, hlatest] at hdata
    cases hdata

end Xv6.Transparent
