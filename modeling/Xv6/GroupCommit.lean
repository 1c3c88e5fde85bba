import Xv6.Grouping
import Xv6.Stages
import Xv6.Share.System

/-!
Group commit never commits half an operation.

In every state the machine can get to, its trace is in order, so operations and
transactions are grouped as they should be; and while a process commits, the log is its
own. After a boot that installs a transaction this fails: `recover_from_log` unpins blocks that
nobody has pinned, and a buffer that a process holds is recycled.
-/

namespace Xv6.GroupCommit

open Lib.Wp Lib.Bytes Lib.Conc Bio LogState Io Protocol Machine Share Grouping Stages Redo Function

lemma ne_committing {c : Conf} {e : Stop} {st : Store} (h : Stuck c e st) : e ≠ .panic "log.committing" := by
  cases h <;> simp

variable {N : ℕ} {c : Conf} {p q p₀ : Fin N} {s s' : Sys N} {ℓ : Fin N → Local} {st : Store}

lemma ctl_of_inv (h : Inv c st ℓ) : ∃ k, ctl c.start st.trace = some k := by
  obtain ⟨V, pins, -, hL⟩ := h
  rcases hL.cases with ⟨-, k, S, C, hctl, -⟩ | ⟨q, m, -, -, hctl⟩ | ⟨q, m, L, n, -, -, hctl⟩
  · exact ⟨_, hctl⟩
  · exact ⟨_, hctl⟩
  · exact ⟨_, hctl⟩

lemma owned_of_commits (h : Inv c st ℓ) (hp : commits p st.trace = true) :
    ∃ V pins m, Owned c st.log st.trace (Local.role ∘ ℓ) V pins p m := by
  obtain ⟨V, pins, -, hL⟩ := h
  rcases hL.cases with ⟨-, k, S, C, hctl, hk, -⟩ | ⟨q, m, ho, -, hctl⟩ | ⟨q, m, L, n, ho, -, hctl⟩
  · obtain ⟨L, n, rfl⟩ := (commits_iff hctl p).mp hp
    cases hk
  · obtain ⟨L, n, he⟩ := (commits_iff hctl p).mp hp
    cases he
  · obtain ⟨L', n', he⟩ := (commits_iff hctl p).mp hp
    simp only [Ctl.commit.injEq] at he
    have hqp : q = p := Fin.ext he.1
    subst hqp
    exact ⟨V, pins, m, ho⟩

/-- What the committer knows of the log stays true whatever another process does. -/
lemma log_eq_of_inv {st' : Store} {l : Local} (h : Inv c st ℓ)
    (hp : commits p st.trace = true) (hqp : q ≠ p) (h' : Inv c st' (update ℓ q l)) :
    st'.log = st.log := by
  obtain ⟨V, pins, m, ho⟩ := owned_of_commits h hp
  obtain ⟨V', pins', -, hL'⟩ := h'
  have hm : (Local.role ∘ update ℓ q l) p = (ℓ p).role := by
    rw [comp_apply, update_of_ne hqp.symm]
  have ho' := hL'.owned (p := p) (m := m) (by rw [hm]; exact ho.com)
  rw [← ho'.is_log, ← ho.is_log]

lemma log_of_step (h : SysInv c s) (hp : commits p s.store.trace = true) (hqp : q ≠ p)
    (hs : Step c s q s') : s'.store.log = s.store.log := by
  obtain ⟨ℓ, hI, hrest⟩ := h
  cases hs with
  | call k hup hidle hk => rfl
  | modify i b d hup hidle hi hW => rfl
  | exec htodo hx =>
    split at hrest
    · have hq := hrest q
      rw [ProcOk, htodo] at hq
      obtain ⟨l', hI', -⟩ := Safe.step hq hI rfl trivial hx
      exact log_eq_of_inv hI hp hqp hI'
    · obtain ⟨p₁, hb⟩ := hrest
      obtain ⟨rfl, hok⟩ := hb.act htodo
      obtain ⟨l', hI', -⟩ := Safe.step hok hI rfl trivial hx
      exact log_eq_of_inv hI hp hqp hI'

lemma no_op_of_commits (h : Inv c st ℓ) (hp : commits p st.trace = true) :
    st.log.outstanding = 0 ∧ ∀ q : Fin N, inOp q st.trace = false := by
  obtain ⟨V, pins, m, ho⟩ := owned_of_commits h hp
  refine ⟨ho.outstanding, fun q => ?_⟩
  rw [inOp_role h q]
  exact ho.noop q

lemma committing_iff (h : Inv c st ℓ) :
    st.log.committing = true ↔ ∃ p : Fin N, commits p st.trace = true := by
  obtain ⟨V, pins, -, hL⟩ := h
  rcases hL.cases with ⟨hq, k, S, C, hctl, hk, -⟩ | ⟨q, m, ho, hb, hctl⟩ | ⟨q, m, L, n, ho, hb, hctl⟩
  · rw [hq.committing]
    simp only [Bool.false_eq_true, false_iff, not_exists]
    intro p hp
    obtain ⟨L, n, rfl⟩ := (commits_iff hctl p).mp hp
    cases hk
  · rw [ho.committing, hb]
    simp only [Bool.not_true, Bool.false_eq_true, false_iff, not_exists]
    intro p hp
    obtain ⟨L, n, he⟩ := (commits_iff hctl p).mp hp
    cases he
  · rw [ho.committing, hb]
    simp only [Bool.not_false, true_iff]
    exact ⟨q, (commits_iff hctl q).mpr ⟨L, n, rfl⟩⟩

lemma idle_of_commits (h : SysInv c s) (hup : s.up = true) (hidle : (s.proc p).todo = none) :
    commits p s.store.trace = false := by
  obtain ⟨ℓ, hI, hrest⟩ := h
  rw [if_pos hup] at hrest
  have hm := hrest p
  rw [ProcOk, hidle] at hm
  rw [Bool.eq_false_iff]
  intro hp
  obtain ⟨V, pins, m, ho⟩ := owned_of_commits hI hp
  have hcom : (ℓ p).role.com = some m := ho.com
  rw [hm.com] at hcom
  cases hcom

/-! ### Two runs -/

/-- The header that event `w` writes. -/
def headAt (start : ℕ) (tr : List Event) (w : ℕ) : List ℕ :=
  match tr[w]? with
  | some (.write b d) => if b = start then headBlocks d else []
  | _ => []

lemma point_of_headAt {start w : ℕ} {tr : List Event} {L : List ℕ} (h : headAt start tr w = L)
    (hL : L ≠ []) : ∃ d, Point start tr w d ∧ headBlocks d = L := by
  unfold headAt at h
  split at h
  · rename_i b d hw
    split at h
    · rename_i hb
      subst hb
      exact ⟨d, ⟨hw, h.symm ▸ hL⟩, h⟩
    · exact absurd h.symm hL
  · exact absurd h.symm hL

section

-- the kernel computes the runs action by action
set_option maxRecDepth 1000000

/-- Process 0 has logged block 46 and has written the header of its commit. -/
lemma committing_reach : ∃ s, Reach mkfsConf (0 : Fin 3) s ∧
    commits (0 : Fin 3) s.store.trace = true ∧ headAt 2 s.store.trace 6 = [46] ∧
    latest mkfsConf.disk (s.store.trace.take 6) 46 0 = 7 := by
  obtain ⟨s, hs, hf⟩ := reach_of_play (c := mkfsConf) (q := 0) (logged46 ++ .call 0 .endOp :: acts 0 24)
    (fun s => (commits 0 s.store.trace, headAt 2 s.store.trace 6,
      latest mkfsConf.disk (s.store.trace.take 6) 46 0)) (a := (true, [46], 7)) (by decide +kernel)
  simp only [Prod.mk.injEq] at hf
  exact ⟨s, hs, hf⟩

/-- The boot installs block 46 and leaves its buffer with a count of -1. Process 0 gets the buffer,
which makes the count 0, so that process 1 gets it too, for block 50. Process 0 fills it and logs
it; process 1 reads block 50 into it; and process 0 commits. -/
lemma losing_reach : ∃ s, Reach leftConf (0 : Fin 3) s ∧ headAt 2 s.store.trace 7 = [50] ∧
    replay (s.store.trace.take 7) leftConf.disk 3 0 = 0 ∧
    latest leftConf.disk (s.store.trace.take 7) 50 0 = 7 ∧
    s.store.disk 50 0 = 0 ∧ latest leftConf.disk s.store.trace 50 0 = 7 ∧
    (List.finRange 3).all (fun p => (s.proc p).todo.isNone) = true := by
  obtain ⟨s, hs, hf⟩ := reach_of_play (c := leftConf) (q := 0) (acts 0 34 ++ .call 0 .beginOp ::
      acts 0 1 ++ .call 0 (.bread 46) :: acts 0 3 ++ .call 1 (.bread 50) :: acts 1 1 ++
      .modify 0 2 46 (fun _ => 7) :: .call 0 (.logWrite 2) :: acts 0 2 ++
      .call 0 (.brelse 2) :: acts 0 2 ++ acts 1 2 ++ .call 1 (.brelse 2) :: acts 1 2 ++
      .call 0 .endOp :: acts 0 53) (fun s =>
    (headAt 2 s.store.trace 7, replay (s.store.trace.take 7) leftConf.disk 3 0,
      latest leftConf.disk (s.store.trace.take 7) 50 0, s.store.disk 50 0,
      latest leftConf.disk s.store.trace 50 0,
      (List.finRange 3).all fun p => (s.proc p).todo.isNone)) (a := ([50], 0, 7, 0, 7, true))
    (by decide +kernel)
  simp only [Prod.mk.injEq] at hf
  exact ⟨s, hs, hf⟩

end

/-- **Group commit never commits half an operation.** In any interleaving of any number of
processes (their number only has to keep the 32-bit counts of the buffers exact; the kernel
has 64), from a boot with nothing to install: while a process commits, it is in `end_op`, no
operation is outstanding and nobody else changes the log; an operation is in one transaction,
which is over once no operation is under way and nobody commits; the header that commits it
lists exactly the blocks logged by its operations, all of which have ended, and their contents
are in the log; and `end_op` never finds another commit under way. -/
theorem group_commit (hN : 3 * N + 1 < 2 ^ 32) (hc : Clean c) (hg : Good c) (h : Reach c p₀ s) :
    (s.store.log.committing = true ↔ ∃ p : Fin N, commits p s.store.trace = true) ∧
    (∀ p : Fin N, commits p s.store.trace = true →
      s.store.log.outstanding = 0 ∧ (∀ q : Fin N, inOp q s.store.trace = false) ∧
      ∀ q s', q ≠ p → Step c s q s' → s'.store.log = s.store.log) ∧
    (s.up = true → ∀ p, (s.proc p).todo = none → commits p s.store.trace = false) ∧
    s.store.disk = replay s.store.trace c.disk ∧
    Grouped c.start c.disk s.store.trace ∧ Settled s.store.trace ∧
    ∀ p, ¬ Stops s p (.panic "log.committing") := by
  have hinv := sysInv_reach hN hc h
  have ⟨ℓ, hI, _⟩ := hinv
  obtain ⟨k, hctl⟩ := ctl_of_inv hI
  have ⟨V, pins, _, hL⟩ := hI
  obtain ⟨hG, hC⟩ := grouped_of_ctl hctl (fun q d hm => hg.1 _ (hL.told.allowed q _ d hm)
    (inLog_start hg)) (hL.told.slots hg)
  refine ⟨committing_iff hI, fun p hp => ?_, fun hup p hidle => idle_of_commits hinv hup hidle,
    disk_of_reach h, hG, hC.settled hctl, fun p hs => ?_⟩
  · obtain ⟨hout, hno⟩ := no_op_of_commits hI hp
    exact ⟨hout, hno, fun q s' hqp hs => log_of_step hinv hp hqp hs⟩
  · obtain ⟨β, x, k, st, htodo, hx⟩ := hs
    exact ne_committing (stuck_of_error hinv htodo hx) rfl

/-- Process 0 commits the block it has logged. -/
theorem group_commit_committing : ∃ s w d, Reach mkfsConf (0 : Fin 3) s ∧
    commits (0 : Fin 3) s.store.trace = true ∧ (∀ q : Fin 3, inOp q s.store.trace = false) ∧
    Grouped 2 mkfsConf.disk s.store.trace ∧ Point 2 s.store.trace w d ∧ headBlocks d = [46] ∧
    replay (s.store.trace.take w) mkfsConf.disk 3 = latest mkfsConf.disk (s.store.trace.take w) 46 ∧
    latest mkfsConf.disk (s.store.trace.take w) 46 0 = 7 := by
  obtain ⟨s, hs, hcom, hhead, hseven⟩ := committing_reach
  obtain ⟨d, hpoint, hd⟩ := point_of_headAt hhead (by simp)
  obtain ⟨-, hquiet, -, -, hG, -, -⟩ := group_commit (by decide) clean_mkfsConf good_mkfsConf hs
  exact ⟨s, 6, d, hs, hcom, (hquiet 0 hcom).2.1, hG, hpoint, hd,
    hG.slots 6 d hpoint 0 46 (by rw [hd]; rfl), hseven⟩

/-- **A finished operation is lost** after a boot that has installed a transaction. No process is in
a call, and the commit was made; but the log and the disk have the old contents of the block
that process 0 has logged. -/
theorem operation_lost : ∃ s, Reach leftConf (0 : Fin 3) s ∧ (∀ p, (s.proc p).todo = none) ∧
    s.store.disk 50 ≠ latest leftConf.disk s.store.trace 50 ∧
    ¬ Grouped leftConf.start leftConf.disk s.store.trace := by
  obtain ⟨s, hs, hhead, hslot, hlast, hdisk, hseven, hidle⟩ := losing_reach
  refine ⟨s, hs, fun p => ?_, fun h => ?_, fun h => ?_⟩
  · have := List.all_eq_true.mp hidle p (List.mem_finRange p)
    exact Option.isNone_iff_eq_none.mp this
  · rw [h, hseven] at hdisk
    cases hdisk
  · obtain ⟨d, hpoint, hd⟩ := point_of_headAt hhead (by simp)
    have := congrFun (h.slots 7 d hpoint 0 50 (by rw [hd]; rfl)) 0
    rw [hlast] at this
    cases hslot.symm.trans this

end Xv6.GroupCommit
