import Xv6.GroupCommit
import Mathlib.Algebra.Order.BigOperators.Group.Finset

/-!
Admission to the log.

`begin_op` reserves `MAXOPBLOCKS` blocks of `LOGSIZE` for each operation, but the log has
only `nlog - 1` slots, and `log_write` refuses when they are used up even if the block is
in the header already. As long as the operations that share the log have two of the blocks that
are reserved for them left before each call of `log_write`, no call is refused.
-/

namespace Xv6.Admission

open Lib.Wp Lib.Conc Bio LogState Io Protocol Machine Share Grouping Stages Redo Function
open GroupCommit

variable {N : ℕ} {c : Conf} {p₀ : Fin N} {s : Sys N} {start : ℕ} {tr tr' : List Event} {k k' : Ctl}

/-! ### What operations reserve and use -/

/-- The distinct blocks process `p` has logged in its operation. -/
def loggedBy (p : ℕ) (tr : List Event) : List ℕ :=
  tr.foldl (fun L e => match e with
    | .began q => if q = p then [] else L
    | .logged q b _ => if q = p then addNew L b else L
    | _ => L) []

/-- The processes in operations, and those that were when `begin_op` last admitted one since the
last commit, that one included. -/
def crew (tr : List Event) : Finset ℕ × Finset ℕ :=
  tr.foldl (fun x e => match e with
    | .began q => (insert q x.1, insert q x.1)
    | .ended q _ => (x.1.erase q, x.2)
    | .committed _ => (x.1, ∅)
    | _ => x) (∅, ∅)

/-- The operations begun since the last commit. -/
def begun (tr : List Event) : ℕ :=
  tr.foldl (fun n e => match e with
    | .began _ => n + 1
    | .committed _ => 0
    | _ => n) 0

/-- What the operations that were under way when `begin_op` last admitted one have left of the
blocks reserved for them. -/
def reserved (tr : List Event) : ℕ :=
  ∑ p ∈ (crew tr).2, (MAXOPBLOCKS - (loggedBy p tr).length)

/-- An operation logs at most `MAXOPBLOCKS` distinct blocks. -/
def Modest (tr : List Event) : Event → Prop
  | .logged p b d => (loggedBy p (tr ++ [.logged p b d])).length ≤ MAXOPBLOCKS
  | _ => True

instance (tr : List Event) (e : Event) : Decidable (Modest tr e) :=
  match e with
  | .logged _ _ _ => inferInstanceAs (Decidable (_ ≤ _))
  | .began _ | .checked _ _ | .ended _ _ | .write _ _ | .committed _ => .isTrue trivial

lemma loggedBy_snoc (p : ℕ) (tr : List Event) (e : Event) :
    loggedBy p (tr ++ [e]) = match e with
      | .began q => if q = p then [] else loggedBy p tr
      | .logged q b _ => if q = p then addNew (loggedBy p tr) b else loggedBy p tr
      | _ => loggedBy p tr := by
  cases e <;> simp [loggedBy]

lemma crew_snoc (tr : List Event) (e : Event) :
    crew (tr ++ [e]) = match e with
      | .began q => (insert q (crew tr).1, insert q (crew tr).1)
      | .ended q _ => ((crew tr).1.erase q, (crew tr).2)
      | .committed _ => ((crew tr).1, ∅)
      | _ => crew tr := by
  cases e <;> simp [crew]

lemma begun_snoc (tr : List Event) (e : Event) :
    begun (tr ++ [e]) = match e with
      | .began _ => begun tr + 1
      | .committed _ => 0
      | _ => begun tr := by
  cases e <;> simp [begun]

/-! ### The reservations cover what is logged -/

/-- What is logged and what is still reserved fit into the log, and into what the operations since
the last commit may log. -/
structure Ledger (tr : List Event) (k : Ctl) : Prop where
  under : (crew tr).1 = procs k
  sub : procs k ⊆ (crew tr).2
  mine : ∀ p ∈ procs k, ∀ b ∈ loggedBy p tr, b ∈ k.blocks
  room : k.blocks.length + reserved tr ≤ LOGSIZE
  fair : k.blocks.length + reserved tr ≤ MAXOPBLOCKS * begun tr

/-- An event that logs nothing and lets nothing begin. -/
lemma Ledger.quiet (h : Ledger tr k) (hunder : (crew tr').1 = procs k')
    (hcrew : (crew tr').2 = (crew tr).2) (hlog : ∀ p, loggedBy p tr' = loggedBy p tr)
    (hbegun : begun tr' = begun tr) (hsub : procs k' ⊆ procs k) (hblocks : k'.blocks = k.blocks) :
    Ledger tr' k' := by
  have hres : reserved tr' = reserved tr := by
    unfold reserved
    simp only [hcrew, hlog]
  refine ⟨hunder, ?_, fun p hp b hb => ?_, ?_, ?_⟩
  · rw [hcrew]
    exact hsub.trans h.sub
  · rw [hblocks]
    exact h.mine p (hsub hp) b (hlog p ▸ hb)
  · rw [hblocks, hres]
    exact h.room
  · rw [hblocks, hres, hbegun]
    exact h.fair

lemma Ledger.began {S : Finset ℕ} {L C : List ℕ} {p : ℕ} (h : Ledger tr k)
    (hk : ops k = some (S, L, C)) (hp : p ∉ S)
    (hadm : L.length + (S.card + 1) * MAXOPBLOCKS ≤ LOGSIZE) :
    Ledger (tr ++ [.began p]) (.run (insert p S) L C) := by
  have hS : (crew tr).1 = S := h.under.trans (procs_of_ops hk)
  have hsub : S ⊆ (crew tr).2 := procs_of_ops hk ▸ h.sub
  have hne : ∀ q ∈ S, q ≠ p := fun q hq e => hp (e ▸ hq)
  have hother : ∀ q ∈ S, loggedBy q (tr ++ [.began p]) = loggedBy q tr := fun q hq => by
    rw [loggedBy_snoc]
    exact if_neg (hne q hq).symm
  have hself : loggedBy p (tr ++ [.began p]) = [] := by
    rw [loggedBy_snoc]
    exact if_pos rfl
  have hcrew : crew (tr ++ [.began p]) = (insert p S, insert p S) := by
    rw [crew_snoc, hS]
  have hbegun : begun (tr ++ [.began p]) = begun tr + 1 := begun_snoc tr (.began p)
  -- the new operation has its whole reservation left
  have hres : reserved (tr ++ [.began p]) =
      MAXOPBLOCKS + ∑ q ∈ S, (MAXOPBLOCKS - (loggedBy q tr).length) := by
    unfold reserved
    rw [hcrew, Finset.sum_insert hp, hself]
    exact congrArg _ (Finset.sum_congr rfl fun q hq => by rw [hother q hq])
  have hle : ∑ q ∈ S, (MAXOPBLOCKS - (loggedBy q tr).length) ≤ S.card * MAXOPBLOCKS :=
    Finset.sum_le_card_nsmul _ _ _ fun q _ => Nat.sub_le ..
  have hold : ∑ q ∈ S, (MAXOPBLOCKS - (loggedBy q tr).length) ≤ reserved tr :=
    Finset.sum_le_sum_of_subset hsub
  have hL : k.blocks = L := blocks_of_ops hk
  have hfair := h.fair
  rw [hL] at hfair
  refine ⟨by rw [hcrew]; rfl, by rw [hcrew]; exact subset_rfl, fun q hq b hb => ?_, ?_, ?_⟩
  · rcases Finset.mem_insert.mp hq with rfl | hq
    · rw [hself] at hb
      cases hb
    · rw [hother q hq] at hb
      exact hL ▸ h.mine q (by rw [procs_of_ops hk]; exact hq) b hb
  · rw [hres]
    show L.length + _ ≤ _
    rw [Nat.add_mul] at hadm
    omega
  · rw [hres, hbegun]
    show L.length + _ ≤ _
    rw [Nat.mul_add]
    omega

lemma length_addNew (L : List ℕ) (b : ℕ) :
    (addNew L b).length = L.length + if b ∈ L then 0 else 1 := by
  unfold addNew
  split <;> simp

lemma Ledger.logged {S : Finset ℕ} {L C : List ℕ} {p b : ℕ} {d : Block} (h : Ledger tr k)
    (hk : ops k = some (S, L, C)) (hp : p ∈ S) (hm : Modest tr (.logged p b d)) :
    Ledger (tr ++ [.logged p b d]) (.run S (addNew L b) C) := by
  have hpS : procs k = S := procs_of_ops hk
  have hL : k.blocks = L := blocks_of_ops hk
  have hcrew : crew (tr ++ [.logged p b d]) = crew tr := crew_snoc ..
  have hbegun : begun (tr ++ [.logged p b d]) = begun tr := begun_snoc ..
  have hself : loggedBy p (tr ++ [.logged p b d]) = addNew (loggedBy p tr) b := by
    rw [loggedBy_snoc]
    exact if_pos rfl
  have hother : ∀ q, q ≠ p → loggedBy q (tr ++ [.logged p b d]) = loggedBy q tr := fun q hq => by
    rw [loggedBy_snoc]
    exact if_neg hq.symm
  have hmem : ∀ a ∈ loggedBy p tr, a ∈ L := hL ▸ h.mine p (by rw [hpS]; exact hp)
  -- a block that is new in the header takes one from the reservation of `p`
  have hres : (addNew L b).length + reserved (tr ++ [.logged p b d]) ≤ L.length + reserved tr := by
    have hpP : p ∈ (crew tr).2 := h.sub (by rw [hpS]; exact hp)
    unfold reserved
    rw [hcrew, ← Finset.add_sum_erase _ _ hpP, ← Finset.add_sum_erase _ _ hpP, hself,
      Finset.sum_congr rfl fun q hq => by rw [hother q (Finset.mem_erase.mp hq).1]]
    have hm' : (addNew (loggedBy p tr) b).length ≤ MAXOPBLOCKS := hself ▸ hm
    rw [length_addNew] at hm' ⊢
    rw [length_addNew]
    by_cases hb : b ∈ L
    · rw [if_pos hb]
      omega
    · rw [if_neg hb]
      rw [if_neg fun hb' => hb (hmem b hb')] at hm' ⊢
      omega
  have hroom := h.room
  have hfair := h.fair
  rw [hL] at hroom hfair
  refine ⟨by rw [hcrew, h.under, hpS]; rfl, by rw [hcrew, ← hpS]; exact h.sub, fun q hq a ha => ?_,
    hres.trans hroom, ?_⟩
  · refine mem_addNew.mpr ?_
    by_cases hqp : q = p
    · subst hqp
      rw [hself] at ha
      exact (mem_addNew.mp ha).imp_left (hmem a)
    · rw [hother q hqp] at ha
      exact .inl (hL ▸ h.mine q (by rw [hpS]; exact hq) a ha)
  · rw [hbegun]
    exact hres.trans hfair

/-- **The reservations cover what is logged**, whenever operations keep to them. -/
lemma ledger_of_ctl (h : ctl start tr = some k) (hadm : Always (Admits start) tr)
    (hm : Always Modest tr) : Ledger tr k := by
  refine ctl_induction (P := fun tr k => Always (Admits start) tr → Always Modest tr → Ledger tr k)
    ?_ ?_ h hadm hm
  · intro _ _
    refine ⟨rfl, ?_, ?_, ?_, ?_⟩ <;> simp [procs, Ctl.blocks, reserved, crew]
  · intro tr e k k' hctl ih hn hadm hm
    obtain ⟨hadm, he⟩ := always_snoc.mp hadm
    obtain ⟨hm, hme⟩ := always_snoc.mp hm
    have hl := ih hadm hm
    cases hn with
    | boot hb | write hn hb =>
      exact hl.quiet (by rw [crew_snoc]; exact hl.under) (by rw [crew_snoc]) (fun p => loggedBy_snoc ..)
        (begun_snoc ..) subset_rfl rfl
    | began hk hp => exact hl.began hk hp (he _ _ _ _ hctl hk)
    | checked hk hp =>
      refine hl.quiet ?_ (by rw [crew_snoc]) (fun p => loggedBy_snoc ..) (begun_snoc ..) ?_ ?_
      · rw [crew_snoc, hl.under, procs_of_ops hk]
        rfl
      · rw [procs_of_ops hk]
        exact subset_rfl
      · rw [blocks_of_ops hk]
        rfl
    | logged hk hp hb => exact hl.logged hk hp hme
    | last hk =>
      refine hl.quiet ?_ (by rw [crew_snoc]) (fun p => loggedBy_snoc ..) (begun_snoc ..) (by simp [procs]) ?_
      · rw [crew_snoc, hl.under, procs_of_ops hk]
        simp [procs]
      · rw [blocks_of_ops hk]
        rfl
    | @ended k S L C p hk hp hS =>
      refine hl.quiet ?_ (by rw [crew_snoc]) (fun p => loggedBy_snoc ..) (begun_snoc ..) ?_ ?_
      · rw [crew_snoc, hl.under, procs_of_ops hk]
        rfl
      · rw [procs_of_ops hk]
        exact S.erase_subset p
      · rw [blocks_of_ops hk]
        rfl
    | committed =>
      refine ⟨?_, by simp [procs], by simp [procs], ?_, ?_⟩
      · rw [crew_snoc]
        exact hl.under
      · simp [Ctl.blocks, reserved, crew_snoc]
      · simp [Ctl.blocks, reserved, crew_snoc]

/-! ### The log has room -/

/-- Process `p` is about to test whether there is room for its `log_write`. -/
def AtTest (s : Sys N) (p : Fin N) : Prop :=
  ∃ i k, (s.proc p).todo = some (.act (logWriteTest i) k)

/-- Whoever is about to test finds that fewer than three operations have begun since the last
commit, or that two of the reserved blocks are left. -/
def Spare (s : Sys N) : Prop :=
  ∀ p, AtTest s p → begun s.store.trace < 3 ∨ 2 ≤ reserved s.store.trace

lemma full_of_stuck {e : Stop} {st : Store} (h : Stuck c e st)
    (he : e = .panic "too big a transaction") : ∃ k, ctl c.start st.trace = some k ∧
      k.blocks = st.log.lh.blocks ∧ (LOGSIZE ≤ st.log.lh.n ∨ c.size - 1 ≤ st.log.lh.n) := by
  cases h with
  | tooBig _ hctl hk hsize hfull => exact ⟨_, hctl, blocks_of_ops hk, by rwa [← hsize]⟩
  | _ => simp at he

/-- Process `p` goes on to log a block that it has. -/
def logging (s : Sys N) (p : Fin N) (i : Fin NBUF) : Sys N :=
  { s with proc := update s.proc p { s.proc p with todo := some (Call.logWrite i).code } }

lemma logging_todo (s : Sys N) (p : Fin N) (i : Fin NBUF) :
    ((logging s p i).proc p).todo = some (Call.logWrite i).code := by
  simp only [logging, update_self]

/-- Process `p` logs `n` blocks from `100 + m` on, which get the buffers from `m + 1` on. -/
def logs (p : Fin N) (m n : ℕ) : List (Move N) :=
  (((List.finRange NBUF).drop (m + 1)).take n).flatMap fun (i : Fin NBUF) =>
    .call p (.bread (99 + i)) :: acts p 3 ++ .call p (.logWrite i) :: acts p 2 ++
    .call p (.brelse i) :: acts p 2

/-- Three processes begin operations and log blocks, and the third reads its last block again. -/
def shared (p q r : Fin 3) (l m n : ℕ) : List (Move 3) :=
  booted ++ .call p .beginOp :: acts p 1 ++ .call q .beginOp :: acts q 1 ++
    .call r .beginOp :: acts r 1 ++ logs p 0 l ++ logs q l m ++ logs r (l + m) n ++
    .call r (.bread (100 + (l + m + n - 1))) :: acts r 3

section

-- the kernel computes the runs action by action
set_option maxRecDepth 1000000

lemma shared_reach {A : Type} (l m n : ℕ) (i : Fin NBUF) (f : Store → A) {a : A}
    (h : (play (move mkfsConf) (shared 0 1 2 l m n) (init mkfsConf 0)).map (fun s => (s.up &&
      (s.proc 2).todo.isNone && (Call.logWrite i).allowed mkfsConf s 2 &&
      Always Modest s.store.trace, f s.store)) = some (true, a)) :
    ∃ s, Reach mkfsConf (0 : Fin 3) (logging s 2 i) ∧ Always Modest s.store.trace ∧ f s.store = a := by
  obtain ⟨s, hs, hf⟩ := reach_of_play _ _ h
  simp only [Prod.mk.injEq, Bool.and_eq_true, decide_eq_true_eq] at hf
  obtain ⟨⟨⟨⟨hup, hidle⟩, hallowed⟩, hmodest⟩, hf⟩ := hf
  exact ⟨s, hs.tail ⟨2, .call _ hup (Option.isNone_iff_eq_none.mp hidle)
    (Call.allowed_iff.mp hallowed)⟩, hmodest, hf⟩

/-- Each of the three has logged nine blocks. -/
lemma nine_reach : ∃ s, Reach mkfsConf (0 : Fin 3) (logging s 2 27) ∧ Always Modest s.store.trace ∧
    (begun s.store.trace, reserved s.store.trace) = (3, 3) :=
  shared_reach 9 9 9 27 (fun st => (begun st.trace, reserved st.trace)) (by decide +kernel)

/-- Two have logged ten blocks, the third nine. -/
lemma ten_reach : ∃ s, Reach mkfsConf (0 : Fin 3) (logging s 2 29) ∧ Always Modest s.store.trace ∧
    (s.store.log.lh.n, s.store.log.size,
      decide ((s.store.bcache.buf 29).blockno ∈ loggedBy 2 s.store.trace)) = (29, 30, true) :=
  shared_reach 10 10 9 29 (fun st => (st.log.lh.n, st.log.size,
    decide ((st.bcache.buf 29).blockno ∈ loggedBy 2 st.trace))) (by decide +kernel)

end

/-- **The log has room** in every run of operations that log at most `MAXOPBLOCKS` distinct blocks
each, as long as two of the blocks that `begin_op` has reserved are left before each
`log_write`: no `log_write` is refused. And `write_log` stays in the log area. -/
theorem log_has_room (hN : 3 * N + 1 < 2 ^ 32) (hc : Clean c) (hsize : c.size = LOGSIZE)
    (hW : ∀ b, c.W b → ¬ InLog c.start c.size b) (h : Reach c p₀ s)
    (hm : Always Modest s.store.trace) (hs : Spare s) :
    (∀ p, ¬ Stops s p (.panic "too big a transaction")) ∧
    ∀ w b d pid L j, ctl c.start (s.store.trace.take w) = some (.commit pid L j) → j < L.length →
      s.store.trace[w]? = some (.write b d) → InLog c.start c.size b := by
  have hinv := sysInv_reach hN hc h
  have ⟨ℓ, ⟨V, pins, _, hL⟩, _⟩ := hinv
  have hlog := LOGSIZE_eq
  have hM : MAXOPBLOCKS = 10 := rfl
  refine ⟨fun p hstop => ?_, fun w b d pid L j hw hj hb => ?_⟩
  · obtain ⟨β, x, k, st, htodo, hx⟩ := hstop
    obtain ⟨a, f, hacts⟩ := acts_of_reach h htodo
    rcases known_of_acts hacts with hplain | htest
    · exact wp_error (hplain _) hx rfl
    · cases htest with
      | mk i =>
        have hst : st = view p s.store := wp_error (logWriteTest_spec i _) hx
        obtain ⟨k', hctl, hbl, hfull⟩ := full_of_stuck (stuck_of_error hinv htodo hx) rfl
        rw [hst] at hctl hbl hfull
        have hl := ledger_of_ctl hctl hL.told.admits hm
        have hroom := hl.room
        have hfair := hl.fair
        rw [hbl, blocks_length] at hroom hfair
        simp only [view] at hroom hfair hfull
        rcases hs p ⟨i, k, htodo⟩ with hthree | htwo
        · rw [hM] at hfair
          omega
        · omega
  · have hpre : s.store.trace.take w ++ [.write b d] <+: s.store.trace := by
      obtain ⟨hlt, hget⟩ := List.getElem?_eq_some_iff.mp hb
      rw [← hget, List.take_append_getElem]
      exact List.take_prefix ..
    have hslot := hL.told.slots ⟨hW, by rw [hsize]⟩ _ _ hpre
    exact (hslot pid L j L[j] hw (List.getElem?_eq_getElem hj)).1

/-- Three operations have logged nine blocks each, and the third logs one of them again. -/
theorem log_has_room_nine : ∃ s, Reach mkfsConf (0 : Fin 3) s ∧ Always Modest s.store.trace ∧
    begun s.store.trace = 3 ∧ reserved s.store.trace = 3 ∧ AtTest s 2 ∧ Spare s ∧
    ¬ Stops s 2 (.panic "too big a transaction") := by
  obtain ⟨s, hs, hm, hf⟩ := nine_reach
  simp only [Prod.mk.injEq] at hf
  obtain ⟨hthree, hleft⟩ := hf
  have hspare : Spare (logging s 2 27) := fun _ _ => .inr (by
    show 2 ≤ reserved s.store.trace
    omega)
  refine ⟨_, hs, hm, hthree, hleft, ⟨27, _, logging_todo s 2 27⟩, hspare, ?_⟩
  exact (log_has_room (by decide) clean_mkfsConf rfl good_mkfsConf.1 hs hm hspare).1 2

/-- **`log_write` refuses an operation that keeps to its reservation.** Three processes are
admitted; two log 10 blocks each, the third 9, and then it logs one of these again. -/
theorem log_write_refused : ∃ s : Sys 3, Reach mkfsConf (0 : Fin 3) s ∧
    Always Modest s.store.trace ∧
    ∃ (p : Fin 3) (i : Fin NBUF), (s.proc p).todo = some (Call.logWrite i).code ∧
      (s.store.bcache.buf i).blockno ∈ loggedBy p s.store.trace ∧
      Stops s p (.panic "too big a transaction") := by
  obtain ⟨s, hs, hm, hf⟩ := ten_reach
  simp only [Prod.mk.injEq, decide_eq_true_eq] at hf
  obtain ⟨hn, hsize, hby⟩ := hf
  -- the header is full
  have hcheck : logWriteCheck (view (2 : Fin 3) s.store).log =
      .error (.panic "too big a transaction") := by
    rw [logWriteCheck, if_pos]
    exact .inr (by simp only [view, hn, hsize]; decide)
  obtain ⟨e, st, hx, rfl⟩ := wp_stop (x := logWriteTest 29) (s := view (2 : Fin 3) s.store)
    (Q := fun _ _ => False) (E := fun e _ => e = .panic "too big a transaction") (by
      unfold logWriteTest
      simp only [wp_bind, wp_get, hcheck, wp_throw]) fun _ _ h => h
  exact ⟨_, hs, hm, 2, 29, logging_todo s 2 29, hby, Unit, logWriteTest 29, _, st, logging_todo s 2 29, hx⟩

end Xv6.Admission
