import Xv6.Share.Commit

/-!
`begin_op`, `log_write` and `end_op` among other processes.

An operation joins the group when `begin_op` admits it and leaves it in `end_op`; what
`log_write` appends stays in the header until the last operation of the group has left and
its process has committed.
-/

namespace Xv6.Share

open Lib.Wp Lib.Conc Bio LogState Io Protocol Machine Redo Function

variable {N : ℕ} {c : Conf} {p : Fin N} {l : Local} {m : Com} {k : ℕ} {i : Fin NBUF} {b : ℕ}
  {φ : Phase}

/-! ### Operations join and leave -/

section Ops

variable {lg : Log} {r : Fin N → Role} {S : Finset ℕ} {C : List ℕ}

/-- One process changes its role, and the group at most by that process. -/
lemma OpsOk.put {lg' : Log} {r' : Role} {S' : Finset ℕ} {C' : List ℕ} (h : OpsOk lg r S C)
    (hout : lg'.outstanding = S'.card) (hself : p.val ∈ S' ↔ r'.op = true)
    (hother : ∀ q, q ≠ p.val → (q ∈ S' ↔ q ∈ S))
    (hchk : ∀ b, r'.chk = some b → r'.op = true ∧ b ∈ C') (hC : ∀ b ∈ C, b ∈ C')
    (hsub : ∀ b ∈ lg'.lh.blocks, b ∈ C') : OpsOk lg' (update r p r') S' C' := by
  refine ⟨hout, fun q => ?_, fun q hq => ?_, fun q b hq => ?_, hsub⟩
  · by_cases hqp : q = p
    · rw [hqp, update_self, hself]
    · rw [update_of_ne hqp, hother _ fun e => hqp (Fin.ext e), h.mem q]
  · by_cases hqp : q = p.val
    · rw [hqp]
      exact p.isLt
    · exact h.lt q ((hother q hqp).mp hq)
  · by_cases hqp : q = p
    · rw [hqp, update_self] at hq ⊢
      exact hchk b hq
    · rw [update_of_ne hqp] at hq ⊢
      exact (h.chk q b hq).imp_right (hC b)

lemma OpsOk.insert (h : OpsOk lg r S C) (hp : (r p).op = false) (hchk : (r p).chk = none) :
    p.val ∉ S ∧ OpsOk { lg with outstanding := lg.outstanding + 1 }
      (update r p { r p with op := true }) (insert p.val S) C := by
  have hS : p.val ∉ S := fun hm => by
    rw [(h.mem p).mp hm] at hp
    cases hp
  refine ⟨hS, h.put ?_ (by simp) (fun q hq => by simp [hq]) (by simp [hchk]) (fun _ => id) h.sub⟩
  rw [Finset.card_insert_of_notMem hS]
  push_cast
  rw [← h.outstanding]

lemma OpsOk.erase (h : OpsOk lg r S C) (hp : (r p).op = true) (hchk : (r p).chk = none) :
    p.val ∈ S ∧ OpsOk { lg with outstanding := lg.outstanding - 1 }
      (update r p { r p with op := false }) (S.erase p.val) C := by
  have hS : p.val ∈ S := (h.mem p).mpr hp
  refine ⟨hS, h.put ?_ (by simp) (fun q hq => by simp [hq]) (by simp [hchk]) (fun _ => id) h.sub⟩
  have hpos := Finset.card_pos.mpr ⟨_, hS⟩
  rw [Finset.card_erase_of_mem hS, Nat.cast_sub (by omega), h.outstanding]
  rfl

end Ops

/-- The process joins or leaves the group. -/
def Local.withOp (l : Local) (o : Bool) : Local := ⟨l.hands, { l.role with op := o }⟩

/-- The `log_write` of block `b` has passed its tests, or is over. -/
def Local.withChk (l : Local) (o : Option ℕ) : Local := ⟨l.hands, { l.role with chk := o }⟩

/-- A process joins or leaves, or a `log_write` passes its tests: the header stays. -/
lemma Quiet.change {lg : Log} {tr tr' : List Event} {r : Fin N → Role} {pins : List ℕ} {r' : Role}
    {o : ℤ} {S : Finset ℕ} {C : List ℕ} (h : Quiet c lg tr r pins) (hcom : r'.com = (r p).com)
    (hctl : ctl c.start tr' = some (.run S lg.lh.blocks C))
    (hops : OpsOk { lg with outstanding := o } (update r p r') S C) :
    Quiet c { lg with outstanding := o } tr' (update r p r') pins where
  com := fun q => by
    rw [update_proj Role.com hcom]
    exact h.com q
  at_start := h.at_start
  at_size := h.at_size
  dev := h.dev
  committing := h.committing
  nonneg := h.nonneg
  le := h.le
  allowed := h.allowed
  is_pins := h.is_pins
  at_ops := ⟨_, S, C, hctl, rfl, hops⟩

/-- **`begin_op`** sleeps, or the process joins the group. -/
lemma safe_beginOp (hup : l.role.up = true) (hop : l.role.op = false) (hchk : l.role.chk = none) :
    Ok c p (liftM beginOp) (fun _ l' => l' = l.withOp true) l := by
  refine safe_lift ?_
  rintro s ℓ ⟨V, pins, hC, hL⟩ rfl
  unfold beginOp
  simp only [wp_bind, wp_get, view]
  rcases beginOpCs_cases s.log with heq | ⟨hcom, hroom, heq⟩
  · simp only [heq, wp_throw]
    exact Stuck.hang _
  simp only [heq, wp_set]
  rcases hL.mode with hq | ⟨q, m, ho⟩
  · obtain ⟨k, S, C, hctl, hk, hops⟩ := hq.at_ops
    obtain ⟨hS, hops'⟩ := hops.insert (p := p) hop hchk
    have hnext : ctl c.start (s.trace ++ [.began p.val]) =
        some (.run (insert p.val S) s.log.lh.blocks C) := by
      rw [ctl_snoc hctl, next_of_ops hk _ (by simp), opNext, if_neg hS]
    have hadm : Admits c.start s.trace (.began p.val) := by
      intro k' S' L' C' hctl' hk'
      rw [hctl, Option.some.injEq] at hctl'
      subst hctl'
      rw [hk] at hk'
      cases hk'
      have hM : MAXOPBLOCKS = 10 := rfl
      rw [hops.outstanding, hM] at hroom
      rw [blocks_length, hM]
      have := hq.nonneg
      omega
    exact ⟨_, inv_role hC ⟨.inl (hq.change (by rfl) hnext hops'),
      hL.told.snoc (by simp) (fun _ _ _ => rfl) (fun _ => trivial) hadm⟩, rfl⟩
  · -- a committer keeps `committing` set, and during the boot the process does not run
    have hb : m.boot = true := by
      have := ho.committing
      rw [hcom] at this
      simpa using this.symm
    have hdown := ho.down hb p
    simp only [comp_apply, hup] at hdown
    cases hdown

/-- The first critical section of **`end_op`**: the process leaves the group, and when it
was the last it has all of the log. -/
lemma safe_endOpFirst (hop : l.role.op = true) (hchk : l.role.chk = none) :
    Ok c p (liftM endOpFirst) (fun last l' =>
      if last then ∃ m, l' = (l.withOp false).withCom m ∧ Full c p m 0 else l' = l.withOp false) l := by
  refine safe_lift ?_
  rintro s ℓ ⟨V, pins, hC, hL⟩ rfl
  have hq := hL.quiet hop
  obtain ⟨k, S, C, hctl, hk, hops⟩ := hq.at_ops
  obtain ⟨hS, hops'⟩ := hops.erase (p := p) hop hchk
  have hcard : s.log.outstanding = 1 ↔ S = {p.val} := by
    rw [hops.outstanding]
    constructor
    · intro h
      obtain ⟨a, ha⟩ := Finset.card_eq_one.mp (by exact_mod_cast h : S.card = 1)
      rw [ha, Finset.mem_singleton] at hS
      rw [ha, hS]
    · rintro rfl; simp
  unfold endOpFirst
  simp only [wp_bind, wp_get, view]
  rcases endOpCs_cases hq.committing with ⟨hone, heq⟩ | ⟨hone, heq⟩
  · simp only [heq, wp_bind, wp_set, wp_pure, if_true]
    have hSp := hcard.mp hone
    have hnext : ctl c.start (s.trace ++ [.ended p.val true]) =
        some (.commit p.val s.log.lh.blocks 0) := by
      rw [ctl_snoc hctl, next_of_ops hk _ (by simp), opNext, if_pos hSp]
    have hrole : ∀ q, (update (Local.role ∘ ℓ) p { (ℓ p).role with op := false } q).op =
        false := fun q => by
      by_contra hne
      have := (hops'.mem q).mpr (by simpa using hne)
      simp [hSp] at this
    let m : Com := ⟨{ s.log with outstanding := 0, committing := true }, V, pins,
      s.trace ++ [.ended p.val true], false⟩
    have hO : Owned c m.log m.trace (update (Local.role ∘ ℓ) p
        { (ℓ p).role with op := false, com := some m }) V pins p m := by
      constructor
      case com => simp
      case others => intro q hqp; rw [update_of_ne hqp]; exact hq.com q
      case noop =>
        intro q
        have := hrole q
        by_cases hqp : q = p
        · subst hqp; simp
        · rwa [update_of_ne hqp] at this ⊢
      case nochk =>
        intro q
        by_contra hne
        obtain ⟨b, hb⟩ := Option.ne_none_iff_exists'.mp hne
        by_cases hqp : q = p
        · subst hqp
          rw [update_self] at hb
          rw [hchk] at hb
          cases hb
        · rw [update_of_ne hqp] at hb
          have h1 := (hops.chk q b hb).1
          have h2 := hrole q
          rw [update_of_ne hqp, h1] at h2
          cases h2
      case is_log => rfl
      case is_V => rfl
      case is_pins => rfl
      case is_trace => rfl
      case outstanding => rfl
      case committing => rfl
      case down => intro hb; cases hb
      case at_ctl => exact ctlOk_commit rfl hnext
      case drop => exact ⟨0, fun _ => rfl, hq.is_pins⟩
    refine ⟨_, inv_role hC ⟨.inr ⟨p, m, hO⟩, hL.told.snoc (by simp) (fun _ _ _ => rfl) (fun _ => trivial) trivial⟩, m, rfl, ?_⟩
    exact ⟨rfl, hq.at_start, hq.at_size, hq.dev, hq.nonneg, hq.le, hq.allowed, hq.is_pins, hnext⟩
  · simp only [heq, wp_bind, wp_set, wp_pure, Bool.false_eq_true, if_false]
    have hnext : ctl c.start (s.trace ++ [.ended p.val false]) =
        some (.run (S.erase p.val) s.log.lh.blocks C) := by
      rw [ctl_snoc hctl, next_of_ops hk _ (by simp), opNext,
        if_pos ⟨hS, fun h => hone (hcard.mpr h)⟩]
    exact ⟨_, inv_role hC ⟨.inl (hq.change (by rfl) hnext hops'), hL.told.snoc (by simp) (fun _ _ _ => rfl) (fun _ => trivial) trivial⟩, rfl⟩

/-- The second critical section of **`end_op`**: the committer gives the log back. -/
lemma safe_endOpLast {L : List ℕ} (hm : l.role.com = some m)
    (hstart : m.log.start = c.start) (hsize : m.log.size = c.size) (hdev : m.log.dev = ROOTDEV)
    (hn : m.log.lh.n = 0) (hpins : m.pins = [])
    (hctl : ctl c.start m.trace = some (.commit p L (writes L))) :
    Ok c p (liftM endOpLast) (fun _ l' => l' = ⟨l.hands, { l.role with com := none }⟩) l := by
  refine safe_lift ?_
  rintro s ℓ ⟨V, pins, hC, hL⟩ rfl
  have ho := hL.owned hm
  have hblocks : s.log.lh.blocks = [] := by
    rw [← ho.is_log, LogHeader.blocks, hn]; rfl
  have hnext : ctl c.start (s.trace ++ [.committed p.val]) = some (.run ∅ [] []) := by
    rw [ho.is_trace] at hctl
    rw [ctl_snoc hctl, next, if_pos ⟨rfl, rfl⟩]
  have hfield : ∀ q, (update (Local.role ∘ ℓ) p { (ℓ p).role with com := none } q).com =
      none ∧ (update (Local.role ∘ ℓ) p { (ℓ p).role with com := none } q).op = false ∧
      (update (Local.role ∘ ℓ) p { (ℓ p).role with com := none } q).chk = none := by
    intro q
    by_cases hq : q = p
    · subst hq
      rw [update_self]
      exact ⟨rfl, ho.noop q, ho.nochk q⟩
    · rw [update_of_ne hq]
      exact ⟨ho.others q hq, ho.noop q, ho.nochk q⟩
  simp only [endOpLast, wp_modify, view]
  refine ⟨_, inv_role hC ⟨.inl ?_, hL.told.snoc (by simp) (fun _ _ _ => rfl) (fun _ => trivial) trivial⟩, rfl⟩
  rw [ho.is_log] at hstart hsize hdev hn
  constructor
  case com => exact fun q => (hfield q).1
  case at_start => exact hstart
  case at_size => exact hsize
  case dev => exact hdev
  case committing => rfl
  case nonneg => exact hn.ge
  case le => exact hn.le.trans (Int.natCast_nonneg _)
  case allowed =>
    intro b hb
    rw [show LogHeader.blocks _ = [] from hblocks] at hb
    cases hb
  case is_pins => rw [← ho.is_pins, hpins]; exact hblocks.symm
  case at_ops =>
    refine ⟨_, ∅, [], hnext, by rw [show LogHeader.blocks _ = [] from hblocks]; rfl, ?_⟩
    constructor
    case outstanding => simpa using ho.outstanding
    case mem => intro q; rw [(hfield q).2.1]; simp
    case lt => intro q hq; simp at hq
    case chk => intro q b hq; rw [(hfield q).2.2] at hq; cases hq
    case sub => intro b hb; rw [show LogHeader.blocks _ = [] from hblocks] at hb; cases hb

/-- **`end_op`**: the process leaves, and commits when it was the last. -/
lemma safe_endOp (hN : 3 * N + 1 < 2 ^ 32) (hop : l.role.op = true) (hchk : l.role.chk = none)
    (hcom : l.role.com = none) (hw : l.hands.want = none) (hg : l.hands.gone = none) :
    Ok c p endOp (fun _ l' => l' = l.withOp false) l := by
  unfold endOp
  refine Safe.bind (safe_endOpFirst hop hchk) ?_
  intro last l' hl'
  cases last with
  | false => exact safe_doIf (fun h => by cases h) (fun _ => hl')
  | true =>
    obtain ⟨m, rfl, hm⟩ := hl'
    refine safe_doIf (fun _ => ?_) (fun h => absurd rfl h)
    refine Safe.bind (safe_commit hN ⟨hw, hg, withCom_com _ _, hm.dev⟩ hm) ?_
    rintro _ _ ⟨V, tr, rfl, hctl⟩
    refine Safe.mono (safe_endOpLast (withCom_com _ _) hm.at_start hm.at_size hm.dev rfl rfl hctl) ?_
    rintro _ _ rfl
    simp only [Local.withOp, Local.withCom, hcom]

/-! ### `log_write` -/

/-- The tests of `log_write` stop the machine when the header is full, and else let the
process go on. -/
lemma safe_logWriteTest (hop : l.role.op = true) (hst : l.hands.st i = some (b, φ)) :
    Ok c p (liftM (logWriteTest i)) (fun _ l' => l' = l.withChk (some b)) l := by
  refine safe_lift ?_
  rintro s ℓ ⟨V, pins, hC, hL⟩ rfl
  have hq := hL.quiet hop
  obtain ⟨k, S, C, hctl, hk, hops⟩ := hq.at_ops
  have hS : p.val ∈ S := (hops.mem p).mpr hop
  have hpos := Finset.card_pos.mpr ⟨_, hS⟩
  have hout := hops.outstanding
  unfold logWriteTest
  simp only [wp_bind, wp_get, view, logWriteCheck, (hC.held p i b φ hst).1.2]
  split
  · rename_i e heq
    rw [wp_throw]
    split at heq
    · cases heq
      exact Stuck.tooBig _ hctl hk hq.at_size ‹_ ∨ _›
    · rw [if_neg (by omega)] at heq
      cases heq
  · simp only [wp_set]
    have hnext : ctl c.start (s.trace ++ [.checked p.val b]) =
        some (.run S s.log.lh.blocks (addNew C b)) := by
      rw [ctl_snoc hctl, next_of_ops hk _ (by simp), opNext, if_pos hS]
    refine ⟨_, inv_role hC ⟨.inl (hq.change (o := s.log.outstanding) (by rfl) hnext ?_),
      hL.told.snoc (by simp) (fun _ _ _ => rfl) (fun _ => trivial) trivial⟩, rfl⟩
    refine hops.put hout (hops.mem p) (fun _ _ => Iff.rfl) ?_ (fun b' hb' => mem_addNew.mpr (.inl hb'))
      fun b' hb' => mem_addNew.mpr (.inl (hops.sub b' hb'))
    rintro b' ⟨⟩
    exact ⟨hop, mem_addNew.mpr (.inr rfl)⟩

/-- The critical section of `log_write` records the contents of the buffer, and pins the
block unless the header has it already. -/
lemma safe_logWriteLocked (hop : l.role.op = true) (hchk : l.role.chk = some b)
    (hst : l.hands.st i = some (b, φ)) (hraw : φ ≠ .raw) (hW : c.W b) (hb : b < 2 ^ 32) :
    Ok c p (liftM (logWriteLocked i)) (fun _ l' =>
      l' = (l.withHands (l.hands.hold i b .clean)).withChk none) l := by
  refine safe_lift ?_
  rintro s ℓ ⟨V, pins, hC, hL⟩ rfl
  have hq := hL.quiet hop
  obtain ⟨k, S, C, hctl, hk, hops⟩ := hq.at_ops
  have hS : p.val ∈ S := (hops.mem p).mpr hop
  have hbC : b ∈ C := (hops.chk p b hchk).2
  obtain ⟨hi, hok⟩ := hC.held p i b φ hst
  have hv := valid_of_ok hok hraw
  have htold : Told c (s.trace ++ [.logged p.val b (s.bcache.buf i).data])
      (update V b (s.bcache.buf i).data) := by
    refine ⟨fun q e d hm => ?_, fun hg e he => ?_, fun hg => always_snoc.mpr ⟨hL.told.slots hg, trivial⟩,
      always_snoc.mpr ⟨hL.told.admits, trivial⟩⟩
    · rcases List.mem_append.mp hm with hm | hm
      · exact hL.told.allowed q e d hm
      · cases List.mem_singleton.mp hm
        exact hW
    · rw [latest_snoc]
      by_cases heb : e = b
      · subst heb; simp only [update_self]
      · simp only [update_of_ne heb]
        exact hL.told.latest hg e he
  have hnext : ctl c.start (s.trace ++ [.logged p.val b (s.bcache.buf i).data]) =
      some (.run S (addNew s.log.lh.blocks b) C) := by
    rw [ctl_snoc hctl, next_of_ops hk _ (by simp), opNext, if_pos ⟨hS, hbC⟩]
  have hrole : ∀ lh' : LogHeader, (∀ e ∈ lh'.blocks, e ∈ C) → OpsOk { s.log with lh := lh' }
      (update (Local.role ∘ ℓ) p { (ℓ p).role with chk := none }) S C := fun lh' hsub =>
    hops.put hops.outstanding (hops.mem p) (fun _ _ => Iff.rfl) (by rintro b' ⟨⟩) (fun _ => id) hsub
  have hcom : ∀ q, (update (Local.role ∘ ℓ) p { (ℓ p).role with chk := none } q).com =
      none := by
    intro q
    rw [update_proj Role.com]
    · exact hq.com q
    · rfl
  unfold logWriteLocked
  simp only [wp_bind, wp_get, view, hi.2]
  rcases logWriteCs_cases hq.nonneg hq.le b with ⟨hmem, heq⟩ | ⟨hnew, hlt, l', heq, rfl, hbl⟩ |
    ⟨-, -, heq⟩
  · simp only [heq, wp_set, Bool.false_eq_true, if_false]
    rw [addNew, if_pos hmem] at hnext
    refine ⟨_, inv_both (hC.absorb (p := p) hst hv (by rw [hq.is_pins]; exact hmem))
      ⟨.inl ?_, htold⟩, rfl⟩
    exact ⟨hcom, hq.at_start, hq.at_size, hq.dev, hq.committing, hq.nonneg, hq.le, hq.allowed,
      hq.is_pins, _, S, C, hnext, rfl, hrole s.log.lh hops.sub⟩
  · simp only [heq, wp_set, if_true]
    rw [addNew, if_neg hnew, ← hbl] at hnext
    refine ⟨_, inv_both (hC.pin (p := p) hst hv (by rw [hq.is_pins]; exact hnew))
      ⟨.inl ?_, htold⟩, rfl⟩
    have hmem : ∀ e ∈ s.log.lh.blocks ++ [b], e ∈ s.log.lh.blocks ∨ e = b := by simp
    refine ⟨hcom, hq.at_start, hq.at_size, hq.dev, hq.committing, ?_, ?_, fun e he => ?_, ?_, _, S, C,
      hnext, rfl, hrole _ fun e he => ?_⟩
    · have := hq.nonneg
      show 0 ≤ s.log.lh.n + 1
      omega
    · show s.log.lh.n + 1 ≤ LOGSIZE
      omega
    · rw [hbl] at he
      rcases hmem e he with he | rfl
      · exact hq.allowed e he
      · exact ⟨hW, hb⟩
    · rw [hbl, hq.is_pins]
    · rw [hbl] at he
      rcases hmem e he with he | rfl
      · exact hops.sub e he
      · exact hbC
  · simp only [heq, wp_throw]
    exact Stuck.undefined _

/-- **`log_write`** makes the contents of the buffer those of its block. -/
lemma safe_logWrite (hop : l.role.op = true) (hst : l.hands.st i = some (b, φ))
    (hchk : l.role.chk = none) (hraw : φ ≠ .raw) (hW : c.W b) (hb : b < 2 ^ 32) :
    Ok c p (logWrite i) (fun _ l' => l' = l.withHands (l.hands.hold i b .clean)) l := by
  unfold logWrite
  refine Safe.bind (safe_logWriteTest hop hst) ?_
  rintro _ _ rfl
  refine Safe.mono (safe_logWriteLocked (l := l.withChk (some b)) hop rfl hst hraw hW hb) ?_
  rintro _ _ rfl
  simp only [Local.withChk, Local.withHands, ← hchk]

end Xv6.Share
