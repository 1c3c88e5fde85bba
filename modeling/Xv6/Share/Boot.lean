import Xv6.Share.Client

/-!
The boot: one process runs `initlog` while no other process uses the log.

The disk has no transaction to install, so recovery only writes an empty header; then the
log is given to all processes.
-/

namespace Xv6.Share

open Lib.Wp Lib.Bytes Lib.Conc Bio LogState Io Protocol Machine Redo

variable {N : ℕ} {c : Conf} {p : Fin N} {l : Local} {m : Com} {i : Fin NBUF} {b : ℕ}

/-- Recovery has nothing to install. -/
def Clean (c : Conf) : Prop := headN (c.disk c.start) ≤ 0

lemma clean_mkfsConf : Clean mkfsConf := by
  simp [Clean, mkfsConf, headN, le_zeroes, toInt32]

lemma good_mkfsConf : Good mkfsConf := by
  refine ⟨fun b (hb : 46 ≤ b) hin => ?_, by decide⟩
  have := hin.2
  simp only [mkfsConf, LOGSIZE, MAXOPBLOCKS] at this
  omega

lemma safe_setArea (hm : l.role.com = some m) (dev start size : ℕ) :
    Ok c p (liftM (setArea dev start size)) (fun _ l' => l' = l.withCom
        { m with log := { m.log with start := start, size := size, dev := dev } }) l := by
  refine safe_lift ?_
  rintro s ℓ ⟨V, pins, hC, hL⟩ rfl
  have ho := hL.owned hm
  simp only [setArea, wp_modify, view]
  have hO := ho.change { s.log with start := start, size := size, dev := dev } s.trace V pins
    ho.outstanding ho.committing ho.at_ctl ho.drop
  refine ⟨_, inv_role hC ⟨.inr ⟨p, _, hO⟩, hL.told⟩, ?_⟩
  simp only [Local.withCom, ho.is_log, ho.is_V, ho.is_trace, ho.is_pins]
  rfl

lemma safe_takeHead (hm : l.role.com = some m) (hst : l.hands.st i = some (b, .clean))
    (hpins : m.pins = []) (hn : headN (m.V b) ≤ 0) :
    Ok c p (liftM (takeHead i)) (fun _ l' => ∃ block, l' = l.withCom
      { m with log := { m.log with lh := ⟨headN (m.V b), block⟩ } }) l := by
  refine safe_lift ?_
  rintro s ℓ ⟨V, pins, hC, hL⟩ rfl
  have ho := hL.owned hm
  have hdata : (s.bcache.buf i).data = V b :=
    hC.data_eq hst (by simp) (hC.held p i b _ hst).2
  unfold takeHead data
  simp only [wp_bind, wp_get, wp_pure, wp_throwIf, wp_modify, view, hdata]
  refine ⟨fun _ => Stuck.undefined _, fun _ => ?_⟩
  let lh : LogHeader := ⟨headN (V b),
    fun i => if i < (headN (V b)).toNat then headBlock (V b) i else s.log.lh.block i⟩
  have hnil : lh.blocks = [] := by
    rw [ho.is_V] at hn
    rw [LogHeader.blocks, show lh.n.toNat = 0 from Int.toNat_of_nonpos hn]
    rfl
  have hO := ho.change { s.log with lh := lh } s.trace V pins ho.outstanding ho.committing ho.at_ctl
    ⟨0, fun _ => rfl, by rw [← ho.is_pins, hpins, hnil]; rfl⟩
  refine ⟨_, inv_role hC ⟨.inr ⟨p, _, hO⟩, hL.told⟩, lh.block, ?_⟩
  simp only [Local.withCom, ho.is_log, ho.is_V, ho.is_trace, ho.is_pins]
  rfl

/-- The log at the end of the boot. -/
structure Empty (c : Conf) (m : Com) : Prop where
  boot : m.boot = true
  at_start : m.log.start = c.start
  at_size : m.log.size = c.size
  dev : m.log.dev = ROOTDEV
  n : m.log.lh.n = 0
  pins : m.pins = []
  at_ctl : ctl c.start m.trace = some .boot

/-- **The boot**, when there is no transaction to install. -/
lemma safe_initlog (hN : 3 * N + 1 < 2 ^ 32) (hclean : Clean c) (hw : l.hands.want = none)
    (hg : l.hands.gone = none) (hm : l.role.com = some m) (hboot : m.boot = true)
    (hV : m.V = c.disk) (hpins : m.pins = []) (htr : m.trace = []) :
    Ok c p (initlog ROOTDEV c.start c.size) (fun _ l' => ∃ m', l' = l.withCom m' ∧ Empty c m') l := by
  unfold initlog recoverFromLog readHead
  refine Safe.bind (safe_setArea hm ROOTDEV c.start c.size) ?_
  rintro _ _ rfl
  refine Safe.bind (Q := fun _ l' => ∃ block, l' = l.withCom { m with log := { m.log with
    start := c.start, size := c.size, dev := ROOTDEV, lh := ⟨headN (c.disk c.start), block⟩ } }) ?_ ?_
  · refine Safe.bind_read (safe_getLog (withCom_com _ _)) ?_
    rintro _ rfl
    refine Safe.bind (safe_bread hN (by exact hw) _) ?_
    rintro buf _ ⟨hbuf, rfl, -⟩
    refine Safe.bind (safe_takeHead (b := c.start) (by rfl) (by simp) (by exact hpins)
      (by simp only [hV]; exact hclean)) ?_
    rintro _ _ ⟨block, rfl⟩
    refine Safe.mono (safe_brelse (b := c.start) (φ := .clean) (by simp) (by simp) (by exact hg)) ?_
    rintro _ _ rfl
    have hdrop : (l.hands.hold buf c.start .clean).drop buf = l.hands := Hands.drop_hold hbuf _ _
    refine ⟨block, ?_⟩
    simp only [withCom_hands, withHands_hands, hdrop, hV]
    rfl
  rintro _ _ ⟨block, rfl⟩
  have hz : (headN (c.disk c.start)).toNat = 0 := by
    unfold Clean at hclean
    omega
  refine Safe.bind (Q := fun _ l' => l' = l.withCom { m with log := { m.log with
    start := c.start, size := c.size, dev := ROOTDEV, lh := ⟨headN (c.disk c.start), block⟩ } }) ?_ ?_
  · unfold installTrans
    refine safe_forUp (n := 0) (fun _ l' => l' = l.withCom { m with log := { m.log with
      start := c.start, size := c.size, dev := ROOTDEV, lh := ⟨headN (c.disk c.start), block⟩ } })
      (Nat.zero_le _) (by omega) rfl ?_ (fun j _ hj => absurd hj (by omega))
    rintro j _ rfl
    exact safe_lhMore (withCom_com _ _) j hz
  rintro _ _ rfl
  refine Safe.bind (safe_clearHead (withCom_com _ _) hpins) ?_
  simp only [withCom_withCom]
  rintro _ _ rfl
  let m' : Com := ⟨{ m.log with start := c.start, size := c.size, dev := ROOTDEV, lh := ⟨0, block⟩ },
    m.V, m.pins, m.trace, m.boot⟩
  have h0 : ctl c.start m'.trace = some .boot := by
    simp only [m', htr]
    rfl
  have hctl : ctl c.start (m'.trace ++ [.write m'.log.start (putHead (m'.V m'.log.start) m'.log.lh)]) =
      some .boot := by
    have hnil : headBlocks (putHead (m.V c.start) ⟨0, block⟩) = [] := by
      rw [headBlocks_putHead _ (le_refl 0) (Int.natCast_nonneg _)] <;> simp [LogHeader.blocks]
    rw [ctl_snoc h0, next, if_neg fun h => h.2 hnil]
  refine Safe.mono (safe_writeHead (l := l.withCom m') hN ⟨hw, hg, rfl, rfl⟩ rfl ?_ inLog_start
    fun _ q L j b hq _ => by rw [h0] at hq; cases hq) ?_
  · unfold Com.CtlOk
    rw [if_pos (by exact hboot)]
    exact hctl
  · simp only [withCom_withCom]
    rintro _ _ rfl
    exact ⟨_, rfl, hboot, rfl, rfl, rfl, rfl, hpins, hctl⟩

/-- A process that has nothing to do with the log, the boot being over. -/
def Role.idle : Role := ⟨true, false, none, none⟩

lemma inv_up {s : Store} {ℓ : Fin N → Local} (h : Inv c s ℓ) (hm : (ℓ p).role.com = some m)
    (he : Empty c m) : Inv c s (fun q => ⟨(ℓ q).hands, Role.idle⟩) := by
  obtain ⟨V, pins, hC, hL⟩ := h
  have ho := hL.owned hm
  have hlog := ho.is_log
  have hblocks : s.log.lh.blocks = [] := by
    rw [← hlog, LogHeader.blocks, he.n]; rfl
  refine ⟨V, pins, hC, .inl ?_, hL.told⟩
  constructor
  case com => exact fun _ => rfl
  case at_start => rw [← hlog]; exact he.at_start
  case at_size => rw [← hlog]; exact he.at_size
  case dev => rw [← hlog]; exact he.dev
  case committing => rw [ho.committing, he.boot]; rfl
  case nonneg => rw [← hlog, he.n]
  case le => rw [← hlog, he.n]; exact Int.natCast_nonneg _
  case allowed => intro b hb; rw [hblocks] at hb; cases hb
  case is_pins => rw [← ho.is_pins, he.pins, hblocks]
  case at_ops =>
    refine ⟨.boot, ∅, [], by rw [← ho.is_trace]; exact he.at_ctl, by rw [hblocks]; rfl, ?_⟩
    constructor
    case outstanding => simpa using ho.outstanding
    case mem => intro q; simp [Role.idle]
    case lt => intro q hq; simp at hq
    case chk => intro q b hq; simp [Role.idle] at hq
    case sub => intro b hb; rw [hblocks] at hb; cases hb

end Xv6.Share
