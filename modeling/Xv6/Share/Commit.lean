import Xv6.Share.Action

/-!
`commit` among other processes.

The process that commits makes exactly the planned writes, in order, and ends with an empty
header and nothing pinned. When processes log only blocks outside the log, every block
outside the log reads the same all the time.
-/

namespace Xv6.Share

open Lib.Wp Lib.Conc Bio LogState Io Protocol Machine Redo Function

variable {N : ℕ} {c : Conf} {p : Fin N} {l : Local} {m : Com} {k : ℕ}

/-- The committer between calls of `bread` and `brelse`. -/
structure Ready (l : Local) (m : Com) : Prop where
  want : l.hands.want = none
  gone : l.hands.gone = none
  com : l.role.com = some m
  dev : m.log.dev = ROOTDEV

lemma Ready.withCom (h : Ready l m) {m' : Com} (hd : m'.log.dev = ROOTDEV) :
    Ready (l.withCom m') m' := ⟨h.want, h.gone, rfl, hd⟩

lemma drop_pair {h : Hands} {i j : Fin NBUF} (hi : h.st i = none) (hj : h.st j = none)
    (hij : i ≠ j) (b e : ℕ) (ph ph' : Phase) :
    (((h.hold i b ph).hold j e ph').drop j).drop i = h := by
  rw [Hands.drop_hold, Hands.drop_hold hi]
  rw [Hands.hold_st_of_ne _ _ _ hij.symm]; exact hj

lemma safe_writeLogBody (hN : 3 * N + 1 < 2 ^ 32) (hr : Ready l m) (hk : k < LOGSIZE)
    (hctl : m.CtlOk c p (m.trace ++ [.write (m.log.start + k + 1) (m.V (m.log.lh.block k))]))
    (hin : Good c → InLog c.start c.size (m.log.start + k + 1))
    (hslot : m.SlotOk c (m.log.start + k + 1) (m.V (m.log.lh.block k))) :
    Ok c p (writeLogBody k) (fun _ l' => Room l (m.log.start + k + 1) ∧ l' = l.withCom
      { m with V := update m.V (m.log.start + k + 1) (m.V (m.log.lh.block k))
               trace := m.trace ++ [.write (m.log.start + k + 1) (m.V (m.log.lh.block k))] }) l := by
  unfold writeLogBody
  refine Safe.bind_read (safe_getLog hr.com) ?_
  rintro _ rfl
  rw [hr.dev]
  refine Safe.bind (safe_bread hN hr.want _) ?_
  rintro dst _ ⟨hdst, rfl, hroom⟩
  refine Safe.bind_read (safe_lhBlock (m := m) (by exact hr.com) hk) ?_
  rintro _ rfl
  refine Safe.bind (safe_bread hN (by exact hr.want) _) ?_
  rintro src _ ⟨hsrc, rfl, -⟩
  simp only [withHands_withHands, withHands_hands] at hsrc ⊢
  have hne : src ≠ dst := fun e => by
    rw [e, Hands.hold_st_self] at hsrc
    cases hsrc
  rw [Hands.hold_st_of_ne _ _ _ hne] at hsrc
  refine Safe.bind (safe_memmove (m := m) (b := m.log.start + k + 1) (e := m.log.lh.block k)
    (by exact hr.com) ?_ ?_) ?_
  · simp [Hands.hold_st_of_ne _ _ _ hne.symm]
  · simp
  rintro _ _ rfl
  refine Safe.bind (safe_bwrite (m := m) (i := dst) (by exact hr.com) (by simp) hctl
    (fun hg hout => absurd (hin hg) hout) hslot) ?_
  rintro _ _ rfl
  refine Safe.bind (safe_brelse (i := src) (b := m.log.lh.block k) (φ := .clean) ?_ (by simp)
    (by exact hr.gone)) ?_
  · simp [Hands.hold_st_of_ne _ _ _ hne]
  rintro _ _ rfl
  refine Safe.mono (safe_brelse (i := dst) (b := m.log.start + k + 1) (φ := .synced) ?_ (by simp)
    (by exact hr.gone)) ?_
  · simp [Hands.drop_st_of_ne _ hne.symm]
  rintro _ _ rfl
  refine ⟨hroom, ?_⟩
  simp only [withHands_withHands, withHands_hands, withCom_withHands, withCom_hands,
    Hands.hold_hold]
  rw [Hands.hold_comm _ hne.symm, Hands.hold_hold, Hands.hold_comm _ hne,
    drop_pair hdst hsrc hne.symm, withHands_self]

lemma safe_installBody (hN : 3 * N + 1 < 2 ^ 32) (hr : Ready l m) (hk : k < LOGSIZE)
    {rest : List ℕ} (hpins : m.pins = m.log.lh.block k :: rest)
    (hdrop : ∃ j, rest = m.log.lh.blocks.drop j) (hboot : m.boot = false)
    (hctl : m.CtlOk c p (m.trace ++ [.write (m.log.lh.block k) (m.V (m.log.start + k + 1))]))
    (hhome : Good c → m.V (m.log.lh.block k) = m.V (m.log.start + k + 1))
    (hslot : m.SlotOk c (m.log.lh.block k) (m.V (m.log.start + k + 1))) :
    Ok c p (installBody k) (fun _ l' => l' = l.withCom
      { m with V := update m.V (m.log.lh.block k) (m.V (m.log.start + k + 1))
               pins := rest
               trace := m.trace ++ [.write (m.log.lh.block k) (m.V (m.log.start + k + 1))] }) l := by
  unfold installBody
  refine Safe.bind_read (safe_getLog hr.com) ?_
  rintro _ rfl
  rw [hr.dev]
  refine Safe.bind (safe_bread hN hr.want _) ?_
  rintro lbuf _ ⟨hlbuf, rfl, -⟩
  refine Safe.bind_read (safe_lhBlock (m := m) (by exact hr.com) hk) ?_
  rintro _ rfl
  refine Safe.bind (safe_bread hN (by exact hr.want) _) ?_
  rintro dbuf _ ⟨hdbuf, rfl, -⟩
  simp only [withHands_withHands, withHands_hands] at hdbuf ⊢
  have hne : dbuf ≠ lbuf := fun e => by
    rw [e, Hands.hold_st_self] at hdbuf
    cases hdbuf
  rw [Hands.hold_st_of_ne _ _ _ hne] at hdbuf
  refine Safe.bind (safe_memmove (m := m) (b := m.log.lh.block k) (e := m.log.start + k + 1)
    (by exact hr.com) ?_ ?_) ?_
  · simp
  · simp [Hands.hold_st_of_ne _ _ _ hne.symm]
  rintro _ _ rfl
  refine Safe.bind (safe_bwrite (m := m) (i := dbuf) (by exact hr.com) (by simp) hctl
    (fun hg _ => hhome hg) hslot) ?_
  rintro _ _ rfl
  refine Safe.bind (safe_unpin (i := dbuf) (b := m.log.lh.block k) 
    (withCom_com _ _) (by simp) hpins hdrop hboot) ?_
  rintro _ _ rfl
  refine Safe.bind (safe_brelse (i := lbuf) (b := m.log.start + k + 1) (φ := .clean) ?_ (by simp)
    (by exact hr.gone)) ?_
  · simp [Hands.hold_st_of_ne _ _ _ hne.symm]
  rintro _ _ rfl
  refine Safe.mono (safe_brelse (i := dbuf) (b := m.log.lh.block k) (φ := .synced) ?_ (by simp)
    (by exact hr.gone)) ?_
  · simp [Hands.drop_st_of_ne _ hne]
  rintro _ _ rfl
  simp only [withHands_withHands, withHands_hands, withCom_withHands, withCom_hands,
    withCom_withCom, Hands.hold_hold]
  rw [Hands.hold_comm _ hne.symm, drop_pair hdbuf hlbuf hne, withHands_self]

lemma safe_writeHead (hN : 3 * N + 1 < 2 ^ 32) (hr : Ready l m) {x : Block}
    (hx : x = putHead (m.V m.log.start) m.log.lh)
    (hctl : m.CtlOk c p (m.trace ++ [.write m.log.start x]))
    (hin : Good c → InLog c.start c.size m.log.start) (hslot : m.SlotOk c m.log.start x) :
    Ok c p writeHead (fun _ l' => l' = l.withCom
      { m with V := update m.V m.log.start x
               trace := m.trace ++ [.write m.log.start x] }) l := by
  subst hx
  unfold writeHead
  refine Safe.bind_read (safe_getLog hr.com) ?_
  rintro _ rfl
  rw [hr.dev]
  refine Safe.bind (safe_bread hN hr.want _) ?_
  rintro buf _ ⟨hbuf, rfl, -⟩
  refine Safe.bind (safe_giveHead (m := m) (b := m.log.start) (by exact hr.com) (by simp)) ?_
  rintro _ _ rfl
  refine Safe.bind (safe_bwrite (m := m) (i := buf) (by exact hr.com) (by simp) hctl
    (fun hg hout => absurd (hin hg) hout) hslot) ?_
  rintro _ _ rfl
  refine Safe.mono (safe_brelse (i := buf) (b := m.log.start) (φ := .synced) (by simp) (by simp)
    (by exact hr.gone)) ?_
  rintro _ _ rfl
  simp only [withHands_withHands, withHands_hands, withCom_withHands, withCom_hands,
    Hands.hold_hold, Hands.drop_hold hbuf, withHands_self]

/-! ### The loops -/

/-- The committer has made `k` writes and unpinned nothing. -/
structure Full (c : Conf) (p : ℕ) (m : Com) (k : ℕ) : Prop where
  boot : m.boot = false
  at_start : m.log.start = c.start
  at_size : m.log.size = c.size
  dev : m.log.dev = ROOTDEV
  nonneg : 0 ≤ m.log.lh.n
  le : m.log.lh.n ≤ LOGSIZE
  allowed : ∀ b ∈ m.log.lh.blocks, c.W b ∧ b < 2 ^ 32
  pins : m.pins = m.log.lh.blocks
  at_ctl : ctl c.start m.trace = some (.commit p m.log.lh.blocks k)

lemma Full.fuel (h : Full c p m k) : m.log.lh.n.toNat < 0 + (LOGSIZE + 1) := by
  have := h.le
  omega

lemma Full.lt {j : ℕ} (h : Full c p m k) (hj : j < m.log.lh.n.toNat) : j < LOGSIZE := by
  have := h.le
  omega

lemma Full.home {j : ℕ} (h : Full c p m k) (hg : Good c) (hj : j < m.log.lh.n.toNat) :
    ¬ InLog c.start c.size (m.log.lh.block j) :=
  hg.1 _ (h.allowed _ (block_mem hj)).1

lemma ctlOk_commit {tr : List Event} {L : List ℕ} (hb : m.boot = false)
    (h : ctl c.start tr = some (.commit p L k)) : m.CtlOk c p tr := by
  unfold Com.CtlOk
  rw [if_neg (by simp [hb])]
  exact ⟨L, k, h⟩

lemma ctl_write {tr : List Event} {L : List ℕ} {b : ℕ} {d : Block}
    (h : ctl c.start tr = some (.commit p L k)) (hL : L ≠ []) (hk : k < 2 * L.length + 2)
    (hp : Planned c.start L k b d) :
    ctl c.start (tr ++ [.write b d]) = some (.commit p L (k + 1)) := by
  have hlt : k < writes L := by rw [writes, if_neg hL]; exact hk
  rw [ctl_snoc h, next, if_pos ⟨hlt, hp⟩]

lemma slotOk_of_le {L : List ℕ} {b : ℕ} {x : Block} (h : ctl c.start m.trace = some (.commit p L k))
    (hk : L.length ≤ k) : m.SlotOk c b x := by
  intro _ q L' j e hctl hj
  rw [h] at hctl
  cases hctl
  rw [List.getElem?_eq_none hk] at hj
  cases hj

lemma blocks_ne_nil {lh : LogHeader} (h : k < lh.n.toNat) : lh.blocks ≠ [] := fun e => by
  have := blocks_length lh
  rw [e, List.length_nil] at this
  omega

lemma inLog_slot {n : ℤ} (hg : Good c) (hn : 0 < k → n < c.size) (hk : k < n.toNat) :
    InLog c.start c.size (c.start + k + 1) := by
  have hN := NBUF_eq
  have h2 := hg.2
  by_cases h0 : k = 0
  · exact ⟨by omega, by omega⟩
  · have := hn (by omega)
    exact ⟨by omega, by omega⟩

lemma inLog_start (hg : Good c) : InLog c.start c.size c.start := by
  have hN := NBUF_eq
  have h2 := hg.2
  exact ⟨by omega, by omega⟩

/-- The first `k` slots have the contents of their blocks. -/
def Copied (c : Conf) (lh : LogHeader) (V : Disk) (k : ℕ) : Prop :=
  (0 < k → lh.n < c.size) ∧ ∀ i < k, V (c.start + i + 1) = V (lh.block i)

/-- **`write_log` among other processes.** -/
lemma safe_writeLog (hN : 3 * N + 1 < 2 ^ 32) (hr : Ready l m) (hs : Full c p m 0) :
    Ok c p writeLog (fun _ l' => ∃ V tr, l' = l.withCom { m with V := V, trace := tr } ∧
      ctl c.start tr = some (.commit p m.log.lh.blocks m.log.lh.n.toNat) ∧
      (Good c → Copied c m.log.lh V m.log.lh.n.toNat)) l := by
  unfold writeLog
  refine safe_forUp (n := m.log.lh.n.toNat) (fun k l' => ∃ V tr,
      l' = l.withCom { m with V := V, trace := tr } ∧
      ctl c.start tr = some (.commit p m.log.lh.blocks k) ∧ (Good c → Copied c m.log.lh V k))
    (Nat.zero_le _) hs.fuel ?_ ?_ ?_
  · refine ⟨m.V, m.trace, ?_, hs.at_ctl, fun _ => ⟨fun h => absurd h (by omega), fun i hi =>
      absurd hi (by omega)⟩⟩
    unfold Local.withCom
    rw [← hr.com]
  · rintro k _ ⟨V, tr, rfl, -⟩
    exact safe_lhMore (withCom_com _ _) k rfl
  · rintro k _ hk ⟨V, tr, rfl, hctl, hcopy⟩
    have hlen : m.log.lh.blocks.length = m.log.lh.n.toNat := blocks_length _
    have hctl' : ∀ d, ctl c.start (tr ++ [.write (c.start + k + 1) d]) =
        some (.commit p m.log.lh.blocks (k + 1)) := fun d =>
      ctl_write hctl (blocks_ne_nil hk) (by omega) (by rw [Planned, if_pos (by omega)])
    refine Safe.mono (safe_writeLogBody hN (hr.withCom hs.dev) (hs.lt hk) ?_ (fun hg => ?_)
      fun hg q L j b hq hj => ?_) ?_
    · simp only [hs.at_start]
      exact ctlOk_commit hs.boot (hctl' _)
    · simp only [hs.at_start]
      exact inLog_slot hg (hcopy hg).1 hk
    · rw [hctl] at hq
      cases hq
      rw [List.getElem?_eq_getElem (by omega), blocks_getElem, Option.some.injEq] at hj
      subst hj
      rw [hs.at_start]
      exact ⟨inLog_slot hg (hcopy hg).1 hk, hs.home hg hk, rfl⟩
    · simp only [hs.at_start, withCom_withCom]
      rintro _ _ ⟨hroom, rfl⟩
      refine ⟨_, _, rfl, hctl' _, fun hg => ⟨fun _ => ?_, fun i hi => ?_⟩⟩
      · -- the first slot and all the pinned blocks are in the cache
        by_cases h0 : 0 < k
        · exact (hcopy hg).1 h0
        · have := hroom _ (withCom_com _ _) (by
            simp only [hs.pins]
            exact fun hb => hg.1 _ (hs.allowed _ hb).1 (inLog_slot hg (hcopy hg).1 hk))
          simp only [hs.pins, hlen] at this
          have := hg.2
          omega
      · have hne : m.log.lh.block i ≠ c.start + k + 1 := fun e =>
          hs.home hg (j := i) (by omega) (e ▸ inLog_slot hg (hcopy hg).1 hk)
        rw [update_of_ne hne]
        by_cases hik : i = k
        · subst hik; rw [update_self]
        · rw [update_of_ne (by omega)]
          exact (hcopy hg).2 i (by omega)

/-- **`install_trans` among other processes.** -/
lemma safe_installTrans (hN : 3 * N + 1 < 2 ^ 32) (hr : Ready l m)
    (hs : Full c p m (m.log.lh.n.toNat + 1))
    (hcopy : Good c → Copied c m.log.lh m.V m.log.lh.n.toNat) :
    Ok c p installTrans (fun _ l' => ∃ V tr, l' = l.withCom { m with V := V, pins := [], trace := tr } ∧
      ctl c.start tr = some (.commit p m.log.lh.blocks (2 * m.log.lh.n.toNat + 1))) l := by
  have hlen : m.log.lh.blocks.length = m.log.lh.n.toNat := blocks_length _
  unfold installTrans
  refine Safe.mono (safe_forUp (n := m.log.lh.n.toNat) (fun k l' => ∃ V tr,
      l' = l.withCom { m with V := V, pins := m.log.lh.blocks.drop k, trace := tr } ∧
      ctl c.start tr = some (.commit p m.log.lh.blocks (m.log.lh.n.toNat + 1 + k)) ∧
      (Good c → V = m.V)) (Nat.zero_le _) hs.fuel ?_ ?_ ?_) ?_
  · refine ⟨m.V, m.trace, ?_, hs.at_ctl, fun _ => rfl⟩
    unfold Local.withCom
    rw [List.drop_zero, ← hs.pins, ← hr.com]
  · rintro k _ ⟨V, tr, rfl, -⟩
    exact safe_lhMore (withCom_com _ _) k rfl
  · rintro k _ hk ⟨V, tr, rfl, hctl, hV⟩
    have hdrop : m.log.lh.blocks.drop k = m.log.lh.block k :: m.log.lh.blocks.drop (k + 1) := by
      rw [List.drop_eq_getElem_cons (by omega), blocks_getElem]
    have hctl' : ∀ d, ctl c.start (tr ++ [.write (m.log.lh.block k) d]) =
        some (.commit p m.log.lh.blocks (m.log.lh.n.toNat + 1 + k + 1)) := fun d => by
      refine ctl_write hctl (blocks_ne_nil hk) (by omega) ?_
      rw [Planned, if_neg (by omega), if_neg (by omega), if_pos (by omega), hlen,
        show m.log.lh.n.toNat + 1 + k - m.log.lh.n.toNat - 1 = k by omega,
        List.getElem?_eq_getElem (by omega), blocks_getElem]
    refine Safe.mono (safe_installBody (m := ⟨m.log, V, _, tr, m.boot⟩) hN (hr.withCom hs.dev)
      (hs.lt hk) hdrop ⟨k + 1, rfl⟩ hs.boot (ctlOk_commit hs.boot (hctl' _)) (fun hg => ?_)
      (slotOk_of_le hctl (by omega))) ?_
    · simp only [hs.at_start, hV hg]
      exact ((hcopy hg).2 k hk).symm
    · rintro _ _ rfl
      refine ⟨_, _, rfl, hctl' _, fun hg => ?_⟩
      simp only [hs.at_start, hV hg, (hcopy hg).2 k hk, update_eq_self]
  · rintro _ _ ⟨V, tr, rfl, hctl, -⟩
    rw [show m.log.lh.n.toNat + 1 + m.log.lh.n.toNat = 2 * m.log.lh.n.toNat + 1 by omega] at hctl
    exact ⟨V, tr, by rw [List.drop_of_length_le (by omega)], hctl⟩

/-- **`commit` among other processes** makes exactly the planned writes, unpins every block
and empties the header. -/
lemma safe_commit (hN : 3 * N + 1 < 2 ^ 32) (hr : Ready l m) (hs : Full c p m 0) :
    Ok c p commit (fun _ l' => ∃ V tr, l' = l.withCom
      ⟨{ m.log with lh := { m.log.lh with n := 0 } }, V, [], tr, false⟩ ∧
      ctl c.start tr = some (.commit p m.log.lh.blocks (writes m.log.lh.blocks))) l := by
  have hlen : m.log.lh.blocks.length = m.log.lh.n.toNat := blocks_length _
  unfold commit
  refine Safe.bind_read (safe_getLog hr.com) ?_
  rintro _ rfl
  refine safe_doIf (fun hpos => ?_) (fun hpos => ?_)
  · have hnil : m.log.lh.blocks ≠ [] := blocks_ne_nil (k := 0) (by omega)
    refine Safe.bind (safe_writeLog hN hr hs) ?_
    rintro _ _ ⟨V, tr, rfl, hctl, hcopy⟩
    -- the header becomes that of the transaction
    have hctl' := ctl_write (d := putHead (V m.log.start) m.log.lh) hctl hnil
      (b := c.start) (by omega) (by
        rw [Planned, if_neg (by omega), if_pos hlen.symm]
        exact ⟨rfl, headBlocks_putHead _ hs.nonneg hs.le fun b hb => (hs.allowed b hb).2⟩)
    refine Safe.bind (safe_writeHead (m := ⟨m.log, V, _, tr, _⟩) hN (hr.withCom hs.dev) rfl ?_ (fun hg => ?_)
      (slotOk_of_le hctl (by omega))) ?_
    · rw [hs.at_start] at hctl' ⊢
      exact ctlOk_commit hs.boot hctl'
    · rw [hs.at_start]; exact inLog_start hg
    simp only [withCom_withCom]
    rintro _ _ rfl
    rw [← hs.at_start] at hctl'
    refine Safe.bind (safe_installTrans (m := ⟨m.log, _, m.pins, _, m.boot⟩) hN (hr.withCom hs.dev)
      ⟨hs.boot, hs.at_start, hs.at_size, hs.dev, hs.nonneg, hs.le, hs.allowed, hs.pins, ?_⟩ fun hg => ?_) ?_
    · rw [hs.at_start] at hctl' ⊢
      exact hctl'
    · refine ⟨(hcopy hg).1, fun i hi => ?_⟩
      rw [hs.at_start]
      have hne : m.log.lh.block i ≠ c.start := fun e => hs.home hg hi (e ▸ inLog_start hg)
      simp only [update_of_ne hne]
      rw [update_of_ne (by omega)]
      exact (hcopy hg).2 i hi
    simp only [withCom_withCom]
    rintro _ _ ⟨V', tr', rfl, hctl''⟩
    refine Safe.bind (safe_clearHead (withCom_com _ _) rfl) ?_
    simp only [withCom_withCom]
    rintro _ _ rfl
    -- and then an empty one
    have hctl₃ := ctl_write (d := putHead (V' m.log.start) { m.log.lh with n := 0 }) hctl'' hnil
      (b := c.start) (by omega) (by
        rw [Planned, if_neg (by omega), if_neg (by omega), if_neg (by omega)]
        refine ⟨by omega, rfl, ?_⟩
        rw [headBlocks_putHead _ (le_refl 0) (Int.natCast_nonneg _)] <;> simp [LogHeader.blocks])
    refine Safe.mono (safe_writeHead hN (m := ⟨{ m.log with lh := { m.log.lh with n := 0 } }, V', [],
      tr', m.boot⟩) (hr.withCom hs.dev) rfl ?_ (fun hg => ?_) (slotOk_of_le hctl'' (by omega))) ?_
    · simp only [hs.at_start] at hctl₃ ⊢
      exact ctlOk_commit hs.boot hctl₃
    · simp only [hs.at_start]; exact inLog_start hg
    · simp only [withCom_withCom]
      rintro _ _ rfl
      refine ⟨_, _, by rw [hs.boot], ?_⟩
      rw [writes, if_neg hnil, hlen]
      simp only [hs.at_start] at hctl₃ ⊢
      exact hctl₃
  · have hz : m.log.lh.n = 0 := by
      have := hs.nonneg
      omega
    have hnil : m.log.lh.blocks = [] := by simp [LogHeader.blocks, hz]
    refine ⟨m.V, m.trace, ?_, ?_⟩
    · rw [← hz, ← hs.boot]
      unfold Local.withCom
      rw [← hnil, ← hs.pins, ← hr.com]
    · rw [writes, if_pos hnil]; exact hs.at_ctl

end Xv6.Share
