import Xv6.Virtio.Actions

/-!
The handler and the device keep the invariant, in whole runs.
-/

namespace Xv6.Virtio

open Lib.Wp Lib.Conc Function

variable {κ : Prop} {s s' : State} {ℓ : Thread → Ghost} {l l' : Ghost} {t u : Thread} {p q b i k : ℕ}
  {c : Idx} {σ : Thread → Stage} {g : Stage}

/-! ### `virtio_disk_intr` -/

/-- The handler, which has the lock. -/
def handling (more : Bool) (hand : Hand) : Ghost := { lock := true, more := more, hand := hand }

lemma Inv.stay (h : Inv κ s ℓ) (hl : ℓ t = l) (hk : l.lock = true) (hk' : l'.lock = true)
    (hst : l'.stage = l.stage) (hlock : s'.lock = s.lock) (hfree : s'.free = s.free)
    (hmore : l'.more = true → s'.handled < s'.completed) (hhand : l'.hand ≠ .out → s'.hand = l'.hand)
    (hcalls : Calls s' (stages ℓ)) (hrings : Rings κ s') : Inv κ s' (update ℓ t l') := by
  refine ⟨?_, by rw [stages_same hl hst, hfree]; exact h.descs,
    by rw [stages_same hl hst]; exact hcalls, hrings⟩
  refine h.locks.set (h.locks.others hl hk) ?_ (fun hn => ?_) (fun hm => ⟨hk', hmore hm⟩)
    fun hn => ⟨hk', hhand hn⟩
  · rw [hlock, hk', if_pos rfl]
    exact h.locks.held hl hk
  · rw [hk'] at hn
    cases hn

lemma Inv.drained (h : Inv κ s ℓ) : s.usedIdx % NUM = s.usedId % NUM ↔ s.handled = s.completed := by
  have h1 := h.rings.handled_le
  have h2 := h.rings.completed_le
  have h3 := h.rings.taken_le
  have h4 := h.sent_le
  have h5 := h.rings.usedIdx
  have h6 := h.rings.usedId
  simp only [NUM] at *
  omega

lemma testUsed_ok : Ok κ t testUsed
    (fun m l' => l' = if m then handling true .out else handling false .drained)
    (handling false .out) := by
  refine safe_lift fun s ℓ h hl => ?_
  simp only [wp_bind, wp_get]
  by_cases hu : s.usedIdx % NUM = s.usedId % NUM
  · have heq := h.drained.mp hu
    rw [if_neg (fun hn => hn hu)]
    simp only [wp_bind, wp_set, wp_pure]
    refine ⟨handling false .drained, h.stay hl rfl rfl rfl rfl rfl (fun h => by cases h)
      (fun _ => rfl) (h.calls.same _ _ _ _ _ _ _ _ _ _) ?_, rfl⟩
    exact { h.rings with calm := fun _ _ => heq }
  · rw [if_pos hu]
    refine ⟨handling true .out, h.stay hl rfl rfl rfl rfl rfl (fun _ => ?_)
      (fun h => absurd rfl h) h.calls h.rings, rfl⟩
    have h1 := h.rings.handled_le
    have h2 : s.handled ≠ s.completed := fun heq => hu (h.drained.mpr heq)
    omega

/-- The entry that the handler processes is that of a request that its process waits for. -/
lemma process_ok : Ok κ t process (fun _ l' => l' = handling false .out) (handling true .out) := by
  refine safe_lift fun s ℓ h hl => ?_
  have hr := h.rings
  have hlt : s.handled < s.completed := (h.locks.more t (by rw [hl]; rfl)).2
  obtain ⟨r, hdone⟩ : ∃ r, s.done s.handled = r := ⟨_, rfl⟩
  have hsent : r < s.sent := hdone ▸ hr.done_lt_sent hlt
  have hnot : ¬ Handled s r := hdone ▸ hr.not_handled hlt le_rfl
  obtain ⟨hst, hdisk, hinfo⟩ := h.calls.waiting hsent hnot
  have hid : s.elems s.usedIdx = (s.req r).idx.i0 := by
    rw [hr.usedIdx, hr.elems _ le_rfl hlt, hdone]
  have hnum : (s.req r).idx.i0 < NUM :=
    h.descs.lt (.proc (s.req r).proc) _ (by rw [hst]; simp [Stage.own, Idx.toList])
  simp only [wp_bind, wp_get, hid, hinfo, wp_throwIf, wp_set]
  refine ⟨fun hle => absurd hnum (by omega), fun _ => ⟨fun hn => absurd rfl hn, fun _ => ?_⟩⟩
  refine ⟨handling false .out, h.stay hl rfl rfl rfl rfl rfl (fun h => by cases h)
    (fun h => absurd rfl h) ?_ ?_, rfl⟩
  · have hh : ∀ i, Handled s i → ∃ k < s.handled + 1, s.done k = i := by
      rintro i ⟨k, hk, hi⟩
      exact ⟨k, by omega, hi⟩
    refine { h.calls with
      staged := fun q => ?_
      handled := fun i hi hret => hh i (h.calls.handled i hi hret) }
    by_cases hq : q = (s.req r).proc
    · -- the process of the request: nothing is left to wait for
      have hstaged := h.calls.staged q
      rw [hq, hst] at hstaged ⊢
      obtain ⟨hlink, hi, hreq, hret, -⟩ := hstaged
      exact ⟨hlink, hi, hreq, hret, fun hn => absurd ⟨s.handled, Nat.lt_succ_self _, hdone⟩ hn⟩
    · have hfree : (stages ℓ (.proc q)).Free := by
        by_cases htq : Thread.proc q = t
        · rw [htq, show stages ℓ t = (ℓ t).stage from rfl, hl]
          trivial
        · exact h.locks.free (h.locks.others hl rfl _ htq)
      refine (h.calls.staged q).frame hfree (fun _ _ => ⟨rfl, rfl⟩) (fun b' hb' => ?_) le_rfl
        (fun _ _ => rfl) (fun _ _ => rfl) hh
      refine update_of_ne (h.calls.buf_ne ?_ hb' hq) ..
      rw [hst]
      rfl
  · refine { hr with
      handled_le := hlt
      usedIdx := ?_
      elems := fun k hk1 hk2 => hr.elems k (Nat.le_of_succ_le hk1) hk2
      entry := fun k hk => ?_
      calm := fun hc hp => ?_ }
    · have := hr.usedIdx
      show (s.usedIdx + 1) % NUM = (s.handled + 1) % NUM
      simp only [NUM] at *
      omega
    · rcases Nat.lt_succ_iff_lt_or_eq.mp hk with hk' | rfl
      · exact (update_of_ne (Nat.ne_of_lt hk') ..).trans (hr.entry k hk')
      · simp only [update_self, hdone]
    · have := hr.calm hc hp
      omega

lemma Inv.hand_eq (h : Inv κ s ℓ) {m : Bool} {hand : Hand} (hl : ℓ t = handling m hand)
    (hne : hand ≠ .out) : s.hand = hand := by
  have := (h.locks.hand t (by rw [hl]; exact hne)).2
  rw [hl] at this
  exact this

lemma readStatus_ok : Ok κ t readStatus (fun v l' => l' = handling false (.acking v))
    (handling false .drained) := by
  refine safe_lift fun s ℓ h hl => ?_
  have hr := h.rings
  have hhand : s.hand = .drained := h.hand_eq hl (by simp)
  simp only [wp_bind, wp_get, wp_set, wp_pure]
  refine ⟨handling false (.acking s.pending), h.stay hl rfl rfl rfl rfl rfl (fun h => by cases h)
    (fun _ => rfl) (h.calls.same _ _ _ _ _ _ _ _ _ _) ?_, rfl⟩
  exact { hr with calm := fun hc _ => hr.calm hc (.inr (.inl hhand)) }

lemma writeAck_ok {v : Bool} : Ok κ t (writeAck v) (fun _ l' => l' = handling false .out)
    (handling false (.acking v)) := by
  refine safe_lift fun s ℓ h hl => ?_
  have hr := h.rings
  have hhand : s.hand = .acking v := h.hand_eq hl (by simp)
  simp only [wp_modify]
  refine ⟨handling false .out, h.stay hl rfl rfl rfl rfl rfl (fun h => by cases h)
    (fun h => absurd rfl h) (h.calls.same _ _ _ _ _ _ _ _ _ _) ?_, rfl⟩
  refine { hr with calm := fun hc hp => ?_ }
  cases v with
  | true => exact hr.calm hc (.inr (.inr hhand))
  | false =>
    rcases hp with hp | hp | hp
    · exact hr.calm hc (.inl (by simpa using hp))
    · cases hp
    · cases hp

lemma virtioDiskIntr_ok {c : ℕ} : Ok κ (.cpu c) (virtioDiskIntr c k) (fun _ l' => l' = {}) {} := by
  refine Safe.bind (acquire_ok rfl rfl rfl) ?_
  rintro _ l' rfl
  refine Safe.bind (safe_rounds (fun _ l' => l' = handling false .out)
    (Q := fun _ l' => l' = handling false .drained) rfl (fun _ => fun s ℓ _ _ _ => rfl) ?_) ?_
  · rintro _ l' rfl
    refine Safe.bind testUsed_ok ?_
    rintro m l' rfl
    cases m with
    | true =>
      refine Safe.bind process_ok ?_
      rintro _ l' rfl
      rfl
    | false => rfl
  · rintro _ l' rfl
    refine Safe.bind readStatus_ok ?_
    rintro v l' rfl
    refine Safe.bind writeAck_ok ?_
    rintro _ l' rfl
    refine Safe.mono (release_ok rfl trivial rfl rfl) ?_
    rintro _ l' rfl
    rfl

lemma virtioDiskRw_ok {write : Bool} : Ok κ (.proc p) (virtioDiskRw p b write k) (fun _ l' => l' = {})
    { stage := .alloc b [] } := by
  refine Safe.bind (acquire_ok rfl rfl rfl) ?_
  rintro _ l' rfl
  refine Safe.bind (safe_rounds (fun _ l' => l' = locked (.alloc b []))
    (Q := fun c l' => l' = locked (.alloc b c.toList)) rfl (fun _ => fun s ℓ _ _ _ => rfl) ?_) ?_
  · rintro _ l' rfl
    refine Safe.bind (alloc3Desc_ok (b := b)) ?_
    rintro (_ | c) l' hl'
    · obtain rfl : l' = locked (.alloc b []) := hl'
      refine Safe.bind (sleep_ok rfl) ?_
      rintro _ l' rfl
      rfl
    · exact hl'
  · rintro c l' rfl
    refine Safe.bind format_ok ?_
    rintro _ l' rfl
    refine Safe.bind place_ok ?_
    rintro _ l' rfl
    refine Safe.bind publish_ok ?_
    rintro i l' rfl
    refine Safe.bind (safe_rounds (fun _ l' => l' = locked (.sent b c i))
      (Q := fun _ l' => l' = locked (.found b c i)) rfl (fun _ => fun s ℓ _ _ _ => rfl) ?_) ?_
    · rintro _ l' rfl
      refine Safe.bind readDisk_ok ?_
      rintro s l' rfl
      split
      · refine Safe.bind (sleep_ok trivial) ?_
        rintro _ l' rfl
        rfl
      · rfl
    · rintro _ l' rfl
      refine Safe.bind clearInfo_ok ?_
      rintro _ l' rfl
      refine Safe.bind freeChain_ok ?_
      rintro _ l' rfl
      exact finish_ok

/-! ### The device -/

lemma Inv.take (h : Inv κ s ℓ) (hne : s.lastAvail ≠ s.availIdx) : Inv κ s.take ℓ := by
  have hr := h.rings
  have hle := hr.taken_le
  have hlt : s.taken < s.sent := by
    refine lt_of_le_of_ne hle fun heq => hne ?_
    rw [hr.lastAvail, hr.availIdx, heq]
  have hslot : s.lastAvail % NUM = s.taken % NUM := by
    have := hr.lastAvail
    simp only [NUM]
    omega
  -- the request has its links, since its process waits for it
  have hnot : ¬ Handled s s.taken := by
    rintro ⟨k, hk, hdone⟩
    have := hr.done_lt k (lt_of_lt_of_le hk hr.handled_le)
    omega
  have hlink : Linked s.desc (s.req s.taken).idx := by
    have hstaged := h.calls.staged (s.req s.taken).proc
    rw [(h.calls.waiting hlt hnot).1] at hstaged
    exact hstaged.1
  have hhead : s.ring (s.lastAvail % NUM) = (s.req s.taken).idx.i0 := by
    rw [hslot]
    exact hr.ring _ le_rfl hlt
  refine ⟨{ h.locks with }, h.descs, h.calls.same _ _ _ _ _ _ _ _ _ _, { hr with
    taken_le := hlt
    lastAvail := ?_
    ring := fun i hi1 hi2 => hr.ring i (Nat.le_of_succ_le hi1) hi2
    job := fun i j hj => ?_
    done_lt := fun k hk => Nat.lt_succ_of_lt (hr.done_lt k hk) }⟩
  · have := hr.lastAvail
    show (s.lastAvail + 1) % 2 ^ 16 = (s.taken + 1) % 2 ^ 16
    omega
  · by_cases hi : i = s.taken
    · rw [hi] at hj ⊢
      simp only [State.take, update_self, Option.some.injEq] at hj
      refine ⟨Nat.lt_succ_self _, ?_, fun k hk => ?_⟩
      · rw [← hj, hhead, hlink.next0, hlink.next1, hlink.status]
        rfl
      · exact Nat.ne_of_lt (hr.done_lt k hk)
    · obtain ⟨h1, h2, h3⟩ := hr.job i j ((update_of_ne hi ..).symm.trans hj)
      exact ⟨Nat.lt_succ_of_lt h1, h2, h3⟩

lemma Calls.completed (h : Calls s σ) (hle : s.handled ≤ s.completed) :
    Calls { s with done := update s.done s.completed i } σ := by
  have hh : Handled { s with done := update s.done s.completed i } = Handled s := by
    funext j
    refine propext (exists_congr fun k => and_congr_right fun hk => ?_)
    have hk' : k < s.handled := hk
    simp only [update_of_ne (show k ≠ s.completed by omega)]
  refine { h with staged := fun q => ?_, handled := by rw [hh]; exact h.handled }
  have hst := h.staged q
  revert hst
  cases σ (.proc q) with
  | sent | found | freeing =>
    rintro ⟨h1, h2, h3, h4, h5⟩
    exact ⟨h1, h2, h3, h4, by rw [hh]; exact h5⟩
  | idle | alloc | ready | placed => exact id

lemma Inv.complete (h : Inv κ s ℓ) (hheard : κ → ¬ s.Deaf) {j : Job} (hj : s.job i = some j) :
    Inv κ (s.complete i j) ℓ := by
  have hr := h.rings
  have hle := hr.handled_le
  obtain ⟨hi, rfl, hnew⟩ := hr.job i j hj
  have hsent : i < s.sent := lt_of_lt_of_le hi hr.taken_le
  have hnot : ¬ Handled s i := by
    rintro ⟨k, hk, hdone⟩
    exact hnew k (by omega) hdone
  -- the status was 0 already
  have hinfo := (h.calls.waiting hsent hnot).2.2
  have hsame : s.writeStatus (.status (s.req i).idx.i0) = s := by
    rw [State.writeStatus, hinfo, ← hinfo, update_eq_self]
  have hslot : s.usedId % NUM = s.completed % NUM := by
    have := hr.usedId
    simp only [NUM]
    omega
  rw [State.complete, hsame]
  refine ⟨{ h.locks with more := fun u hu => ?_ }, h.descs, ?_, ?_⟩
  · exact ⟨(h.locks.more u hu).1, Nat.lt_succ_of_lt (h.locks.more u hu).2⟩
  · exact (h.calls.completed hle).same _ _ _ _ _ _ _ _ _ _
  · -- the entries up to this one are as they were
    have hlast : ∀ k < s.completed + 1, k < s.completed ∧ update s.done s.completed i k = s.done k ∨
        k = s.completed ∧ update s.done s.completed i k = i := by
      intro k hk
      rcases Nat.lt_succ_iff_lt_or_eq.mp hk with hk' | rfl
      · exact .inl ⟨hk', update_of_ne (Nat.ne_of_lt hk') ..⟩
      · exact .inr ⟨rfl, update_self ..⟩
    refine { hr with
      job := fun r j hj => ?_
      done_lt := fun k hk => ?_
      done_inj := fun k hk m hm hdone => ?_
      handled_le := Nat.le_succ_of_le hle
      usedId := ?_
      elems := fun k hk1 hk2 => ?_
      entry := fun k hk => ?_
      calm := fun hc hp => hp.elim (fun hp => by cases hp) fun hp => absurd hp (hheard hc) }
    · have hri : r ≠ i := by
        rintro rfl
        simp only [update_self] at hj
        cases hj
      obtain ⟨h1, h2, h3⟩ := hr.job r j ((update_of_ne hri ..).symm.trans hj)
      refine ⟨h1, h2, fun k hk => ?_⟩
      rcases hlast k hk with ⟨hk', he⟩ | ⟨-, he⟩
      · exact fun hd => h3 k hk' (he.symm.trans hd)
      · exact fun hd => hri (hd.symm.trans he)
    · rcases hlast k hk with ⟨hk', he⟩ | ⟨-, he⟩
      · exact lt_of_eq_of_lt he (hr.done_lt k hk')
      · exact lt_of_eq_of_lt he hi
    · replace hdone : update s.done s.completed i k = update s.done s.completed i m := hdone
      rcases hlast k hk with ⟨hk', he⟩ | ⟨rfl, he⟩ <;> rcases hlast m hm with ⟨hm', he'⟩ | ⟨rfl, he'⟩
      · exact hr.done_inj k hk' m hm' (by rw [← he, hdone, he'])
      · exact absurd (by rw [← he, hdone, he']) (hnew k hk')
      · exact absurd (by rw [← he', ← hdone, he]) (hnew m hm')
      · rfl
    · have := hr.usedId
      show (s.usedId + 1) % 2 ^ 16 = (s.completed + 1) % 2 ^ 16
      omega
    · rcases Nat.lt_succ_iff_lt_or_eq.mp hk2 with hk' | rfl
      · have hks : k % NUM ≠ s.completed % NUM := by
          have h1 := hr.completed_le
          have h2 := hr.taken_le
          have h3 := h.sent_le
          have h4 : s.handled ≤ k := hk1
          simp only [NUM] at *
          omega
        simp only [hslot, update_of_ne hks, update_of_ne (Nat.ne_of_lt hk')]
        exact hr.elems k hk1 hk'
      · simp only [hslot, update_self]
    · have hk' : k < s.handled := hk
      simp only [update_of_ne (show k ≠ s.completed by omega)]
      exact hr.entry k hk

/-! ### Whole runs -/

/-- A process that is in no call makes one, for a buffer that no other call is for. -/
lemma Inv.call (h : Inv κ s ℓ) (hl : ℓ (.proc p) = {}) (hb : ∀ q, s.call q ≠ some b) :
    Inv κ { s with call := update s.call p (some b) }
      (update ℓ (.proc p) { stage := .alloc b [] }) := by
  have hst : stages ℓ (.proc p) = .idle := by
    rw [show stages ℓ (.proc p) = (ℓ (.proc p)).stage from rfl, hl]
  refine ⟨?_, ?_, ?_, h.rings.same _ _ _ _ _ _ _⟩
  · have hself : update ℓ (.proc p) { stage := .alloc b [] } (.proc p) =
        { stage := .alloc b [] } := update_self ..
    have hne : ∀ u, u ≠ .proc p → update ℓ (.proc p) { stage := .alloc b [] } u = ℓ u :=
      fun u hu => update_of_ne hu ..
    constructor
    case lock =>
      intro u
      by_cases hu : u = .proc p
      · have := h.locks.lock (.proc p)
        rw [hu, hself]
        rw [hl] at this
        exact this
      · rw [hne u hu]
        exact h.locks.lock u
    case stage =>
      intro u hfree
      by_cases hu : u = .proc p
      · rw [hu, hself] at hfree
        exact absurd rfl hfree
      · rw [hne u hu] at hfree ⊢
        exact h.locks.stage u hfree
    case more =>
      intro u hm
      by_cases hu : u = .proc p
      · rw [hu, hself] at hm
        cases hm
      · rw [hne u hu] at hm ⊢
        exact h.locks.more u hm
    case hand =>
      intro u hm
      by_cases hu : u = .proc p
      · rw [hu, hself] at hm
        exact absurd rfl hm
      · rw [hne u hu] at hm ⊢
        exact h.locks.hand u hm
  · rw [stages_update]
    exact h.descs.same (by rw [hst]; rfl)
  · rw [stages_update]
    refine h.calls.set (by simp only [update_self]; rfl) (fun q hq => update_of_ne hq ..) ?_
      trivial (fun q _ => h.calls.staged q) ?_ h.calls.handled h.calls.fresh
    · intro q r a hq hr
      by_cases hqp : q = p <;> by_cases hrp : r = p
      · rw [hqp, hrp]
      · rw [hqp] at hq
        simp only [update_self, Option.some.injEq] at hq
        simp only [update_of_ne hrp, ← hq] at hr
        exact absurd hr (hb r)
      · rw [hrp] at hr
        simp only [update_self, Option.some.injEq] at hr
        simp only [update_of_ne hqp, ← hr] at hq
        exact absurd hq (hb q)
      · simp only [update_of_ne hqp] at hq
        simp only [update_of_ne hrp] at hr
        exact h.calls.unique q r a hq hr
    · intro i hi hret
      have hlive := h.calls.live i hi hret
      refine .inr ⟨fun hq => ?_, hlive⟩
      rw [show (s.req i).proc = p from hq, hst] at hlive
      cases hlive

/-- What holds in every configuration that is reached. -/
def RunInv (κ : Prop) (x : Conf) : Prop :=
  ∃ ℓ, Inv κ x.state ℓ ∧ ∀ t, Ok κ t (x.code t) (fun _ l' => l' = {}) (ℓ t)

lemma runInv_start : RunInv κ start := by
  refine ⟨fun _ => {}, ⟨⟨?_, ?_, ?_, ?_⟩, ⟨?_, ?_, ?_, ?_⟩, ⟨?_, ?_, ?_, ?_, ?_, ?_, ?_⟩,
    ⟨?_, ?_, ?_, ?_, ?_, ?_, ?_, ?_, ?_, ?_, ?_, ?_, ?_⟩⟩, fun _ => rfl⟩ <;>
    simp [start, stages, Stage.own, Stage.buf, Stage.Free, Staged]

lemma RunInv.step {x y : Conf} {m : Move} (h : RunInv κ x) (halone : Alone x.state m)
    (hheard : κ → Heard x.state m) (hstep : Step x m y) : RunInv κ y := by
  obtain ⟨ℓ, hI, hcode⟩ := h
  -- the programs of the others go on as before
  have hothers : ∀ {t : Thread} {c : Code Unit} {r : Ghost}, Ok κ t c (fun _ l' => l' = {}) r →
      ∀ u, Ok κ u (update x.code t c u) (fun _ l' => l' = {}) (update ℓ t r u) := by
    intro t c r hc u
    by_cases hu : u = t
    · rw [hu, update_self, update_self]
      exact hc
    · rw [update_of_ne hu, update_of_ne hu]
      exact hcode u
  cases hstep with
  | @act t _ _ _ _ _ hc ha =>
    have hsafe := hcode t
    rw [hc] at hsafe
    obtain ⟨r, hI', hk⟩ := hsafe.step hI rfl trivial ha
    exact ⟨_, hI', hothers hk⟩
  | @call p b write k hc =>
    have hidle := hcode (.proc p)
    rw [hc] at hidle
    exact ⟨_, hI.call hidle halone, hothers virtioDiskRw_ok⟩
  | @intr c k hc =>
    have hidle : ℓ (.cpu c) = {} := by
      have := hcode (.cpu c)
      rw [hc] at this
      exact this
    have hsame : update ℓ (.cpu c) {} = ℓ := by rw [← hidle, update_eq_self]
    have hok := hothers (virtioDiskIntr_ok (c := c) (k := k))
    rw [hsame] at hok
    exact ⟨ℓ, hI, hok⟩
  | take hne => exact ⟨ℓ, hI.take hne, hcode⟩
  | complete hj => exact ⟨ℓ, hI.complete hheard hj, hcode⟩

lemma Reach.runInv {P : State → Move → Prop} {x : Conf} (h : Reach P x)
    (halone : ∀ s m, P s m → Alone s m) (hheard : κ → ∀ s m, P s m → Heard s m) : RunInv κ x := by
  induction h with
  | refl => exact runInv_start
  | @tail y z _ hstep ih =>
    obtain ⟨m, hP, hstep⟩ := hstep
    exact ih.step (halone _ m hP) (fun hκ => hheard hκ _ m hP) hstep

/-- Request `i` was made available, and its call has not returned. -/
def InFlight (s : State) (i : ℕ) : Prop := i < s.sent ∧ s.returned i = false

/-- What the driver and the device keep to. -/
structure Disciplined (s : State) : Prop where
  /-- A descriptor is free, or in exactly one chain in flight. -/
  desc : s.lock = none → ∀ d < NUM,
    (s.free d = true ∧ ∀ i, InFlight s i → d ∉ (s.req i).idx.toList) ∨
    (s.free d = false ∧ ∃! i, InFlight s i ∧ d ∈ (s.req i).idx.toList)
  /-- These chains have three descriptors each. -/
  chain : s.lock = none → ∀ i, InFlight s i → (s.req i).idx.toList.Nodup ∧
    (∀ d ∈ (s.req i).idx.toList, d < NUM) ∧ Linked s.desc (s.req i).idx
  /-- A request that the device has not taken is in its slot of the avail ring. -/
  avail : s.sent ≤ s.taken + NUM ∧
    ∀ i, s.taken ≤ i → i < s.sent → s.ring (i % NUM) = (s.req i).idx.i0
  /-- The used entries are processed in their order, each once, and what is cleared is `disk` of the
  buffer of the request. -/
  used : s.handled ≤ s.completed ∧
    (∀ k < s.completed, ∀ l < s.completed, s.done k = s.done l → k = l) ∧
    ∀ k < s.handled, s.entry k = ((s.req (s.done k)).idx.i0, (s.req (s.done k)).buf)
  /-- A call returns when its request was completed and the entry for it processed. -/
  returned : ∀ i < s.sent, s.returned i = true → Handled s i

/-- No thread is about to panic, or to follow a pointer that is not there. -/
def Sound (x : Conf) : Prop :=
  ∀ t, ∀ {β : Type} (a : DiskM β) (k : β → Code Unit), x.code t = .act a k →
    ∀ e s', a x.state = .error e s' → e = .hang

/-- A request in flight is one that its process waits for, while nobody has the lock. -/
lemma Inv.inFlight (h : Inv κ s ℓ) (hlock : s.lock = none) (hi : InFlight s i) :
    stages ℓ (.proc (s.req i).proc) = .sent (s.req i).buf (s.req i).idx i ∧
      Linked s.desc (s.req i).idx := by
  have hfree := h.locks.free (h.locks.nobody hlock (.proc (s.req i).proc))
  rcases ((h.calls.staged _).of_req (h.calls.live i hi.1 hi.2)).2 with ⟨hg, hlink, -⟩ | ⟨hn, -⟩
  · exact ⟨hg, hlink⟩
  · exact absurd hfree hn

lemma Inv.owner (h : Inv κ s ℓ) (hlock : s.lock = none) {d : ℕ} (hd : d ∈ (stages ℓ t).own) :
    ∃ i, InFlight s i ∧ d ∈ (s.req i).idx.toList := by
  have hfree := h.locks.free (h.locks.nobody hlock t)
  cases t with
  | cpu c =>
    rw [h.calls.cpu c] at hd
    cases hd
  | proc p =>
    have hst := h.calls.staged p
    revert hd hst hfree
    cases stages ℓ (.proc p) with
    | sent b c j =>
      rintro hd - ⟨-, hj, hreq, hret, -⟩
      refine ⟨j, ⟨hj, hret⟩, ?_⟩
      rw [hreq]
      exact hd
    | alloc b own =>
      intro hd hf
      rw [show own = [] from hf] at hd
      cases hd
    | idle => exact fun hd => by cases hd
    | found | freeing | ready | placed => exact fun _ hf => hf.elim

lemma Inv.agrees (h : Inv κ s ℓ) : Disciplined s := by
  have hr := h.rings
  have hown : ∀ {i d}, s.lock = none → InFlight s i → d ∈ (s.req i).idx.toList →
      d ∈ (stages ℓ (.proc (s.req i).proc)).own := by
    intro i d hlock hi hd
    rw [(h.inFlight hlock hi).1]
    exact hd
  constructor
  case desc =>
    intro hlock d hd
    cases hf : s.free d with
    | true =>
      refine .inl ⟨rfl, fun i hi hmem => ?_⟩
      have := (h.descs.cover d hd).mpr ⟨_, hown hlock hi hmem⟩
      rw [hf] at this
      cases this
    | false =>
      refine .inr ⟨rfl, ?_⟩
      obtain ⟨t, ht⟩ := (h.descs.cover d hd).mp hf
      obtain ⟨i, hi, hmem⟩ := h.owner hlock ht
      refine ⟨i, ⟨hi, hmem⟩, ?_⟩
      rintro j ⟨hj, hmem'⟩
      have heq := h.descs.unique _ _ d (hown hlock hi hmem) (hown hlock hj hmem')
      have h1 := (h.inFlight hlock hi).1
      rw [← heq, (h.inFlight hlock hj).1] at h1
      exact (Stage.sent.inj h1).2.2
  case chain =>
    intro hlock i hi
    obtain ⟨hst, hlink⟩ := h.inFlight hlock hi
    refine ⟨?_, fun d hd => h.descs.lt _ d (hown hlock hi hd), hlink⟩
    have := h.descs.nodup (.proc (s.req i).proc)
    rw [hst] at this
    exact this
  case avail =>
    refine ⟨?_, hr.ring⟩
    have h1 := h.sent_le
    have h2 := hr.handled_le
    have h3 := hr.completed_le
    simp only [NUM]
    omega
  case used => exact ⟨hr.handled_le, hr.done_inj, hr.entry⟩
  case returned => exact h.calls.handled

/-! ### Runs -/

/-- The thread that a move is about. -/
def Move.thread : Move → Option Thread
  | .act t => some t
  | .call p _ _ _ => some (.proc p)
  | .intr c _ => some (.cpu c)
  | .take => none
  | .complete _ => none

section

variable {x y : Conf} {P : State → Move → Prop}

def move (x : Conf) : Move → Option Conf
  | .act t => (x.code t).next x.state fun s' k => ⟨s', update x.code t k⟩
  | .call p b write k => if (x.code (.proc p)).isRet then
      some ⟨{ x.state with call := update x.state.call p (some b) },
        update x.code (.proc p) (virtioDiskRw p b write k)⟩ else none
  | .intr c k => if (x.code (.cpu c)).isRet then
      some { x with code := update x.code (.cpu c) (virtioDiskIntr c k) } else none
  | .take => if x.state.lastAvail ≠ x.state.availIdx then some { x with state := x.state.take } else none
  | .complete i => (x.state.job i).map fun j => { x with state := x.state.complete i j }

lemma move_step {m : Move} (h : move x m = some y) : Step x m y := by
  cases m with
  | act t =>
    rw [move] at h
    obtain ⟨β, a, k, b, s', hcode, ha, rfl⟩ := Prog.next_cases h
    exact .act hcode ha
  | call p b write k =>
    obtain ⟨hcode, ⟨⟩⟩ := Option.ite_none_right_eq_some.mp h
    exact .call (Prog.eq_ret_of_isRet hcode)
  | intr c k =>
    obtain ⟨hcode, ⟨⟩⟩ := Option.ite_none_right_eq_some.mp h
    exact .intr (Prog.eq_ret_of_isRet hcode)
  | take =>
    obtain ⟨hne, ⟨⟩⟩ := Option.ite_none_right_eq_some.mp h
    exact .take hne
  | complete i =>
    obtain ⟨j, hj, rfl⟩ := Option.map_eq_some_iff.mp h
    exact .complete hj

lemma reach_of_play {ms : List Move} (hx : Reach P x) (hP : ∀ m ∈ ms, ∀ s, P s m)
    (h : play move ms x = some y) : Reach P y :=
  play_induction hx (fun _ _ m hm hx hmove => hx.tail ⟨m, hP m hm _, move_step hmove⟩) h

lemma play_code {ms : List Move} (ht : ∀ m ∈ ms, m.thread ≠ some t)
    (h : play move ms x = some y) : y.code t = x.code t := by
  refine play_induction (P := fun y => y.code t = x.code t) rfl (fun y z m hm hy hmove => ?_) h
  have hne := ht m hm
  cases move_step hmove with
  | act _ _ | call _ | intr _ =>
    rw [← hy]
    exact update_of_ne (fun h => hne (by rw [h]; rfl)) ..
  | take _ | complete _ => exact hy

end

/-- Process 0 calls `virtio_disk_rw` for buffer 0. -/
def calling : Conf where
  state := { start.state with call := update start.state.call 0 (some 0) }
  code := update start.code (.proc 0) (virtioDiskRw 0 0 true 5)

/-- Process 0 is in a call for buffer 0, and process 1 for buffer `b`. -/
def twoCalls (b : ℕ) : Conf where
  state := { calling.state with call := update calling.state.call 1 (some b) }
  code := update calling.code (.proc 1) (virtioDiskRw 1 b true 5)

lemma calling_reach {P : State → Move → Prop} (h : P start.state (.call 0 0 true 5)) :
    Reach P calling := .single ⟨_, h, .call rfl⟩

lemma twoCalls_reach {P : State → Move → Prop} (h0 : P start.state (.call 0 0 true 5))
    (h1 : P calling.state (.call 1 b true 5)) : Reach P (twoCalls b) :=
  (calling_reach h0).tail ⟨_, h1, .call rfl⟩

lemma alone_start (b : ℕ) : Alone start.state (.call 0 b true 5) := by simp [Alone, start]

lemma alone_second : Alone calling.state (.call 1 1 true 5) := by
  intro q hq
  by_cases h0 : q = 0
  · rw [h0] at hq
    simp [calling] at hq
  · simp [calling, start, h0] at hq

/-- Both make their request and sleep, and the device takes it. -/
def bothSent : List Move :=
  List.replicate 9 (.act (.proc 0)) ++ List.replicate 9 (.act (.proc 1)) ++ [.take, .take]

/-- The first request is completed and handled, and process `p` goes on. -/
def firstServed (p : ℕ) : List Move :=
  bothSent ++ [.complete 0, .intr 0 5] ++ List.replicate 7 (.act (.cpu 0)) ++
    List.replicate 7 (.act (.proc p))

/-- **The driver and the device agree on what belongs to whom**, in every run in which no two calls
are for one buffer at the same time, and the driver does not panic. -/
theorem driver_disciplined {x : Conf} (h : Reach Alone x) : Disciplined x.state ∧ Sound x := by
  obtain ⟨ℓ, hI, hcode⟩ := h.runInv (κ := False) (fun _ _ h => h) False.elim
  refine ⟨hI.agrees, fun t β a k hc e s' ha => ?_⟩
  have hsafe := hcode t
  rw [hc] at hsafe
  exact hsafe.stop hI rfl trivial ha

section

set_option maxRecDepth 1000000

lemma served_eq : (play move (firstServed 0) (twoCalls 1)).map
      (fun x => (x.state.lock, x.state.sent, x.state.returned 0, x.state.returned 1)) =
    some (none, 2, true, false) := by decide +kernel

lemma early_eq : (play move (firstServed 1) (twoCalls 0)).map
      (fun x => (x.state.sent, x.state.returned 1, x.state.completed, x.state.done 0)) =
    some (2, true, 1, 0) := by decide +kernel

lemma allocating_eq : (play move (List.replicate 2 (.act (.proc 0))) calling).map
      (fun x => (x.state.sent, x.state.free 0)) = some (0, false) := by decide +kernel

end

/-- The first of two requests has been served, and the other one is in flight. -/
theorem driver_disciplined_served : ∃ x, Reach Alone x ∧ x.state.lock = none ∧ x.state.returned 0 = true ∧
    InFlight x.state 1 ∧ Disciplined x.state ∧ Sound x := by
  obtain ⟨x, hx, hf⟩ := Option.map_eq_some_iff.mp served_eq
  simp only [Prod.mk.injEq] at hf
  obtain ⟨hlock, hsent, hret, hflight⟩ := hf
  have hreach : Reach Alone x :=
    reach_of_play (twoCalls_reach (alone_start 0) alone_second) (by simp [firstServed, bothSent, Alone]) hx
  exact ⟨x, hreach, hlock, hret, ⟨by omega, hflight⟩, driver_disciplined hreach⟩

/-- With two calls for one buffer, the second returns when the first is completed. And a process that
has allocated its first descriptor, but no chain, holds the lock. -/
theorem shared_buffer_returns_early :
    (∃ x, Reach (fun _ _ => True) x ∧ 1 < x.state.sent ∧ x.state.returned 1 = true ∧
      ∀ k < x.state.completed, x.state.done k ≠ 1) ∧
    ∃ x, Reach Alone x ∧ x.state.free 0 = false ∧ ∀ i, ¬ InFlight x.state i := by
  constructor
  · obtain ⟨x, hx, hf⟩ := Option.map_eq_some_iff.mp early_eq
    simp only [Prod.mk.injEq] at hf
    obtain ⟨hsent, hret, hcompleted, hdone⟩ := hf
    refine ⟨x, ?_, by omega, hret, fun k hk => ?_⟩
    · exact reach_of_play (twoCalls_reach trivial trivial) (fun _ _ _ => trivial) hx
    · rw [show k = 0 by omega, hdone]
      decide
  · obtain ⟨x, hx, hf⟩ := Option.map_eq_some_iff.mp allocating_eq
    simp only [Prod.mk.injEq] at hf
    obtain ⟨hsent, hfree⟩ := hf
    refine ⟨x, ?_, hfree, fun i hi => ?_⟩
    · refine reach_of_play (calling_reach (alone_start 0)) (fun m hm s => ?_) hx
      rw [List.eq_of_mem_replicate hm]
      trivial
    · have := hi.1
      omega

/-! ### Completions -/

/-- A CPU runs the handler. -/
def Handling (x : Conf) : Prop := ∃ c, x.code (.cpu c) ≠ .ret ()

/-- When no CPU runs the handler, an entry of the used ring that was not processed comes with a
pending interrupt. -/
def NoneLost (x : Conf) : Prop :=
  ¬ Handling x → x.state.handled < x.state.completed → x.state.pending = true

/-- **No completion is lost**, in every run in which none comes between the handler's last test of
the used ring and the write that acknowledges it. -/
theorem none_lost {x : Conf} (h : Reach (fun s m => Alone s m ∧ Heard s m) x) : NoneLost x := by
  obtain ⟨ℓ, hI, -⟩ := h.runInv (κ := True) (fun _ _ h => h.1) (fun _ _ _ h => h.2)
  intro _ hlt
  cases hp : x.state.pending with
  | true => rfl
  | false =>
    have := hI.rings.calm trivial (.inl hp)
    omega

/-- Process 0 makes its request and sleeps, and the device takes it. -/
def oneSent : List Move := List.replicate 9 (.act (.proc 0)) ++ [.take]

/-- The second request is completed after the last test of the used ring, and the interrupt
acknowledged. -/
def unheard : List Move :=
  bothSent ++ [.complete 0, .intr 0 5] ++ List.replicate 4 (.act (.cpu 0)) ++ [.complete 1] ++
    List.replicate 3 (.act (.cpu 0))

section

set_option maxRecDepth 1000000

lemma oneSent_eq : ((play move oneSent calling).bind fun x => (move x (.complete 0)).map
      fun y => (x.state.hand, y.state.handled, y.state.completed)) = some (.out, 0, 1) := by
  decide +kernel

lemma unheard_eq : (play move unheard (twoCalls 1)).map
      (fun x => ((x.code (.cpu 0)).isRet, x.state.handled, x.state.completed, x.state.pending)) =
    some (true, 1, 2, false) := by decide +kernel

end

theorem none_lost_oneSent : ∃ x, Reach (fun s m => Alone s m ∧ Heard s m) x ∧
    x.state.handled < x.state.completed ∧ NoneLost x := by
  obtain ⟨x, hx, hf⟩ := Option.bind_eq_some_iff.mp oneSent_eq
  obtain ⟨y, hy, hf⟩ := Option.map_eq_some_iff.mp hf
  simp only [Prod.mk.injEq] at hf
  obtain ⟨hhand, hhandled, hcompleted⟩ := hf
  have hreach : Reach (fun s m => Alone s m ∧ Heard s m) x := by
    refine reach_of_play (calling_reach ⟨alone_start 0, trivial⟩) (fun m hm s => ?_) hx
    rcases List.mem_append.mp hm with hm | hm
    · rw [List.eq_of_mem_replicate hm]
      exact ⟨trivial, trivial⟩
    · rw [List.mem_singleton.mp hm]
      exact ⟨trivial, trivial⟩
  have hheard : ¬ x.state.Deaf := by
    rw [State.Deaf, hhand]
    decide
  have hreach' := hreach.tail ⟨.complete 0, ⟨trivial, hheard⟩, move_step hy⟩
  exact ⟨y, hreach', by omega, none_lost hreach'⟩

/-- **A completion is lost** when it comes after the last test of the used ring: the interrupt for it
is acknowledged with that for the one before, and nobody looks at the ring again. -/
theorem completion_lost : ∃ x, Reach Alone x ∧ ¬ NoneLost x := by
  obtain ⟨x, hx, hf⟩ := Option.map_eq_some_iff.mp unheard_eq
  simp only [Prod.mk.injEq] at hf
  obtain ⟨hidle, hhandled, hcompleted, hpending⟩ := hf
  refine ⟨x, ?_, fun h => ?_⟩
  · exact reach_of_play (twoCalls_reach (alone_start 0) alone_second) (by simp [unheard, bothSent, Alone]) hx
  · have hquiet : ¬ Handling x := by
      rintro ⟨c, hc⟩
      by_cases h0 : c = 0
      · rw [h0] at hc
        exact hc (Prog.eq_ret_of_isRet hidle)
      · refine hc ((play_code ?_ hx).trans ?_)
        · simp [unheard, bothSent, Move.thread, Ne.symm h0]
        · simp [twoCalls, calling, start]
    have := h hquiet (by omega)
    rw [hpending] at this
    cases this

end Xv6.Virtio
