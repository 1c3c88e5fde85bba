import Xv6.Virtio.Inv

/-!
Every action of the driver keeps the invariant.
-/

namespace Xv6.Virtio

open Lib.Wp Lib.Conc Function List

variable {κ : Prop} {s s' : State} {ℓ : Thread → Ghost} {l l' : Ghost} {t u : Thread} {p q b i k : ℕ}
  {c : Idx} {σ : Thread → Stage} {g : Stage} {own : List ℕ}

/-! ### Parts of the invariant -/

lemma stages_update : stages (update ℓ t l) = update (stages ℓ) t l.stage :=
  comp_update Ghost.stage ℓ t l

lemma stages_same (hl : ℓ t = l) (hst : l'.stage = l.stage) :
    stages (update ℓ t l') = stages ℓ := by
  rw [stages_update, hst, ← hl]
  exact update_eq_self t (stages ℓ)

namespace Locks

lemma nobody (h : Locks s ℓ) (hs : s.lock = none) (u : Thread) : (ℓ u).lock = false := by
  cases hu : (ℓ u).lock with
  | false => rfl
  | true =>
    have := (h.lock u).mpr hu
    rw [hs] at this
    cases this

lemma others (h : Locks s ℓ) (hl : ℓ t = l) (ht : l.lock = true) (u : Thread) (hu : u ≠ t) :
    (ℓ u).lock = false := by
  cases hlu : (ℓ u).lock with
  | false => rfl
  | true =>
    have h1 := (h.lock u).mpr hlu
    have h2 := (h.lock t).mpr (by rw [hl]; exact ht)
    exact absurd (Option.some.inj (h1.symm.trans h2)) hu

lemma free (h : Locks s ℓ) (hu : (ℓ u).lock = false) : (stages ℓ u).Free := by
  by_contra hn
  have := h.stage u hn
  rw [hu] at this
  cases this

lemma held (h : Locks s ℓ) (hl : ℓ t = l) (ht : l.lock = true) : s.lock = some t :=
  (h.lock t).mpr (by rw [hl]; exact ht)

/-- Where the others do not hold the lock, they rely on nothing that it protects. -/
lemma set (h : Locks s ℓ) (hothers : ∀ u, u ≠ t → (ℓ u).lock = false)
    (hlock : s'.lock = if l'.lock then some t else none)
    (hstage : l'.lock = false → l'.stage.Free)
    (hmore : l'.more = true → l'.lock = true ∧ s'.handled < s'.completed)
    (hhand : l'.hand ≠ .out → l'.lock = true ∧ s'.hand = l'.hand) :
    Locks s' (update ℓ t l') := by
  have hself : update ℓ t l' t = l' := update_self ..
  have hne : ∀ u, u ≠ t → update ℓ t l' u = ℓ u := fun u hu => update_of_ne hu ..
  constructor
  case lock =>
    intro u
    rw [hlock]
    by_cases hu : u = t
    · rw [hu, hself]
      cases l'.lock <;> simp
    · rw [hne u hu, hothers u hu]
      cases l'.lock with
      | false => simp
      | true =>
        simp only [if_true, Option.some.injEq, Bool.false_eq_true, iff_false]
        exact fun h => hu h.symm
  case stage =>
    intro u hfree
    by_cases hu : u = t
    · rw [hu, hself] at hfree ⊢
      cases hl : l'.lock with
      | true => rfl
      | false => exact absurd (hstage hl) hfree
    · rw [hne u hu] at hfree ⊢
      exact h.stage u hfree
  case more =>
    intro u hm
    by_cases hu : u = t
    · rw [hu, hself] at hm ⊢
      exact hmore hm
    · rw [hne u hu] at hm
      have := (h.more u hm).1
      rw [hothers u hu] at this
      cases this
  case hand =>
    intro u hm
    by_cases hu : u = t
    · rw [hu, hself] at hm ⊢
      exact hhand hm
    · rw [hne u hu] at hm
      have := (h.hand u hm).1
      rw [hothers u hu] at this
      cases this

end Locks

namespace Descs

variable {free : ℕ → Bool}

/-- The descriptors of one thread change. Those that are new to it were nobody's. -/
lemma put {free' : ℕ → Bool} (h : Descs free σ) (hnodup : g.own.Nodup)
    (hmem : ∀ d ∈ g.own, d ∈ (σ t).own ∨ d < NUM ∧ ∀ u, d ∉ (σ u).own)
    (hcover : ∀ d < NUM, free' d = false ↔ d ∈ g.own ∨ ∃ u ≠ t, d ∈ (σ u).own) :
    Descs free' (update σ t g) := by
  have hapart : ∀ u, u ≠ t → ∀ d ∈ g.own, d ∉ (σ u).own := by
    intro u hu d hd hd'
    rcases hmem d hd with ht | ⟨-, hn⟩
    · exact hu (h.unique t u d ht hd')
    · exact hn u hd'
  constructor
  case nodup =>
    exact (forall_update_iff σ fun _ g => g.own.Nodup).mpr ⟨hnodup, fun u _ => h.nodup u⟩
  case lt =>
    exact (forall_update_iff σ fun _ g => ∀ d ∈ g.own, d < NUM).mpr
      ⟨fun d hd => (hmem d hd).elim (h.lt t d) And.left, fun u _ => h.lt u⟩
  case unique =>
    intro u v d hd hd'
    by_cases hu : u = t <;> by_cases hv : v = t
    · rw [hu, hv]
    · rw [hu, update_self] at hd
      rw [update_of_ne hv] at hd'
      exact absurd hd' (hapart v hv d hd)
    · rw [update_of_ne hu] at hd
      rw [hv, update_self] at hd'
      exact absurd hd (hapart u hu d hd')
    · rw [update_of_ne hu] at hd
      rw [update_of_ne hv] at hd'
      exact h.unique u v d hd hd'
  case cover =>
    intro d hd
    rw [hcover d hd]
    constructor
    · rintro (hg | ⟨u, hu, hd⟩)
      · exact ⟨t, by rw [update_self]; exact hg⟩
      · exact ⟨u, by rw [update_of_ne hu]; exact hd⟩
    · rintro ⟨u, hu⟩
      by_cases hut : u = t
      · rw [hut, update_self] at hu
        exact .inl hu
      · rw [update_of_ne hut] at hu
        exact .inr ⟨u, hut, hu⟩

lemma cover_or (h : Descs free σ) (t : Thread) {d : ℕ} (hd : d < NUM) :
    free d = false ↔ d ∈ (σ t).own ∨ ∃ u ≠ t, d ∈ (σ u).own := by
  rw [h.cover d hd]
  grind

lemma same (h : Descs free σ) (hown : g.own = (σ t).own) : Descs free (update σ t g) := by
  refine h.put ?_ ?_ ?_ <;> rw [hown]
  · exact h.nodup t
  · exact fun d hd => .inl hd
  · exact fun d hd => h.cover_or t hd

lemma take (h : Descs free σ) (hi : i < NUM) (hfree : free i = true)
    (hown : g.own.Perm (i :: (σ t).own)) :
    Descs (update free i false) (update σ t g) := by
  have hnew : ∀ u, i ∉ (σ u).own := by
    intro u hu
    have := (h.cover i hi).mpr ⟨u, hu⟩
    rw [hfree] at this
    cases this
  refine h.put (hown.nodup_iff.mpr (nodup_cons.mpr ⟨hnew t, h.nodup t⟩)) (fun d hd => ?_)
    fun d hd => ?_
  · rcases mem_cons.mp (hown.mem_iff.mp hd) with rfl | hd
    · exact .inr ⟨hi, hnew⟩
    · exact .inl hd
  · rw [hown.mem_iff, mem_cons, or_assoc, ← h.cover_or t hd]
    by_cases hdi : d = i
    · simp [hdi]
    · simp [hdi]

lemma give (h : Descs free σ) (hown : (σ t).own = i :: g.own) :
    Descs (update free i true) (update σ t g) := by
  have hnodup := h.nodup t
  rw [hown] at hnodup
  obtain ⟨hnot, hrest⟩ := nodup_cons.mp hnodup
  refine h.put hrest (fun d hd => .inl (by rw [hown]; exact mem_cons_of_mem i hd)) fun d hd => ?_
  by_cases hdi : d = i
  · rw [hdi, update_self]
    refine ⟨fun hf => absurd hf (by simp), ?_⟩
    rintro (hg | ⟨u, hu, hd⟩)
    · exact absurd hg hnot
    · exact absurd (h.unique t u i (by rw [hown]; exact mem_cons_self ..) hd) hu
  · rw [update_of_ne hdi, h.cover_or t hd, hown, mem_cons, or_iff_right hdi]

end Descs

/-- What a process without the lock knows is kept by whoever leaves its descriptors and its buffer
alone. -/
lemma Staged.frame (h : Staged s q g) (hfree : g.Free)
    (hdesc : ∀ d ∈ g.own, s'.desc d = s.desc d ∧ s'.info d = s.info d)
    (hdisk : ∀ b, g.buf = some b → s'.disk b = s.disk b) (hsent : s.sent ≤ s'.sent)
    (hreq : ∀ i < s.sent, s'.req i = s.req i) (hret : ∀ i, g.req = some i → s'.returned i = s.returned i)
    (hh : ∀ i, Handled s i → Handled s' i) : Staged s' q g := by
  cases g with
  | idle => trivial
  | alloc b own => trivial
  | ready b c | placed b c | found b c i | freeing b i own => cases hfree
  | sent b c i =>
    obtain ⟨hlink, hi, hr, hnot, hw⟩ := h
    obtain ⟨h0, h0'⟩ := hdesc c.i0 (by simp [Stage.own, Idx.toList])
    obtain ⟨h1, -⟩ := hdesc c.i1 (by simp [Stage.own, Idx.toList])
    obtain ⟨h2, -⟩ := hdesc c.i2 (by simp [Stage.own, Idx.toList])
    refine ⟨?_, by omega, by rw [hreq i hi, hr], by rw [hret i rfl, hnot], fun hn => ?_⟩
    · obtain ⟨l1, l2, l3, l4, l5, l6⟩ := hlink
      constructor
      case flags0 => rw [h0]; exact l1
      case next0 => rw [h0]; exact l2
      case flags1 => rw [h1]; exact l3
      case next1 => rw [h1]; exact l4
      case flags2 => rw [h2]; exact l5
      case status => rw [h2]; exact l6
    · obtain ⟨w1, w2⟩ := hw fun hd => hn (hh i hd)
      exact ⟨by rw [hdisk b rfl]; exact w1, by rw [h0']; exact w2⟩

namespace Calls

lemma set (h : Calls s σ) (hbuf : g.buf = s'.call p) (hcall : ∀ q, q ≠ p → s'.call q = s.call q)
    (hunique : ∀ q r b, s'.call q = some b → s'.call r = some b → r = q) (hp : Staged s' p g)
    (hothers : ∀ q, q ≠ p → Staged s' q (σ (.proc q)))
    (hlive : ∀ i < s'.sent, s'.returned i = false → (s'.req i).proc = p ∧ g.req = some i ∨
      (s'.req i).proc ≠ p ∧ (σ (.proc (s'.req i).proc)).req = some i)
    (hhandled : ∀ i < s'.sent, s'.returned i = true → Handled s' i)
    (hfresh : ∀ i, s'.sent ≤ i → s'.returned i = false) : Calls s' (update σ (.proc p) g) := by
  have hself : update σ (.proc p) g (.proc p) = g := update_self ..
  have hne : ∀ q, q ≠ p → update σ (.proc p) g (.proc q) = σ (.proc q) := by
    intro q hq
    exact update_of_ne (fun h => hq (Thread.proc.inj h)) ..
  refine ⟨fun c => ?_, fun q => ?_, hunique, fun q => ?_, fun i hi hret => ?_, hhandled, hfresh⟩
  · rw [update_of_ne (fun h => by cases h)]
    exact h.cpu c
  · by_cases hq : q = p
    · rw [hq, hself, hbuf]
    · rw [hne q hq, hcall q hq]
      exact h.buf q
  · by_cases hq : q = p
    · rw [hq, hself]
      exact hp
    · rw [hne q hq]
      exact hothers q hq
  · rcases hlive i hi hret with ⟨hq, hg⟩ | ⟨hq, hg⟩
    · rw [hq, hself, hg]
    · rw [hne _ hq, hg]

lemma move (h : Calls s σ) (hcall : s'.call = s.call) (hsent : s'.sent = s.sent)
    (hreq : s'.req = s.req) (hret : s'.returned = s.returned)
    (hh : ∀ i, Handled s i → Handled s' i) (hbuf : g.buf = (σ (.proc p)).buf)
    (hr : g.req = (σ (.proc p)).req) (hp : Staged s' p g)
    (hothers : ∀ q, q ≠ p → Staged s' q (σ (.proc q))) :
    Calls s' (update σ (.proc p) g) := by
  refine h.set (by rw [hbuf, hcall]; exact h.buf p) (fun q _ => by rw [hcall])
    (by rw [hcall]; exact h.unique) hp hothers ?_ ?_ (by rw [hsent, hret]; exact h.fresh)
  · rw [hsent, hreq, hret]
    intro i hi hnot
    have hlive := h.live i hi hnot
    refine (eq_or_ne (s.req i).proc p).imp (fun hq => ⟨hq, ?_⟩) fun hq => ⟨hq, hlive⟩
    rw [hr, ← hq]
    exact hlive
  · rw [hsent, hret]
    exact fun i hi hd => hh i (h.handled i hi hd)

end Calls

lemma Rings.same (h : Rings κ s) (lock : Option Thread) (desc : ℕ → Desc) (free : ℕ → Bool)
    (info : ℕ → Info) (disk : ℕ → Bool) (call : ℕ → Option ℕ) (returned : ℕ → Bool) :
    Rings κ { s with
      lock := lock, desc := desc, free := free, info := info, disk := disk, call := call
      returned := returned } :=
  { h with }

lemma Calls.same (h : Calls s σ) (lock : Option Thread) (free : ℕ → Bool) (lastAvail usedId : ℕ)
    (elems : ℕ → ℕ) (pending : Bool) (taken completed : ℕ) (job : ℕ → Option Job) (hand : Hand) :
    Calls { s with
      lock := lock, free := free, lastAvail := lastAvail, usedId := usedId, elems := elems
      pending := pending, taken := taken, completed := completed, job := job, hand := hand } σ :=
  { h with }

lemma Calls.buf_ne (h : Calls s σ) {b' : ℕ} (hp : (σ (.proc p)).buf = some b)
    (hq : (σ (.proc q)).buf = some b') (hne : q ≠ p) : b' ≠ b := by
  rintro rfl
  rw [h.buf] at hp hq
  exact hne (h.unique p q b' hp hq)

/-- What the others know, when the holder of the lock changes its own descriptors and its
buffer. -/
lemma Inv.others (h : Inv κ s ℓ) (hl : ℓ (.proc p) = l) (hlock : l.lock = true)
    (hdesc : ∀ d, d ∉ l.stage.own → s'.desc d = s.desc d ∧ s'.info d = s.info d)
    (hdisk : ∀ b, l.stage.buf ≠ some b → s'.disk b = s.disk b) (hsent : s.sent ≤ s'.sent)
    (hreq : ∀ i < s.sent, s'.req i = s.req i)
    (hret : ∀ i, l.stage.req ≠ some i → s'.returned i = s.returned i)
    (hh : ∀ i, Handled s i → Handled s' i) (hq : q ≠ p) : Staged s' q (stages ℓ (.proc q)) := by
  have hne : Thread.proc q ≠ .proc p := fun h => hq (Thread.proc.inj h)
  have hfree := h.locks.free (h.locks.others hl hlock _ hne)
  have hstage : stages ℓ (.proc p) = l.stage := by rw [← hl]; rfl
  refine (h.calls.staged q).frame hfree (fun d hd => hdesc d fun hd' => ?_) (fun b hb => hdisk b ?_)
    hsent hreq (fun i hi => hret i fun hi' => ?_) hh
  · rw [← hstage] at hd'
    exact hne (h.descs.unique _ _ d hd' hd)
  · rw [← hstage]
    intro hb'
    exact h.calls.buf_ne hb' hb hq rfl
  · rw [← hstage] at hi'
    -- two processes with one request: the request names its process
    exact hq (((h.calls.staged q).of_req hi).1.symm.trans ((h.calls.staged p).of_req hi').1)

/-! ### Locks -/

lemma acquire_ok (hl : l.lock = false) (hmore : l.more = false) (hhand : l.hand = .out) :
    Ok κ t (acquire t) (fun _ l' => l' = { l with lock := true }) l := by
  refine safe_lift fun s ℓ h hℓ => ?_
  simp only [wp_bind, wp_get, wp_throwIf, wp_set]
  refine ⟨fun hself => ?_, fun _ => ⟨fun _ => trivial, fun hs => ?_⟩⟩
  · have := (h.locks.lock t).mp hself
    rw [hℓ, hl] at this
    cases this
  · have hfree : s.lock = none := by simpa using hs
    have hst : stages (update ℓ t { l with lock := true }) = stages ℓ := stages_same hℓ rfl
    refine ⟨_, ⟨?_, ?_, ?_, h.rings.same _ _ _ _ _ _ _⟩, rfl⟩
    · refine h.locks.set (fun u _ => h.locks.nobody hfree u) rfl (fun h => by cases h) ?_ ?_
      · intro hm
        rw [show l.more = true from hm] at hmore
        cases hmore
      · exact fun hn => absurd hhand hn
    · rw [hst]
      exact h.descs
    · rw [hst]
      exact h.calls.same _ _ _ _ _ _ _ _ _ _

lemma release_ok (hl : l.lock = true) (hstage : l.stage.Free) (hmore : l.more = false)
    (hhand : l.hand = .out) : Ok κ t (release t) (fun _ l' => l' = { l with lock := false }) l := by
  refine safe_lift fun s ℓ h hℓ => ?_
  simp only [wp_bind, wp_get, wp_throwIf, wp_set]
  refine ⟨fun hn => absurd (h.locks.held hℓ hl) hn, fun _ => ?_⟩
  have hst : stages (update ℓ t { l with lock := false }) = stages ℓ := stages_same hℓ rfl
  refine ⟨_, ⟨?_, ?_, ?_, h.rings.same _ _ _ _ _ _ _⟩, rfl⟩
  · refine h.locks.set (h.locks.others hℓ hl) rfl (fun _ => hstage) ?_ ?_
    · intro hm
      rw [show l.more = true from hm] at hmore
      cases hmore
    · exact fun hn => absurd hhand hn
  · rw [hst]
    exact h.descs
  · rw [hst]
    exact h.calls.same _ _ _ _ _ _ _ _ _ _

/-- A process with the lock, at a stage of its call. -/
def locked (g : Stage) : Ghost := { lock := true, stage := g }

lemma sleep_ok (hg : g.Free) : Ok κ t (sleep t) (fun _ l' => l' = locked g) (locked g) := by
  refine Safe.bind (release_ok rfl hg rfl rfl) ?_
  rintro _ l' rfl
  refine Safe.mono (acquire_ok rfl rfl rfl) ?_
  rintro _ l' rfl
  rfl

/-! ### The stages of a call -/

variable {g₀ : Stage}

lemma stages_locked (hl : ℓ t = locked g₀) : stages ℓ t = g₀ := by
  rw [show stages ℓ t = (ℓ t).stage from rfl, hl]
  rfl

lemma Inv.staged (h : Inv κ s ℓ) (hl : ℓ (.proc p) = locked g₀) : Staged s p g₀ := by
  rw [← stages_locked hl]
  exact h.calls.staged p

lemma Inv.hold (h : Inv κ s ℓ) (hl : ℓ (.proc p) = locked g₀) (hlock : s'.lock = s.lock)
    (hdescs : Descs s'.free (update (stages ℓ) (.proc p) g))
    (hcalls : Calls s' (update (stages ℓ) (.proc p) g)) (hrings : Rings κ s') :
    Inv κ s' (update ℓ (.proc p) (locked g)) := by
  refine ⟨?_, by rw [stages_update]; exact hdescs, by rw [stages_update]; exact hcalls, hrings⟩
  refine h.locks.set (h.locks.others hl rfl) ?_ (fun h => by cases h) (fun h => by cases h)
    (fun h => absurd rfl h)
  rw [hlock]
  exact h.locks.held hl rfl

lemma Inv.move (h : Inv κ s ℓ) (hl : ℓ (.proc p) = locked g₀) (hlock : s'.lock = s.lock)
    (hcall : s'.call = s.call) (hsent : s'.sent = s.sent) (hreq : s'.req = s.req)
    (hret : s'.returned = s.returned) (hdone : s'.done = s.done) (hhandled : s'.handled = s.handled)
    (hdesc : ∀ d, d ∉ g₀.own → s'.desc d = s.desc d ∧ s'.info d = s.info d)
    (hdisk : ∀ b, g₀.buf ≠ some b → s'.disk b = s.disk b)
    (hbuf : g.buf = g₀.buf) (hr : g.req = g₀.req) (hp : Staged s' p g)
    (hdescs : Descs s'.free (update (stages ℓ) (.proc p) g)) (hrings : Rings κ s') :
    Inv κ s' (update ℓ (.proc p) (locked g)) := by
  have hst := stages_locked hl
  have hh : ∀ i, Handled s i → Handled s' i := by
    rintro i ⟨k, hk, hi⟩
    exact ⟨k, by rw [hhandled]; exact hk, by rw [hdone]; exact hi⟩
  refine h.hold hl hlock hdescs ?_ hrings
  refine h.calls.move hcall hsent hreq hret hh (by rw [hst, hbuf]) (by rw [hst, hr]) hp ?_
  intro q hq
  exact h.others hl rfl hdesc hdisk (by omega) (fun i _ => by rw [hreq]) (fun i _ => by rw [hret]) hh hq

lemma allocDesc_ok : Ok κ (.proc p) allocDesc
    (fun r l' => r.elim (l' = locked (.alloc b own)) fun i => l' = locked (.alloc b (own ++ [i])))
    (locked (.alloc b own)) := by
  refine safe_lift fun s ℓ h hl => ?_
  simp only [wp_bind, wp_get]
  cases hf : (List.range NUM).find? s.free with
  | none =>
    refine ⟨_, ?_, rfl⟩
    rw [← hl, update_eq_self]
    exact h
  | some i =>
    have hi : i < NUM := mem_range.mp (mem_of_find?_eq_some hf)
    have hfree : s.free i = true := List.find?_some hf
    simp only [wp_bind, wp_set, wp_pure]
    refine ⟨_, h.move (g := .alloc b (own ++ [i])) hl rfl rfl rfl rfl rfl rfl rfl
      (fun _ _ => ⟨rfl, rfl⟩) (fun _ _ => rfl) rfl rfl trivial ?_ (h.rings.same _ _ _ _ _ _ _), rfl⟩
    refine h.descs.take hi hfree ?_
    rw [stages_locked hl]
    exact perm_append_singleton i own

lemma freeDesc_ok {Q : Unit → State → Prop} (h : Inv κ s ℓ) (hl : ℓ (.proc p) = locked g₀)
    (hown : g₀.own = i :: g.own) (hbuf : g.buf = g₀.buf) (hr : g.req = g₀.req)
    (hp : ∀ s', s'.sent = s.sent → s'.req = s.req → s'.returned = s.returned → s'.done = s.done →
      s'.handled = s.handled → (∀ d, d ≠ i → s'.desc d = s.desc d) → Staged s' p g)
    (hQ : ∀ s', Inv κ s' (update ℓ (.proc p) (locked g)) →
      (s'.desc i).flags = (s.desc i).flags → (s'.desc i).next = (s.desc i).next → Q () s') :
    wp (freeDesc i) Q (fun e _ => e = .hang) s := by
  have hst := stages_locked hl
  have hmem : i ∈ (stages ℓ (.proc p)).own := by
    rw [hst, hown]
    exact mem_cons_self ..
  have hi : i < NUM := h.descs.lt _ i hmem
  have hfree : s.free i = false := (h.descs.cover i hi).mpr ⟨_, hmem⟩
  rw [freeDesc]
  simp only [wp_bind, wp_get, wp_throwIf, wp_set]
  refine ⟨fun hle => absurd hi (by omega), fun _ => ⟨fun hbad => ?_, fun _ => ?_⟩⟩
  · rw [hfree] at hbad
    cases hbad
  · refine hQ _ (h.move hl rfl rfl rfl rfl rfl rfl rfl ?_ (fun _ _ => rfl) hbuf hr ?_ ?_
      (h.rings.same _ _ _ _ _ _ _)) ?_ ?_
    · intro d hd
      refine ⟨update_of_ne ?_ .., rfl⟩
      rintro rfl
      exact hd (by rw [hown]; exact mem_cons_self ..)
    · exact hp _ rfl rfl rfl rfl rfl fun d hd => update_of_ne hd ..
    · exact h.descs.give (by rw [hst, hown])
    · simp only [update_self]
    · simp only [update_self]

lemma undo_ok : Ok κ (.proc p) (liftM (freeDesc i)) (fun _ l' => l' = locked (.alloc b own))
    (locked (.alloc b (i :: own))) := by
  refine safe_lift fun s ℓ h hl => ?_
  refine freeDesc_ok (g := .alloc b own) h hl rfl rfl rfl (fun _ _ _ _ _ _ _ => trivial) ?_
  intro s' h' _ _
  exact ⟨_, h', rfl⟩

lemma alloc3Desc_ok : Ok κ (.proc p) alloc3Desc
    (fun r l' => r.elim (l' = locked (.alloc b [])) fun c => l' = locked (.alloc b c.toList))
    (locked (.alloc b [])) := by
  rw [alloc3Desc]
  refine Safe.bind (allocDesc_ok (b := b)) ?_
  rintro (_ | i0) l' hl'
  · exact hl'
  · obtain rfl : l' = locked (.alloc b [i0]) := hl'
    refine Safe.bind (allocDesc_ok (b := b)) ?_
    rintro (_ | i1) l' hl'
    · obtain rfl : l' = locked (.alloc b [i0]) := hl'
      refine Safe.bind undo_ok ?_
      rintro _ l' rfl
      rfl
    · obtain rfl : l' = locked (.alloc b [i0, i1]) := hl'
      refine Safe.bind (allocDesc_ok (b := b)) ?_
      rintro (_ | i2) l' hl'
      · obtain rfl : l' = locked (.alloc b [i0, i1]) := hl'
        refine Safe.bind undo_ok ?_
        rintro _ l' rfl
        refine Safe.bind undo_ok ?_
        rintro _ l' rfl
        rfl
      · exact hl'

lemma Path.congr {desc desc' : ℕ → Desc} (h : Path desc own) (heq : ∀ d ∈ own, desc' d = desc d) :
    Path desc' own := by
  induction own with
  | nil => trivial
  | cons d own ih =>
    have hd := heq d (mem_cons_self ..)
    cases own with
    | nil =>
      rw [Path, hd]
      exact h
    | cons e ds =>
      obtain ⟨h1, h2, h3⟩ := h
      refine ⟨by rw [hd]; exact h1, by rw [hd]; exact h2, ?_⟩
      exact ih h3 fun x hx => heq x (mem_cons_of_mem d hx)

/-- One round of `free_chain`: the link out of the descriptor that is freed is followed. -/
lemma freeStep_ok : Ok κ (.proc p) (freeStep i)
    (fun r l' => l' = locked (.freeing b k own) ∧
      r.elim (fun j => own.head? = some j) fun _ => own = [])
    (locked (.freeing b k (i :: own))) := by
  refine safe_lift fun s ℓ h hl => ?_
  have hnodup := h.descs.nodup (.proc p)
  rw [stages_locked hl] at hnodup
  obtain ⟨hpath, hk, hproc, hret, d, hd, hdk⟩ := h.staged hl
  have hnot : i ∉ own := (nodup_cons.mp hnodup).1
  simp only [wp_bind]
  refine freeDesc_ok (g := .freeing b k own) h hl rfl rfl rfl ?_ ?_
  · intro s' h1 h2 h3 h4 h5 h6
    refine ⟨?_, by omega, by rw [h2]; exact hproc, by rw [h3]; exact hret, d, by omega, by rw [h4]; exact hdk⟩
    have hrest : Path s.desc own := by
      cases own with
      | nil => trivial
      | cons e ds => exact hpath.2.2
    exact hrest.congr fun e he => h6 e fun hei => hnot (hei ▸ he)
  · intro s' h' hflags hnext
    simp only [wp_get, hflags, hnext]
    cases own with
    | nil =>
      have hend : (s.desc i).flags &&& VRING_DESC_F_NEXT = 0 := hpath
      rw [if_neg fun hn => hn hend]
      exact ⟨_, h', rfl, rfl⟩
    | cons e ds =>
      rw [if_pos hpath.1]
      exact ⟨_, h', rfl, by rw [hpath.2.1]; rfl⟩

lemma freeChain_ok : Ok κ (.proc p) (freeChain c.i0) (fun _ l' => l' = locked (.freeing b k []))
    (locked (.freeing b k c.toList)) := by
  refine safe_loop (fun n i l' => ∃ own, l' = locked (.freeing b k (i :: own)) ∧ own.length = n)
    ⟨_, rfl, rfl⟩ (show 2 < NUM + 1 by decide) ?_
  rintro n i l' ⟨own, rfl, hn⟩
  refine Safe.mono freeStep_ok ?_
  rintro (j | _) l' ⟨rfl, hr⟩
  · cases own with
    | nil => cases hr
    | cons e ds =>
      cases hr
      exact ⟨ds.length, by rw [← hn]; exact Nat.lt_succ_self _, ds, rfl, rfl⟩
  · rw [show own = [] from hr]
    rfl

lemma format_ok {write : Bool} : Ok κ (.proc p) (format p b write c)
    (fun _ l' => l' = locked (.ready b c)) (locked (.alloc b c.toList)) := by
  refine safe_lift fun s ℓ h hl => ?_
  have hst := stages_locked hl
  have hnodup := h.descs.nodup (.proc p)
  rw [hst] at hnodup
  obtain ⟨h01, h02, h12⟩ : c.i0 ≠ c.i1 ∧ c.i0 ≠ c.i2 ∧ c.i1 ≠ c.i2 := by
    simpa [Stage.own, Idx.toList, and_assoc] using hnodup
  simp only [wp_modify]
  refine ⟨_, h.move (g := .ready b c) hl rfl rfl rfl rfl rfl rfl rfl ?_ ?_ rfl rfl ?_ ?_
    (h.rings.same _ _ _ _ _ _ _), rfl⟩
  · intro d hd
    obtain ⟨hd0, hd1, hd2⟩ : d ≠ c.i0 ∧ d ≠ c.i1 ∧ d ≠ c.i2 := by
      simpa [Stage.own, Idx.toList] using hd
    simp only [update_of_ne hd0, update_of_ne hd1, update_of_ne hd2,
      and_self]
  · intro b' hb'
    exact update_of_ne (fun hbb => hb' (by rw [hbb]; rfl)) ..
  · refine ⟨⟨?_, ?_, ?_, ?_, ?_, ?_⟩, ?_, ?_⟩
    · simp [h01, h02]
    · simp [h01, h02]
    · simp only [update_of_ne h12, update_self]
      cases write <;> decide
    · simp [h12]
    · simp
    · simp
    · simp
    · simp
  · exact h.descs.same (by rw [hst]; rfl)

lemma availIdx_slot (h : Rings κ s) : s.availIdx % NUM = s.sent % NUM := by
  have := h.availIdx
  simp only [NUM]
  omega

lemma place_ok : Ok κ (.proc p) (place c) (fun _ l' => l' = locked (.placed b c))
    (locked (.ready b c)) := by
  refine safe_lift fun s ℓ h hl => ?_
  have hst := stages_locked hl
  have hroom : s.sent ≤ s.handled + 1 := h.sent_le_of_new (t := .proc p) (by rw [hl]; rfl)
  obtain ⟨hlink, hw⟩ := h.staged hl
  simp only [wp_modify]
  rw [availIdx_slot h.rings]
  refine ⟨_, h.move (g := .placed b c) hl rfl rfl rfl rfl rfl rfl rfl (fun _ _ => ⟨rfl, rfl⟩)
    (fun _ _ => rfl) rfl rfl ⟨hlink, hw, update_self ..⟩ ?_ ?_, rfl⟩
  · exact h.descs.same (by rw [hst]; rfl)
  · have hr := h.rings
    refine { hr with ring := fun i hi1 hi2 => ?_ }
    -- the one request that may be waiting to be taken is in the slot before this one
    have hslot : i % NUM ≠ s.sent % NUM := by
      have h1 := hr.handled_le
      have h2 := hr.completed_le
      simp only [NUM] at *
      omega
    exact (update_of_ne hslot ..).trans (hr.ring i hi1 hi2)

lemma publish_ok : Ok κ (.proc p) (publish p b c) (fun i l' => l' = locked (.sent b c i))
    (locked (.placed b c)) := by
  refine safe_lift fun s ℓ h hl => ?_
  have hst := stages_locked hl
  obtain ⟨hlink, hw, hring⟩ := h.staged hl
  have hr := h.rings
  have hold : ∀ i, i < s.sent → update s.req s.sent ⟨p, b, c⟩ i = s.req i :=
    fun i hi => update_of_ne (by omega) ..
  have hdone : ∀ k < s.completed, update s.req s.sent ⟨p, b, c⟩ (s.done k) = s.req (s.done k) :=
    fun k hk => hold _ (hr.done_lt_sent hk)
  simp only [wp_bind, wp_get, wp_set, wp_pure]
  refine ⟨_, h.hold (g := .sent b c s.sent) hl rfl ?_ ?_ ?_, rfl⟩
  · exact h.descs.same (by rw [hst]; rfl)
  · refine h.calls.set (by rw [← h.calls.buf p, hst]; rfl) (fun _ _ => rfl) h.calls.unique
      ⟨hlink, Nat.lt_succ_self _, update_self .., h.calls.fresh _ le_rfl, fun _ => hw⟩ ?_ ?_ ?_
      fun i hi => h.calls.fresh i (Nat.le_of_succ_le hi)
    · intro q hq
      exact h.others hl rfl (fun _ _ => ⟨rfl, rfl⟩) (fun _ _ => rfl) (Nat.le_succ _) hold
        (fun _ _ => rfl) (fun _ hi => hi) hq
    · intro i hi hret
      rcases Nat.lt_succ_iff_lt_or_eq.mp hi with hi' | rfl
      · have hlive := h.calls.live i hi' hret
        simp only [hold i hi']
        refine .inr ⟨fun hq => ?_, hlive⟩
        rw [hq, hst] at hlive
        cases hlive
      · exact .inl ⟨by simp only [update_self], rfl⟩
    · intro i hi hret
      have hi' : i < s.sent := by
        by_contra hge
        have := h.calls.fresh i (by omega)
        rw [show s.returned i = true from hret] at this
        cases this
      exact h.calls.handled i hi' hret
  · refine { hr with
      taken_le := Nat.le_succ_of_le hr.taken_le
      availIdx := ?_
      ring := fun i hi1 hi2 => ?_
      job := fun i j hj => ?_
      elems := fun k hk1 hk2 => ?_
      entry := fun k hk => ?_ }
    · have := hr.availIdx
      show (s.availIdx + 1) % 2 ^ 16 = (s.sent + 1) % 2 ^ 16
      omega
    · rcases Nat.lt_succ_iff_lt_or_eq.mp hi2 with hi' | rfl
      · simp only [hold i hi']
        exact hr.ring i hi1 hi'
      · simp only [update_self]
        exact hring
    · obtain ⟨h1, h2, h3⟩ := hr.job i j hj
      have hi : i < s.sent := lt_of_lt_of_le h1 hr.taken_le
      simp only [hold i hi]
      exact ⟨h1, h2, h3⟩
    · simp only [hdone k hk2]
      exact hr.elems k hk1 hk2
    · simp only [hdone k (lt_of_lt_of_le hk hr.handled_le)]
      exact hr.entry k hk

lemma readDisk_ok : Ok κ (.proc p) (liftM (get : DiskM State))
    (fun s l' => l' = locked (if s.disk b then .sent b c i else .found b c i))
    (locked (.sent b c i)) := by
  refine safe_lift fun s ℓ h hl => ?_
  have hst := stages_locked hl
  obtain ⟨hlink, hi, hreq, hret, hw⟩ := h.staged hl
  simp only [wp_get]
  by_cases hdisk : s.disk b = true
  · refine ⟨_, ?_, rfl⟩
    rw [if_pos hdisk, ← hl, update_eq_self]
    exact h
  · refine ⟨_, ?_, rfl⟩
    rw [if_neg hdisk]
    have hh : Handled s i := by
      by_contra hn
      exact hdisk (hw hn).1
    exact h.move hl rfl rfl rfl rfl rfl rfl rfl (fun _ _ => ⟨rfl, rfl⟩) (fun _ _ => rfl) rfl rfl
      ⟨hlink, hi, hreq, hret, hh⟩ (h.descs.same (by rw [hst]; rfl)) h.rings

lemma clearInfo_ok : Ok κ (.proc p) (clearInfo c) (fun _ l' => l' = locked (.freeing b i c.toList))
    (locked (.found b c i)) := by
  refine safe_lift fun s ℓ h hl => ?_
  have hst := stages_locked hl
  obtain ⟨hlink, hi, hreq, hret, hh⟩ := h.staged hl
  simp only [wp_modify]
  refine ⟨_, h.move (g := .freeing b i c.toList) hl rfl rfl rfl rfl rfl rfl rfl ?_ (fun _ _ => rfl) rfl
    rfl ?_ (h.descs.same (by rw [hst]; rfl)) (h.rings.same _ _ _ _ _ _ _), rfl⟩
  · intro d hd
    refine ⟨rfl, update_of_ne ?_ ..⟩
    rintro rfl
    exact hd (by simp [Stage.own, Idx.toList])
  · refine ⟨⟨hlink.flags0, hlink.next0, hlink.flags1, hlink.next1, hlink.flags2⟩, hi, ?_, hret, hh⟩
    show (s.req i).proc = p
    rw [hreq]

lemma finish_ok : Ok κ (.proc p) (finish p i) (fun _ l' => l' = {}) (locked (.freeing b i [])) := by
  refine safe_lift fun s ℓ h hl => ?_
  have hst := stages_locked hl
  obtain ⟨-, hi, hproc, hret, hh⟩ := h.staged hl
  simp only [wp_bind, wp_get, wp_throwIf, wp_set]
  refine ⟨fun hn => absurd (h.locks.held hl rfl) hn, fun _ => ⟨_, ⟨?_, ?_, ?_, ?_⟩, rfl⟩⟩
  · exact h.locks.set (h.locks.others hl rfl) rfl (fun _ => trivial) (fun h => by cases h)
      (fun h => absurd rfl h)
  · rw [stages_update]
    exact h.descs.same (by rw [hst]; rfl)
  · rw [stages_update]
    have hcall : ∀ q r, update s.call p none q = some r → s.call q = some r := by
      intro q r hq
      by_cases hqp : q = p
      · rw [hqp, update_self] at hq
        cases hq
      · rwa [update_of_ne hqp] at hq
    refine h.calls.set (by simp only [update_self]; rfl) (fun q hq => update_of_ne hq ..)
      (fun q r b hq hr => h.calls.unique q r b (hcall q b hq) (hcall r b hr)) trivial ?_ ?_ ?_ ?_
    · intro q hq
      refine h.others hl rfl (fun _ _ => ⟨rfl, rfl⟩) (fun _ _ => rfl) le_rfl (fun _ _ => rfl) ?_
        (fun _ hi => hi) hq
      intro j hj
      exact update_of_ne (fun hji => hj (by rw [hji]; rfl)) ..
    · intro j hj hnot
      have hji : j ≠ i := by
        rintro rfl
        simp only [update_self] at hnot
        cases hnot
      have hlive := h.calls.live j hj ((update_of_ne hji ..).symm.trans hnot)
      refine .inr ⟨fun hq => ?_, hlive⟩
      rw [show (s.req j).proc = p from hq, hst] at hlive
      exact hji (Option.some.inj hlive).symm
    · intro j hj hd
      by_cases hji : j = i
      · rw [hji]
        exact hh
      · exact h.calls.handled j hj ((update_of_ne hji ..).symm.trans hd)
    · intro j hj
      exact (update_of_ne (by have : s.sent ≤ j := hj; omega) ..).trans (h.calls.fresh j hj)
  · exact h.rings.same _ _ _ _ _ _ _

end Xv6.Virtio
