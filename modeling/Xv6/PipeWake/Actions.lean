import Xv6.PipeWake.Program

/-!
What holds of a pipe and of those that sleep on it: each may go on sleeping, or the process that
holds the lock of the pipe is going to wake it up. Every action keeps this.
-/

namespace Xv6.PipeWake

open Lib.Wp Lib.Conc Pipes Function

/-! ### The invariant -/

/-- Who sleeps on the channel may go on doing so. -/
def Quiet (pi : Pipe) : Chan → Prop
  | .nread => pi.isEmpty ∧ pi.writeopen = true
  | .nwrite => pi.isFull ∧ pi.readopen = true

/-- How far a process is in going to sleep: it has decided to, or it has left its CPU. -/
inductive Pend
  | none
  | pre (c : Chan)
  | parked (c : Chan)

/-- What a process knows and owns. -/
structure Ghost where
  /-- The pipe, if the process holds its lock. -/
  pipe : Option Pipe := none
  /-- Whether it holds its own lock. -/
  self : Bool := false
  pend : Pend := .none
  /-- It is going to wake up those that sleep on a channel, from a process on. -/
  owes : Option (Chan × ℕ) := none
  trying : Bool := false

/-- Process `p` may sleep on `c`, or is going to be woken up. -/
def Good (pi : Pipe) (ℓ : ℕ → Ghost) (c : Chan) (p : ℕ) : Prop :=
  Quiet pi c ∨ ∃ h k, (ℓ h).owes = some (c, k) ∧ k ≤ p

structure Inv (s : State) (ℓ : ℕ → Ghost) : Prop where
  lock : ∀ p, s.lock = some p ↔ (ℓ p).pipe ≠ none
  pipe : ∀ p pi, (ℓ p).pipe = some pi → s.pi = pi
  busy : ∀ p, s.busy p = (ℓ p).self
  pre : ∀ p c, (ℓ p).pend = .pre c →
    ((ℓ p).pipe ≠ none ∨ (ℓ p).self = true) ∧ Good s.pi ℓ c p
  parked : ∀ p c, (ℓ p).pend = .parked c → (s.proc p).chan = some c ∧
    (s.proc p).state ≠ .running ∧ ((s.proc p).state = .sleeping → Good s.pi ℓ c p)
  asleep : ∀ p, (s.proc p).state = .sleeping → ∃ c, (ℓ p).pend = .parked c
  owes : ∀ p c k, (ℓ p).owes = some (c, k) → (ℓ p).pipe ≠ none
  lt : ∀ p, (ℓ p).pend ≠ .none → p < NPROC
  trying : ∀ p, s.trying p = (ℓ p).trying

abbrev Ok {α : Type} (p : ℕ) (x : Code α) (Q : α → Ghost → Prop) (l : Ghost) : Prop :=
  Safe Inv (fun _ s => Patient s) (fun _ s => s) (fun e _ => e = .hang) p x Q l

variable {s s' : State} {ℓ : ℕ → Ghost} {l l' : Ghost} {p : ℕ} {pi : Pipe} {c : Chan}

/-! ### Actions of a process on itself -/

namespace Inv

lemma pipe_unique (h : Inv s ℓ) {q : ℕ} (hp : (ℓ p).pipe ≠ none) (hq : (ℓ q).pipe ≠ none) :
    q = p := by
  have h1 := (h.lock p).mpr hp
  have h2 := (h.lock q).mpr hq
  exact Option.some.inj (h2.symm.trans h1)

lemma good_congr {ℓ' : ℕ → Ghost} (hℓ : ∀ q, (ℓ' q).owes = (ℓ q).owes) {q : ℕ}
    (h : Good pi ℓ c q) : Good pi ℓ' c q := by
  refine h.imp_right ?_
  rintro ⟨x, k, hx, hk⟩
  exact ⟨x, k, (hℓ x).trans hx, hk⟩

section

variable (h : Inv s ℓ) (hl : ℓ p = l)

include h hl

/-- A process changes what is its own: its record, its lock, and what it knows. -/
lemma own (hpi : s'.pi = s.pi) (hlock : s'.lock = s.lock)
    (hproc : ∀ q, q ≠ p → s'.proc q = s.proc q) (hbusy : s'.busy = update s.busy p l'.self)
    (htrying : s'.trying = update s.trying p l'.trying) (hpipe : l'.pipe = l.pipe)
    (howes : l'.owes = l.owes)
    (hpre : ∀ c, l'.pend = .pre c → (l.pipe ≠ none ∨ l'.self = true) ∧ Good s.pi ℓ c p)
    (hparked : ∀ c, l'.pend = .parked c → (s'.proc p).chan = some c ∧
      (s'.proc p).state ≠ .running ∧ ((s'.proc p).state = .sleeping → Good s.pi ℓ c p))
    (hasleep : (s'.proc p).state = .sleeping → ∃ c, l'.pend = .parked c)
    (hlt : l'.pend ≠ .none → p < NPROC) : Inv s' (update ℓ p l') := by
  have hself : update ℓ p l' p = l' := update_self ..
  have hne : ∀ q, q ≠ p → update ℓ p l' q = ℓ q := fun q hq => update_of_ne hq ..
  have hpipes := update_proj (g := ℓ) (t := p) Ghost.pipe (by rw [hpipe, hl])
  have howed := update_proj (g := ℓ) (t := p) Ghost.owes (by rw [howes, hl])
  constructor
  case lock => intro q; rw [hlock, hpipes]; exact h.lock q
  case pipe => intro q; rw [hpipes, hpi]; exact h.pipe q
  case busy =>
    intro q
    rw [hbusy]
    by_cases hq : q = p
    · rw [hq, hself, update_self]
    · rw [hne q hq, update_of_ne hq, h.busy q]
  case pre =>
    intro q c hc
    rw [hpi]
    by_cases hq : q = p
    · subst hq
      rw [hself] at hc ⊢
      rw [hpipe]
      exact ⟨(hpre c hc).1, good_congr howed (hpre c hc).2⟩
    · rw [hne q hq] at hc ⊢
      exact ⟨(h.pre q c hc).1, good_congr howed (h.pre q c hc).2⟩
  case parked =>
    intro q c hc
    rw [hpi]
    by_cases hq : q = p
    · subst hq
      rw [hself] at hc
      obtain ⟨h1, h2, h3⟩ := hparked c hc
      exact ⟨h1, h2, fun hs => good_congr howed (h3 hs)⟩
    · rw [hne q hq] at hc
      rw [hproc q hq]
      obtain ⟨h1, h2, h3⟩ := h.parked q c hc
      exact ⟨h1, h2, fun hs => good_congr howed (h3 hs)⟩
  case asleep =>
    intro q hs
    by_cases hq : q = p
    · subst hq
      rw [hself]
      exact hasleep hs
    · rw [hproc q hq] at hs
      rw [hne q hq]
      exact h.asleep q hs
  case owes => intro q c k hk; rw [howed] at hk; rw [hpipes]; exact h.owes q c k hk
  case lt =>
    intro q hq'
    by_cases hq : q = p
    · subst hq
      rw [hself] at hq'
      exact hlt hq'
    · rw [hne q hq] at hq'
      exact h.lt q hq'
  case trying =>
    intro q
    rw [htrying]
    by_cases hq : q = p
    · rw [hq, hself, update_self]
    · rw [hne q hq, update_of_ne hq, h.trying q]

lemma not_asleep (hpend : l.pend = .none) :
    (s.proc p).state ≠ .sleeping := by
  intro hs
  obtain ⟨c, hc⟩ := h.asleep p hs
  rw [hl, hpend] at hc
  cases hc

lemma trying_self (hl' : l'.trying = l.trying) :
    s.trying = update s.trying p l'.trying := by
  rw [hl', ← hl, ← h.trying p, update_eq_self]

lemma busy_self (hl' : l'.self = l.self) :
    s.busy = update s.busy p l'.self := by
  rw [hl', ← hl, ← h.busy p, update_eq_self]

/-- A process changes the pipe or what it holds and owes of it, and wakes up others, but it is not
further in going to sleep. -/
lemma keep (hrec : ∀ q, (s'.proc q).chan = (s.proc q).chan ∧
      ((s'.proc q).state = (s.proc q).state ∨
        (s.proc q).state = .sleeping ∧ (s'.proc q).state = .runnable))
    (hbusy : s'.busy = s.busy) (htrying : s'.trying = s.trying) (hpend : l'.pend = l.pend)
    (hself : l'.self = l.self) (htry : l'.trying = l.trying)
    (hlock : ∀ q, s'.lock = some q ↔ (update ℓ p l' q).pipe ≠ none)
    (hpipe : ∀ q pi, (update ℓ p l' q).pipe = some pi → s'.pi = pi)
    (hpre : ∀ c, l.pend = .pre c → l'.pipe ≠ none ∨ l.self = true)
    (howes : ∀ c k, l'.owes = some (c, k) → l'.pipe ≠ none)
    (hgood : ∀ q c, ((ℓ q).pend = .pre c ∨
        (ℓ q).pend = .parked c ∧ (s'.proc q).state = .sleeping) →
      Good s.pi ℓ c q → Good s'.pi (update ℓ p l') c q) :
    Inv s' (update ℓ p l') := by
  have hself' : update ℓ p l' p = l' := update_self ..
  have hne : ∀ q, q ≠ p → update ℓ p l' q = ℓ q := fun q hq => update_of_ne hq ..
  have hpends := update_proj (g := ℓ) (t := p) Ghost.pend (by rw [hpend, hl])
  have hasleep : ∀ q, (s'.proc q).state = .sleeping → (s.proc q).state = .sleeping := by
    intro q hs
    rcases (hrec q).2 with hst | ⟨hst, -⟩
    · rw [← hst, hs]
    · exact hst
  constructor
  case lock => exact hlock
  case pipe => exact hpipe
  case busy =>
    intro q
    rw [hbusy, update_proj Ghost.self (by rw [hself, hl])]
    exact h.busy q
  case pre =>
    intro q c hc
    rw [hpends] at hc
    obtain ⟨h1, h2⟩ := h.pre q c hc
    refine ⟨?_, hgood q c (.inl hc) h2⟩
    by_cases hq : q = p
    · rw [hq, hl] at hc
      rw [hq, hself', hself]
      exact hpre c hc
    · rw [hne q hq]
      exact h1
  case parked =>
    intro q c hc
    rw [hpends] at hc
    obtain ⟨h1, h2, h3⟩ := h.parked q c hc
    refine ⟨(hrec q).1.trans h1, ?_, fun hs => hgood q c (.inr ⟨hc, hs⟩) (h3 (hasleep q hs))⟩
    rcases (hrec q).2 with hst | ⟨-, hst⟩
    · rw [hst]
      exact h2
    · rw [hst]
      simp
  case asleep =>
    intro q hs
    rw [hpends]
    exact h.asleep q (hasleep q hs)
  case owes =>
    intro q c k hk
    by_cases hq : q = p
    · rw [hq, hself'] at hk ⊢
      exact howes c k hk
    · rw [hne q hq] at hk ⊢
      exact h.owes q c k hk
  case lt => intro q hq; rw [hpends] at hq; exact h.lt q hq
  case trying =>
    intro q
    rw [htrying, update_proj Ghost.trying (by rw [htry, hl])]
    exact h.trying q

lemma setLock (hpi : s'.pi = s.pi) (hproc : s'.proc = s.proc) (hbusy : s'.busy = s.busy)
    (htrying : s'.trying = s.trying) (hpend : l'.pend = l.pend) (hself : l'.self = l.self)
    (htry : l'.trying = l.trying) (hlock : ∀ q, s'.lock = some q ↔ (update ℓ p l' q).pipe ≠ none)
    (hpipe : ∀ pi, l'.pipe = some pi → s.pi = pi)
    (hpre : ∀ c, l.pend = .pre c → l'.pipe ≠ none ∨ l.self = true) (howes : l'.owes = none)
    (hsettled : ∀ c k, l.owes = some (c, k) → NPROC ≤ k) :
    Inv s' (update ℓ p l') := by
  refine h.keep hl (fun q => by rw [hproc]; exact ⟨rfl, .inl rfl⟩) hbusy htrying hpend hself htry
    hlock (fun q pi hq' => ?_) hpre (by simp [howes]) fun q c hq => ?_
  · rw [hpi]
    by_cases hq : q = p
    · rw [hq, update_self] at hq'
      exact hpipe pi hq'
    · rw [update_of_ne hq] at hq'
      exact h.pipe q pi hq'
  · rw [hpi]
    refine Or.imp_right ?_
    rintro ⟨x, k, hx, hk⟩
    by_cases hxp : x = p
    · -- what `p` owes, it has done
      rw [hxp, hl] at hx
      have h1 := hsettled c k hx
      have h2 := h.lt q (by rcases hq with hq | ⟨hq, -⟩ <;> simp [hq])
      omega
    · exact ⟨x, k, by rw [update_of_ne hxp]; exact hx, hk⟩

end

end Inv

lemma acquire_ok (hpipe : l.pipe = none) (howes : l.owes = none) :
    Ok p (acquire p) (fun _ l' => ∃ pi, l' = { l with pipe := some pi }) l := by
  refine safe_lift fun s ℓ h hl => ?_
  have hlock : s.lock ≠ some p := by
    rw [Ne, h.lock p, hl, hpipe]
    simp
  simp only [wp_bind, wp_get, wp_throwIf, wp_set]
  refine ⟨fun hp => absurd hp hlock, fun _ => ⟨fun _ => trivial, fun hfree => ?_⟩⟩
  rw [not_not] at hfree
  refine ⟨_, ?_, s.pi, rfl⟩
  refine h.setLock hl rfl rfl rfl rfl rfl rfl rfl (fun q => ?_) (fun _ hpi => Option.some.inj hpi)
    (fun _ _ => .inl (by simp)) howes (by simp [howes])
  by_cases hq : q = p
  · rw [hq, update_self]
    simp
  · rw [update_of_ne hq]
    have hnone : (ℓ q).pipe = none := by
      by_contra hc
      have := (h.lock q).mpr hc
      rw [hfree] at this
      cases this
    simp [hnone, Ne.symm hq]

lemma release_ok (hpipe : l.pipe ≠ none) (hpre : ∀ c, l.pend = .pre c → l.self = true)
    (hsettled : ∀ c k, l.owes = some (c, k) → NPROC ≤ k) :
    Ok p (release p) (fun _ l' => l' = { l with pipe := none, owes := none }) l := by
  refine safe_lift fun s ℓ h hl => ?_
  have hlock : s.lock = some p := (h.lock p).mpr (by rwa [hl])
  simp only [wp_bind, wp_get, wp_throwIf, wp_set]
  refine ⟨fun hp => absurd hlock hp, fun _ => ⟨_, ?_, rfl⟩⟩
  refine h.setLock hl rfl rfl rfl rfl rfl rfl rfl (fun q => ?_) (fun _ hpi => by cases hpi)
    (fun c hc => .inr (hpre c hc)) rfl hsettled
  by_cases hq : q = p
  · rw [hq, update_self]
    simp
  · rw [update_of_ne hq]
    have hnone : (ℓ q).pipe = none := by
      by_contra hc
      exact hq (h.pipe_unique (by rwa [hl]) hc)
    simp [hnone]

lemma acquireSelf_ok {P : Pend} (hpend : l.pend = .none)
    (hP : ∀ c, P = .pre c → ∃ pi, l.pipe = some pi ∧ Quiet pi c) (hne : ∀ c, P ≠ .parked c)
    (hp : p < NPROC) :
    Ok p (acquireSelf p) (fun _ l' => l' = { l with self := true, pend := P }) l := by
  refine safe_lift fun s ℓ h hl => ?_
  simp only [wp_bind, wp_get, wp_throwIf, wp_set]
  refine ⟨fun _ => trivial, fun _ => ⟨_, ?_, rfl⟩⟩
  refine h.own hl rfl rfl (fun _ _ => rfl) rfl (h.trying_self hl rfl) rfl rfl
    (fun c hc => ?_) (fun c hc => ?_) (fun hs => absurd hs (h.not_asleep hl hpend)) fun _ => hp
  · obtain ⟨pi, hpi, hquiet⟩ := hP c hc
    refine ⟨.inl (by rw [hpi]; simp), .inl ?_⟩
    rw [h.pipe p pi (by rw [hl, hpi])]
    exact hquiet
  · exact absurd hc (hne c)

lemma releaseSelf_ok (hpend : l.pend = .none) :
    Ok p (releaseSelf p) (fun _ l' => l' = { l with self := false }) l := by
  refine safe_lift fun s ℓ h hl => ?_
  rw [wp_modify]
  refine ⟨_, ?_, rfl⟩
  refine h.own hl rfl rfl (fun _ _ => rfl) rfl (h.trying_self hl rfl) rfl rfl
    (fun c hc => ?_) (fun c hc => ?_) (fun hs => absurd hs (h.not_asleep hl hpend))
    fun hne => absurd hpend hne
  · exact absurd (hpend.symm.trans hc) (by simp)
  · exact absurd (hpend.symm.trans hc) (by simp)

/-! ### Sleeping -/

lemma fallAsleep_ok (hpend : l.pend = .pre c) :
    Ok p (write fun s => s.setProc p fun q => { q with chan := some c, state := .sleeping })
      (fun _ l' => l' = { l with pend := .parked c }) l := by
  refine safe_lift fun s ℓ h hl => ?_
  rw [wp_modify]
  refine ⟨_, ?_, rfl⟩
  have hself : (s.setProc p fun q => { q with chan := some c, state := .sleeping }).proc p =
      { s.proc p with chan := some c, state := .sleeping } := update_self ..
  refine h.own hl rfl rfl (fun q hq => update_of_ne hq ..) (h.busy_self hl rfl)
    (h.trying_self hl rfl) rfl rfl (fun _ hc => by cases hc) (fun c' hc => ?_) (fun _ => ⟨c, rfl⟩) ?_
  · obtain rfl : c = c' := by simpa using hc
    rw [hself]
    exact ⟨rfl, by simp, fun _ => (h.pre p c (by rw [hl]; exact hpend)).2⟩
  · exact fun _ => h.lt p (by rw [hl, hpend]; simp)

lemma swtchOut_ok (hpend : ∀ c, l.pend ≠ .pre c) :
    Ok p (write fun s => s.setBusy p false) (fun _ l' => l' = { l with self := false }) l := by
  refine safe_lift fun s ℓ h hl => ?_
  rw [wp_modify]
  refine ⟨_, ?_, rfl⟩
  refine h.own hl rfl rfl (fun _ _ => rfl) rfl (h.trying_self hl rfl) rfl rfl
    (fun c hc => absurd hc (hpend c)) (fun c hc => h.parked p c (by rw [hl]; exact hc))
    (fun hs => ?_) fun hne => h.lt p (by rw [hl]; exact hne)
  obtain ⟨c, hc⟩ := h.asleep p hs
  exact ⟨c, by rw [hl] at hc; exact hc⟩

lemma swtchIn_ok :
    Ok p (liftM (do
      let s ← get
      throwIf (s.busy p = true ∨ (s.proc p).state ≠ .runnable) .hang
      set ((s.setBusy p true).setProc p fun q => { q with state := .running }) : PipeM Unit))
      (fun _ l' => l' = { l with self := true, pend := .none }) l := by
  refine safe_lift fun s ℓ h hl => ?_
  simp only [wp_bind, wp_get, wp_throwIf, wp_set]
  refine ⟨fun _ => trivial, fun _ => ⟨_, ?_, rfl⟩⟩
  have hself : ((s.setBusy p true).setProc p fun q => { q with state := .running }).proc p =
      { s.proc p with state := .running } := update_self ..
  refine h.own hl rfl rfl (fun q hq => update_of_ne hq ..) rfl (h.trying_self hl rfl) rfl rfl
    (fun _ hc => by cases hc) (fun _ hc => by cases hc) (fun hs => ?_) fun hne => absurd rfl hne
  rw [hself] at hs
  cases hs

lemma sched_ok (hpend : ∀ c, l.pend ≠ .pre c) :
    Ok p (sched p) (fun _ l' => l' = { l with self := true, pend := .none }) l := by
  refine Safe.bind (swtchOut_ok hpend) ?_
  rintro _ l' rfl
  exact swtchIn_ok

lemma setSelf_ok {f : Proc → Proc} (hpend : l.pend = .none)
    (hf : ∀ q, q.state ≠ .sleeping → (f q).state ≠ .sleeping) :
    Ok p (write fun s => s.setProc p f) (fun _ l' => l' = l) l := by
  refine safe_lift fun s ℓ h hl => ?_
  rw [wp_modify]
  refine ⟨l, ?_, rfl⟩
  have hself : (s.setProc p f).proc p = f (s.proc p) := update_self ..
  refine h.own hl rfl rfl (fun q hq => update_of_ne hq ..) (h.busy_self hl rfl)
    (h.trying_self hl rfl) rfl rfl (fun c hc => ?_) (fun c hc => ?_) (fun hs => ?_)
    fun hne => absurd hpend hne
  · rw [hpend] at hc
    cases hc
  · rw [hpend] at hc
    cases hc
  · rw [hself] at hs
    exact absurd hs (hf _ (h.not_asleep hl hpend))

lemma yield_ok (hself : l.self = false) (hpend : l.pend = .none) (hp : p < NPROC) :
    Ok p (yield p) (fun _ l' => l' = l) l := by
  refine Safe.bind (acquireSelf_ok (P := .none) hpend (fun _ hc => by cases hc)
    (fun _ hc => by cases hc) hp) ?_
  rintro _ l' rfl
  refine Safe.bind (setSelf_ok rfl (by simp)) ?_
  rintro _ l' rfl
  refine Safe.bind (sched_ok (by simp)) ?_
  rintro _ l' rfl
  refine Safe.mono (releaseSelf_ok rfl) ?_
  rintro _ l' rfl
  obtain ⟨pipe, self, pend, owes, trying⟩ := l
  cases hself
  cases hpend
  rfl

/-- **`sleep`**, called where sleeping is right, with all that is owed done. -/
lemma sleep_ok (hpipe : l.pipe = some pi) (hself : l.self = false) (hpend : l.pend = .none)
    (hquiet : Quiet pi c) (hsettled : ∀ c k, l.owes = some (c, k) → NPROC ≤ k) (hp : p < NPROC) :
    Ok p (sleep p c) (fun _ l' => ∃ pi, l' = { l with pipe := some pi, owes := none }) l := by
  refine Safe.bind (acquireSelf_ok (P := .pre c) hpend (fun c' hc => ?_)
    (fun _ hc => by cases hc) hp) ?_
  · obtain rfl : c = c' := by simpa using hc
    exact ⟨pi, hpipe, hquiet⟩
  rintro _ l' rfl
  refine Safe.bind (release_ok (by simp [hpipe]) (fun _ _ => rfl) hsettled) ?_
  rintro _ l' rfl
  refine Safe.bind (fallAsleep_ok rfl) ?_
  rintro _ l' rfl
  refine Safe.bind (sched_ok (by simp)) ?_
  rintro _ l' rfl
  refine Safe.bind (setSelf_ok rfl (by simp)) ?_
  rintro _ l' rfl
  refine Safe.bind (releaseSelf_ok rfl) ?_
  rintro _ l' rfl
  refine Safe.mono (acquire_ok rfl rfl) ?_
  rintro _ l' ⟨pi', rfl⟩
  obtain ⟨pipe, self, pend, owes, trying⟩ := l
  cases hself
  cases hpend
  exact ⟨pi', rfl⟩

/-! ### Waking others -/

lemma Inv.touch (h : Inv s ℓ) (hl : ℓ p = l) {i : ℕ} {f : Proc → Proc} {o : Option (Chan × ℕ)}
    (hchan : ∀ q, (f q).chan = q.chan)
    (hstate : ∀ q, (f q).state = q.state ∨ (q.state = .sleeping ∧ (f q).state = .runnable))
    (ho : ∀ c k, o = some (c, k) → l.pipe ≠ none)
    (hgood : ∀ q c, ((ℓ q).pend = .pre c ∨
        (ℓ q).pend = .parked c ∧ ((s.setProc i f).proc q).state = .sleeping) →
      Good s.pi ℓ c q → Good s.pi (update ℓ p { l with owes := o }) c q) :
    Inv (s.setProc i f) (update ℓ p { l with owes := o }) := by
  have hpipe := update_proj (g := ℓ) (t := p) (r := { l with owes := o }) Ghost.pipe (by rw [hl])
  refine h.keep hl (fun q => ?_) rfl rfl rfl rfl rfl (fun q => by rw [hpipe]; exact h.lock q)
    (fun q pi => by rw [hpipe]; exact h.pipe q pi) (fun c hc => ?_) ho hgood
  · by_cases hq : q = i
    · subst hq
      have heq : (s.setProc q f).proc q = f (s.proc q) := update_self ..
      rw [heq]
      exact ⟨hchan _, hstate _⟩
    · have heq : (s.setProc i f).proc q = s.proc q := update_of_ne hq ..
      rw [heq]
      exact ⟨rfl, .inl rfl⟩
  · have := (h.pre p c (by rw [hl]; exact hc)).1
    rwa [hl] at this

lemma wake_chan (q : Proc) : (wake c q).chan = q.chan := by
  unfold wake
  split <;> rfl

lemma wake_state (q : Proc) :
    (wake c q).state = q.state ∨ (q.state = .sleeping ∧ (wake c q).state = .runnable) := by
  unfold wake
  split
  · rename_i h
    exact .inr ⟨h.1, rfl⟩
  · exact .inl rfl

lemma wakeOne_ok {k : ℕ} (hpend : l.pend = .none) (howes : l.owes = some (c, k)) :
    Ok p (withProc k fun s => ((), s.setProc k (wake c)))
      (fun _ l' => l' = { l with owes := some (c, k + 1) }) l := by
  refine safe_lift fun s ℓ h hl => ?_
  simp only [wp_bind, wp_get, wp_throwIf, wp_set, wp_pure]
  refine ⟨fun _ => trivial, fun hfree => ⟨_, ?_, rfl⟩⟩
  have hpipe : l.pipe ≠ none := by
    have := h.owes p c k (by rw [hl]; exact howes)
    rwa [hl] at this
  refine h.touch hl wake_chan wake_state (fun _ _ _ => hpipe) fun q c' hq hgood => ?_
  refine hgood.imp_right ?_
  rintro ⟨x, j, hx, hj⟩
  by_cases hxp : x = p
  · rw [hxp, hl, howes] at hx
    obtain ⟨rfl, rfl⟩ : c = c' ∧ k = j := by simpa using hx
    refine ⟨p, k + 1, by rw [update_self], ?_⟩
    refine Nat.lt_of_le_of_ne hj ?_
    rintro rfl
    rcases hq with hq | ⟨hq, hs⟩
    · -- one that is about to sleep holds a lock
      rcases (h.pre k c hq).1 with hk | hk
      · obtain rfl := h.pipe_unique (p := p) (by rwa [hl]) hk
        rw [hl, hpend] at hq
        cases hq
      · rw [← h.busy k] at hk
        exact hfree hk
    · -- one that slept on the channel sleeps no more
      have heq : (s.setProc k (wake c)).proc k = wake c (s.proc k) := update_self ..
      rw [heq] at hs
      have hs' : (s.proc k).state = .sleeping := by
        rcases wake_state (c := c) (s.proc k) with hst | ⟨hst, -⟩
        · rw [← hst, hs]
        · exact hst
      rw [wake, if_pos ⟨hs', (h.parked k c hq).1⟩] at hs
      cases hs
  · exact ⟨x, j, by rw [update_of_ne hxp]; exact hx, hj⟩

lemma touch_ok {α : Type} {i : ℕ} {f : State → α × State}
    (hf : ∀ s, (f s).2 = s ∨ ∃ g, (f s).2 = s.setProc i g ∧ (∀ q, (g q).chan = q.chan) ∧
      ∀ q, (g q).state = q.state ∨ (q.state = .sleeping ∧ (g q).state = .runnable)) :
    Ok p (withProc i f) (fun _ l' => l' = l) l := by
  refine safe_lift fun s ℓ h hl => ?_
  simp only [wp_bind, wp_get, wp_throwIf, wp_set, wp_pure]
  refine ⟨fun _ => trivial, fun _ => ⟨l, ?_, rfl⟩⟩
  have hid : update ℓ p l = ℓ := by rw [← hl, update_eq_self]
  rcases hf s with hs | ⟨g, hs, hchan, hstate⟩
  · rw [hs, hid]
    exact h
  · rw [hs]
    refine h.touch (o := l.owes) hl hchan hstate (fun c k hk => ?_) fun q c _ hgood => ?_
    · have := h.owes p c k (by rw [hl]; exact hk)
      rwa [hl] at this
    · exact Inv.good_congr (fun q => congrArg Ghost.owes (congrFun hid q)) hgood

/-- **`wakeup`** wakes up all that sleep on the channel, if the process owes that. -/
lemma wakeup_ok (hpend : l.pend = .none) (howes : l.owes = none ∨ l.owes = some (c, 0)) :
    Ok p (wakeup c) (fun _ l' => (l.owes = none ∧ l' = l) ∨
      l' = { l with owes := some (c, NPROC) }) l := by
  rcases howes with howes | howes
  · refine Safe.mono (safe_forUp (fun _ l' => l' = l) (n := NPROC) (Nat.zero_le _) (by omega) rfl
      (fun j l' hl' => safe_pure ⟨by simp, rfl⟩) fun j l' _ hl' => ?_) fun _ l' hl' => .inl ⟨howes, hl'⟩
    rw [hl']
    exact touch_ok fun s => .inr ⟨wake c, rfl, wake_chan, wake_state⟩
  · refine Safe.mono (safe_forUp (fun j l' => l' = { l with owes := some (c, j) }) (n := NPROC)
      (Nat.zero_le _) (by omega) ?_ (fun j l' hl' => safe_pure ⟨by simp, rfl⟩)
      fun j l' _ hl' => ?_) fun _ l' hl' => .inr hl'
    · rw [← howes]
    · subst hl'
      exact wakeOne_ok hpend rfl

lemma kill_ok (pid : ℕ) : Ok p (kill pid) (fun _ l' => l' = l) l := by
  refine safe_rounds (fun _ l' => l' = l) rfl (fun _ => fun s ℓ _ _ _ => rfl) ?_
  rintro i l' rfl
  split
  · refine Safe.bind (touch_ok fun s => ?_) ?_
    · unfold killOne
      split
      · refine .inr ⟨fun q => { q with
          killed := true, state := if q.state = .sleeping then .runnable else q.state }, rfl,
          fun _ => rfl, fun q => ?_⟩
        by_cases hq : q.state = .sleeping
        · exact .inr ⟨hq, if_pos hq⟩
        · exact .inl (if_neg hq)
      · exact .inl rfl
    · rintro b l' rfl
      split
      · exact rfl
      · exact rfl
  · exact rfl

/-! ### The pipe -/

/-- A process that holds the lock of the pipe changes it: it owes those that sleep on `c`, and
those that sleep on the other channel may go on. -/
lemma setPipe_ok {f : Pipe → Pipe} (hpipe : l.pipe = some pi)
    (howes : ∀ c' k, l.owes = some (c', k) → c' = c)
    (hf : ∀ c', c' ≠ c → Quiet pi c' → Quiet (f pi) c') :
    Ok p (write fun s => { s with pi := f s.pi })
      (fun _ l' => l' = { l with pipe := some (f pi), owes := some (c, 0) }) l := by
  refine safe_lift fun s ℓ h hl => ?_
  rw [wp_modify]
  refine ⟨_, ?_, rfl⟩
  set r : Ghost := { l with pipe := some (f pi), owes := some (c, 0) } with hr
  have hpi : s.pi = pi := h.pipe p pi (by rw [hl, hpipe])
  have hlp : (ℓ p).pipe ≠ none := by rw [hl, hpipe]; simp
  refine h.keep hl (fun q => ⟨rfl, .inl rfl⟩) rfl rfl rfl rfl rfl (fun q => ?_) (fun q pi' hq' => ?_)
    (fun _ _ => .inl (by simp [hr])) (fun _ _ _ => by simp [hr]) fun q c' _ hq => ?_
  · refine (h.lock q).trans ?_
    by_cases hq : q = p
    · rw [hq, update_self]
      exact ⟨fun _ => by simp [hr], fun _ => hlp⟩
    · rw [update_of_ne hq]
  · by_cases hq : q = p
    · rw [hq, update_self] at hq'
      change f s.pi = pi'
      rw [hpi]
      exact Option.some.inj hq'
    · rw [update_of_ne hq] at hq'
      exact absurd (h.pipe_unique hlp (by rw [hq']; simp)) hq
  · by_cases hc : c' = c
    · exact .inr ⟨p, 0, by rw [update_self, hc], Nat.zero_le _⟩
    · rcases hq with hq | ⟨x, k, hx, hk⟩
      · left
        change Quiet (f s.pi) c'
        rw [hpi] at hq ⊢
        exact hf c' hc hq
      · -- only `p` can owe something
        obtain rfl := h.pipe_unique hlp (h.owes x c' k hx)
        rw [hl] at hx
        exact absurd (howes c' k hx) hc

lemma read_ok {α : Type} {f : State → α} (hpipe : l.pipe = some pi) :
    Ok p (read f) (fun a l' => (∃ s, s.pi = pi ∧ a = f s) ∧ l' = l) l := by
  refine safe_lift fun s ℓ h hl => ?_
  rw [wp_map, wp_get]
  refine ⟨l, ?_, ⟨s, h.pipe p pi (by rw [hl, hpipe]), rfl⟩, rfl⟩
  rw [← hl, update_eq_self]
  exact h

end Xv6.PipeWake
