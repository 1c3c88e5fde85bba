import Xv6.Kern.Ghost

/-!
How the actions of the kernel keep the invariant of locks and CPUs.
-/

namespace Xv6.Kern

open Lib.Wp Lib.Conc
open Function (forall_update_iff update update_of_ne update_self)

/-! ### Changes of the state -/

namespace State

section

variable (s : State) (c i j : ℕ) (k : Lock) (F : Proc → Proc)

@[simp] lemma setProc_self : (s.setProc j F).proc j = F (s.proc j) := by simp [setProc]

lemma setProc_of_ne {i j : ℕ} (h : i ≠ j) : (s.setProc j F).proc i = s.proc i := by
  simp [setProc, h]

lemma setProc_proj {α : Type} {s : State} {j : ℕ} {F : Proc → Proc} (X : Proc → α)
    (h : X (F (s.proc j)) = X (s.proc j)) (i : ℕ) : X ((s.setProc j F).proc i) = X (s.proc i) := by
  by_cases hi : i = j
  · rw [hi, setProc_self, h]
  · rw [setProc_of_ne _ _ hi]

@[simp] lemma take_held : (s.take k).held = update s.held k (some s.cur) := rfl

@[simp] lemma take_cpu_proc : ((s.take k).cpu c).proc = (s.cpu c).proc := by
  by_cases hc : c = s.cur
  · simp [take, setNoff, hc]
  · simp [take, setNoff, hc]

lemma take_noff_self : ((s.take k).cpu s.cur).noff = (s.cpu s.cur).noff + 1 := by
  simp [take, setNoff]

lemma take_noff_of_ne {c : ℕ} (hc : c ≠ s.cur) : ((s.take k).cpu c).noff = (s.cpu c).noff := by
  simp [take, setNoff, hc]

@[simp] lemma drop_held : (s.drop k).held = update s.held k none := rfl

@[simp] lemma drop_cpu_proc : ((s.drop k).cpu c).proc = (s.cpu c).proc := by
  by_cases hc : c = s.cur
  · simp [drop, setNoff, hc]
  · simp [drop, setNoff, hc]

lemma drop_noff_self : ((s.drop k).cpu s.cur).noff = (s.cpu s.cur).noff - 1 := by
  simp [drop, setNoff]

lemma drop_noff_of_ne {c : ℕ} (hc : c ≠ s.cur) : ((s.drop k).cpu c).noff = (s.cpu c).noff := by
  simp [drop, setNoff, hc]

end

end State

section

variable {s : State} {g : Thread → Run} {t : Thread} {c c' i j : ℕ} {k : Lock}

/-- A change at the locks of one thread leaves the rest of what it knows. -/
structure LocksOnly (r r' : Run) : Prop where
  st : r'.st = r.st
  seen : r'.seen = r.seen
  pick : r'.pick = r.pick
  on : r'.on = r.on

lemma locksOnly_lock (r : Run) (k : Lock) : LocksOnly r (r.lock k) := ⟨rfl, rfl, rfl, rfl⟩

lemma locksOnly_unlock (r : Run) (k : Lock) : LocksOnly r (r.unlock k) := ⟨rfl, rfl, rfl, rfl⟩

namespace Base

section

variable {s' : State} (h : Base s g)

include h

lemma inj (hc : s.thread c = s.thread c') : c = c' := by
  cases hl : s.live c with
  | none =>
    rw [State.thread_of_none hl] at hc
    exact (State.thread_sched.mp hc.symm).1.symm
  | some i =>
    rw [State.thread_of_some hl] at hc
    have hl' := State.thread_proc.mp hc.symm
    exact h.uniq c c' i (h.away c i hl).1 (h.away c' i hl').1

lemma live_inj (hc : s.live c = some i) (hc' : s.live c' = some i) : c = c' :=
  h.inj ((State.thread_of_some hc).trans (State.thread_of_some hc').symm)

lemma excl (hk : k ∈ (g (s.thread c)).locks) (hk' : k ∈ (g (s.thread c')).locks) :
    c = c' := by
  have h1 := (h.lock c k).mpr hk
  have h2 := (h.lock c' k).mpr hk'
  rw [h1] at h2
  exact Option.some.inj h2

/-- Actions that change the locks of the thread that acts, and the state only there. -/
lemma relock {r : Run} (ht : s.thread s.cur = t) (hr : LocksOnly (g t) r) (hlive : s'.live = s.live)
    (hproc : s'.proc = s.proc) (hctx : s'.ctx = s.ctx)
    (hcpu : ∀ c, (s'.cpu c).proc = (s.cpu c).proc)
    (hlock : ∀ k, s'.held k = some s.cur ↔ k ∈ r.locks)
    (hother : ∀ k c, c ≠ s.cur → (s'.held k = some c ↔ s.held k = some c))
    (hnoff : (s'.cpu s.cur).noff = r.locks.card)
    (hnoff' : ∀ c, c ≠ s.cur → (s'.cpu c).noff = (s.cpu c).noff)
    (hguard : ∀ i, (g (.sched s.cur)).on = some i → (s.proc i).state = .running ∨ .proc i ∈ r.locks)
    (hmem : ∀ c i, t = .sched c → (g t).on = some i → .proc i ∈ r.locks)
    (hkeep : ∀ i, (g (.sched s.cur)).seen = some i ∨ (g (.sched s.cur)).pick = some i →
      .proc i ∈ r.locks) :
    Base s' (update g t r) := by
  have hth := State.thread_congr hlive
  have hne : ∀ c, c ≠ s.cur → s.thread c ≠ t := fun c hc hct => hc (h.inj (hct.trans ht.symm))
  have hon := update_proj (g := g) (t := t) Run.on hr.on
  have hseen := update_proj (g := g) (t := t) Run.seen hr.seen
  have hpick := update_proj (g := g) (t := t) Run.pick hr.pick
  have hst := update_proj (g := g) (t := t) Run.st hr.st
  -- a lock of a process that a scheduler works on stays with that scheduler
  have hheld : ∀ c i, s.held (.proc i) = some c → (c = s.cur → .proc i ∈ r.locks) →
      s'.held (.proc i) = some c := by
    intro c i hh hcur
    by_cases hc : c = s.cur
    · rw [hc, hlock]
      exact hcur hc
    · exact (hother _ c hc).mpr hh
  constructor
  case lock =>
    intro c k
    rw [hth]
    by_cases hc : c = s.cur
    · rw [hc, ht, update_self]
      exact hlock k
    · rw [update_of_ne (hne c hc), hother k c hc]
      exact h.lock c k
  case noff =>
    intro c
    rw [hth]
    by_cases hc : c = s.cur
    · rw [hc, ht, update_self]
      exact hnoff
    · rw [update_of_ne (hne c hc), hnoff' c hc]
      exact h.noff c
  case proc =>
    intro c
    rw [hcpu, hon]
    exact h.proc c
  case away =>
    intro c i hl
    rw [hlive] at hl
    have hst : (Thread.sched c) ≠ t := by
      rintro rfl
      obtain ⟨rfl, hnone⟩ := State.thread_sched.mp ht
      rw [hl] at hnone
      cases hnone
    rw [update_of_ne hst]
    exact h.away c i hl
  case uniq =>
    intro c c' i
    rw [hon, hon]
    exact h.uniq c c' i
  case guard =>
    intro c i
    rw [hon, hproc]
    intro hc
    rcases h.guard c i hc with hg | hg
    · exact .inl hg
    · by_cases hcur : c = s.cur
      · rw [hcur] at hc ⊢
        exact (hguard i hc).imp_right (hlock _).mpr
      · exact .inr (hheld c i hg fun h => absurd h hcur)
  case seen =>
    intro c i
    rw [hseen, hproc]
    intro hc
    obtain ⟨hh, hs⟩ := h.seen c i hc
    exact ⟨hheld c i hh fun h => hkeep i (.inl (h ▸ hc)), hs⟩
  case pick =>
    intro c i
    rw [hpick, hproc]
    intro hc
    obtain ⟨hh, hs, hu⟩ := h.pick c i hc
    refine ⟨hheld c i hh fun h => hkeep i (.inr (h ▸ hc)), hs, fun c' => ?_⟩
    rw [hon]
    exact hu c'
  case st =>
    intro c i hl
    rw [hst, hproc]
    exact h.st c i (hlive ▸ hl)
  case off =>
    intro i hl
    have hti : Thread.proc i ≠ t := by
      rintro rfl
      exact hl s.cur (by rw [hlive]; exact State.thread_proc.mp ht)
    rw [update_of_ne hti]
    exact h.off i (hlive ▸ hl)
  case ctx =>
    rw [hctx, hlive]
    exact h.ctx
  case made =>
    rw [hctx, hproc]
    exact h.made
  case kept => simpa only [hctx] using h.kept
  case bare => simpa only [hseen, hpick, hon] using h.bare
  case idle => simpa only [hst] using h.idle
  case mem =>
    intro c i
    rw [hon]
    intro hi
    by_cases hct : Thread.sched c = t
    · rw [hct, update_self]
      exact hmem c i hct.symm (hct ▸ hi)
    · rw [update_of_ne hct]
      exact h.mem c i hi

lemma acquire (ht : s.thread s.cur = t) (hk : s.held k = none) :
    Base (s.take k) (update g t ((g t).lock k)) := by
  have hlock : ∀ k', s.held k' = some s.cur ↔ k' ∈ (g t).locks := fun k' => ht ▸ h.lock s.cur k'
  have hin : k ∉ (g t).locks := by
    rw [← hlock, hk]
    simp
  refine h.relock ht (locksOnly_lock _ _) rfl rfl rfl (fun c => by simp) ?_ ?_ ?_
    (fun c hc => State.take_noff_of_ne _ _ hc) ?_ ?_ ?_
  · intro k'
    rw [State.take_held, Run.lock, Finset.mem_insert]
    by_cases hk' : k' = k
    · simp [hk']
    · rw [update_of_ne hk', hlock]
      simp [hk']
  · intro k' c hc
    rw [State.take_held]
    by_cases hk' : k' = k
    · rw [hk', update_self, hk]
      simp [Ne.symm hc]
    · rw [update_of_ne hk']
  · rw [State.take_noff_self, h.noff, ht, Run.lock, Finset.card_insert_of_notMem hin]
  · intro i hi
    refine (h.guard _ i hi).imp_right fun hh => ?_
    exact Finset.mem_insert_of_mem ((hlock _).mp hh)
  · intro c i htc hi
    rw [htc] at hi ⊢
    exact Finset.mem_insert_of_mem (h.mem c i hi)
  · intro i hi
    refine Finset.mem_insert_of_mem ((hlock _).mp ?_)
    rcases hi with hi | hi
    · exact (h.seen _ i hi).1
    · exact (h.pick _ i hi).1

/-- What a lock may be given up with: the process is RUNNING if it is its own lock, and a
scheduler is done with the process. -/
structure CanDrop (t : Thread) (r : Run) (k : Lock) : Prop where
  own : ∀ i, t = .proc i → k = .proc i → r.st = .running
  on : ∀ i, k = .proc i → r.on ≠ some i
  seen : ∀ i, k = .proc i → r.seen ≠ some i
  pick : ∀ i, k = .proc i → r.pick ≠ some i

omit h in
lemma CanDrop.of_idle {r : Run} (hst : ∀ i, t = .proc i → k = .proc i → r.st = .running)
    (hon : r.on = none) (hseen : r.seen = none) (hpick : r.pick = none) : CanDrop t r k := by
  refine ⟨hst, ?_, ?_, ?_⟩
  · simp [hon]
  · simp [hseen]
  · simp [hpick]

lemma release (ht : s.thread s.cur = t) (hk : k ∈ (g t).locks) (hd : CanDrop t (g t) k) :
    Base (s.drop k) (update g t ((g t).unlock k)) := by
  have hlock : ∀ k', s.held k' = some s.cur ↔ k' ∈ (g t).locks := fun k' => ht ▸ h.lock s.cur k'
  refine h.relock ht (locksOnly_unlock _ _) rfl rfl rfl (fun c => by simp) ?_ ?_ ?_
    (fun c hc => State.drop_noff_of_ne _ _ hc) ?_ ?_ ?_
  · intro k'
    rw [State.drop_held, Run.unlock, Finset.mem_erase]
    by_cases hk' : k' = k
    · simp [hk']
    · rw [update_of_ne hk', hlock]
      simp [hk']
  · intro k' c hc
    rw [State.drop_held]
    by_cases hk' : k' = k
    · rw [hk', update_self, (hlock k).mpr hk]
      simp [Ne.symm hc]
    · rw [update_of_ne hk']
  · rw [State.drop_noff_self, h.noff, ht, Run.unlock, Finset.card_erase_of_mem hk]
  · intro i hi
    rcases h.guard _ i hi with hg | hg
    · exact .inl hg
    · by_cases hki : k = .proc i
      · -- the lock of the process on this CPU: it is given up by that process
        cases hl : s.live s.cur with
        | none =>
          rw [State.thread_of_none hl] at ht
          exact absurd (ht ▸ hi) (hd.on i hki)
        | some j =>
          have hj : i = j := by
            have := (h.away _ j hl).1
            rw [hi] at this
            exact Option.some.inj this
          subst hj
          have hti := State.thread_of_some hl
          rw [ht] at hti
          subst hti
          left
          rw [(h.st _ i hl).1]
          exact hd.own i rfl hki
      · exact .inr (Finset.mem_erase.mpr ⟨fun h => hki h.symm, (hlock _).mp hg⟩)
  · intro c i htc hi
    refine Finset.mem_erase.mpr ⟨fun hk => hd.on i hk.symm hi, ?_⟩
    rw [htc] at hi ⊢
    exact h.mem c i hi
  · intro i hi
    have hin : .proc i ∈ (g t).locks := by
      refine (hlock _).mp ?_
      rcases hi with hi | hi
      · exact (h.seen _ i hi).1
      · exact (h.pick _ i hi).1
    refine Finset.mem_erase.mpr ⟨?_, hin⟩
    rintro hki
    -- a scheduler that has switched away has found and picked none
    cases hl : s.live s.cur with
    | none =>
      rw [State.thread_of_none hl] at ht
      rw [ht] at hi
      exact hi.elim (hd.seen i hki.symm) (hd.pick i hki.symm)
    | some j =>
      obtain ⟨-, -, h1, h2⟩ := h.away _ j hl
      rw [h1, h2] at hi
      simp at hi

/-- The states of processes no scheduler works on change, and the contexts of those on no CPU. -/
lemma set_resting (hlive : s'.live = s.live) (hheld : s'.held = s.held) (hcpu : s'.cpu = s.cpu)
    (hstate : ∀ c i, (g (.sched c)).on = some i ∨ (g (.sched c)).seen = some i ∨
      (g (.sched c)).pick = some i → (s'.proc i).state = (s.proc i).state)
    (hctx : ∀ i, s'.ctx i = .onCpu ↔ ∃ c, s.live c = some i)
    (hmade : ∀ i, (s'.proc i).state ≠ .unused → s'.ctx i ≠ .zero) (hkept : ∀ i, s'.ctx i ≠ .lost) :
    Base s' g := by
  have hth := State.thread_congr hlive
  constructor
  case lock => simpa only [hth, hheld] using h.lock
  case noff => simpa only [hth, hcpu] using h.noff
  case proc => simpa only [hcpu] using h.proc
  case away => simpa only [hlive] using h.away
  case uniq => exact h.uniq
  case guard =>
    intro c i hi
    rw [hstate c i (.inl hi), hheld]
    exact h.guard c i hi
  case seen =>
    intro c i hi
    rw [hstate c i (.inr (.inl hi)), hheld]
    exact h.seen c i hi
  case pick =>
    intro c i hi
    rw [hstate c i (.inr (.inr hi)), hheld]
    exact h.pick c i hi
  case st =>
    intro c i hl
    rw [hlive] at hl
    rw [hstate c i (.inl (h.away c i hl).1)]
    exact h.st c i hl
  case off => simpa only [hlive] using h.off
  case ctx => simpa only [hlive] using hctx
  case made => exact hmade
  case kept => exact hkept
  case bare => exact h.bare
  case idle => exact h.idle
  case mem => exact h.mem

lemma frame (hlive : s'.live = s.live) (hheld : s'.held = s.held) (hcpu : s'.cpu = s.cpu)
    (hctx : s'.ctx = s.ctx) (hstate : ∀ i, (s'.proc i).state = (s.proc i).state) : Base s' g := by
  refine h.set_resting hlive hheld hcpu (fun _ i _ => hstate i) ?_ ?_ ?_
  · simpa only [hctx] using h.ctx
  · simpa only [hctx, hstate] using h.made
  · simpa only [hctx] using h.kept

lemma not_live (hon : ∀ c, (g (.sched c)).on ≠ some j) (c : ℕ) :
    s.live c ≠ some j := fun hl => hon c (h.away c j hl).1

section

variable (ht : s.thread s.cur = t) (hj : t ≠ .proc j)
  (hf : (g t).on ≠ some j ∧ (g t).seen ≠ some j ∧ (g t).pick ≠ some j)

include ht hj hf

/-- The scheduler of the CPU that acts is not working on a process, if the CPU runs another
one or the scheduler itself says so. -/
lemma free_of :
    (g (.sched s.cur)).on ≠ some j ∧ (g (.sched s.cur)).seen ≠ some j ∧
      (g (.sched s.cur)).pick ≠ some j := by
  cases hl : s.live s.cur with
  | none =>
    rw [State.thread_of_none hl] at ht
    rw [ht]
    exact hf
  | some i =>
    obtain ⟨h1, -, h2, h3⟩ := h.away _ i hl
    rw [State.thread_of_some hl] at ht
    rw [h1, h2, h3]
    refine ⟨?_, by simp, by simp⟩
    rintro ⟨⟩
    exact hj ht.symm

/-- A process that is not RUNNING and whose lock is held by another thread is on no CPU. -/
lemma off_cpu (hk : .proc j ∈ (g t).locks) (hs : (s.proc j).state ≠ .running) :
    ∀ c, (g (.sched c)).on ≠ some j := by
  intro c hc
  have hheld : s.held (.proc j) = some s.cur := (h.lock _ _).mpr (ht ▸ hk)
  rcases h.guard c j hc with hg | hg
  · exact hs hg
  · rw [hheld] at hg
    cases hg
    exact (h.free_of ht hj hf).1 hc

/-- The state of a process changes that is on no CPU, by a thread that holds its lock. -/
lemma set_off (hk : .proc j ∈ (g t).locks) (hs : (s.proc j).state ≠ .running) (hlive : s'.live = s.live)
    (hheld : s'.held = s.held) (hcpu : s'.cpu = s.cpu) (hctx : s'.ctx = s.ctx)
    (hstate : ∀ i, i ≠ j → (s'.proc i).state = (s.proc i).state)
    (hmade : (s'.proc j).state ≠ .unused → s.ctx j ≠ .zero) : Base s' g := by
  have hcur : s.held (.proc j) = some s.cur := (h.lock _ _).mpr (ht ▸ hk)
  have hfree := h.free_of ht hj hf
  refine h.set_resting hlive hheld hcpu (fun c i hi => hstate i ?_) ?_ ?_ ?_
  · rintro rfl
    rcases hi with hi | hi | hi
    · exact h.off_cpu ht hj hf hk hs c hi
    · have := (h.seen c i hi).1
      rw [hcur] at this
      cases this
      exact hfree.2.1 hi
    · have := (h.pick c i hi).1
      rw [hcur] at this
      cases this
      exact hfree.2.2 hi
  · simpa only [hctx] using h.ctx
  · intro i hi
    rw [hctx]
    by_cases hij : i = j
    · rw [hij] at hi ⊢
      exact hmade hi
    · rw [hstate i hij] at hi
      exact h.made i hi
  · simpa only [hctx] using h.kept

end

end

lemma set_own {z : State} (st : PState) (h : Base s g) (hl : s.live s.cur = some j)
    (hk : .proc j ∈ (g (.proc j)).locks) (hst : st ≠ .unused)
    (hlive : z.live = s.live) (hheld : z.held = s.held) (hcpu : z.cpu = s.cpu)
    (hctx : z.ctx = s.ctx) (hstate : ∀ i, i ≠ j → (z.proc i).state = (s.proc i).state)
    (hnew : (z.proc j).state = st) :
    Base z (update g (.proc j) { g (.proc j) with st := st }) := by
  have hth := State.thread_congr hlive
  have hsched : ∀ c, update g (.proc j) { g (.proc j) with st := st } (.sched c) =
      g (.sched c) := fun c => update_of_ne (by simp) _ _
  have hlocks := update_proj (g := g) (t := .proc j) (r := { g (.proc j) with st := st })
    Run.locks rfl
  have ht := State.thread_of_some hl
  have hcur : s.held (.proc j) = some s.cur := (h.lock _ _).mpr (ht ▸ hk)
  have haway := h.away _ j hl
  constructor
  case lock => simpa only [hth, hheld, hlocks] using h.lock
  case noff => simpa only [hth, hcpu, hlocks] using h.noff
  case proc => simpa only [hcpu, hsched] using h.proc
  case away => simpa only [hlive, hsched] using h.away
  case uniq => simpa only [hsched] using h.uniq
  case guard =>
    intro c i
    rw [hsched, hheld]
    intro hc
    by_cases hij : i = j
    · right
      rw [hij] at hc ⊢
      rw [h.uniq c s.cur j hc haway.1]
      exact hcur
    · rw [hstate i hij]
      exact h.guard c i hc
  case seen =>
    intro c i
    rw [hsched, hheld]
    intro hc
    have hij : i ≠ j := by
      rintro rfl
      have := (h.seen c i hc).1
      rw [hcur] at this
      cases this
      rw [haway.2.2.1] at hc
      cases hc
    rw [hstate i hij]
    exact h.seen c i hc
  case pick =>
    intro c i
    rw [hsched, hheld]
    intro hc
    have hij : i ≠ j := by
      rintro rfl
      have := (h.pick c i hc).1
      rw [hcur] at this
      cases this
      rw [haway.2.2.2] at hc
      cases hc
    rw [hstate i hij]
    refine ⟨(h.pick c i hc).1, (h.pick c i hc).2.1, fun c' => ?_⟩
    rw [hsched]
    exact (h.pick c i hc).2.2 c'
  case st =>
    intro c i hi
    rw [hlive] at hi
    by_cases hij : i = j
    · rw [hij, update_self]
      exact ⟨hnew, hst⟩
    · rw [update_of_ne (by simpa using hij), hstate i hij]
      exact h.st c i hi
  case off =>
    intro i hi
    rw [hlive] at hi
    have hij : i ≠ j := fun hij => hi s.cur (hij ▸ hl)
    rw [update_of_ne (by simpa using hij)]
    exact h.off i hi
  case ctx => simpa only [hctx, hlive] using h.ctx
  case made =>
    intro i hi
    rw [hctx]
    by_cases hij : i = j
    · have := (h.ctx j).mpr ⟨s.cur, hl⟩
      rw [hij, this]
      simp
    · rw [hstate i hij] at hi
      exact h.made i hi
  case kept => simpa only [hctx] using h.kept
  case bare =>
    intro i
    by_cases hij : i = j
    · rw [hij, update_self]
      exact h.bare j
    · rw [update_of_ne (by simpa using hij)]
      exact h.bare i
  case idle => simpa only [hsched] using h.idle
  case mem => simpa only [hsched] using h.mem

/-! ### The scheduler -/

end Base

/-- The scheduler of the CPU that acts changes what it knows, its `c->proc`, or the state of a
process whose lock it holds and that is on no other CPU. -/
structure Resched (g : Thread → Run) (s s' : State) (c : ℕ) (r : Run) : Prop where
  turn : s.thread s.cur = .sched c
  locks : r.locks = (g (.sched c)).locks
  st : r.st = (g (.sched c)).st
  live : s'.live = s.live
  held : s'.held = s.held
  ctx : s'.ctx = s.ctx
  noff : ∀ c, (s'.cpu c).noff = (s.cpu c).noff
  cpu : (s'.cpu c).proc = r.on
  cpu_ne : ∀ c', c' ≠ c → (s'.cpu c').proc = (s.cpu c').proc
  on : ∀ i, r.on = some i → .proc i ∈ r.locks ∧ ∀ c', c' ≠ c → (g (.sched c')).on ≠ some i
  seen : ∀ i, r.seen = some i → .proc i ∈ r.locks ∧ (s'.proc i).state = .runnable
  pick : ∀ i, r.pick = some i → .proc i ∈ r.locks ∧ (s'.proc i).state = .running ∧
    ∀ c', c' ≠ c → (g (.sched c')).on ≠ some i
  state : ∀ i, (s'.proc i).state = (s.proc i).state ∨ .proc i ∈ r.locks ∧
    (s.proc i).state ≠ .unused ∧ ∀ c', c' ≠ c → (g (.sched c')).on ≠ some i

namespace Resched

variable {s' : State} {r : Run} (R : Resched g s s' c r) (h : Base s g)

include R

lemma live_ne (hl : s.live c' = some i) : c' ≠ c := by
  rintro rfl
  obtain ⟨hcur, hnone⟩ := State.thread_sched.mp R.turn
  rw [hcur, hl] at hnone
  cases hnone

include h

/-- What the scheduler holds is held by this CPU. -/
lemma own (hk : k ∈ r.locks) : s.held k = some c := by
  rw [R.locks] at hk
  rw [← (State.thread_sched.mp R.turn).1]
  exact (h.lock _ _).mpr (R.turn ▸ hk)

lemma keep (hc : c' ≠ c) (hh : s.held (.proc i) = some c') :
    (s'.proc i).state = (s.proc i).state := by
  refine (R.state i).resolve_right fun hi => ?_
  rw [R.own h hi.1] at hh
  exact hc (Option.some.inj hh).symm

lemma pick_self (hi : r.pick = some i) : s.held (.proc i) = some c ∧ (s'.proc i).state = .running ∧
    ∀ c', (update g (.sched c) r (.sched c')).on = some i → c' = c := by
  obtain ⟨h1, h2, h3⟩ := R.pick i hi
  refine ⟨R.own h h1, h2, fun c' hc' => ?_⟩
  by_contra hne
  rw [update_of_ne (by simpa using hne)] at hc'
  exact h3 c' hne hc'

lemma pick_ne (hc : c' ≠ c) (hi : (g (.sched c')).pick = some i) :
    s.held (.proc i) = some c' ∧ (s'.proc i).state = .running ∧
      ∀ c'', (update g (.sched c) r (.sched c'')).on = some i → c'' = c' := by
  obtain ⟨h1, h2, h3⟩ := h.pick c' i hi
  refine ⟨h1, (R.keep h hc h1).trans h2, fun c'' hc'' => ?_⟩
  by_cases hcc : c'' = c
  · rw [hcc, update_self] at hc''
    rw [R.own h (R.on i hc'').1] at h1
    exact absurd (Option.some.inj h1).symm hc
  · rw [update_of_ne (by simpa using hcc)] at hc''
    exact h3 c'' hc''

lemma uniq {c₁ c₂ : ℕ} (h₁ : (update g (.sched c) r (.sched c₁)).on = some i)
    (h₂ : (update g (.sched c) r (.sched c₂)).on = some i) : c₁ = c₂ := by
  by_cases hc₁ : c₁ = c <;> by_cases hc₂ : c₂ = c
  · rw [hc₁, hc₂]
  · rw [hc₁, update_self] at h₁
    rw [update_of_ne (by simpa using hc₂)] at h₂
    exact absurd h₂ ((R.on i h₁).2 c₂ hc₂)
  · rw [hc₂, update_self] at h₂
    rw [update_of_ne (by simpa using hc₁)] at h₁
    exact absurd h₁ ((R.on i h₂).2 c₁ hc₁)
  · rw [update_of_ne (by simpa using hc₁)] at h₁
    rw [update_of_ne (by simpa using hc₂)] at h₂
    exact h.uniq c₁ c₂ i h₁ h₂

end Resched

namespace Base

section

variable {s' z : State} (h : Base s g)

include h

lemma resched {r : Run} (R : Resched g s s' c r) : Base s' (update g (.sched c) r) := by
  have hth := State.thread_congr R.live
  have hlk := update_proj (g := g) (t := .sched c) Run.locks R.locks
  have hproc : ∀ i, update g (.sched c) r (.proc i) = g (.proc i) :=
    fun i => update_of_ne (by simp) _ _
  have hother : ∀ c', c' ≠ c → update g (.sched c) r (.sched c') = g (.sched c') :=
    fun c' hc => update_of_ne (by simpa using hc) _ _
  constructor
  case lock => simpa only [hth, R.held, hlk] using h.lock
  case noff => simpa only [hth, R.noff, hlk] using h.noff
  case proc =>
    intro c'
    by_cases hc : c' = c
    · rw [hc, update_self, R.cpu]
    · rw [hother c' hc, R.cpu_ne c' hc]
      exact h.proc c'
  case away =>
    intro c' i hl
    rw [R.live] at hl
    rw [hother c' (R.live_ne hl)]
    exact h.away c' i hl
  case uniq => exact fun _ _ _ => R.uniq h
  case guard =>
    intro c' i hi
    rw [R.held]
    by_cases hc : c' = c
    · rw [hc, update_self] at hi
      rw [hc]
      exact .inr (R.own h (R.on i hi).1)
    · rw [hother c' hc] at hi
      refine (h.guard c' i hi).imp_left fun hr => ?_
      rw [(R.state i).resolve_right fun h => h.2.2 c' hc hi]
      exact hr
  case seen =>
    intro c' i hi
    rw [R.held]
    by_cases hc : c' = c
    · rw [hc, update_self] at hi
      rw [hc]
      exact ⟨R.own h (R.seen i hi).1, (R.seen i hi).2⟩
    · rw [hother c' hc] at hi
      obtain ⟨h1, h2⟩ := h.seen c' i hi
      exact ⟨h1, (R.keep h hc h1).trans h2⟩
  case pick =>
    intro c' i hi
    rw [R.held]
    by_cases hc : c' = c
    · rw [hc, update_self] at hi
      rw [hc]
      exact R.pick_self h hi
    · rw [hother c' hc] at hi
      exact R.pick_ne h hc hi
  case st =>
    intro c' i hl
    rw [hproc]
    rw [R.live] at hl
    rw [(R.state i).resolve_right fun hi => hi.2.2 c' (R.live_ne hl) (h.away c' i hl).1]
    exact h.st c' i hl
  case off => simpa only [R.live, hproc] using h.off
  case ctx => simpa only [R.ctx, R.live] using h.ctx
  case made =>
    intro i hi
    rw [R.ctx]
    rcases R.state i with hs | ⟨-, hs, -⟩
    · rw [hs] at hi
      exact h.made i hi
    · exact h.made i hs
  case kept => simpa only [R.ctx] using h.kept
  case bare => simpa only [hproc] using h.bare
  case idle =>
    intro c'
    rw [update_proj (g := g) (t := .sched c) Run.st R.st]
    exact h.idle c'
  case mem =>
    intro c' i hi
    by_cases hc : c' = c
    · rw [hc, update_self] at hi ⊢
      exact (R.on i hi).1
    · rw [hother c' hc] at hi ⊢
      exact h.mem c' i hi

/-- A process that is not RUNNING, whose lock the scheduler holds, is on no other CPU. -/
lemma not_on (ht : s.thread s.cur = .sched c) (hk : .proc j ∈ (g (.sched c)).locks)
    (hs : (s.proc j).state ≠ .running) (c' : ℕ) (hc : c' ≠ c) : (g (.sched c')).on ≠ some j := by
  intro hon
  have hown : s.held (.proc j) = some c := by
    rw [← (State.thread_sched.mp ht).1]
    exact (h.lock _ _).mpr (ht ▸ hk)
  rcases h.guard c' j hon with hg | hg
  · exact hs hg
  · rw [hown] at hg
    exact hc (Option.some.inj hg).symm

lemma resumable (ht : s.thread s.cur = .sched c) (hon : (g (.sched c)).on = some j)
    (hpick : (g (.sched c)).pick = some j) : State.load (s.ctx j) = .onCpu := by
  obtain ⟨hcur, hnone⟩ := State.thread_sched.mp ht
  have hoff : s.ctx j ≠ .onCpu := by
    intro hctx
    obtain ⟨c', hl⟩ := (h.ctx j).mp hctx
    rw [h.uniq c' c j (h.away c' j hl).1 hon, ← hcur, hnone] at hl
    cases hl
  have hmade := h.made j (by rw [(h.pick c j hpick).2.1]; simp)
  have hkept := h.kept j
  cases hctx : s.ctx j with
  | saved => rfl
  | forkret => rfl
  | zero => exact absurd hctx hmade
  | onCpu => exact absurd hctx hoff
  | lost => exact absurd hctx hkept

lemma set_ctx {x : Ctx} (hproc : z.proc = s.proc) (hctx : z.ctx = update s.ctx j x)
    (hx : x ≠ .zero ∧ x ≠ .lost) :
    (∀ i, (z.proc i).state ≠ .unused → z.ctx i ≠ .zero) ∧ ∀ i, z.ctx i ≠ .lost := by
  rw [hproc, hctx]
  exact ⟨(forall_update_iff _ fun i y => (s.proc i).state ≠ .unused → y ≠ Ctx.zero).mpr
      ⟨fun _ => hx.1, fun i _ => h.made i⟩,
    (forall_update_iff _ fun _ y => y ≠ Ctx.lost).mpr ⟨hx.2, fun i _ => h.kept i⟩⟩

lemma enter (ht : s.thread s.cur = .sched c) (hlocks : (g (.sched c)).locks = {.proc j})
    (hon : (g (.sched c)).on = some j) (hpick : (g (.sched c)).pick = some j)
    (hseen : (g (.sched c)).seen = none) (hlive : z.live = update s.live c (some j))
    (hheld : z.held = s.held) (hcpu : z.cpu = s.cpu) (hproc : z.proc = s.proc)
    (hctx : z.ctx = update s.ctx j .onCpu) :
    Base z (update g (.sched c) { g (.sched c) with pick := none }) := by
  obtain ⟨hcur, hnone⟩ := State.thread_sched.mp ht
  rw [hcur] at ht hnone
  set r : Run := { g (.sched c) with pick := none }
  have hlk := update_proj (g := g) (t := .sched c) (r := r) Run.locks rfl
  have hon' := update_proj (g := g) (t := .sched c) (r := r) Run.on rfl
  have hseen' := update_proj (g := g) (t := .sched c) (r := r) Run.seen rfl
  have hg : ∀ i, update g (.sched c) r (.proc i) = g (.proc i) := fun i => update_of_ne (by simp) _ _
  have hnl : ∀ c', s.live c' ≠ some j := by
    intro c' hl
    have hc := h.uniq c' c j (h.away c' j hl).1 hon
    rw [hc, hnone] at hl
    cases hl
  obtain ⟨hoff, hoffst⟩ := h.off j hnl
  obtain ⟨hjheld, hjrun, -⟩ := h.pick c j hpick
  have hself : z.thread c = .proc j := State.thread_of_some (by rw [hlive, update_self])
  have hth : ∀ c', c' ≠ c → z.thread c' = s.thread c' := by
    intro c' hc
    rw [State.thread, State.thread, hlive, update_of_ne hc]
  constructor
  case lock =>
    intro c' k
    rw [hheld]
    by_cases hc : c' = c
    · rw [hc, hself, hg, hoff, ← hlocks, ← ht]
      exact h.lock c k
    · rw [hth c' hc, hlk]
      exact h.lock c' k
  case noff =>
    intro c'
    rw [hcpu]
    by_cases hc : c' = c
    · rw [hc, hself, hg, hoff, ← hlocks, ← ht]
      exact h.noff c
    · rw [hth c' hc, hlk]
      exact h.noff c'
  case proc => simpa only [hcpu, hon'] using h.proc
  case away =>
    intro c' i hl
    rw [hlive] at hl
    by_cases hc : c' = c
    · rw [hc, update_self] at hl
      cases hl
      rw [hc, update_self]
      exact ⟨hon, hlocks, hseen, rfl⟩
    · rw [update_of_ne hc] at hl
      rw [update_of_ne (by simpa using hc)]
      exact h.away c' i hl
  case uniq => simpa only [hon'] using h.uniq
  case guard => simpa only [hon', hproc, hheld] using h.guard
  case seen => simpa only [hseen', hproc, hheld] using h.seen
  case pick =>
    intro c' i hi
    have hc : c' ≠ c := by
      rintro rfl
      rw [update_self] at hi
      cases hi
    rw [update_of_ne (by simpa using hc)] at hi
    simpa only [hon', hproc, hheld] using h.pick c' i hi
  case st =>
    intro c' i hl
    rw [hproc, hg]
    rw [hlive] at hl
    by_cases hc : c' = c
    · rw [hc, update_self] at hl
      cases hl
      rw [hoffst, hjrun]
      simp
    · rw [update_of_ne hc] at hl
      exact h.st c' i hl
  case off =>
    intro i hi
    rw [hg]
    refine h.off i fun c' hl => hi c' ?_
    rw [hlive]
    by_cases hc : c' = c
    · rw [hc, hnone] at hl
      cases hl
    · rw [update_of_ne hc]
      exact hl
  case ctx =>
    intro i
    rw [hctx, hlive]
    by_cases hij : i = j
    · rw [hij, update_self]
      exact ⟨fun _ => ⟨c, update_self _ _ _⟩, fun _ => rfl⟩
    · rw [update_of_ne hij, h.ctx i]
      constructor
      · rintro ⟨c', hl⟩
        have hc : c' ≠ c := by
          rintro rfl
          rw [hnone] at hl
          cases hl
        exact ⟨c', by rw [update_of_ne hc]; exact hl⟩
      · rintro ⟨c', hl⟩
        by_cases hc : c' = c
        · rw [hc, update_self] at hl
          exact absurd (Option.some.inj hl).symm hij
        · rw [update_of_ne hc] at hl
          exact ⟨c', hl⟩
  case made => exact (h.set_ctx hproc hctx (by simp)).1
  case kept => exact (h.set_ctx hproc hctx (by simp)).2
  case bare => simpa only [hg] using h.bare
  case idle =>
    intro c'
    rw [update_proj (g := g) (t := .sched c) (r := r) Run.st rfl]
    exact h.idle c'
  case mem => simpa only [hon', hlk] using h.mem

lemma leave (hl : s.live s.cur = some i) (hlocks : (g (.proc i)).locks = {.proc i})
    (hlive : z.live = update s.live s.cur none) (hheld : z.held = s.held) (hcpu : z.cpu = s.cpu)
    (hproc : z.proc = s.proc) (hctx : z.ctx = update s.ctx i .saved) :
    Base z (update g (.proc i) { g (.proc i) with st := .running }) := by
  have hlk := update_proj (g := g) (t := .proc i) (r := { g (.proc i) with st := .running })
    Run.locks rfl
  have hg : ∀ c, update g (.proc i) { g (.proc i) with st := .running } (.sched c) =
      g (.sched c) := fun c => update_of_ne (by simp) _ _
  have ht := State.thread_of_some hl
  obtain ⟨hon, haway, -⟩ := h.away _ i hl
  have hself : z.thread s.cur = .sched s.cur :=
    State.thread_of_none (by rw [hlive, update_self])
  have hth : ∀ c', c' ≠ s.cur → z.thread c' = s.thread c' := by
    intro c' hc
    rw [State.thread, State.thread, hlive, update_of_ne hc]
  have hlk' : ∀ c', (g (z.thread c')).locks = (g (s.thread c')).locks := by
    intro c'
    by_cases hc : c' = s.cur
    · rw [hc, hself, ht, haway, hlocks]
    · rw [hth c' hc]
  have hlive' : ∀ c' j, z.live c' = some j → s.live c' = some j ∧ j ≠ i := by
    intro c' j hj
    rw [hlive] at hj
    by_cases hc : c' = s.cur
    · rw [hc, update_self] at hj
      cases hj
    · rw [update_of_ne hc] at hj
      refine ⟨hj, ?_⟩
      rintro rfl
      exact hc (h.live_inj hj hl)
  constructor
  case lock => simpa only [hheld, hlk, hlk'] using h.lock
  case noff => simpa only [hcpu, hlk, hlk'] using h.noff
  case proc => simpa only [hcpu, hg] using h.proc
  case away =>
    intro c' j hj
    rw [hg]
    exact h.away c' j (hlive' c' j hj).1
  case uniq => simpa only [hg] using h.uniq
  case guard => simpa only [hg, hproc, hheld] using h.guard
  case seen => simpa only [hg, hproc, hheld] using h.seen
  case pick => simpa only [hg, hproc, hheld] using h.pick
  case st =>
    intro c' j hj
    obtain ⟨hj, hji⟩ := hlive' c' j hj
    rw [hproc, update_of_ne (by simpa using hji)]
    exact h.st c' j hj
  case off =>
    intro j hj
    by_cases hji : j = i
    · rw [hji, update_self]
      exact ⟨hlocks, rfl⟩
    · rw [update_of_ne (by simpa using hji)]
      refine h.off j fun c' hc' => hj c' ?_
      have hc : c' ≠ s.cur := by
        rintro rfl
        rw [hl] at hc'
        exact hji (Option.some.inj hc').symm
      rw [hlive, update_of_ne hc]
      exact hc'
  case ctx =>
    intro j
    rw [hctx]
    by_cases hji : j = i
    · rw [hji, update_self]
      constructor
      · intro h
        cases h
      · rintro ⟨c', hc'⟩
        exact absurd rfl (hlive' c' i hc').2
    · rw [update_of_ne hji, h.ctx j]
      constructor
      · rintro ⟨c', hc'⟩
        have hc : c' ≠ s.cur := by
          rintro rfl
          rw [hl] at hc'
          exact hji (Option.some.inj hc').symm
        exact ⟨c', by rw [hlive, update_of_ne hc]; exact hc'⟩
      · rintro ⟨c', hc'⟩
        exact ⟨c', (hlive' c' j hc').1⟩
  case made => exact (h.set_ctx hproc hctx (by simp)).1
  case kept => exact (h.set_ctx hproc hctx (by simp)).2
  case bare =>
    intro j
    by_cases hji : j = i
    · rw [hji, update_self]
      exact h.bare i
    · rw [update_of_ne (by simpa using hji)]
      exact h.bare j
  case idle => simpa only [hg] using h.idle
  case mem => simpa only [hg] using h.mem

lemma set_context (hon : ∀ c, (g (.sched c)).on ≠ some j) (hlive : s'.live = s.live)
    (hheld : s'.held = s.held) (hcpu : s'.cpu = s.cpu) (hproc : s'.proc = s.proc)
    (hctx : s'.ctx = update s.ctx j .forkret) :
    Base s' g := by
  obtain ⟨hmade, hkept⟩ := h.set_ctx hproc hctx (by simp)
  refine h.set_resting hlive hheld hcpu (by simp [hproc]) (fun i => ?_) hmade hkept
  rw [hctx]
  by_cases hij : i = j
  · rw [hij, update_self]
    constructor
    · intro h
      cases h
    · rintro ⟨c, hc⟩
      exact absurd hc (h.not_live hon c)
  · rw [update_of_ne hij]
    exact h.ctx i

end

end Base

end

end Xv6.Kern
