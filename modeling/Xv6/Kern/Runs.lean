import Xv6.Kern.System

/-!
What holds in every run of the kernel, whatever the processes call and however the CPUs are
interleaved.
-/

namespace Xv6.Kern

open Lib.Wp Lib.Conc Lib.Bytes Vm

variable {e : Env} {x y : Conf} {s : State} {ℓ : Thread → Ghost} {c c' i j n : ℕ} {m : Phys}
  {initcode : List UInt8}

/-! ### Two runs -/

lemma kernel_above_base : KERNBASE ≤ 0x80400000 := by decide

lemma trampoline_small : 0x80007000 < 2 ^ 64 := by decide

/-- A machine with `n` free pages. -/
def freePages (n : ℕ) : Phys where
  mem := fun k => putLe zeroes 0 8 (if k < 0x80400000 + n * PGSIZE then k + PGSIZE else 0)
  freelist := 0x80400000
  kend := 0x80400000
  trampoline := 0x80007000
  kend_ge := kernel_above_base
  trampoline_lt := trampoline_small

/-- One condition, with a lock and a channel of its own. -/
def oneCond : Env := ⟨fun _ => .other 100, fun _ => .other 100⟩

/-- CPU 0 makes the first process, which forks; then each of two CPUs runs one of them. -/
def twoRun : List Move :=
  acts 0 59 ++ .round 0 :: acts 0 7 ++ .call 0 .fork :: acts 0 86 ++ .round 1 :: acts 1 10

/-- The first process sleeps, and the other is about to wake it. -/
def waker : List Move :=
  twoRun ++ .call 0 (.waitFor 0 false 1) :: acts 0 14 ++ .call 1 (.signal 0) :: acts 1 3

/-- The child exits, and its parent finds it in `wait`. -/
def reaper : List Move :=
  twoRun ++ .call 1 (.exit 7) :: acts 1 104 ++ .call 0 (.wait 0 1) :: acts 0 9

lemma reach_of_play {α : Type} (e : Env) (ms : List Move) (f : Conf → α) {a : α}
    (h : (play (move e) ms (boot (freePages 32) [])).map f = some a) :
    ∃ y, Reach e (boot (freePages 32) []) y ∧ f y = a :=
  played .refl (fun _ _ _ _ hx h => hx.tail (move_step h)) h

/-- The history of `reaper`. -/
def reaperLog : List Event :=
  [.forked 0 1 0, .forked 1 2 0, .exiting 1 7, .exited 1, .reaped 0 1 2 7]

/-- Process `i` sleeps for condition `n`. -/
def SleepsFor (e : Env) (s : State) (i n : ℕ) : Prop :=
  s.waiting i = some n ∧ (s.proc i).state = .sleeping ∧ (s.proc i).chan = some (e.chan n)

section

-- the kernel computes the runs action by action
set_option maxRecDepth 1000000

lemma waker_reach : ∃ x, Reach oneCond (boot (freePages 32) []) x ∧
    SleepsFor oneCond x.state 0 0 ∧ x.state.cond 0 = true := by
  obtain ⟨x, hx, hf⟩ := reach_of_play oneCond waker (fun y =>
    (y.state.waiting 0, (y.state.proc 0).state, (y.state.proc 0).chan, y.state.cond 0))
    (a := (some 0, .sleeping, some (.other 100), true)) (by decide +kernel)
  simp only [Prod.mk.injEq] at hf
  obtain ⟨h1, h2, h3, h4⟩ := hf
  exact ⟨x, hx, ⟨h1, h2, h3⟩, h4⟩

lemma reaper_reach : ∃ x, Reach oneCond (boot (freePages 32) []) x ∧ x.state.log = reaperLog ∧
    x.state.live 0 = some 0 ∧ (x.state.proc 1).state = .zombie := by
  obtain ⟨x, hx, hf⟩ := reach_of_play oneCond reaper (fun y =>
    (y.state.log, y.state.live 0, (y.state.proc 1).state)) (a := (reaperLog, some 0, .zombie))
    (by decide +kernel)
  simp only [Prod.mk.injEq] at hf
  exact ⟨x, hx, hf⟩

end

/-! ### Waiting -/

lemma Inv.good (h : Inv e s ℓ) (hs : SleepsFor e s i n) :
    Good s (fun t => (ℓ t).wait) n i := by
  obtain ⟨hw, hst, -⟩ := hs
  rw [h.sleeps.waiting] at hw
  rcases h.sleeps.asleep i n hw hst with hp | hp
  · exact (h.sleeps.pre i n hp).2.2
  · exact ((h.sleeps.parked i n hp).2 hst).2

/-- **No lost wakeup.** While a process sleeps for a condition that is true, some process is
between making it true and the end of its `wakeup`. -/
theorem no_lost_wakeup (h : Reach e (boot m initcode) x) (i n : ℕ) :
    ¬ (SleepsFor e x.state i n ∧ x.state.cond n = true ∧ ∀ j, x.state.waking j ≠ some n) := by
  rintro ⟨hs, hcond, hno⟩
  obtain ⟨ℓ, hℓ⟩ := h.sound
  rcases hℓ.inv.good hs with hc | ⟨j, k, hj, -⟩
  · rw [hcond] at hc
    cases hc
  · refine hno j ?_
    rw [hℓ.inv.sleeps.waking]
    exact congrArg (Option.map Prod.fst) hj

/-- A process is about to wake another. -/
theorem no_lost_wakeup_waker : ∃ x, Reach oneCond (boot (freePages 32) []) x ∧
    SleepsFor oneCond x.state 0 0 ∧ x.state.cond 0 = true ∧ ∃ j, x.state.waking j = some 0 := by
  obtain ⟨x, hx, hs, hcond⟩ := waker_reach
  refine ⟨x, hx, hs, hcond, ?_⟩
  by_contra hno
  exact no_lost_wakeup hx 0 0 ⟨hs, hcond, fun j hj => hno ⟨j, hj⟩⟩

/-! ### Running -/

/-- `wait` has returned process `j`, and frees it. -/
def Freed (s : State) (j : ℕ) : Prop := (s.proc j).state = .zombie ∧ lives s.log j = none

/-- The record of a process that `wait` frees is in the hands of a process that holds its lock. -/
lemma Inv.freed (h : Inv e s ℓ) (hj : Freed s j) :
    ∃ p b, (ℓ (.proc p)).family.busy = some b ∧ b.slot = j := by
  obtain ⟨hz, hlog⟩ := hj
  have hkept : ¬ Kept (fun t => (ℓ t).family) j := by
    intro hk
    obtain ⟨L, hL, -⟩ := h.told.fits j (by rw [hz]; simp) hk
    rw [hlog] at hL
    cases hL
  unfold Kept at hkept
  push Not at hkept
  obtain ⟨t, b, hb, hslot, -⟩ := hkept
  have hw := h.kin.busy t b hb
  cases t with
  | proc p => exact ⟨p, b, hb, hslot⟩
  | sched c =>
    -- a zombie has a parent, and only that parent works on it
    exfalso
    have hji : j ≠ s.initproc := by
      rintro rfl
      exact (h.kin.init _ (by rw [hz]; simp)).2 hz
    rcases hw.parent with hp | ⟨p, hp, -⟩
    · rw [← hw.val, hslot] at hp
      exact h.kin.has j (by rw [hz]; simp) hji hp
    · cases hp

lemma Inv.freed_off (h : Inv e s ℓ) (hj : Freed s j) (c : ℕ) : (s.cpu c).proc ≠ some j := by
  obtain ⟨p, b, hb, rfl⟩ := h.freed hj
  have hw := h.kin.busy _ b hb
  obtain ⟨a, ha⟩ := hw.current
  intro hc
  have hon : (ℓ (.sched c)).run.on = some b.slot := (h.base.proc c).symm.trans hc
  have hheld : s.held (.proc b.slot) = some a := (h.base.lock a _).mpr (by rw [ha]; exact hw.lock)
  rcases h.base.guard c b.slot hon with hg | hg
  · rw [hj.1] at hg
    cases hg
  · rw [hheld, Option.some.injEq] at hg
    subst hg
    -- the process that frees it is on that CPU, so it would free itself
    have hp := (h.base.away a p (State.thread_proc.mp ha)).1
    rw [show (ℓ (.sched a)).run.on = some b.slot from hon, Option.some.injEq] at hp
    have hst := hw.parent
    rcases hst with hn | ⟨q, hq, hpar⟩
    · have hji : b.slot ≠ s.initproc := by
        intro heq
        exact (h.kin.init b.slot (by rw [hj.1]; simp)).2 (heq ▸ hj.1)
      refine h.kin.has b.slot (by rw [hj.1]; simp) hji ?_
      rw [hw.val]
      exact hn
    · cases hq
      rw [← hw.val] at hpar
      exact (h.kin.alive _ _ hpar).2.2 hp.symm

/-- A CPU that comes to run a process switches to it, and its registers were saved before. -/
lemma Sound.switched (h : Sound e x ℓ) (hs : Step e x c y) (hy : y.state.live c' = some i)
    (hx : x.state.live c' ≠ some i) : x.state.ctx i ≠ .onCpu := by
  intro hctx
  obtain ⟨a, ha⟩ := (h.inv.base.ctx i).mp hctx
  have hon := (h.inv.base.away a i ha).1
  cases hs with
  | round _ _ | call k _ _ | tick _ _ _ | intr _ _ => exact hx hy
  | act hcode hact =>
    obtain ⟨l', hl'⟩ := h.act hcode hact
    have hon' := (hl'.inv.base.away c' i hy).1
    -- the scheduler of a CPU that runs a process stands still
    have hstill : Function.update ℓ (x.state.thread c) l' (.sched a) = ℓ (.sched a) := by
      refine Function.update_of_ne ?_ _ _
      intro hac
      have := State.thread_sched.mp hac.symm
      rw [this.1, ha] at this
      cases this.2
    refine hx ?_
    rw [hl'.inv.base.uniq c' a i hon' (by rw [hstill]; exact hon)]
    exact ha

/-- **A process runs on at most one CPU and is never freed while it runs.** -/
theorem runs_on_one_cpu (h : Reach e (boot m initcode) x) :
    (∀ c i, x.state.live c = some i →
      (x.state.cpu c).proc = some i ∧ (∀ c', (x.state.cpu c').proc = some i → c' = c) ∧
      ((x.state.proc i).state = .running ∨ x.state.held (.proc i) = some c)) ∧
    (∀ i, x.state.ctx i ≠ .lost) ∧
    (∀ c c' i y, Step e x c y → y.state.live c' = some i → x.state.live c' ≠ some i →
      x.state.ctx i ≠ .onCpu) ∧
    ∀ j, Freed x.state j → ∀ c, x.state.live c ≠ some j ∧ (x.state.cpu c).proc ≠ some j := by
  obtain ⟨ℓ, hℓ⟩ := h.sound
  have hb := hℓ.inv.base
  refine ⟨fun c i hc => ?_, hb.kept, fun c c' i y hs => hℓ.switched hs, fun j hj c => ?_⟩
  · have hon := (hb.away c i hc).1
    refine ⟨(hb.proc c).trans hon, fun c' hc' => ?_, hb.guard c i hon⟩
    exact hb.uniq c' c i ((hb.proc c').symm.trans hc') hon
  · have hoff := hℓ.inv.freed_off hj
    refine ⟨fun hc => hoff c ?_, hoff c⟩
    exact (hb.proc c).trans (hb.away c j hc).1

/-- A parent that runs on CPU 0 frees its child, which is on no CPU. -/
theorem runs_on_one_cpu_reaper : ∃ x, Reach oneCond (boot (freePages 32) []) x ∧
    x.state.live 0 = some 0 ∧ (x.state.cpu 0).proc = some 0 ∧ Freed x.state 1 ∧
    ∀ c, x.state.live c ≠ some 1 := by
  obtain ⟨x, hx, hlog, hlive, hz⟩ := reaper_reach
  have hfreed : Freed x.state 1 := ⟨hz, by rw [hlog]; rfl⟩
  obtain ⟨hcpu, -, -, hfree⟩ := runs_on_one_cpu hx
  exact ⟨x, hx, hlive, (hcpu 0 0 hlive).1, hfreed, fun c => (hfree 1 hfreed c).1⟩

/-- **The processes form a tree.** The first process has no parent, all others have one, and the way
from child to parent has no cycle. -/
theorem process_tree (h : Reach e (boot m initcode) x) :
    (x.state.proc x.state.initproc).parent = none ∧
    (∀ j, (x.state.proc j).state ≠ .unused → j ≠ x.state.initproc → (x.state.proc j).parent ≠ none) ∧
    ∃ depth : ℕ → ℕ, ∀ j q, (x.state.proc j).parent = some q → depth q < depth j := by
  obtain ⟨ℓ, hℓ⟩ := h.sound
  have hk := hℓ.inv.kin
  have ht := hℓ.inv.told
  obtain ⟨r, hr⟩ := ht.legal.ranked
  -- a record that the history does not have is being set up or freed, one below its parent
  refine ⟨hk.root, hk.has, fun j => if lives x.state.log j = none then
    (x.state.proc j).parent.elim 0 fun q => r q + 1 else r j, fun j q hq => ?_⟩
  obtain ⟨h1, h2, -⟩ := hk.alive j q hq
  obtain ⟨Q, hQ, -⟩ := ht.fits q h1 (hk.kept h1 h2)
  simp only [hQ, hq, Option.elim_some]
  cases hL : lives x.state.log j with
  | none => simp
  | some L =>
    have hji : j ≠ x.state.initproc := fun he => by rw [he, hk.root] at hq; cases hq
    have hpar := (ht.fits_of_lives hL).1.parent hji
    rw [hq, Option.some.injEq] at hpar
    simpa [hpar] using hr.below j L hL hji

theorem process_tree_reaper : ∃ x, Reach oneCond (boot (freePages 32) []) x ∧
    (x.state.proc 1).state = .zombie ∧
    ∃ depth : ℕ → ℕ, ∀ j q, (x.state.proc j).parent = some q → depth q < depth j := by
  obtain ⟨x, hx, -, -, hz⟩ := reaper_reach
  exact ⟨x, hx, hz, (process_tree hx).2.2⟩

/-! ### Exit statuses -/

/-- What a history says of exit statuses: each process that exits is returned by one `wait` of
its parent, and what `wait` returns is told. -/
structure Delivered (init : ℕ) (log : List Event) : Prop where
  /-- A process that exits waits until one `wait` returns it, -/
  collected : ∀ pre c post, log = pre ++ .exited c :: post →
    ∃ L status, lives pre c = some L ∧ L.exiting = some status ∧ Collected init pre c L status post
  /-- and each that a `wait` returns has exited since the last one did. -/
  once : ∀ a q c pid status b, log = a ++ .reaped q c pid status :: b →
    ∃ pre mid, a = pre ++ .exited c :: mid ∧ ∀ e ∈ mid, ¬ Reaps c e
  /-- A successful `wait` returns one process, -/
  success : ∀ a q pid b, log = a ++ .waited q (some pid) :: b →
    ∃ a' c status mid, a = a' ++ .reaped q c pid status :: mid ∧ ∀ r, .waited q r ∉ mid
  /-- and `wait` returns what it has settled to return, once. -/
  returns : ∀ a q ret ev mid r b, log = a ++ ev :: mid ++ .waited q r :: b → Settles q ret ev →
    (∀ r, .waited q r ∉ mid) → r = ret ∧ ∀ r, ∀ e ∈ mid, ¬ Settles q r e
  /-- A `wait` whose copy fails leaves the zombie. -/
  refused : ∀ a q c b, log = a ++ .refused q c :: b →
    ∃ L, lives a c = some L ∧ L.gone = true ∧ L.parent = q ∧ lives (a ++ [.refused q c]) c = some L

lemma Legal.delivered {init : ℕ} {log : List Event} (h : Legal init log) : Delivered init log := by
  constructor
  case collected =>
    rintro pre c post rfl
    exact h.collected
  case once =>
    rintro a q c pid status b rfl
    exact h.exited_before
  case success =>
    rintro a q pid b rfl
    rcases h a _ b rfl with hd | ⟨-, hd⟩
    · exact due_some hd
    · cases hd
  case returns =>
    rintro a q ret ev mid r b rfl hev hmid
    exact h.returns hev hmid
  case refused =>
    rintro a q c b rfl
    obtain ⟨-, L, hL, hpar, hgone⟩ := h a _ b rfl
    refine ⟨L, hL, hgone, hpar, ?_⟩
    rw [lives_snoc]
    exact hL

/-- A zombie has in its record what the history says of it, until `wait` returns it. -/
def Shows (s : State) (j : ℕ) : Prop :=
  ∃ L, lives s.log j = some L ∧ L.gone = true ∧ (s.proc j).pid = L.pid ∧
    L.exiting = some (s.proc j).xstate ∧ (s.proc j).parent = some L.parent

/-- **Exit statuses are delivered exactly once.** -/
theorem statuses_delivered (h : Reach e (boot m initcode) x) :
    (∀ j, (x.state.proc j).state ≠ .unused → j ≠ x.state.initproc →
      ∃ q, (x.state.proc j).parent = some q ∧ (x.state.proc q).state ≠ .unused ∧
        (x.state.proc q).state ≠ .zombie) ∧
    Delivered x.state.initproc x.state.log ∧
    ∀ j, (x.state.proc j).state = .zombie → ¬ Freed x.state j → Shows x.state j := by
  obtain ⟨ℓ, hℓ⟩ := h.sound
  have hk := hℓ.inv.kin
  refine ⟨fun j hj hji => ?_, hℓ.inv.told.legal.delivered, fun j hz hf => ?_⟩
  · obtain ⟨q, hq⟩ := Option.ne_none_iff_exists'.mp (hk.has j hj hji)
    obtain ⟨h1, h2, -⟩ := hk.alive j q hq
    exact ⟨q, hq, h1, h2⟩
  · have hji : j ≠ x.state.initproc := by
      rintro rfl
      exact (hk.init _ (by rw [hz]; simp)).2 hz
    have hkept : Kept (fun t => (ℓ t).family) j := by
      intro t b hb hslot
      by_contra hr
      refine hf ⟨hz, ?_⟩
      rw [← hslot]
      exact hℓ.inv.told.reaped t b hb (by simpa using hr)
    obtain ⟨L, hL, hfit⟩ := hℓ.inv.told.fits j (by rw [hz]; simp) hkept
    exact ⟨L, hL, hfit.gone.mpr hz, hfit.pid.symm, hfit.status hz, hfit.parent hji⟩

/-- A child that exits with status 7, and the parent that gets it. -/
theorem statuses_delivered_reaper : ∃ x, Reach oneCond (boot (freePages 32) []) x ∧
    x.state.log = reaperLog ∧ Delivered x.state.initproc reaperLog := by
  obtain ⟨x, hx, hlog, -, -⟩ := reaper_reach
  have hd := (statuses_delivered hx).2.1
  rw [hlog] at hd
  exact ⟨x, hx, hlog, hd⟩

end Xv6.Kern
