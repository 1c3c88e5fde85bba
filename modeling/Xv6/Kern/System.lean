import Xv6.Kern.Deaths

/-!
The whole machine: in every configuration it can get to, the invariant holds with ghost values
under which each thread can go on.
-/

namespace Xv6.Kern

open Lib.Wp Lib.Conc Vm
open Function (update update_of_ne update_self)

variable {e : Env} {x y : Conf} {s s' : State} {ℓ : Thread → Ghost} {t : Thread} {l : Ghost}
  {c i : ℕ} {m : Phys} {initcode : List UInt8}

/-! ### Where threads start -/

lemma caller_empty : Caller {} :=
  ⟨⟨⟨rfl, rfl, rfl, rfl, rfl, rfl, rfl, fun k hk => absurd hk (needs_empty k), rfl⟩, rfl, rfl, rfl⟩,
    rfl, rfl, rfl, rfl⟩

lemma call_ok (k : Call) : Ok e (.proc i) (k.code e) (fun _ l' => l' = {}) {} := by
  have h := caller_empty
  cases k with
  | fork => exact then_ok (fork_ok h.toPlain rfl rfl rfl rfl rfl) fun _ => rfl
  | exit status => exact exit_ok h.toAtCall rfl rfl rfl rfl rfl
  | wait addr k => exact then_ok (sysWait_ok h rfl) fun _ => rfl
  | kill pid => exact then_ok (sysKill_ok h.toPlain rfl rfl) fun _ => rfl
  | fault => exact fault_ok h.toAtCall rfl rfl rfl rfl rfl
  | sbrk n => exact then_ok (growproc_ok rfl) fun _ => rfl
  | exec path uargv file => exact then_ok (sysExec_ok rfl) fun _ => rfl
  | pipe fdarray => exact then_ok (sysPipe_ok h.toPlain rfl) fun _ => rfl
  | close fd => exact then_ok (sysClose_ok h.toPlain rfl) fun _ => rfl
  | dup fd => exact then_ok (sysDup_ok rfl) fun _ => rfl
  | waitFor n take k => exact waitFor_ok h.toAtCall rfl
  | signal n => exact signal_ok h.toAtCall
  | unset n => exact unset_ok h.toAtCall
  | wakeup chan => exact wakeup_ok h.toPlain rfl
  | userStore va bytes => exact userStore_ok

lemma forkret_ok : Ok e (.proc i) forkret (fun _ l' => l' = {}) (.fresh i) := by
  refine myproc_then ?_
  refine (caller_empty.toPlain.unlock_ok (k := .proc i) (by simp) (by simp)).mono ?_
  rintro _ l' rfl
  rfl

/-! ### Interrupts -/

lemma Inv.idle (h : Inv e s ℓ) (hoff : (s.cpu c).noff = 0) :
    Plain (ℓ (s.thread c)) ∧ (ℓ (s.thread c)).wait.sig = none := by
  have hlocks : (ℓ (s.thread c)).run.locks = ∅ := by
    rw [← Finset.card_eq_zero, ← hoff]
    exact (h.base.noff c).symm
  have hno : ∀ k, k ∉ (ℓ (s.thread c)).run.locks := by
    rw [hlocks]
    simp
  have hheld : ∀ k, s.held k ≠ some c := fun k hk => hno k ((h.base.lock c k).mp hk)
  have hbusy : (ℓ (s.thread c)).family.busy = none := by
    rw [Option.eq_none_iff_forall_ne_some]
    exact fun b hb => hno _ (h.kin.busy _ b hb).lock
  have hneeds : ∀ k, (ℓ (s.thread c)).watch.Needs k → k ∈ (ℓ (s.thread c)).run.locks :=
    fun k hk => (h.watched.held _ k hk).1
  have hnamed : (ℓ (s.thread c)).watch.named = none := by
    rw [Option.eq_none_iff_forall_ne_some]
    exact fun x hx => hno _ (hneeds _ (.inr (.inr ⟨x.1, x.2, hx, rfl⟩)))
  cases hl : s.live c with
  | none =>
    rw [State.thread_of_none hl] at hno hbusy hneeds hnamed ⊢
    have hw := h.sleeps.idle c
    refine ⟨⟨h.base.idle c, ?_, ?_, ?_, hbusy, by rw [hw], by rw [hw], hneeds, hnamed⟩,
      by rw [hw]⟩
    · rw [Option.eq_none_iff_forall_ne_some]
      exact fun j hj => hheld _ (h.base.seen c j hj).1
    · rw [Option.eq_none_iff_forall_ne_some]
      exact fun j hj => hheld _ (h.base.pick c j hj).1
    · rw [Option.eq_none_iff_forall_ne_some]
      exact fun j hj => hno _ (h.base.mem c j hj)
  | some i =>
    rw [State.thread_of_some hl] at hno hbusy hneeds hnamed ⊢
    obtain ⟨hseen, hpick, hon⟩ := h.base.bare i
    have hst : (ℓ (.proc i)).run.st = .running := by
      rw [← (h.base.st c i hl).1]
      exact (h.base.guard c i (h.base.away c i hl).1).resolve_right (hheld _)
    refine ⟨⟨hst, hseen, hpick, hon, hbusy, ?_, ?_, hneeds, hnamed⟩, ?_⟩
    · rw [Option.eq_none_iff_forall_ne_some]
      exact fun n hn => (h.sleeps.pre i n hn).1.elim (hno _) (hno _)
    · rw [Option.eq_none_iff_forall_ne_some]
      exact fun n hn => hno _ (h.sleeps.parked i n hn).1
    · rw [Option.eq_none_iff_forall_ne_some]
      exact fun n hn => hno _ (h.sleeps.sig i n.1 n.2 hn).1

/-! ### Configurations -/

/-- The invariant holds, and each thread can go on to where it knows nothing. -/
structure Sound (e : Env) (x : Conf) (ℓ : Thread → Ghost) : Prop where
  inv : Inv e x.state ℓ
  code : ∀ t, Ok e t (x.code t) (fun _ l' => l' = {}) (ℓ t)

lemma Sound.recode {z : Code Unit} (h : Sound e x ℓ)
    (hz : Ok e t z (fun _ l' => l' = {}) (ℓ t)) :
    Sound e { x with code := update x.code t z } ℓ := by
  refine ⟨h.inv, fun u => ?_⟩
  change Ok e u (update x.code t z u) _ _
  by_cases hu : u = t
  · subst hu
    rw [update_self]
    exact hz
  · rw [update_of_ne hu]
    exact h.code u

lemma Sound.act {β : Type} {a : KernM β} {k : β → Code Unit} {b : β} (h : Sound e x ℓ)
    (hcode : x.code (x.state.thread c) = .act a k)
    (ha : a { x.state with cur := c } = .ok b s') :
    ∃ l', Sound e ⟨s', start x.state s' c (update x.code (x.state.thread c) (k b))⟩
      (update ℓ (x.state.thread c) l') := by
  have hsafe := h.code (x.state.thread c)
  rw [hcode] at hsafe
  have hinv : Inv e { x.state with cur := c } ℓ :=
    h.inv.congr ⟨rfl, rfl, rfl, rfl, rfl, rfl, rfl, rfl, rfl, rfl, rfl⟩
  obtain ⟨l', hI, hk⟩ := hsafe.step hinv rfl rfl ha
  refine ⟨l', hI, fun u => ?_⟩
  have hgo : Ok e u (update x.code (x.state.thread c) (k b) u) (fun _ l' => l' = {})
      (update ℓ (x.state.thread c) l' u) := by
    by_cases hu : u = x.state.thread c
    · subst hu
      rw [update_self, update_self]
      exact hk
    · rw [update_of_ne hu, update_of_ne hu]
      exact h.code u
  -- the code of a process that is switched to for the first time
  have hnew : ∀ i z, x.state.live c = none →
      Ok e (.proc i) z (fun _ l' => l' = {}) (ℓ (.proc i)) →
      Ok e u (update (update x.code (x.state.thread c) (k b)) (.proc i) z u)
        (fun _ l' => l' = {}) (update ℓ (x.state.thread c) l' u) := by
    intro i z hl hz
    by_cases hu : u = .proc i
    · subst hu
      rw [update_self, State.thread_of_none hl, update_of_ne (by simp)]
      exact hz
    · rw [update_of_ne hu]
      exact hgo
  unfold start
  split
  · rename_i i hl hl'
    split
    · exact hgo
    · rename_i hctx
      refine hnew i _ hl ?_
      rw [h.inv.fresh i hctx]
      exact forkret_ok
    · exact hnew i _ hl (crash_ok _)
  · exact hgo

/-- **Every step keeps the invariant.** -/
theorem Sound.step (h : Sound e x ℓ) (hs : Step e x c y) : ∃ ℓ', Sound e y ℓ' := by
  cases hs with
  | act hcode ha =>
    obtain ⟨l', hl'⟩ := h.act hcode ha
    exact ⟨_, hl'⟩
  | round hcode hlive =>
    refine ⟨ℓ, h.recode ?_⟩
    have hl := h.code (.sched c)
    rw [hcode] at hl
    rw [show ℓ (.sched c) = {} from hl]
    exact scheduler_ok caller_empty.toPlain rfl rfl
  | @call i k hcode hlive =>
    refine ⟨ℓ, h.recode ?_⟩
    have hl := h.code (.proc i)
    rw [hcode] at hl
    rw [show ℓ (.proc i) = {} from hl]
    exact call_ok k
  | @tick i hlive hoff hrun =>
    refine ⟨ℓ, h.recode ?_⟩
    obtain ⟨hp, hsig⟩ := h.inv.idle hoff
    rw [State.thread_of_some hlive] at hp hsig
    exact then_ok (yield_ok hp hsig) fun _ => h.code (.proc i)
  | intr chan hoff =>
    refine ⟨ℓ, h.recode ?_⟩
    obtain ⟨hp, hsig⟩ := h.inv.idle hoff
    exact then_ok (wakeup_ok hp hsig) fun _ => h.code _

/-! ### The start -/

/-- What threads know at the start. -/
def born : Thread → Ghost
  | .sched c => if c = 0 then { family := { empty := true } } else {}
  | .proc i => .fresh i

lemma born_sched (c : ℕ) : (born (.sched c)).run = {} ∧ (born (.sched c)).wait = {} := by
  by_cases hc : c = 0
  · simp [born, hc]
  · simp [born, hc]

lemma born_busy (t : Thread) : (born t).family.busy = none := by
  cases t with
  | sched c => by_cases hc : c = 0 <;> simp [born, hc]
  | proc i => rfl

lemma born_watch (t : Thread) : (born t).watch = {} := by
  cases t with
  | sched c => by_cases hc : c = 0 <;> simp [born, hc]
  | proc i => rfl

lemma base_raw : Base (raw m) fun t => (born t).run := by
  have hrun : ∀ c, (born (.sched c)).run = {} := fun c => (born_sched c).1
  have hth : ∀ c, (raw m).thread c = .sched c := fun _ => rfl
  constructor
  case lock =>
    intro c k
    rw [hth, hrun]
    simp [raw]
  case noff =>
    intro c
    rw [hth, hrun]
    rfl
  case proc =>
    intro c
    rw [hrun]
    rfl
  case away | st =>
    rintro c i ⟨⟩
  case uniq =>
    intro c c' i hc
    rw [hrun] at hc
    cases hc
  case guard | seen | pick | mem =>
    intro c i hc
    rw [hrun] at hc
    cases hc
  case off => exact fun i _ => ⟨rfl, rfl⟩
  case ctx =>
    intro i
    simp [raw]
  case made => exact fun i hi => absurd rfl hi
  case kept =>
    rintro i ⟨⟩
  case bare => exact fun i => ⟨rfl, rfl, rfl⟩
  case idle =>
    intro c
    rw [hrun]

lemma kin_raw : Kin (raw m) (fun t => (born t).run) fun t => (born t).family where
  busy t b hb := by
    rw [born_busy] at hb
    cases hb
  kid := by
    rintro i j ⟨⟩
  nokids i hi := absurd hi (by simp [born, Ghost.fresh])
  alive := by
    rintro j q ⟨⟩
  has j hj := absurd rfl hj
  init j hj := absurd rfl hj
  root := rfl
  clean _ _ _ := rfl
  range _ _ := ⟨rfl, rfl⟩
  empty t ht := by
    refine ⟨?_, fun _ => rfl⟩
    cases t with
    | sched c =>
      by_cases hc : c = 0
      · rw [hc]
      · simp [born, hc] at ht
    | proc i => cases ht

lemma told_raw : Told (raw m) (fun t => (born t).family) fun t => (born t).said where
  legal a ev b hab := by simp [raw] at hab
  due _ := rfl
  unused _ _ := rfl
  empty _ _ := rfl
  reaped t b hb := by
    rw [born_busy] at hb
    cases hb
  fits j hj := absurd rfl hj
  xstate := by
    rintro i v ⟨⟩

lemma watched_raw : Watched (raw m) (fun t => (born t).run) fun t => (born t).watch := by
  constructor
  case held =>
    intro t k hk
    rw [born_watch] at hk
    exact absurd hk (needs_empty k)
  case calm =>
    rintro p j - ⟨⟨⟩, -⟩
  case clear =>
    intro t p n hc
    rw [born_watch] at hc
    cases hc
  case up | woke =>
    intro t q hq
    rw [born_watch] at hq
    cases hq

lemma marks_raw : Marks (raw m) fun t => (born t).watch where
  calls t := by
    rw [born_watch]
    rfl
  answers _ a t want ok b hab := by simp [raw] at hab
  free _ _ _ := rfl
  mark _ j hj := absurd rfl hj
  named t p pid hn := by
    rw [born_watch] at hn
    cases hn

lemma inv_raw : Inv e (raw m) born := by
  refine ⟨base_raw, kin_raw, told_raw, ?_, watched_raw, marks_raw, fun _ _ _ => rfl, by rintro i ⟨⟩⟩
  constructor
  case waiting | waking => exact fun _ => rfl
  case pre | parked | asleep =>
    rintro i n ⟨⟩
  case sig =>
    rintro i n k ⟨⟩
  case chan =>
    rintro i ch ⟨⟩
  case idle => exact fun c => (born_sched c).2

lemma sound_boot : Sound e (boot m initcode) born := by
  refine ⟨inv_raw, fun t => ?_⟩
  cases t with
  | sched c =>
    by_cases hc : c = 0
    · subst hc
      exact userinit_ok ⟨rfl, rfl, rfl, rfl, rfl, rfl, rfl, fun k hk => absurd hk (needs_empty k),
        rfl⟩ rfl rfl rfl
    · simp only [boot, born, if_neg hc]
      rfl
  | proc i => exact forkret_ok

/-- **Every configuration the machine can get to is sound.** -/
theorem Reach.sound (h : Reach e (boot m initcode) x) : ∃ ℓ, Sound e x ℓ := by
  induction h with
  | refl => exact ⟨_, sound_boot⟩
  | tail _ hs ih =>
    obtain ⟨ℓ, hℓ⟩ := ih
    obtain ⟨c, hc⟩ := hs
    exact hℓ.step hc

end Xv6.Kern
