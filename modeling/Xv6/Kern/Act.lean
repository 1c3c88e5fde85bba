import Xv6.Kern.Watched

/-!
What each action of the kernel does to the invariant and to what its thread knows.
-/

namespace Xv6.Kern

open Lib.Wp Lib.Conc
open Function (update update_eq_self update_of_ne update_self)

/-- Thread `t` runs on the CPU that acts. -/
def turn (t : Thread) (s : State) : Prop := s.thread s.cur = t

/-- How the kernel may stop. -/
def Stuck (_ : Stop) (_ : State) : Prop := True

variable (e : Env)

/-- Thread `t` that knows `l` can run the code, and then `Q` holds. -/
abbrev Ok {α : Type} (t : Thread) (x : Code α) (Q : α → Ghost → Prop) (l : Ghost) : Prop :=
  Safe (Inv e) turn (fun _ s => s) Stuck t x Q l

variable {e} {s s' : State} {ℓ : Thread → Ghost} {t : Thread} {l l' : Ghost} {i j : ℕ} {k : Lock}

lemma part {α : Type} (F : Ghost → α) :
    (fun u => F (update ℓ t l' u)) = update (fun u => F (ℓ u)) t (F l') := by
  funext u
  by_cases hu : u = t
  · rw [hu, update_self, update_self]
  · rw [update_of_ne hu, update_of_ne hu]

lemma part_same {α : Type} (hl : ℓ t = l) (F : Ghost → α) (h : F l' = F l := by rfl) :
    (fun u => F (update ℓ t l' u)) = fun u => F (ℓ u) := by
  rw [part, h, ← hl]
  exact update_eq_self t fun u => F (ℓ u)

/-- Two states that the invariant does not tell apart. -/
structure Same (s s' : State) : Prop where
  proc : s'.proc = s.proc
  initproc : s'.initproc = s.initproc
  cpu : s'.cpu = s.cpu
  held : s'.held = s.held
  live : s'.live = s.live
  ctx : s'.ctx = s.ctx
  cond : s'.cond = s.cond
  waiting : s'.waiting = s.waiting
  waking : s'.waking = s.waking
  log : s'.log = s.log
  deeds : s'.deeds = s.deeds

namespace Inv

section

variable (h : Inv e s ℓ)

include h

/-- What processes start with after the thread that acts has changed what it knows. -/
lemma dead_update (ht : turn t s) (hlive : s'.live = s.live)
    (hdead : ∀ i, (s'.proc i).state = .unused ∨ (s'.proc i).state = .zombie →
      (s.proc i).state = .unused ∨ (s.proc i).state = .zombie ∨ ∃ c, s.live c = some i) (i : ℕ)
    (hi : ∀ c, s'.live c ≠ some i)
    (hs : (s'.proc i).state = .unused ∨ (s'.proc i).state = .zombie) :
    update ℓ t l' (.proc i) = .fresh i := by
  rw [hlive] at hi
  have hit : Thread.proc i ≠ t := fun hit => hi s.cur (State.thread_proc.mp (hit ▸ ht))
  rw [update_of_ne hit]
  refine h.dead i hi ?_
  rcases hdead i hs with h1 | h1 | ⟨c, hc⟩
  · exact .inl h1
  · exact .inr h1
  · exact absurd hc (hi c)

lemma fresh_update (ht : turn t s) (hctx : s'.ctx = s.ctx) (i : ℕ) (hi : s'.ctx i = .forkret) :
    update ℓ t l' (.proc i) = .fresh i := by
  rw [hctx] at hi
  have hit : Thread.proc i ≠ t := by
    intro hit
    have := (h.base.ctx i).mpr ⟨s.cur, State.thread_proc.mp (hit ▸ ht)⟩
    rw [hi] at this
    cases this
  rw [update_of_ne hit]
  exact h.fresh i hi

section

variable (ht : turn t s) (hl : ℓ t = l) (hlive : s'.live = s.live) (hctx : s'.ctx = s.ctx)
  (hbusy : ∀ u b, (ℓ u).family.busy = some b → s'.proc b.slot = s.proc b.slot)
  (hlocks : l'.run.locks = l.run.locks) (hfam : l'.family = l.family)
  (hbase : Base s' fun u => (update ℓ t l' u).run)
  (htold : Told s' (fun u => (ℓ u).family) fun u => (update ℓ t l' u).said)
  (hsleeps : Sleeps e s' (fun u => (update ℓ t l' u).run) fun u => (update ℓ t l' u).wait)

include ht hl hlive hctx hbusy hlocks hfam hbase htold hsleeps

/-- An action that keeps who is there and who is whose parent, and leaves the records that are
worked on and the locks of all threads. -/
lemma keep (hinit : s'.initproc = s.initproc)
    (hunused : ∀ i, (s'.proc i).state = .unused ↔ (s.proc i).state = .unused)
    (hzombie : ∀ i, (s'.proc i).state = .zombie ↔ (s.proc i).state = .zombie)
    (hparent : ∀ i, (s'.proc i).parent = (s.proc i).parent)
    (hwatched : Watched s' (fun u => (ℓ u).run) fun u => (update ℓ t l' u).watch)
    (hmarks : Marks s' fun u => (update ℓ t l' u).watch) : Inv e s' (update ℓ t l') := by
  have hth := State.thread_congr hlive
  have hlk := update_proj (g := fun u => (ℓ u).run) (t := t) Run.locks
    (show l'.run.locks = _ by rw [hl, hlocks])
  constructor
  case base => exact hbase
  case kin =>
    rw [part, part_same hl Ghost.family hfam]
    have hkin := h.kin.set_quiet hth hinit hctx hunused hzombie hparent hbusy
    refine hkin.frame rfl rfl fun u b hu => ?_
    have hw := hkin.busy u b hu
    exact ⟨by rw [hlk]; exact hw.lock, hw.current, hw.ready⟩
  case told =>
    rw [part_same hl Ghost.family hfam]
    exact htold
  case sleeps => exact hsleeps
  case watched =>
    rw [part]
    refine { hwatched with held := fun u k hk => ?_ }
    rw [hlk]
    exact hwatched.held u k hk
  case marks => exact hmarks
  case dead =>
    refine h.dead_update ht hlive fun i hi => ?_
    rw [hunused, hzombie] at hi
    tauto
  case fresh => exact h.fresh_update ht hctx

/-- A mild action: what is left to see are the CPUs, the history, and those who wait. -/
lemma mild (hm : Mild s s') (hwatch : l'.watch = l.watch) : Inv e s' (update ℓ t l') := by
  refine h.keep ht hl hlive hctx hbusy hlocks hfam hbase htold hsleeps hm.initproc hm.unused
    hm.zombie hm.parent ?_ ?_
  · rw [part_same hl Ghost.watch hwatch]
    refine h.watched.mild hm fun u k hk => ?_
    simpa only [State.thread, hlive] using h.watched.held u k hk
  · rw [part_same hl Ghost.watch hwatch]
    exact h.marks.mild hm

end

lemma congr (hs : Same s s') : Inv e s' ℓ := by
  obtain ⟨hproc, hinit, hcpu, hheld, hlive, hctx, hcond, hwaiting, hwaking, hlog, hdeeds⟩ := hs
  have hm : Mild s s' := .of_proc hproc hinit hdeeds hwaiting
  have := h.mild (t := s.thread s.cur) rfl rfl hlive hctx (fun u b _ => by rw [hproc]) rfl rfl
    ?_ ?_ ?_ hm rfl
  · rwa [update_eq_self] at this
  · rw [update_eq_self]
    exact h.base.frame hlive hheld hcpu hctx fun i => by rw [hproc]
  · rw [update_eq_self]
    exact hm.told h.told h.kin hlog fun i => by rw [hproc]
  · rw [update_eq_self]
    exact h.sleeps.idle_step hproc hcond hwaiting hwaking hlive fun _ => rfl

lemma held_iff (ht : turn t s) (hl : ℓ t = l) :
    s.held k = some s.cur ↔ k ∈ l.run.locks := by
  rw [h.base.lock, ht, hl]

lemma works (hl : ℓ t = l) {b : Busy} (hb : l.family.busy = some b) :
    Works s t l.run b := by
  have := h.kin.busy t b (by rw [hl]; exact hb)
  rwa [hl] at this

lemma needs (hl : ℓ t = l) (hk : l.watch.Needs k) : k ∈ l.run.locks := by
  have := (h.watched.held t k (by rw [hl]; exact hk)).1
  rwa [hl] at this

lemma state_eq (ht : turn (.proc i) s) (hl : ℓ (.proc i) = l) :
    (s.proc i).state = l.run.st := by
  rw [(h.base.st s.cur i (State.thread_proc.mp ht)).1, hl]

end

lemma live_cur (ht : turn (.proc i) s) : s.live s.cur = some i := State.thread_proc.mp ht

lemma relock (h : Inv e s ℓ) (ht : turn t s) (hl : ℓ t = l) (hproc : s'.proc = s.proc)
    (hinit : s'.initproc = s.initproc) (hlive : s'.live = s.live) (hctx : s'.ctx = s.ctx)
    (hcond : s'.cond = s.cond) (hwaiting : s'.waiting = s.waiting)
    (hwaking : s'.waking = s.waking) (hlog : s'.log = s.log) (hdeeds : s'.deeds = s.deeds)
    (hbase : Base s' (update (fun u => (ℓ u).run) t l'.run))
    (hfam : l'.family = l.family) (hsaid : l'.said = l.said) (hwait : l'.wait = l.wait)
    (hwatch : l'.watch = l.watch)
    (hbusy : ∀ b, l.family.busy = some b → .proc b.slot ∈ l'.run.locks)
    (hpark : ∀ i n, t = .proc i → l.wait.parked = some n → .proc i ∈ l'.run.locks)
    (hpre : ∀ i n, t = .proc i → l.wait.pre = some n →
      e.lk n ∈ l'.run.locks ∨ .proc i ∈ l'.run.locks)
    (hsig : ∀ i n k, t = .proc i → l.wait.sig = some (n, k) → e.lk n ∈ l'.run.locks)
    (hneeds : ∀ k, l.watch.Needs k → k ∈ l'.run.locks) :
    Inv e s' (update ℓ t l') := by
  have hth := State.thread_congr hlive
  have hlocks : ∀ u, u ≠ t → update (fun u => (ℓ u).run) t l'.run u = (ℓ u).run :=
    fun u hu => update_of_ne hu _ _
  have hm : Mild s s' := .of_proc hproc hinit hdeeds hwaiting
  constructor
  case base =>
    rw [part]
    exact hbase
  case kin =>
    rw [part, part_same hl Ghost.family hfam]
    refine h.kin.frame hproc hinit fun u b hu => ?_
    have hw := h.kin.busy u b hu
    refine ⟨?_, by simpa only [hth] using hw.current, by rw [hctx]; exact hw.ready⟩
    by_cases hut : u = t
    · rw [hut, update_self]
      exact hbusy b (by rw [← hl, ← hut]; exact hu)
    · rw [hlocks u hut]
      exact hw.lock
  case told =>
    rw [part_same hl Ghost.family hfam, part_same hl Ghost.said hsaid]
    exact hm.told h.told h.kin hlog fun i => by rw [hproc]
  case sleeps =>
    rw [part, part_same hl Ghost.wait hwait]
    refine h.sleeps.frame hcond hwaiting hwaking (fun i => by rw [hproc]; exact id)
      (fun i h1 h2 => .inl ?_) (fun i n hi h1 => ?_)
      (fun i n hi h1 h2 => ⟨?_, by rw [hlive]; exact h2⟩)
      fun i n k hi h1 h2 => ⟨?_, by rw [hlive]; exact h2⟩
    · rw [hproc]
      exact ⟨rfl, h1, h2⟩
    · by_cases hit : Thread.proc i = t
      · rw [hit, update_self]
        exact hpark i n hit.symm (by rw [← hl, ← hit]; exact hi)
      · rw [hlocks _ hit]
        exact h1
    · by_cases hit : Thread.proc i = t
      · rw [hit, update_self]
        exact hpre i n hit.symm (by rw [← hl, ← hit]; exact hi)
      · rw [hlocks _ hit]
        exact h1
    · by_cases hit : Thread.proc i = t
      · rw [hit, update_self]
        exact hsig i n k hit.symm (by rw [← hl, ← hit]; exact hi)
      · rw [hlocks _ hit]
        exact h1
  case watched =>
    rw [part, part_same hl Ghost.watch hwatch]
    refine h.watched.mild hm fun u k hk => ?_
    obtain ⟨h1, h2⟩ := h.watched.held u k hk
    refine ⟨?_, by simpa only [hth] using h2⟩
    by_cases hut : u = t
    · rw [hut, update_self]
      exact hneeds k (by rw [← hl, ← hut]; exact hk)
    · rw [hlocks u hut]
      exact h1
  case marks =>
    rw [part_same hl Ghost.watch hwatch]
    exact h.marks.mild hm
  case dead =>
    refine h.dead_update ht hlive fun i hi => ?_
    rw [hproc] at hi
    tauto
  case fresh => exact h.fresh_update ht hctx

end Inv

/-! ### Locks -/

lemma acquire_ok : Ok e t (acquire k) (fun _ l' => l' = l.lock k ∧ k ∉ l.run.locks) l := by
  refine safe_turn fun s ℓ h hl ht => ?_
  simp only [wp_bind, wp_get, wp_throwIf, wp_set]
  refine ⟨fun _ => trivial, fun h1 => ⟨fun _ => trivial, fun h2 => ?_⟩⟩
  have hnone : s.held k = none := by
    by_contra h3
    exact h2 h3
  have hk : k ∉ l.run.locks := by
    rw [← h.held_iff ht hl, hnone]
    simp
  refine ⟨l.lock k, ?_, rfl, hk⟩
  have hbase := h.base.acquire ht hnone
  simp only [hl] at hbase
  refine h.relock ht hl rfl rfl rfl rfl rfl rfl rfl rfl rfl hbase rfl rfl rfl rfl ?_ ?_ ?_ ?_ ?_
  · intro b hb
    exact Finset.mem_insert_of_mem (h.works hl hb).lock
  · intro i n hti hpark
    subst hti
    have := (h.sleeps.parked i n (by rw [hl]; exact hpark)).1
    rw [hl] at this
    exact Finset.mem_insert_of_mem this
  · intro i n hti hpre
    subst hti
    have := (h.sleeps.pre i n (by rw [hl]; exact hpre)).1
    rw [hl] at this
    exact this.imp (Finset.mem_insert_of_mem) (Finset.mem_insert_of_mem)
  · intro i n m hti hsig
    subst hti
    have := (h.sleeps.sig i n m (by rw [hl]; exact hsig)).1
    rw [hl] at this
    exact Finset.mem_insert_of_mem this
  · intro k' hk'
    exact Finset.mem_insert_of_mem (h.needs hl hk')

/-- What a thread may not know when it gives up a lock. -/
structure CanRelease (e : Env) (t : Thread) (l : Ghost) (k : Lock) : Prop where
  mem : k ∈ l.run.locks
  run : Base.CanDrop t l.run k
  busy : ∀ b, l.family.busy = some b → k ≠ .proc b.slot
  pre : ∀ i n, t = .proc i → l.wait.pre = some n →
    e.lk n ∈ l.run.locks.erase k ∨ .proc i ∈ l.run.locks.erase k
  sig : ∀ n m, l.wait.sig = some (n, m) → e.lk n ≠ k
  parked : l.wait.parked = none
  needs : ¬ l.watch.Needs k

lemma release_ok (hc : CanRelease e t l k) : Ok e t (release k) (fun _ l' => l' = l.unlock k) l := by
  refine safe_turn fun s ℓ h hl ht => ?_
  simp only [wp_bind, wp_get, wp_throwIf, wp_set]
  refine ⟨fun _ => trivial, fun _ => ⟨fun _ => trivial, fun _ => ?_⟩⟩
  refine ⟨l.unlock k, ?_, rfl⟩
  have hbase := h.base.release ht (by rw [hl]; exact hc.mem) (by rw [hl]; exact hc.run)
  simp only [hl] at hbase
  refine h.relock ht hl rfl rfl rfl rfl rfl rfl rfl rfl rfl hbase rfl rfl rfl rfl ?_
    (by simp [hc.parked]) hc.pre ?_ ?_
  · intro b hb
    exact Finset.mem_erase.mpr ⟨(hc.busy b hb).symm, (h.works hl hb).lock⟩
  · intro i n m hti hsig
    subst hti
    have := (h.sleeps.sig i n m (by rw [hl]; exact hsig)).1
    rw [hl] at this
    exact Finset.mem_erase.mpr ⟨hc.sig n m hsig, this⟩
  · intro k' hk'
    refine Finset.mem_erase.mpr ⟨?_, h.needs hl hk'⟩
    rintro rfl
    exact hc.needs hk'

section Then

variable {α β : Type} {Q : β → Ghost → Prop}

lemma of_ghost {x : Code β} {r : Ghost} (h : l = r) (hx : Ok e t x Q r) : Ok e t x Q l := by
  rw [h]
  exact hx

lemma then_ok {x : Code α} {f : α → Code β} {r : Ghost} (hx : Ok e t x (fun _ l' => l' = r) l)
    (hf : ∀ a, Ok e t (f a) Q r) : Ok e t (x >>= f) Q l := by
  refine Safe.bind hx fun a l' hl' => ?_
  rw [hl']
  exact hf a

lemma acquire_then {f : Unit → Code β} (hf : k ∉ l.run.locks → Ok e t (f ()) Q (l.lock k)) :
    Ok e t (acquire k >>= f) Q l := by
  refine Safe.bind acquire_ok ?_
  rintro _ l' ⟨rfl, hk⟩
  exact hf hk

lemma release_then {f : Unit → Code β} (hc : CanRelease e t l k)
    (hf : Ok e t (f ()) Q (l.unlock k)) : Ok e t (release k >>= f) Q l :=
  then_ok (release_ok hc) fun _ => hf

end Then

/-! ### Actions that the invariant does not see -/

variable {α : Type} {Q : α → Ghost → Prop} {F : Proc → Proc}

lemma read_ok (f : State → α) :
    Ok e t (read f) (fun a l' => (∃ s ℓ, Inv e s ℓ ∧ ℓ t = l ∧ turn t s ∧ a = f s) ∧ l' = l) l := by
  refine safe_turn fun s ℓ h hl ht => ?_
  simp only [wp_map, wp_get]
  refine ⟨l, ?_, ⟨s, ℓ, h, hl, ht, rfl⟩, rfl⟩
  rw [← hl, update_eq_self]
  exact h

lemma getProc_ok (j : ℕ) :
    Ok e t (getProc j) (fun q l' =>
      (∃ s ℓ, Inv e s ℓ ∧ ℓ t = l ∧ turn t s ∧ q = s.proc j) ∧ l' = l) l := read_ok _

lemma panicWhen_ok (c : State → Prop) [DecidablePred c] (msg : String) :
    Ok e t (panicWhen c msg) (fun _ l' =>
      (∃ s ℓ, Inv e s ℓ ∧ ℓ t = l ∧ turn t s ∧ ¬ c s) ∧ l' = l) l := by
  refine safe_turn fun s ℓ h hl ht => ?_
  simp only [wp_bind, wp_get, wp_throwIf]
  refine ⟨fun _ => trivial, fun hc => ⟨l, ?_, ⟨s, ℓ, h, hl, ht, hc⟩, rfl⟩⟩
  rw [← hl, update_eq_self]
  exact h

lemma myproc_ok : Ok e (.proc i) myproc (fun a l' => a = i ∧ l' = l) l := by
  refine safe_turn fun s ℓ h hl ht => ?_
  have hp : (s.cpu s.cur).proc = some i := by
    rw [h.base.proc]
    exact (h.base.away s.cur i (Inv.live_cur ht)).1
  simp only [wp_bind, wp_get, hp]
  rw [wp_pure]
  refine ⟨l, ?_, rfl, rfl⟩
  rw [← hl, update_eq_self]
  exact h

lemma myproc_then {f : ℕ → Code α}
    (hf : Ok e (.proc i) (f i) Q l) : Ok e (.proc i) (myproc >>= f) Q l := by
  refine Safe.bind_read myproc_ok fun p hp => ?_
  rw [hp]
  exact hf

lemma hang_ok : Ok e t (hang : Code α) Q l :=
  safe_turn fun _ _ _ _ _ => trivial

lemma crash_ok (x : Stop) : Ok e t (crash x : Code α) Q l :=
  safe_turn fun _ _ _ _ _ => trivial

lemma write_ok {F : State → State}
    (h : ∀ s ℓ, Inv e s ℓ → ℓ t = l → turn t s → Inv e (F s) (update ℓ t l')) :
    Ok e t (write F) (fun _ r => r = l') l :=
  safe_turn fun s ℓ hI hl ht => ⟨l', h s ℓ hI hl ht, rfl⟩

lemma quiet_ok {x : KernM α} (hx : ∀ s, wp x (fun _ s' => Same s s') Stuck s) :
    Ok e t (liftM x) (fun _ l' => l' = l) l := by
  refine safe_turn fun s ℓ h hl ht => ?_
  refine wp_mono (hx s) (fun a s' hs => ⟨l, ?_, rfl⟩) fun _ _ h => h
  rw [← hl, update_eq_self]
  exact h.congr hs

lemma vm_ok (x : Vm.Code α) : Ok e t (vm x) (fun _ l' => l' = l) l := by
  induction x with
  | ret a => exact rfl
  | act x k ih =>
    intro s ℓ h hl ht
    simp only [wp_onPart]
    unfold wp
    cases x s.phys with
    | error e' m => trivial
    | ok b m =>
      refine ⟨l, ?_, ih b⟩
      rw [← hl, update_eq_self]
      exact h.congr ⟨rfl, rfl, rfl, rfl, rfl, rfl, rfl, rfl, rfl, rfl, rfl⟩

/-! ### Records -/

/-- A change of a record that only its owner cares about. -/
structure Quiet (F : Proc → Proc) : Prop where
  state : ∀ q, (F q).state = q.state
  parent : ∀ q, (F q).parent = q.parent
  pid : ∀ q, (F q).pid = q.pid
  xstate : ∀ q, (F q).xstate = q.xstate
  chan : ∀ q, (F q).chan = q.chan
  killed : ∀ q, (F q).killed = q.killed

namespace Inv

lemma set_quiet (h : Inv e s ℓ) (hF : Quiet F)
    (hbusy : ∀ u b, (ℓ u).family.busy = some b → b.slot ≠ j) : Inv e (s.setProc j F) ℓ := by
  have hstate := State.setProc_proj (s := s) (j := j) Proc.state (hF.state _)
  have hm : Mild s (s.setProc j F) :=
    .of_setProc (hF.state _) (hF.parent _) (hF.killed _) (hF.pid _) fun _ => hF.chan _
  have : Inv e (s.setProc j F) (update ℓ _ _) := h.mild (t := s.thread s.cur) rfl rfl rfl rfl
    (fun u b hu => State.setProc_of_ne _ _ (hbusy u b hu)) rfl rfl ?_ ?_ ?_ hm rfl
  · rwa [update_eq_self] at this
  · rw [update_eq_self]
    exact h.base.frame rfl rfl rfl rfl hstate
  · rw [update_eq_self]
    exact hm.told h.told h.kin rfl (State.setProc_proj Proc.xstate (hF.xstate _))
  · rw [update_eq_self]
    exact h.sleeps.keep rfl rfl rfl rfl (fun _ => rfl) (fun i => by rw [hstate]; exact id)
      (State.setProc_proj Proc.chan (hF.chan _)) fun i h1 h2 => by rw [hstate]; exact ⟨h1, h2⟩

lemma not_busy (h : Inv e s ℓ) (ht : turn t s) (hl : ℓ t = l) (hk : .proc j ∈ l.run.locks)
    (hbusy : ∀ b, l.family.busy = some b → b.slot ≠ j) :
    ∀ u b, (ℓ u).family.busy = some b → b.slot ≠ j := by
  rintro u b hu rfl
  have hut : u = t := h.kin.busy_unique h.base ht (by rw [hl]; exact hk) hu
  rw [hut, hl] at hu
  exact hbusy b hu rfl

end Inv

lemma setProc_own (hF : Quiet F) (h1 : l.run.st ≠ .unused)
    (h2 : l.run.st ≠ .zombie) : Ok e (.proc i) (setProc i F) (fun _ l' => l' = l) l := by
  refine write_ok fun s ℓ h hl ht => ?_
  rw [← hl, update_eq_self]
  rw [← h.state_eq ht hl] at h1 h2
  exact h.set_quiet hF (h.kin.not_busy h1 h2)

/-- What a thread must know to change the record of process `j` under its lock. -/
structure Locked (t : Thread) (l : Ghost) (j : ℕ) : Prop where
  mem : .proc j ∈ l.run.locks
  busy : ∀ b, l.family.busy = some b → b.slot ≠ j
  free : l.run.on ≠ some j ∧ l.run.seen ≠ some j ∧ l.run.pick ≠ some j
  awake : t = .proc j → l.run.st ≠ .sleeping

/-- A change of a record that may make a process RUNNABLE that was SLEEPING. -/
def Rouses (F : Proc → Proc) : Prop :=
  ∀ q, F q = q ∨ q.state = .sleeping ∧ F q = { q with state := .runnable }

lemma wake_rouses (chan : Chan) : Rouses (wake chan) := by
  intro q
  unfold wake
  split
  · exact .inr ⟨‹_ ∧ _›.1, rfl⟩
  · exact .inl rfl

/-- What making a process RUNNABLE does to all but those who wait for conditions. -/
lemma Inv.rouse (h : Inv e s ℓ) (ht : turn t s) (hl : ℓ t = l) (hF : Rouses F)
    (hj : Locked t l j) (hrun : l'.run = l.run) (hfam : l'.family = l.family)
    (hsaid : l'.said = l.said) (hwatch : l'.watch = l.watch)
    (hsleeps : (∀ i, ((s.setProc j F).proc i).state = .sleeping → (s.proc i).state = .sleeping) →
      (∀ i, ((s.setProc j F).proc i).chan = (s.proc i).chan) →
      (∀ i, (s.proc i).state ≠ .unused → (s.proc i).state ≠ .zombie →
        ((s.setProc j F).proc i).state ≠ .unused ∧ ((s.setProc j F).proc i).state ≠ .zombie) →
      Sleeps e (s.setProc j F) (fun u => (ℓ u).run) fun u => (update ℓ t l' u).wait) :
    Inv e (s.setProc j F) (update ℓ t l') := by
  have hnb := h.not_busy ht hl hj.mem hj.busy
  -- the record stays, or the process is made RUNNABLE
  have hcases : ∀ i, (s.setProc j F).proc i = s.proc i ∨ i = j ∧ (s.proc j).state = .sleeping ∧
      (s.setProc j F).proc j = { s.proc j with state := .runnable } := by
    intro i
    by_cases hi : i = j
    · rcases hF (s.proc j) with hq | ⟨hs, hq⟩
      · rw [hi, State.setProc_self]
        exact .inl hq
      · rw [State.setProc_self]
        exact .inr ⟨hi, hs, hq⟩
    · exact .inl (State.setProc_of_ne _ _ hi)
  have hsleep : ∀ i, ((s.setProc j F).proc i).state = .sleeping → (s.proc i).state = .sleeping := by
    intro i hi
    rcases hcases i with hi' | ⟨rfl, hs, hi'⟩
    · rw [← hi']
      exact hi
    · exact hs
  have hchan : ∀ i, ((s.setProc j F).proc i).chan = (s.proc i).chan := by
    intro i
    rcases hcases i with hi' | ⟨rfl, hs, hi'⟩ <;> rw [hi']
  have hmild : Mild s (s.setProc j F) := by
    refine ⟨rfl, rfl, ?_, ?_, ?_, ?_, ?_, fun i hi => ?_⟩
    iterate 5
      intro i
      rcases hcases i with hi' | ⟨rfl, hs, hi'⟩ <;> rw [hi'] <;> simp [*]
    rw [InWait, hchan] at hi
    exact ⟨hsleep i hi.1, hi.2⟩
  refine h.mild ht hl rfl rfl (fun u b hu => State.setProc_of_ne _ _ (hnb u b hu))
    (by rw [hrun]) hfam ?_ ?_ ?_ hmild hwatch
  · rw [part_same hl Ghost.run hrun]
    rcases hF (s.proc j) with hq | ⟨hs, hq⟩
    · exact h.base.frame rfl rfl rfl rfl (State.setProc_proj Proc.state (by rw [hq]))
    · have htj : t ≠ .proc j := by
        rintro rfl
        rw [h.state_eq ht hl] at hs
        exact hj.awake rfl hs
      refine h.base.set_off ht htj (by rw [hl]; exact hj.free) (by rw [hl]; exact hj.mem)
        (by rw [hs]; simp) rfl rfl rfl rfl (fun i hi => by rw [State.setProc_of_ne _ _ hi]) ?_
      intro _
      exact h.base.made j (by rw [hs]; simp)
  · rw [part_same hl Ghost.said hsaid]
    refine hmild.told h.told h.kin rfl fun i => ?_
    rcases hcases i with hi' | ⟨rfl, hs, hi'⟩ <;> rw [hi']
  · rw [part_same hl Ghost.run hrun]
    refine hsleeps hsleep hchan fun i h1 h2 => ?_
    rw [ne_eq, hmild.unused, ne_eq, hmild.zombie]
    exact ⟨h1, h2⟩

lemma rouse_ok (hF : Rouses F) (hj : Locked t l j) :
    Ok e t (setProc j F) (fun _ l' => l' = l) l := by
  refine write_ok fun s ℓ h hl ht => ?_
  refine h.rouse ht hl hF hj rfl rfl rfl rfl fun hsleep hchan halive => ?_
  rw [part_same hl Ghost.wait]
  exact h.sleeps.keep rfl rfl rfl rfl (fun _ => rfl) hsleep hchan halive

lemma wake_next {p n : ℕ} (hj : Locked (.proc p) l j) (hsig : l.wait.sig = some (n, j))
    (hpre : l.wait.pre = none) (hpark : l.wait.parked = none) :
    Ok e (.proc p) (setProc j (wake (e.chan n)))
      (fun _ l' => l' = l.setSig (some (n, j + 1))) l := by
  refine write_ok fun s ℓ h hl ht => ?_
  refine h.rouse ht hl (wake_rouses _) hj rfl rfl rfl rfl fun hsleep hchan halive => ?_
  rw [part]
  have hlk : e.lk n ∈ l.run.locks := by
    have := (h.sleeps.sig p n j (by rw [hl]; exact hsig)).1
    rwa [hl] at this
  have hlive := Inv.live_cur ht
  refine h.sleeps.act (h.sleeps.waiting_self (by rw [hl]; rfl))
    (h.sleeps.waking_self (by rw [hl, hsig]; rfl)) ?_ (fun i _ => hsleep i)
    (fun i _ h1 h2 => ⟨hchan i, halive i h1 h2⟩) (fun _ _ => id) (fun _ _ => rfl) ?_ ?_ ?_ ?_ ?_
  · intro m i hip hi hg
    refine Sleeps.good_of_sig (s := s) rfl (fun a b hab hbi => ?_) hg
    by_cases hap : a = p
    · rw [hap, hl, hsig] at hab
      cases hab
      refine ⟨p, j + 1, by rw [update_self]; rfl, ?_⟩
      -- process `j` itself is not on its way to sleep, and does not sleep any more
      have hij : i ≠ j := by
        rintro rfl
        rcases hi with hi | ⟨hi, hs⟩
        · obtain ⟨hlocks, ⟨c, hc⟩, -⟩ := h.sleeps.pre i n hi
          have hcur : c = s.cur := by
            rcases hlocks with hlocks | hlocks
            · exact h.base.excl (by rw [State.thread_of_some hc]; exact hlocks)
                (by rw [ht, hl]; exact hlk)
            · exact h.base.excl (by rw [State.thread_of_some hc]; exact hlocks)
                (by rw [ht, hl]; exact hj.mem)
          rw [hcur, hlive] at hc
          exact hip (Option.some.inj hc).symm
        · have hs' := hsleep i hs
          have hch := ((h.sleeps.parked i n hi).2 hs').1
          rw [State.setProc_self, wake, if_pos ⟨hs', hch⟩] at hs
          cases hs
      omega
    · exact ⟨a, b, by rw [update_of_ne (by simpa using hap)]; exact hab, hbi⟩
  · intro m hm
    change l.wait.pre = some m at hm
    rw [hpre] at hm
    cases hm
  · intro m hm
    change l.wait.parked = some m at hm
    rw [hpark] at hm
    cases hm
  · intro m hm hs
    have := h.sleeps.asleep p m (by rw [hl]; exact hm) (hsleep p hs)
    rwa [hl] at this
  · intro m k hmk
    cases hmk
    exact ⟨by rw [hl]; exact hlk, _, hlive⟩
  · intro ch hc
    obtain ⟨h1, h2, h3⟩ := h.sleeps.chan p ch (by rw [hl]; exact hc)
    exact ⟨(hchan p).trans h1, halive p h2 h3⟩

/-! ### What threads find out -/

section

variable {v : Watch} (h : Inv e s ℓ) (ht : turn t s) (hl : ℓ t = l)

include h ht hl

lemma Inv.find (hneeds : ∀ k, v.Needs k → k ∈ l.run.locks)
    (hclear : ∀ p n, v.clear = some (p, n) → t = .proc p ∧ (p ≠ s.initproc →
      ∀ j < n, (s.proc j).parent = some p → (s.proc j).state ≠ .zombie))
    (hup : ∀ q, v.up = some q → ∃ i, t = .proc i ∧ (s.proc i).state ≠ .unused ∧
      (s.proc i).state ≠ .zombie ∧ ((s.proc i).parent = some q ∨
      (s.proc i).parent = some s.initproc)) (hwoke : ∀ q, v.woke = some q → ¬ InWait s q)
    (hdeeds : v.deeds = l.watch.deeds) (hnamed : v.named = none) :
    Inv e s (update ℓ t (l.setWatch v)) := by
  refine h.keep ht hl rfl rfl (fun _ _ _ => rfl) rfl rfl ?_ ?_ ?_ rfl (fun _ => Iff.rfl)
    (fun _ => Iff.rfl) (fun _ => rfl) ?_ ?_
  · rw [part_same hl Ghost.run]
    exact h.base
  · rw [part_same hl Ghost.said]
    exact h.told
  · rw [part_same hl Ghost.run, part_same hl Ghost.wait]
    exact h.sleeps
  · rw [part]
    exact h.watched.learn (fun k hk => ⟨by rw [hl]; exact hneeds k hk, _, ht⟩) hclear hup hwoke
  · rw [part]
    exact h.marks.learn (by rw [hl]; exact hdeeds) (by simp [Ghost.setWatch, hnamed])

lemma Inv.forget :
    Inv e s (update ℓ t (l.setWatch l.watch.rest)) := by
  refine h.find ht hl (by simp) (by rintro p n ⟨⟩) (fun q hq => ?_) (by rintro q ⟨⟩) rfl rfl
  exact h.watched.up t q (by rw [hl]; exact hq)

lemma Inv.deed {D : List Deed} (hF : ∀ q, F q = { q with killed := (F q).killed })
    (hbusy : ∀ u b, (ℓ u).family.busy = some b → b.slot ≠ j)
    (hwatched : Watched s (fun u => (ℓ u).run) (update (fun u => (ℓ u).watch) t v))
    (hmarks : Marks { s.setProc j F with deeds := D }
      (update (fun u => (ℓ u).watch) t v)) :
    Inv e { s.setProc j F with deeds := D } (update ℓ t (l.setWatch v)) := by
  have hsame : ∀ {α : Type} (X : Proc → α), (∀ q b, X { q with killed := b } = X q) → ∀ i,
      X ((s.setProc j F).proc i) = X (s.proc i) :=
    fun X hX => State.setProc_proj X (by rw [hF]; exact hX _ _)
  have hstate := hsame Proc.state fun _ _ => rfl
  have hparent := hsame Proc.parent fun _ _ => rfl
  have hchan := hsame Proc.chan fun _ _ => rfl
  refine h.keep ht hl rfl rfl (fun u b hu => State.setProc_of_ne _ _ (hbusy u b hu)) rfl rfl ?_ ?_ ?_
    rfl (fun i => by rw [hstate]) (fun i => by rw [hstate]) hparent ?_ ?_
  · rw [part_same hl Ghost.run]
    exact h.base.frame rfl rfl rfl rfl hstate
  · rw [part_same hl Ghost.said]
    exact h.told.set h.kin rfl rfl (fun i => by rw [hstate]) (fun i _ _ => ⟨by rw [hstate],
      by rw [hstate], hsame Proc.pid (fun _ _ => rfl) i, hparent i,
      hsame Proc.xstate (fun _ _ => rfl) i⟩) (.refl _)
  · rw [part_same hl Ghost.run, part_same hl Ghost.wait]
    exact h.sleeps.keep rfl rfl rfl rfl (fun _ => rfl) (fun i => by rw [hstate]; exact id) hchan
      fun i h1 h2 => by rw [hstate]; exact ⟨h1, h2⟩
  · rw [part]
    refine hwatched.set rfl (fun i p _ hi hz => ?_) (fun i h1 h2 => ?_) (fun i hi => .inl ?_) hwatched.held
    · rw [hparent] at hi
      rw [hstate] at hz
      exact ⟨hi, hz⟩
    · rw [hstate]
      exact ⟨h1, h2, .inl (hparent i)⟩
    · rw [InWait, hstate, hchan] at hi
      exact hi
  · rw [part]
    exact hmarks

end

end Xv6.Kern
