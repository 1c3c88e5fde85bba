import Xv6.Machine
import Xv6.Redo

/-!
The actions that the calls are made of.

Every process is at some stage of its use of buffers, the trace has all that happens to the disk,
and only the test of `log_write` can find the log full.
-/

namespace Xv6.Stages

open Lib.Wp Lib.Conc Lib.Conc.Prog Bio LogState Io Protocol Machine Redo Function

/-! ### The actions a call is made of -/

/-- The trace tells what has happened to the disk. -/
def Recorded (s s' : Store) : Prop :=
  ∃ es, s'.trace = s.trace ++ es ∧ s'.disk = replay es s.disk

/-- The action is not the test of `log_write`. -/
def Plain {β : Type} (x : IoM β) : Prop :=
  ∀ s, wp x (fun _ s' => Recorded s s') (fun e _ => e ≠ .panic "too big a transaction") s

/-- The actions that leave the references to buffers alone. -/
inductive Calm : ∀ {β : Type}, IoM β → Prop
  | fill (i : Fin NBUF) : Calm (fill i)
  | bwrite (i : Fin NBUF) : Calm (bwrite i)
  | unpin (i : Fin NBUF) : Calm (unpin i)
  | memmove (i j : Fin NBUF) : Calm (memmove i j)
  | getLog : Calm getLog
  | lhMore (k : ℕ) : Calm (lhMore k)
  | lhBlock (k : ℕ) : Calm (lhBlock k)
  | takeHead (i : Fin NBUF) : Calm (takeHead i)
  | giveHead (i : Fin NBUF) : Calm (giveHead i)
  | clearHead : Calm clearHead
  | setArea (dev start size : ℕ) : Calm (setArea dev start size)
  | beginOp : Calm beginOp
  | endOpFirst : Calm endOpFirst
  | endOpLast : Calm endOpLast
  | logWriteTest (i : Fin NBUF) : Calm (logWriteTest i)
  | logWriteLocked (i : Fin NBUF) : Calm (logWriteLocked i)

/-- Where a process is in its use of buffers: it is to take the sleep-lock of one it has from
`bget`, it has unlocked one it is to give back, or neither. -/
inductive Stage
  | free
  | waits (i : Fin NBUF)
  | leaves (i : Fin NBUF)

/-- What the functions do one after the other. -/
inductive Acts : Stage → ∀ {β : Type}, IoM β → (β → Stage) → Prop
  | bgetLocked (dev b : ℕ) : Acts .free (bgetLocked dev b) .waits
  | acquiresleep (i : Fin NBUF) : Acts (.waits i) (acquiresleep i) fun _ => .free
  | brelseUnlock (i : Fin NBUF) : Acts .free (brelseUnlock i) fun _ => .leaves i
  | brelseLocked (i : Fin NBUF) : Acts (.leaves i) (brelseLocked i) fun _ => .free
  | calm {β : Type} {x : IoM β} (h : Calm x) : Acts .free x fun _ => .free

/-- The action is the test of `log_write`. -/
inductive IsTest : ∀ {β : Type}, IoM β → Prop
  | mk (i : Fin NBUF) : IsTest (logWriteTest i)

lemma logWriteTest_spec (i : Fin NBUF) (s : Store) : wp (logWriteTest i)
    (fun _ s' => s' = { s with trace := s.trace ++ [.checked s.pid (s.bcache.buf i).blockno] })
    (fun _ s' => s' = s) s := by
  unfold logWriteTest
  simp only [wp_bind, wp_get]
  cases logWriteCheck s.log <;> simp

lemma plain_endOpFirst : Plain endOpFirst := by
  intro s
  unfold endOpFirst
  simp only [wp_bind, wp_get]
  split
  · rename_i e he
    rw [wp_throw]
    rintro rfl
    unfold endOpCs at he
    simp only at he
    split at he
    · simp at he
    · split at he <;> cases he
  · simp [Recorded, replay]

lemma plain_logWriteLocked (i : Fin NBUF) : Plain (logWriteLocked i) := by
  intro s
  unfold logWriteLocked
  simp only [wp_bind, wp_get]
  split
  · rename_i e he
    rw [wp_throw]
    rintro rfl
    unfold logWriteCs at he
    simp only at he
    split at he
    · cases he
    · split at he <;> cases he
  · simp [Recorded, replay]

lemma plain_bgetLocked (dev b : ℕ) : Plain (bgetLocked dev b) := by
  intro s
  unfold bgetLocked
  simp only [wp_bind, wp_get]
  split
  · rename_i e he
    rw [wp_throw]
    rintro rfl
    unfold bgetCs at he
    split at he
    · cases he
    · cases he
    · split at he <;> simp at he
  · simp [Recorded, replay]

variable {β : Type} {x : IoM β} {a : Stage} {f : β → Stage}

lemma known_of_calm (h : Calm x) : Plain x ∨ IsTest x := by
  cases h with
  | logWriteTest i => exact .inr (.mk i)
  | endOpFirst => exact .inl plain_endOpFirst
  | logWriteLocked i => exact .inl (plain_logWriteLocked i)
  | fill i => left; intro s; simp [Recorded, replay, fill, diskRead, setBuf]
  | bwrite i => left; intro s; simp [Recorded, replay, bwrite, holdingsleep, panicIf, diskWrite]
  | unpin i => left; intro s; simp [Recorded, replay, unpin]
  | memmove i j => left; intro s; simp [Recorded, replay, memmove, data, setData, setBuf]
  | getLog => left; intro s; simp [Recorded, replay, getLog]
  | lhMore k => left; intro s; simp [Recorded, replay, lhMore]
  | lhBlock k => left; intro s; simp [Recorded, replay, lhBlock, getLog]
  | takeHead i => left; intro s; simp [Recorded, replay, takeHead, data]
  | giveHead i => left; intro s; simp [Recorded, replay, giveHead, getLog, data, setData, setBuf]
  | clearHead => left; intro s; simp [Recorded, replay, clearHead]
  | setArea dev start size => left; intro s; simp [Recorded, replay, setArea]
  | endOpLast => left; intro s; simp [Recorded, replay, endOpLast]
  | beginOp =>
    left
    intro s
    unfold beginOp
    simp only [wp_bind, wp_get]
    cases beginOpCs s.log <;> simp [Recorded, replay]

/-- **Every action but the test of `log_write` is plain.** -/
lemma known_of_acts (h : Acts a x f) : Plain x ∨ IsTest x := by
  cases h with
  | bgetLocked dev b => exact .inl (plain_bgetLocked dev b)
  | acquiresleep i => left; intro s; simp [Recorded, replay, acquiresleep, setBuf]
  | brelseUnlock i =>
    left; intro s; simp [Recorded, replay, brelseUnlock, holdingsleep, panicIf, releasesleep, setBuf]
  | brelseLocked i => left; intro s; simp [Recorded, replay, brelseLocked]
  | calm h => exact known_of_calm h

/-- A program that begins and ends with no buffer half taken or half given back. -/
abbrev Orderly {α : Type} (x : Code α) : Prop := Follows Acts (fun _ => .free) .free x

lemma orderly_lift (h : Calm x) : Orderly (liftM x : Code β) :=
  follows_lift (.calm h)

lemma orderly_bread (dev b : ℕ) : Orderly (bread dev b) :=
  have hget : Orderly (bget dev b : Code (Fin NBUF)) :=
    (follows_lift (.bgetLocked dev b)).bind fun i => (follows_lift (.acquiresleep i)).bind fun _ =>
      follows_pure i
  hget.bind fun i => (orderly_lift (.fill i)).bind fun _ => follows_pure i

lemma orderly_brelse (i : Fin NBUF) : Orderly (brelse i) :=
  (follows_lift (.brelseUnlock i)).bind fun _ => follows_lift (.brelseLocked i)

lemma orderly_logWrite (i : Fin NBUF) : Orderly (logWrite i) :=
  (orderly_lift (.logWriteTest i)).bind fun _ => orderly_lift (.logWriteLocked i)

lemma orderly_writeHead : Orderly writeHead :=
  (orderly_lift .getLog).bind fun l => (orderly_bread l.dev l.start).bind fun i =>
    (orderly_lift (.giveHead i)).bind fun _ => (orderly_lift (.bwrite i)).bind fun _ =>
      orderly_brelse i

lemma orderly_installTrans : Orderly installTrans :=
  follows_forUp (fun k => orderly_lift (.lhMore k)) (fun k =>
    (orderly_lift .getLog).bind fun _ => (orderly_bread _ _).bind fun i =>
      (orderly_lift (.lhBlock k)).bind fun b => (orderly_bread _ b).bind fun j =>
        (orderly_lift (.memmove j i)).bind fun _ => (orderly_lift (.bwrite j)).bind fun _ =>
          (orderly_lift (.unpin j)).bind fun _ => (orderly_brelse i).bind fun _ =>
            orderly_brelse j) _ _

lemma orderly_writeLog : Orderly writeLog :=
  follows_forUp (fun k => orderly_lift (.lhMore k)) (fun k =>
    (orderly_lift .getLog).bind fun _ => (orderly_bread _ _).bind fun i =>
      (orderly_lift (.lhBlock k)).bind fun b => (orderly_bread _ b).bind fun j =>
        (orderly_lift (.memmove i j)).bind fun _ => (orderly_lift (.bwrite i)).bind fun _ =>
          (orderly_brelse j).bind fun _ => orderly_brelse i) _ _

lemma orderly_commit : Orderly commit :=
  (orderly_lift .getLog).bind fun _ => follows_doIf <| orderly_writeLog.bind fun _ =>
    orderly_writeHead.bind fun _ => orderly_installTrans.bind fun _ =>
      (orderly_lift .clearHead).bind fun _ => orderly_writeHead

lemma orderly_endOp : Orderly endOp :=
  (orderly_lift .endOpFirst).bind fun _ => follows_doIf <|
    orderly_commit.bind fun _ => orderly_lift .endOpLast

lemma orderly_readHead : Orderly readHead :=
  (orderly_lift .getLog).bind fun l => (orderly_bread l.dev l.start).bind fun i =>
    (orderly_lift (.takeHead i)).bind fun _ => orderly_brelse i

lemma orderly_initlog (dev start size : ℕ) : Orderly (initlog dev start size) :=
  (orderly_lift (.setArea dev start size)).bind fun _ => orderly_readHead.bind fun _ =>
    orderly_installTrans.bind fun _ => (orderly_lift .clearHead).bind fun _ => orderly_writeHead

lemma orderly_call (k : Call) : Orderly k.code := by
  cases k with
  | beginOp => exact (orderly_lift .beginOp).bind fun _ => follows_pure _
  | bread b => exact (orderly_bread ROOTDEV b).bind fun _ => follows_pure _
  | logWrite i => exact (orderly_logWrite i).bind fun _ => follows_pure _
  | brelse i => exact (orderly_brelse i).bind fun _ => follows_pure _
  | endOp => exact orderly_endOp.bind fun _ => follows_pure _

/-! ### Every process is at a stage of its code -/

variable {N : ℕ} {c : Conf} {p p₀ : Fin N} {s s' : Sys N}

/-- A process at stage `a`. -/
def At (pr : Proc) (a : Stage) : Prop :=
  match pr.todo with
  | none => a = .free
  | some x => Follows Acts (fun _ => .free) a x

variable {st st' : Store} {b : ℕ} {i : Fin NBUF}

lemma at_settle {cl : Client} {x : Code (Client → Client)}
    (h : Follows Acts (fun _ => .free) a x) : At (settle cl x) a := by
  cases x with
  | ret f | act x k => exact h

lemma at_update {pr : Proc} {stage : Fin N → Stage} (h : ∀ q, At (s.proc q) (stage q))
    (hp : At pr a) (q : Fin N) :
    At (update s.proc p pr q) (update stage p a q) := by
  by_cases hq : q = p
  · subst hq; simpa only [update_self] using hp
  · simpa only [update_of_ne hq] using h q

lemma At.act {pr : Proc} (h : At pr a) {k : β → Code (Client → Client)} (htodo : pr.todo = some (.act x k)) :
    ∃ f, Acts a x f ∧ ∀ b, Follows Acts (fun _ => .free) (f b) (k b) := by
  rw [At, htodo] at h
  exact h

lemma at_init (q : Fin N) : At ((init c p₀).proc q) .free := by
  by_cases hq : q = p₀
  · simp only [At, init, hq, if_true]
    exact (orderly_initlog _ _ _).bind fun _ => follows_pure _
  · simp only [At, init, hq, if_false]

/-- **A property of states and stages that every action keeps** holds in every state the
machine can get to. -/
lemma stage_reach (I : Store → (Fin N → Stage) → Prop) (h0 : I (boot p₀ c.disk) fun _ => .free)
    (hmodify : ∀ {st stage} (i : Fin NBUF) (d : Block), I st stage →
      I { st with bcache := st.bcache.set i fun y => { y with data := d } } stage)
    (hact : ∀ {st st' stage} {q : Fin N} {β : Type} {x : IoM β} {f : β → Stage} {b : β},
      I st stage → Acts (stage q) x f → x (view q st) = .ok b st' →
      I st' (update stage q (f b))) (h : Reach c p₀ s) :
    ∃ stage, I s.store stage ∧ ∀ q, At (s.proc q) (stage q) := by
  induction h with
  | refl => exact ⟨_, h0, at_init⟩
  | tail _ hs ih =>
    obtain ⟨stage, hI, hat⟩ := ih
    obtain ⟨p, hs⟩ := hs
    cases hs with
    | call k hup hidle hk =>
      refine ⟨update stage p .free, ?_, at_update hat (orderly_call k)⟩
      have hfree := hat p
      rw [At, hidle] at hfree
      rwa [← show stage p = .free from hfree, update_eq_self]
    | modify i b d hup hidle hi hW =>
      refine ⟨update stage p (stage p), ?_, at_update hat ?_⟩
      · rw [update_eq_self]
        exact hmodify i d hI
      · have hp := hat p
        rw [At, hidle] at hp ⊢
        exact hp
    | @exec β x k b st htodo hx =>
      obtain ⟨f, hacts, hk⟩ := (hat p).act htodo
      exact ⟨update stage p (f b), hact hI hacts hx, at_update hat (at_settle (hk b))⟩

/-- **The disk is what the writes of the trace have made of it.** -/
lemma disk_of_reach (h : Reach c p₀ s) : s.store.disk = replay s.store.trace c.disk := by
  refine (stage_reach (fun st _ => st.disk = replay st.trace c.disk) rfl (fun _ _ h => h) ?_ h).elim
    fun _ h => h.1
  intro st st' stage q β x f b hI hacts hx
  have htr : Recorded st st' := by
    rcases known_of_acts hacts with hplain | htest
    · exact wp_ok (hplain (view q st)) hx
    · cases htest with
      | mk i =>
        rw [wp_ok (logWriteTest_spec i _) hx]
        exact ⟨_, rfl, rfl⟩
  obtain ⟨es, htr, hdisk⟩ := htr
  rw [hdisk, htr, replay_append, hI]

lemma acts_of_reach (h : Reach c p₀ s) {k : β → Code (Client → Client)}
    (htodo : (s.proc p).todo = some (.act x k)) : ∃ a f, Acts a x f := by
  obtain ⟨stage, -, hat⟩ := stage_reach (fun _ _ => True) trivial (fun _ _ _ => trivial)
    (fun _ _ _ => trivial) h
  obtain ⟨f, hacts, -⟩ := (hat p).act htodo
  exact ⟨_, f, hacts⟩

end Xv6.Stages
