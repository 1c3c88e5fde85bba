import Xv6.Kern.State
import Mathlib.Data.List.Induction

/-!
What a sequence of events says about processes: which are alive, who their parents are, which
have exited with which status, and what a call of `wait` has to return. A history is legal when
each of its events is allowed after the events before it.
-/

namespace Xv6.Kern

open List
open Function (update update_apply update_of_ne update_self)

/-- A process that is not UNUSED: its pid, the process that forked it, its parent, the status it
passed to `exit`, and whether it is a zombie. -/
structure Life where
  pid : ℕ
  born : ℕ
  parent : ℕ
  exiting : Option ℕ := none
  gone : Bool := false

/-- The processes after one more event. -/
def record (w : ℕ → Option Life) : Event → ℕ → Option Life
  | .forked c pid p => update w c (some { pid := pid, born := p, parent := p })
  | .exiting p status =>
    update w p ((w p).map fun L => { L with exiting := some status })
  | .gave c heir => update w c ((w c).map fun L => { L with parent := heir })
  | .exited p => update w p ((w p).map fun L => { L with gone := true })
  | .reaped _ c _ _ => update w c none
  | .refused _ _ => w
  | .waited _ _ => w

/-- The processes after a history. -/
def lives (log : List Event) : ℕ → Option Life := log.foldl record fun _ => none

/-- What the calls of `wait` have found out after one more event. -/
def answer (d : ℕ → Option (Option ℕ)) : Event → ℕ → Option (Option ℕ)
  | .reaped q _ pid _ => update d q (some (some pid))
  | .refused q _ => update d q (some none)
  | .waited q _ => update d q none
  | _ => d

/-- What the call of `wait` that each process is in must return, if that is settled. -/
def due (log : List Event) : ℕ → Option (Option ℕ) := log.foldl answer fun _ => none

/-- Whether an event can happen when the processes are `w` and the calls of `wait` have to
return `d`. -/
def Allowed (init : ℕ) (w : ℕ → Option Life) (d : ℕ → Option (Option ℕ)) : Event → Prop
  | .forked c _ p => w c = none ∧
      ((c = init ∧ p = init ∧ ∀ j, w j = none) ∨
        ∃ P, w p = some P ∧ P.exiting = none ∧ P.gone = false)
  | .exiting p _ => p ≠ init ∧ ∃ L, w p = some L ∧ L.exiting = none ∧ L.gone = false
  | .gave c heir => heir = init ∧
      ∃ L P, w c = some L ∧ w L.parent = some P ∧ P.exiting ≠ none ∧ P.gone = false
  | .exited p => (∃ L status, w p = some L ∧ L.exiting = some status ∧ L.gone = false) ∧
      ∀ c C, w c = some C → C.parent ≠ p
  | .reaped q c pid status => d q = none ∧
      (∃ Q, w q = some Q ∧ Q.exiting = none ∧ Q.gone = false) ∧
      ∃ L, w c = some L ∧ L.pid = pid ∧ L.parent = q ∧ L.exiting = some status ∧ L.gone = true
  | .refused q c => d q = none ∧
      ∃ L, w c = some L ∧ L.parent = q ∧ L.gone = true
  | .waited q ret => d q = some ret ∨ d q = none ∧ ret = none

/-- Every event is allowed after those before it. -/
def Legal (init : ℕ) (log : List Event) : Prop :=
  ∀ a e b, log = a ++ e :: b → Allowed init (lives a) (due a) e

@[simp] lemma lives_nil : lives [] = fun _ => none := rfl

@[simp] lemma due_nil : due [] = fun _ => none := rfl

@[simp] lemma lives_snoc (log : List Event) (e : Event) :
    lives (log ++ [e]) = record (lives log) e := by
  simp [lives, foldl_append]

@[simp] lemma due_snoc (log : List Event) (e : Event) :
    due (log ++ [e]) = answer (due log) e := by
  simp [due, foldl_append]

lemma legal_nil (init : ℕ) : Legal init [] := by
  intro a e b h
  simp at h

variable {init : ℕ} {log : List Event}

variable {e : Event} {c q : ℕ} {L : Life} {post a b : List Event}

lemma Legal.snoc (h : Legal init log) (he : Allowed init (lives log) (due log) e) :
    Legal init (log ++ [e]) := by
  intro a e' b hab
  rcases eq_nil_or_concat b with rfl | ⟨b', x, rfl⟩
  · obtain ⟨rfl, h1⟩ := append_inj' hab rfl
    cases h1
    exact he
  · rw [concat_eq_append, ← cons_append, ← append_assoc] at hab
    exact h a e' b' (append_inj' hab rfl).1

lemma Legal.left (h : Legal init (log ++ [e])) : Legal init log := by
  intro a e' b hab
  exact h a e' (b ++ [e]) (by rw [hab]; simp)

lemma Legal.last (h : Legal init (log ++ [e])) : Allowed init (lives log) (due log) e := h log e [] rfl

/-- The event returns process `c` from a call of `wait`. -/
def Reaps (c : ℕ) (e : Event) : Prop := ∃ q pid status, e = .reaped q c pid status

/-- What one event does to a process that is there before it and after it. -/
structure Ages (c : ℕ) (e : Event) (L L' : Life) : Prop where
  pid : L'.pid = L.pid
  born : L'.born = L.born
  parent : L'.parent = L.parent ∨ e = .gave c L'.parent
  exiting : L'.exiting = L.exiting ∨ ∃ status, e = .exiting c status
  gone : L'.gone = L.gone ∨ e = .exited c
  stays : L.gone = true → L'.gone = true

lemma Ages.refl (c : ℕ) (e : Event) (L : Life) : Ages c e L L :=
  ⟨rfl, rfl, .inl rfl, .inl rfl, .inl rfl, id⟩

lemma record_ages {w : ℕ → Option Life} (hL : w c = some L)
    (hr : ¬ Reaps c e) (hf : ∀ pid p, e ≠ .forked c pid p) :
    ∃ L', record w e c = some L' ∧ Ages c e L L' := by
  have same : ∀ {v : ℕ → Option Life}, v c = w c → ∃ L', v c = some L' ∧ Ages c e L L' :=
    fun hv => ⟨L, hv.trans hL, .refl c e L⟩
  cases e with
  | forked d pid p =>
    have hcd : c ≠ d := fun h => hf pid p (by rw [h])
    exact same (update_of_ne hcd _ _)
  | exiting p status =>
    by_cases hcp : c = p
    · subst hcp
      refine ⟨{ L with exiting := some status }, ?_, rfl, rfl, .inl rfl, .inr ⟨_, rfl⟩, .inl rfl, id⟩
      rw [record, update_self, hL, Option.map_some]
    · exact same (update_of_ne hcp _ _)
  | gave d heir =>
    by_cases hcd : c = d
    · subst hcd
      refine ⟨{ L with parent := heir }, ?_, rfl, rfl, .inr rfl, .inl rfl, .inl rfl, id⟩
      rw [record, update_self, hL, Option.map_some]
    · exact same (update_of_ne hcd _ _)
  | exited p =>
    by_cases hcp : c = p
    · subst hcp
      refine ⟨{ L with gone := true }, ?_, rfl, rfl, .inl rfl, .inl rfl, .inr rfl, fun _ => rfl⟩
      rw [record, update_self, hL, Option.map_some]
    · exact same (update_of_ne hcp _ _)
  | reaped q d pid status =>
    have hcd : c ≠ d := fun h => hr ⟨q, pid, status, by rw [h]⟩
    exact same (update_of_ne hcd _ _)
  | refused q d | waited q ret => exact same rfl

lemma record_cases {w : ℕ → Option Life} (hL : record w e c = some L) :
    (∃ pid p, e = .forked c pid p ∧ L = { pid := pid, born := p, parent := p }) ∨
    ¬ Reaps c e ∧ ∃ L', w c = some L' ∧ Ages c e L' L := by
  by_cases hf : ∃ pid p, e = .forked c pid p
  · obtain ⟨pid, p, rfl⟩ := hf
    rw [record, update_self, Option.some.injEq] at hL
    exact .inl ⟨pid, p, rfl, hL.symm⟩
  · have hr : ¬ Reaps c e := by
      rintro ⟨q, pid, status, rfl⟩
      rw [record, update_self] at hL
      cases hL
    have hw : ∃ L', w c = some L' := by
      cases hwc : w c with
      | some L' => exact ⟨L', rfl⟩
      | none =>
        exfalso
        cases e <;> simp [record, update_apply] at hL <;> grind
    obtain ⟨L', hL'⟩ := hw
    obtain ⟨L₁, h₁, hages⟩ := record_ages hL' hr fun pid p h => hf ⟨pid, p, h⟩
    rw [hL, Option.some.injEq] at h₁
    rw [← h₁] at hages
    exact .inr ⟨hr, L', hL', hages⟩

lemma Legal.init_stays (h : Legal init log) (hL : lives log init = some L) : L.exiting = none := by
  induction log using List.reverseRecOn generalizing L with
  | nil => simp at hL
  | append_singleton log e ih =>
    have hlast := h.last
    rw [lives_snoc] at hL
    rcases record_cases hL with ⟨pid, p, -, rfl⟩ | ⟨-, L', hL', hages⟩
    · rfl
    · rcases hages.exiting with hx | ⟨status, rfl⟩
      · rw [hx]
        exact ih h.left hL'
      · exact absurd rfl hlast.1

/-! ### Who collects a zombie -/

/-- Process `p` has forked process `c`, and neither has ended since. -/
def Stayed (log : List Event) (c p : ℕ) : Prop :=
  ∃ a pid b, log = a ++ .forked c pid p :: b ∧ .exited p ∉ b ∧ ∀ e ∈ b, ¬ Reaps c e

/-- Process `c` has been given to `initproc` by process `p`, which had forked it and was in
`exit`. -/
def Orphaned (init : ℕ) (log : List Event) (c p : ℕ) : Prop :=
  ∃ a b P, log = a ++ .gave c init :: b ∧ Stayed a c p ∧ lives a p = some P ∧ P.exiting ≠ none ∧
    ∀ e ∈ b, ¬ Reaps c e

/-- The parent of a process that `p` forked is `p` or, if `p` exits first, `initproc`. -/
def Heir (init : ℕ) (log : List Event) (c p q : ℕ) : Prop :=
  q = p ∧ Stayed log c p ∨ q = init ∧ Orphaned init log c p

lemma not_reaps_snoc (h : ∀ x ∈ post, ¬ Reaps c x)
    (he : ¬ Reaps c e) : ∀ x ∈ post ++ [e], ¬ Reaps c x := by
  intro x hx
  rcases mem_append.mp hx with hx | hx
  · exact h x hx
  · rw [mem_singleton.mp hx]
    exact he

lemma Stayed.snoc {p : ℕ} (h : Stayed log c p) (he : e ≠ .exited p)
    (hr : ¬ Reaps c e) : Stayed (log ++ [e]) c p := by
  obtain ⟨a, pid, b, hlog, hp, hc⟩ := h
  refine ⟨a, pid, b ++ [e], by rw [hlog]; simp, ?_, not_reaps_snoc hc hr⟩
  intro hin
  rcases mem_append.mp hin with hin | hin
  · exact hp hin
  · exact he (mem_singleton.mp hin).symm

lemma Orphaned.snoc {p : ℕ} (h : Orphaned init log c p) (hr : ¬ Reaps c e) :
    Orphaned init (log ++ [e]) c p := by
  obtain ⟨a, b, P, hlog, hs, hP, hx, hc⟩ := h
  exact ⟨a, b ++ [e], P, by rw [hlog]; simp, hs, hP, hx, not_reaps_snoc hc hr⟩

lemma Legal.heir (h : Legal init log) (hL : lives log c = some L) : Heir init log c L.born L.parent := by
  induction log using List.reverseRecOn generalizing c L with
  | nil => simp at hL
  | append_singleton log e ih =>
    have hlast := h.last
    rw [lives_snoc] at hL
    rcases record_cases hL with ⟨pid, p, rfl, rfl⟩ | ⟨hr, L', hL', hages⟩
    · exact .inl ⟨rfl, log, pid, [], rfl, by simp, by simp⟩
    · have hih := ih h.left hL'
      rw [← hages.born] at hih
      rcases hages.parent with hp | rfl
      · rw [hp]
        rcases hih with ⟨hq, hs⟩ | ⟨hq, ho⟩
        · refine .inl ⟨hq, hs.snoc ?_ hr⟩
          -- a process with children does not exit
          rintro rfl
          exact hlast.2 c L' hL' hq
        · exact .inr ⟨hq, ho.snoc hr⟩
      · obtain ⟨hinit, L₁, P, hL₁, hP, hexit, -⟩ := hlast
        rw [hL', Option.some.injEq] at hL₁
        rw [← hL₁] at hP
        rcases hih with ⟨hq, hs⟩ | ⟨hq, -⟩
        · rw [hq] at hP
          exact .inr ⟨hinit, log, [], P, by rw [hinit], hs, hP, hexit, by simp⟩
        · rw [hq] at hP
          exact absurd (h.left.init_stays hP) hexit

/-- What happens to process `c` after it has exited, after `pre`, with the given status: it
waits as a zombie, or one `wait` of its parent has returned it, with its pid and its status,
and no `wait` before that one. -/
def Collected (init : ℕ) (pre : List Event) (c : ℕ) (L : Life) (status : ℕ)
    (post : List Event) : Prop :=
  ((∀ e ∈ post, ¬ Reaps c e) ∧ ∃ L', lives (pre ++ .exited c :: post) c = some L' ∧
      L'.pid = L.pid ∧ L'.born = L.born ∧ L'.exiting = some status ∧ L'.gone = true) ∨
  ∃ mid q rest, post = mid ++ .reaped q c L.pid status :: rest ∧ (∀ e ∈ mid, ¬ Reaps c e) ∧
    Heir init (pre ++ .exited c :: mid) c L.born q

lemma Collected.snoc {pre : List Event} {status : ℕ}
    (h : Legal init (pre ++ .exited c :: post ++ [e])) (hc : Collected init pre c L status post) :
    Collected init pre c L status (post ++ [e]) := by
  have hlast := h.last
  rcases hc with ⟨hno, L', hL', hpid, hborn, hstatus, hgone⟩ | ⟨mid, q, rest, rfl, hmid, hheir⟩
  · by_cases hr : Reaps c e
    · obtain ⟨q, pid, status', rfl⟩ := hr
      obtain ⟨-, -, L₁, hL₁, rfl, rfl, hs, -⟩ := hlast
      rw [hL', Option.some.injEq] at hL₁
      subst hL₁
      rw [hstatus, Option.some.injEq] at hs
      refine .inr ⟨post, L'.parent, [], by rw [hpid, hs], hno, ?_⟩
      rw [← hborn]
      exact h.left.heir hL'
    · have hf : ∀ pid p, e ≠ .forked c pid p := by
        rintro pid p rfl
        rw [hlast.1] at hL'
        cases hL'
      obtain ⟨L₁, hL₁, hages⟩ := record_ages hL' hr hf
      refine .inl ⟨not_reaps_snoc hno hr, L₁, ?_, hages.pid.trans hpid, hages.born.trans hborn,
        ?_, hages.stays hgone⟩
      · rw [← cons_append, ← append_assoc, lives_snoc]
        exact hL₁
      · rcases hages.exiting with hx | ⟨st, rfl⟩
        · exact hx.trans hstatus
        · obtain ⟨-, L₂, hL₂, -, hg⟩ := hlast
          rw [hL', Option.some.injEq] at hL₂
          rw [← hL₂, hgone] at hg
          cases hg
  · exact .inr ⟨mid, q, rest ++ [e], by simp, hmid, hheir⟩

/-- In a legal history, every process that exits stays a zombie until one `wait` returns it. -/
lemma Legal.collected {pre : List Event} (h : Legal init (pre ++ .exited c :: post)) :
    ∃ L status, lives pre c = some L ∧ L.exiting = some status ∧
      Collected init pre c L status post := by
  obtain ⟨⟨L, status, hL, hs, -⟩, -⟩ := h pre _ post rfl
  refine ⟨L, status, hL, hs, ?_⟩
  induction post using List.reverseRecOn with
  | nil =>
    refine .inl ⟨by simp, { L with gone := true }, ?_, rfl, rfl, hs, rfl⟩
    rw [lives_snoc, record, update_self, hL]
    rfl
  | append_singleton post e ih =>
    rw [← cons_append, ← append_assoc] at h
    exact (ih h.left).snoc h

lemma Legal.exited_before {pid status : ℕ} (h : Legal init (a ++ .reaped q c pid status :: b)) :
    ∃ pre mid, a = pre ++ .exited c :: mid ∧ ∀ e ∈ mid, ¬ Reaps c e := by
  obtain ⟨-, -, L, hL, -, -, -, hgone⟩ := h a _ b rfl
  clear h
  induction a using List.reverseRecOn generalizing L with
  | nil => simp at hL
  | append_singleton a e ih =>
    rw [lives_snoc] at hL
    rcases record_cases hL with ⟨pid', p, -, rfl⟩ | ⟨hr, L', hL', hages⟩
    · cases hgone
    · rcases hages.gone with hg | rfl
      · obtain ⟨pre, mid, rfl, hmid⟩ := ih L' hL' (hg ▸ hgone)
        exact ⟨pre, mid ++ [e], by simp, not_reaps_snoc hmid hr⟩
      · exact ⟨a, [], rfl, by simp⟩

/-! ### The tree -/

/-- Each process but the first is below its parent, which is the first or is there and no zombie. -/
structure Ranked (init : ℕ) (w : ℕ → Option Life) (r : ℕ → ℕ) : Prop where
  root : r init = 0
  below : ∀ c C, w c = some C → c ≠ init → r C.parent < r c
  alive : ∀ c C, w c = some C → C.parent = init ∨ ∃ P, w C.parent = some P ∧ P.gone = false

lemma Ranked.step {w : ℕ → Option Life} {d : ℕ → Option (Option ℕ)} {r : ℕ → ℕ}
    (h : Ranked init w r) (he : Allowed init w d e) : ∃ r', Ranked init (record w e) r' := by
  obtain ⟨h0, hb, ha⟩ := h
  cases e with
  | forked c pid p =>
    refine ⟨fun i => if i = c ∧ c ≠ init then r p + 1 else r i, ?_, ?_, ?_⟩ <;>
      simp only [record, Allowed, update_apply] at * <;> grind
  | exiting | gave | exited | reaped | refused | waited =>
    refine ⟨r, h0, ?_, ?_⟩ <;> simp only [record, Allowed, update_apply] at * <;> grind

lemma Legal.ranked (h : Legal init log) : ∃ r, Ranked init (lives log) r := by
  induction log using List.reverseRecOn with
  | nil => exact ⟨fun _ => 0, rfl, by simp, by simp⟩
  | append_singleton log e ih =>
    obtain ⟨r, hr⟩ := ih h.left
    rw [lives_snoc]
    exact hr.step h.last

/-! ### What `wait` returns -/

/-- The event settles what the call of `wait` of process `q` returns: it returns a process, or
its copy of a status fails. -/
def Settles (q : ℕ) (ret : Option ℕ) (e : Event) : Prop :=
  (∃ c pid status, e = .reaped q c pid status ∧ ret = some pid) ∨
    ∃ c, e = .refused q c ∧ ret = none

lemma Legal.settled {ret : Option ℕ}
    (h : Legal init (a ++ e :: b)) (he : Settles q ret e) (hb : ∀ r, .waited q r ∉ b) :
    due (a ++ e :: b) q = some ret ∧ ∀ r, ∀ x ∈ b, ¬ Settles q r x := by
  induction b using List.reverseRecOn with
  | nil =>
    refine ⟨?_, by simp⟩
    rw [due_snoc]
    rcases he with ⟨c, pid, status, rfl, rfl⟩ | ⟨c, rfl, rfl⟩
    · rw [answer, update_self]
    · rw [answer, update_self]
  | append_singleton b x ih =>
    rw [← cons_append, ← append_assoc] at h ⊢
    obtain ⟨hd, hno⟩ := ih h.left fun r hr => hb r (mem_append_left _ hr)
    have hlast := h.last
    -- while the call is settled, no event settles another call of the process
    have hx : ∀ r, ¬ Settles q r x := by
      rintro r (⟨c, pid, status, rfl, -⟩ | ⟨c, rfl, -⟩)
      · rw [hlast.1] at hd
        cases hd
      · rw [hlast.1] at hd
        cases hd
    refine ⟨?_, fun r y hy => ?_⟩
    · rw [due_snoc, ← hd]
      cases x with
      | reaped q' c pid status =>
        have hq : q ≠ q' := fun hq => hx _ (.inl ⟨c, pid, status, by rw [hq], rfl⟩)
        exact update_of_ne hq _ _
      | refused q' c =>
        have hq : q ≠ q' := fun hq => hx _ (.inr ⟨c, by rw [hq], rfl⟩)
        exact update_of_ne hq _ _
      | waited q' r =>
        have hq : q ≠ q' := fun hq => hb r (by rw [hq]; simp)
        exact update_of_ne hq _ _
      | _ => rfl
    · rcases mem_append.mp hy with hy | hy
      · exact hno r y hy
      · rw [mem_singleton.mp hy]
        exact hx r

lemma Legal.returns {mid : List Event} {ret r : Option ℕ}
    (h : Legal init (a ++ e :: mid ++ .waited q r :: b)) (he : Settles q ret e)
    (hmid : ∀ r, .waited q r ∉ mid) : r = ret ∧ ∀ r, ∀ x ∈ mid, ¬ Settles q r x := by
  have hleft : Legal init (a ++ e :: mid) := by
    intro a' e' b' hab
    exact h a' e' (b' ++ .waited q r :: b) (by rw [hab]; simp)
  obtain ⟨hd, hno⟩ := hleft.settled he hmid
  have hlast := h (a ++ e :: mid) (.waited q r) b rfl
  refine ⟨?_, hno⟩
  rcases hlast with hr | ⟨hr, -⟩
  · rw [hr, Option.some.injEq] at hd
    exact hd
  · rw [hr] at hd
    cases hd

lemma due_some {pid : ℕ} (h : due log q = some (some pid)) :
    ∃ a c status mid, log = a ++ .reaped q c pid status :: mid ∧ ∀ r, .waited q r ∉ mid := by
  induction log using List.reverseRecOn with
  | nil => simp at h
  | append_singleton log e ih =>
    rw [due_snoc] at h
    have hold : due log q = some (some pid) → (∀ r, e ≠ .waited q r) →
        ∃ a c status mid, log ++ [e] = a ++ .reaped q c pid status :: mid ∧
          ∀ r, .waited q r ∉ mid := by
      intro hd he
      obtain ⟨a, c, status, mid, hlog, hmid⟩ := ih hd
      refine ⟨a, c, status, mid ++ [e], by rw [hlog]; simp, fun r hr => ?_⟩
      rcases mem_append.mp hr with hr | hr
      · exact hmid r hr
      · exact he r (mem_singleton.mp hr).symm
    cases e with
    | reaped q' c pid' status =>
      by_cases hq : q = q'
      · subst hq
        rw [answer, update_self, Option.some.injEq, Option.some.injEq] at h
        subst h
        exact ⟨log, c, status, [], rfl, by simp⟩
      · rw [answer, update_of_ne hq] at h
        exact hold h (by simp)
    | refused q' c =>
      by_cases hq : q = q'
      · rw [hq, answer, update_self] at h
        cases h
      · rw [answer, update_of_ne hq] at h
        exact hold h (by simp)
    | waited q' r =>
      by_cases hq : q = q'
      · rw [hq, answer, update_self] at h
        cases h
      · rw [answer, update_of_ne hq] at h
        exact hold h (by simp [Ne.symm hq])
    | _ => exact hold h (by simp)

end Xv6.Kern
