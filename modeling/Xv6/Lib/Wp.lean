import Mathlib.Order.Nat

/-!
Weakest preconditions for computations over a state that can stop.

A computation that stops keeps the state it had reached, so a specification has two
postconditions: one for the value and the state it returns, one for the reason and the
state it stops in. The rules below take a program apart from the front, and a call is
replaced by its specification with `wp_mono`.
-/

namespace Xv6.Lib.Wp

universe u

variable {ε σ τ α β : Type}

/-- Run from `s`, the program returns with `Q` or stops with `E`. -/
def wp (x : EStateM ε σ α) (Q : α → σ → Prop) (E : ε → σ → Prop) (s : σ) : Prop :=
  match x s with
  | .ok a s' => Q a s'
  | .error e s' => E e s'

variable {x : EStateM ε σ α} {Q Q' : α → σ → Prop} {E E' : ε → σ → Prop} {s s' : σ}

section

variable (h : wp x Q E s)

include h

lemma wp_ok {a : α} (hx : x s = .ok a s') : Q a s' := by
  unfold wp at h; rw [hx] at h; exact h

lemma wp_error {e : ε} (hx : x s = .error e s') : E e s' := by
  unfold wp at h; rw [hx] at h; exact h

lemma wp_run (hE : ∀ e s', ¬ E e s') : ∃ a s', x s = .ok a s' ∧ Q a s' := by
  unfold wp at h
  cases hx : x s with
  | ok a s' => rw [hx] at h; exact ⟨a, s', rfl, h⟩
  | error e s' => rw [hx] at h; exact absurd h (hE e s')

lemma wp_stop (hQ : ∀ a s', ¬ Q a s') : ∃ e s', x s = .error e s' ∧ E e s' := by
  unfold wp at h
  cases hx : x s with
  | ok a s' => rw [hx] at h; exact absurd h (hQ a s')
  | error e s' => rw [hx] at h; exact ⟨e, s', rfl, h⟩

end

lemma bind_ok {f : α → EStateM ε σ β} {b : β}
    (h : (x >>= f) s = .ok b s') : ∃ a s₁, x s = .ok a s₁ ∧ f a s₁ = .ok b s' := by
  have h' : EStateM.bind x f s = .ok b s' := h
  unfold EStateM.bind at h'
  cases hx : x s with
  | ok a s₁ => rw [hx] at h'; exact ⟨a, s₁, rfl, h'⟩
  | error e s₁ => rw [hx] at h'; cases h'

lemma wp_of_eq {a : α} (hx : x s = .ok a s') (h : Q a s') : wp x Q E s := by
  unfold wp; rw [hx]; exact h

lemma wp_mono (h : wp x Q E s) (hQ : ∀ a s', Q a s' → Q' a s') (hE : ∀ e s', E e s' → E' e s') :
    wp x Q' E' s := by
  unfold wp at h ⊢
  cases hx : x s with
  | ok a s' => rw [hx] at h; exact hQ a s' h
  | error e s' => rw [hx] at h; exact hE e s' h

lemma wp_and (h : wp x Q E s) (h' : wp x Q' E' s) :
    wp x (fun a s' => Q a s' ∧ Q' a s') (fun e s' => E e s' ∧ E' e s') s := by
  unfold wp at h h' ⊢
  cases hx : x s <;> rw [hx] at h h' <;> exact ⟨h, h'⟩

@[simp] lemma wp_pure (a : α) (Q : α → σ → Prop) (E : ε → σ → Prop) (s : σ) :
    wp (pure a : EStateM ε σ α) Q E s ↔ Q a s := Iff.rfl

@[simp] lemma wp_throw (e : ε) (Q : α → σ → Prop) (E : ε → σ → Prop) (s : σ) :
    wp (throw e : EStateM ε σ α) Q E s ↔ E e s := Iff.rfl

@[simp] lemma wp_get (Q : σ → σ → Prop) (E : ε → σ → Prop) (s : σ) :
    wp (get : EStateM ε σ σ) Q E s ↔ Q s s := Iff.rfl

@[simp] lemma wp_set (t : σ) (Q : PUnit → σ → Prop) (E : ε → σ → Prop) (s : σ) :
    wp (set t : EStateM ε σ PUnit) Q E s ↔ Q ⟨⟩ t := Iff.rfl

@[simp] lemma wp_modify (f : σ → σ) (Q : PUnit → σ → Prop) (E : ε → σ → Prop) (s : σ) :
    wp (modify f : EStateM ε σ PUnit) Q E s ↔ Q ⟨⟩ (f s) := Iff.rfl

@[simp] lemma wp_bind (x : EStateM ε σ α) (f : α → EStateM ε σ β) (Q : β → σ → Prop)
    (E : ε → σ → Prop) (s : σ) :
    wp (x >>= f) Q E s ↔ wp x (fun a s' => wp (f a) Q E s') E s := by
  show wp (EStateM.bind x f) Q E s ↔ _
  unfold wp EStateM.bind
  cases x s <;> rfl

@[simp] lemma wp_map (x : EStateM ε σ α) (f : α → β) (Q : β → σ → Prop)
    (E : ε → σ → Prop) (s : σ) :
    wp (f <$> x) Q E s ↔ wp x (fun a s' => Q (f a) s') E s := by
  show wp (EStateM.map f x) Q E s ↔ _
  unfold wp EStateM.map
  cases x s <;> rfl

lemma wp_ite {c : Prop} [Decidable c] {y : EStateM ε σ α}
    (ht : c → wp x Q E s) (hf : ¬ c → wp y Q E s) :
    wp (if c then x else y) Q E s := by
  split
  · exact ht ‹_›
  · exact hf ‹_›

/-- `if (c) stop;` -/
def throwIf (c : Prop) [Decidable c] (e : ε) : EStateM ε σ Unit :=
  if c then throw e else pure ()

/-- `if (c) x;` -/
def doIf {m : Type → Type u} [Monad m] (c : Prop) [Decidable c] (x : m Unit) : m Unit :=
  if c then x else pure ()

@[simp] lemma wp_throwIf (c : Prop) [Decidable c] (e : ε) (Q : Unit → σ → Prop)
    (E : ε → σ → Prop) (s : σ) :
    wp (throwIf c e) Q E s ↔ (c → E e s) ∧ (¬ c → Q () s) := by
  unfold throwIf; split <;> simp [*]

@[simp] lemma wp_doIf (c : Prop) [Decidable c] (x : EStateM ε σ Unit) (Q : Unit → σ → Prop)
    (E : ε → σ → Prop) (s : σ) :
    wp (doIf c x) Q E s ↔ (c → wp x Q E s) ∧ (¬ c → Q () s) := by
  unfold doIf; split <;> simp [*]

/-! ### Counting loops -/

/-- `for (i = a; test(i); i++) body(i);`, at most `k` rounds. -/
def forUp {m : Type → Type u} [Monad m] (test : ℕ → m Bool) (body : ℕ → m Unit) :
    ℕ → ℕ → m Unit
  | _, 0 => pure ()
  | i, k + 1 => do
    if ← test i then
      body i
      forUp test body (i + 1) k

/-- A loop invariant indexed by the loop variable, for a loop that ends at `n`. -/
lemma wp_forUp {test : ℕ → EStateM ε σ Bool} {body : ℕ → EStateM ε σ Unit}
    (I : ℕ → σ → Prop) {i k n : ℕ} (hi : i ≤ n) (hk : n < i + k) (h0 : I i s)
    (htest : ∀ j t, I j t → wp (test j) (fun c t' => (c = true ↔ j < n) ∧ t' = t) E t)
    (hbody : ∀ j t, i ≤ j → j < n → I j t → wp (body j) (fun _ t' => I (j + 1) t') E t) :
    wp (forUp test body i k) (fun _ t => I n t) E s := by
  induction k generalizing i s with
  | zero => omega
  | succ k ih =>
    rw [forUp, wp_bind]
    refine wp_mono (htest i s h0) ?_ (fun _ _ h => h)
    rintro c _ ⟨hc, rfl⟩
    refine wp_ite (fun hct => ?_) (fun hcf => ?_)
    · have hlt := hc.mp hct
      rw [wp_bind]
      refine wp_mono (hbody i _ le_rfl hlt h0) (fun _ t ht => ?_) (fun _ _ h => h)
      exact ih (by omega) (by omega) ht fun j u h1 h2 => hbody j u (by omega) h2
    · have hin : i = n := by
        have : ¬ i < n := fun h => hcf (hc.mpr h)
        omega
      rw [wp_pure, ← hin]; exact h0

/-! ### A program over one part of the state -/

/-- The program `x` over the part of the state that `get` reads and `put` replaces. -/
def onPart (get : σ → τ) (put : σ → τ → σ) (x : EStateM ε τ α) : EStateM ε σ α := fun s =>
  match x (get s) with
  | .ok a t => .ok a (put s t)
  | .error e t => .error e (put s t)

@[simp] lemma wp_onPart (get : σ → τ) (put : σ → τ → σ) (x : EStateM ε τ α)
    (Q : α → σ → Prop) (E : ε → σ → Prop) (s : σ) :
    wp (onPart get put x) Q E s ↔
      wp x (fun a t => Q a (put s t)) (fun e t => E e (put s t)) (get s) := by
  unfold wp onPart
  cases x (get s) <;> rfl

@[simp] lemma wp_adaptExcept {δ : Type} (f : ε → δ) (x : EStateM ε σ α) (Q : α → σ → Prop)
    (E : δ → σ → Prop) (s : σ) :
    wp (x.adaptExcept f) Q E s ↔ wp x Q (fun e => E (f e)) s := by
  unfold wp EStateM.adaptExcept
  cases x s <;> rfl

/-! ### Runs from a given state -/

/-- What the program returns from `s`, if it does. -/
def outcome (x : EStateM ε σ α) (s : σ) : Option α :=
  match x s with
  | .ok a _ => some a
  | .error _ _ => none

/-- The state in which it returns or stops. -/
def endState (x : EStateM ε σ α) (s : σ) : σ :=
  match x s with
  | .ok _ s' => s'
  | .error _ s' => s'

lemma run_of_outcome {a : α} (h : outcome x s = some a) : x s = .ok a (endState x s) := by
  unfold outcome at h
  unfold endState
  cases hx : x s with
  | ok b s' =>
    rw [hx] at h
    cases h
    rfl
  | error e s' =>
    rw [hx] at h
    cases h

end Xv6.Lib.Wp
