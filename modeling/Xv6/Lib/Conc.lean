import Xv6.Lib.Wp
import Mathlib.Logic.Basic

/-!
Programs of several processes whose actions are interleaved.

A program is a tree of actions on a shared state. To reason about one process at a time,
each process `p` has a ghost value `l p` that says what it knows and owns. A shared
invariant `I` relates the state to the ghost values of all processes. A process is safe
when each of its actions, run in any state in which the invariant holds, its ghost value is
the expected one and it has its turn, keeps the invariant with a new ghost value of its own: the
values of the others stay, so what they know stays true.
-/

namespace Xv6.Lib.Conc

open Wp Function

universe u

inductive Prog (ε σ : Type) (α : Type) : Type 1
  | ret (a : α)
  | act {β : Type} (x : EStateM ε σ β) (k : β → Prog ε σ α)

variable {ε σ α β : Type}

namespace Prog

def bind : Prog ε σ α → (α → Prog ε σ β) → Prog ε σ β
  | ret a, f => f a
  | act x k, f => act x fun b => (k b).bind f

instance : Monad (Prog ε σ) where
  pure := ret
  bind := bind

instance : MonadLift (EStateM ε σ) (Prog ε σ) where
  monadLift x := act x ret

lemma bind_bind {γ : Type} (x : Prog ε σ α) (f : α → Prog ε σ β) (g : β → Prog ε σ γ) :
    (x >>= f) >>= g = x >>= fun a => f a >>= g := by
  show (x.bind f).bind g = x.bind fun a => (f a).bind g
  induction x with
  | ret a => rfl
  | act x k ih =>
    simp only [bind]
    exact congrArg _ (funext ih)

/-- The program run by one process with no other in between. -/
def alone : Prog ε σ α → EStateM ε σ α
  | ret a => pure a
  | act x k => do
    let b ← x
    alone (k b)

lemma alone_bind (x : Prog ε σ α) (f : α → Prog ε σ β) :
    alone (x >>= f) = alone x >>= fun a => alone (f a) := by
  show alone (x.bind f) = _
  induction x with
  | ret a => rfl
  | act x k ih =>
    simp only [bind, alone, bind_assoc]
    exact congrArg _ (funext ih)

lemma alone_lift (x : EStateM ε σ α) : alone (liftM x : Prog ε σ α) = x := by
  show (x >>= fun b => pure b) = x
  exact bind_pure x

/-- Rounds of `step` until one gives a result, and `out` after `k` of them. -/
def loop {A : Type} (out : Prog ε σ α) (step : A → Prog ε σ (A ⊕ α)) : ℕ → A → Prog ε σ α
  | 0, _ => out
  | k + 1, a => do
    match ← step a with
    | .inl b => loop out step k b
    | .inr v => pure v

/-- The program over a bigger state, each of its actions replaced by `f`. -/
def into {τ : Type} (f : ∀ {β : Type}, EStateM ε τ β → EStateM ε σ β) :
    Prog ε τ α → Prog ε σ α
  | ret a => ret a
  | act x k => act (f x) fun b => (k b).into f

/-- The program keeps to an automaton with states `S`: `R a x f` allows action `x` in state
`a`, and `f` gives the next state from what the action returns. `t` gives the state in which
the program returns. -/
def Follows {S : Type} (R : S → ∀ {β : Type}, EStateM ε σ β → (β → S) → Prop) (t : α → S) :
    S → Prog ε σ α → Prop
  | a, ret v => a = t v
  | a, act x k => ∃ f, R a x f ∧ ∀ b, Follows R t (f b) (k b)

section Follows

variable {S : Type} {R : S → ∀ {β : Type}, EStateM ε σ β → (β → S) → Prop} {a : S}

lemma follows_pure {t : α → S} (v : α) : Follows R t (t v) (pure v : Prog ε σ α) := rfl

lemma follows_lift {t : α → S} {x : EStateM ε σ α} (h : R a x t) :
    Follows R t a (liftM x : Prog ε σ α) := ⟨t, h, fun _ => rfl⟩

lemma Follows.bind {t : α → S} {u : β → S} {x : Prog ε σ α} {f : α → Prog ε σ β}
    (hx : Follows R t a x) (hf : ∀ v, Follows R u (t v) (f v)) : Follows R u a (x >>= f) := by
  show Follows R u a (x.bind f)
  induction x generalizing a with
  | ret v =>
    have := hf v
    rwa [← show a = t v from hx] at this
  | act x k ih =>
    obtain ⟨g, hg, hk⟩ := hx
    exact ⟨g, hg, fun b => ih b (hk b)⟩

lemma follows_doIf {c : Prop} [Decidable c] {x : Prog ε σ Unit}
    (h : Follows R (fun _ => a) a x) : Follows R (fun _ => a) a (doIf c x) := by
  unfold doIf
  split
  · exact h
  · rfl

lemma follows_forUp {test : ℕ → Prog ε σ Bool} {body : ℕ → Prog ε σ Unit}
    (ht : ∀ j, Follows R (fun _ => a) a (test j)) (hb : ∀ j, Follows R (fun _ => a) a (body j))
    (i k : ℕ) : Follows R (fun _ => a) a (forUp test body i k) := by
  induction k generalizing i with
  | zero => rfl
  | succ k ih =>
    rw [forUp]
    refine (ht i).bind fun c => ?_
    split
    · exact (hb i).bind fun _ => ih (i + 1)
    · rfl

end Follows

def isRet : Prog ε σ α → Bool
  | ret _ => true
  | act _ _ => false

lemma eq_ret_of_isRet {x : Prog ε σ Unit} (h : x.isRet = true) : x = ret () := by
  cases x with
  | ret a => rfl
  | act x k => cases h

/-- The program's next action in state `s`; `f` puts together what is left. -/
def next {X : Type*} (s : σ) (f : σ → Prog ε σ α → X) : Prog ε σ α → Option X
  | ret _ => none
  | act x k => match x s with
    | .ok b s' => some (f s' (k b))
    | .error _ _ => none

lemma next_cases {X : Type*} {s : σ} {f : σ → Prog ε σ α → X} {x : Prog ε σ α} {y : X}
    (h : x.next s f = some y) : ∃ (β : Type) (a : EStateM ε σ β) (k : β → Prog ε σ α) (b : β) (s' : σ),
      x = act a k ∧ a s = .ok b s' ∧ f s' (k b) = y := by
  cases x with
  | ret a => cases h
  | act a k =>
    rw [next] at h
    split at h
    · rename_i b s' ha
      exact ⟨_, a, k, b, s', rfl, ha, Option.some.inj h⟩
    · cases h

end Prog

/-! ### Computed runs -/

section Play

variable {X M : Type*} {move : X → M → Option X} {P : X → Prop} {ms : List M} {x y : X}

/-- Moves one after another. -/
def play (move : X → M → Option X) : List M → X → Option X
  | [], x => some x
  | m :: ms, x => (move x m).bind (play move ms)

/-- What each move keeps, the run keeps. -/
lemma play_induction (h0 : P x) (hmove : ∀ x y, ∀ m ∈ ms, P x → move x m = some y → P y)
    (h : play move ms x = some y) : P y := by
  induction ms generalizing x with
  | nil =>
    cases h
    exact h0
  | cons m ms ih =>
    obtain ⟨z, hz, hy⟩ := Option.bind_eq_some_iff.mp h
    refine ih (hmove x z m (List.mem_cons_self ..) h0 hz) ?_ hy
    exact fun x y m' hm' => hmove x y m' (List.mem_cons_of_mem m hm')

lemma played {A : Type*} {f : X → A} {a : A} (h0 : P x)
    (hmove : ∀ x y, ∀ m ∈ ms, P x → move x m = some y → P y)
    (h : (play move ms x).map f = some a) : ∃ y, P y ∧ f y = a := by
  obtain ⟨y, hy, hf⟩ := Option.map_eq_some_iff.mp h
  exact ⟨y, play_induction h0 hmove hy, hf⟩

end Play

/-! ### Safe programs -/

variable {ι L : Type} [DecidableEq ι]

lemma update_proj {X : Type} {g : ι → L} {t : ι} {r : L} (f : L → X) (hf : f r = f (g t)) (u : ι) :
    f (update g t r u) = f (g u) := by
  by_cases hu : u = t
  · rw [hu, update_self, hf]
  · rw [update_of_ne hu]

section

-- `I` is the shared invariant, `turn p` says when process `p` can act, `view p` is the state
-- as it finds it, and `E` says which stops are allowed
variable (I : σ → (ι → L) → Prop) (turn : ι → σ → Prop) (view : ι → σ → σ)
  (E : ε → σ → Prop)

/-- Process `p` with ghost value `l` can run the program, and when it returns `Q` holds of
the result and of its ghost value. -/
def Safe (p : ι) : Prog ε σ α → (α → L → Prop) → L → Prop
  | .ret a, Q, l => Q a l
  | .act x k, Q, l => ∀ s ℓ, I s ℓ → ℓ p = l → turn p s →
      wp x (fun b s' => ∃ l', I s' (update ℓ p l') ∧ Safe p (k b) Q l') E (view p s)

end

variable {I : σ → (ι → L) → Prop} {turn : ι → σ → Prop} {view : ι → σ → σ}
  {E : ε → σ → Prop} {p : ι} {l : L}

variable {x : Prog ε σ α} {f : α → Prog ε σ β} {Q : α → L → Prop}

lemma safe_pure {a : α} (h : Q a l) : Safe I turn view E p (pure a : Prog ε σ α) Q l := h

lemma Safe.mono {Q' : α → L → Prop} (h : Safe I turn view E p x Q l)
    (hQ : ∀ a l', Q a l' → Q' a l') : Safe I turn view E p x Q' l := by
  induction x generalizing l with
  | ret a => exact hQ a l h
  | act x k ih =>
    intro s ℓ hI hl ht
    refine wp_mono (h s ℓ hI hl ht) ?_ (fun _ _ h => h)
    rintro b s' ⟨l', hI', hk⟩
    exact ⟨l', hI', ih b hk⟩

lemma Safe.bind {R : β → L → Prop}
    (h : Safe I turn view E p x Q l) (hf : ∀ a l', Q a l' → Safe I turn view E p (f a) R l') :
    Safe I turn view E p (x >>= f) R l := by
  show Safe I turn view E p (x.bind f) R l
  induction x generalizing l with
  | ret a => exact hf a l h
  | act x k ih =>
    intro s ℓ hI hl ht
    refine wp_mono (h s ℓ hI hl ht) ?_ (fun _ _ h => h)
    rintro b s' ⟨l', hI', hk⟩
    exact ⟨l', hI', ih b hk⟩

lemma Safe.bind_read {P : α → Prop} {R : β → L → Prop}
    (h : Safe I turn view E p x (fun a l' => P a ∧ l' = l) l)
    (hf : ∀ a, P a → Safe I turn view E p (f a) R l) : Safe I turn view E p (x >>= f) R l := by
  refine h.bind ?_
  rintro a l' ⟨ha, hl⟩
  rw [hl]
  exact hf a ha

lemma safe_turn {x : EStateM ε σ α} (h : ∀ s ℓ, I s ℓ → ℓ p = l → turn p s →
      wp x (fun b s' => ∃ l', I s' (update ℓ p l') ∧ Q b l') E (view p s)) :
    Safe I turn view E p (liftM x : Prog ε σ α) Q l := h

lemma safe_lift {x : EStateM ε σ α} (h : ∀ s ℓ, I s ℓ → ℓ p = l →
      wp x (fun b s' => ∃ l', I s' (update ℓ p l') ∧ Q b l') E (view p s)) :
    Safe I turn view E p (liftM x : Prog ε σ α) Q l := fun s ℓ hI hl _ => h s ℓ hI hl

lemma safe_move {x : EStateM ε σ α} {r : L}
    (hm : ∀ s ℓ, I s ℓ → ℓ p = l → turn p s → I s (update ℓ p r))
    (h : Safe I turn view E p (liftM x : Prog ε σ α) Q r) :
    Safe I turn view E p (liftM x : Prog ε σ α) Q l := by
  intro s ℓ hI hl ht
  refine wp_mono (h s _ (hm s ℓ hI hl ht) (update_self _ _ _) ht) ?_ fun _ _ h => h
  rintro b s' ⟨l', hI', hQ⟩
  rw [update_idem] at hI'
  exact ⟨l', hI', hQ⟩

lemma safe_doIf {c : Prop} [Decidable c] {x : Prog ε σ Unit} {Q : Unit → L → Prop}
    (ht : c → Safe I turn view E p x Q l) (hf : ¬ c → Q () l) : Safe I turn view E p (doIf c x) Q l := by
  unfold doIf
  split
  · exact ht ‹_›
  · exact hf ‹_›

lemma safe_forUp {test : ℕ → Prog ε σ Bool} {body : ℕ → Prog ε σ Unit} (J : ℕ → L → Prop)
    {i k n : ℕ} (hi : i ≤ n) (hk : n < i + k) (h0 : J i l)
    (htest : ∀ j l', J j l' →
      Safe I turn view E p (test j) (fun c l'' => (c = true ↔ j < n) ∧ l'' = l') l')
    (hbody : ∀ j l', j < n → J j l' → Safe I turn view E p (body j) (fun _ l'' => J (j + 1) l'') l') :
    Safe I turn view E p (forUp test body i k) (fun _ l' => J n l') l := by
  induction k generalizing i l with
  | zero => omega
  | succ k ih =>
    rw [forUp]
    refine Safe.bind (htest i l h0) ?_
    rintro c _ ⟨hc, rfl⟩
    split
    · have hlt := hc.mp ‹_›
      refine Safe.bind (hbody i _ hlt h0) fun _ l' hl' => ?_
      exact ih (by omega) (by omega) hl'
    · have hin : i = n := by
        have : ¬ i < n := fun h => ‹¬ c = true› (hc.mpr h)
        omega
      rw [← hin]; exact h0

lemma safe_loop {A : Type} {out : Prog ε σ α} {step : A → Prog ε σ (A ⊕ α)}
    (J : ℕ → A → L → Prop) {k n : ℕ} {a : A} (h0 : J n a l) (hk : n < k)
    (hstep : ∀ n a l', J n a l' → Safe I turn view E p (step a)
      (fun r l'' => r.elim (fun b => ∃ m, m < n ∧ J m b l'') (fun v => Q v l'')) l') :
    Safe I turn view E p (Prog.loop out step k a) Q l := by
  induction k generalizing n a l with
  | zero => omega
  | succ k ih =>
    rw [Prog.loop]
    refine Safe.bind (hstep n a l h0) fun r l' hr => ?_
    cases r with
    | inl b =>
      obtain ⟨m, hm, hJ⟩ := hr
      exact ih hJ (by omega)
    | inr v => exact hr

lemma safe_rounds {A : Type} {out : Prog ε σ α} {step : A → Prog ε σ (A ⊕ α)}
    (J : A → L → Prop) {k : ℕ} {a : A} (h0 : J a l)
    (hout : ∀ l', Safe I turn view E p out Q l')
    (hstep : ∀ a l', J a l' → Safe I turn view E p (step a)
      (fun r l'' => r.elim (fun b => J b l'') (fun v => Q v l'')) l') :
    Safe I turn view E p (Prog.loop out step k a) Q l := by
  induction k generalizing a l with
  | zero => exact hout l
  | succ k ih =>
    rw [Prog.loop]
    refine Safe.bind (hstep a l h0) fun r l' hr => ?_
    cases r with
    | inl b => exact ih hr
    | inr v => exact hr

lemma Safe.alone (ht : ∀ s, turn p s) (hv : ∀ s, view p s = s)
    (h : Safe I turn view E p x Q l) {s : σ} {ℓ : ι → L} (hI : I s ℓ) (hl : ℓ p = l) :
    wp x.alone (fun a s' => ∃ l', I s' (update ℓ p l') ∧ Q a l') E s := by
  induction x generalizing l s ℓ with
  | ret a =>
    refine ⟨l, ?_, h⟩
    rw [← hl, update_eq_self]
    exact hI
  | act x k ih =>
    have hx := h s ℓ hI hl (ht s)
    rw [hv] at hx
    rw [Prog.alone, wp_bind]
    refine wp_mono hx ?_ fun _ _ h => h
    rintro b s' ⟨l', hI', hk⟩
    refine wp_mono (ih b hk hI' (update_self _ _ _)) ?_ fun _ _ h => h
    rintro a s'' ⟨l'', hI'', hQ⟩
    rw [update_idem] at hI''
    exact ⟨l'', hI'', hQ⟩

section

variable {x : EStateM ε σ β} {k : β → Prog ε σ α} {Q : α → L → Prop} {s s' : σ} {ℓ : ι → L}
  (h : Safe I turn view E p (.act x k) Q l) (hI : I s ℓ) (hl : ℓ p = l) (ht : turn p s)

include h hI hl ht

lemma Safe.step {b : β} (hx : x (view p s) = .ok b s') :
    ∃ l', I s' (update ℓ p l') ∧ Safe I turn view E p (k b) Q l' :=
  wp_ok (h s ℓ hI hl ht) hx

lemma Safe.stop {e : ε} (hx : x (view p s) = .error e s') : E e s' :=
  wp_error (h s ℓ hI hl ht) hx

end

/-! ### One process that knows the state -/

/-- A program that is run with no other process in between. -/
abbrev Solo (E : ε → σ → Prop) (x : Prog ε σ α) (Q : α → σ → Prop) (s : σ) : Prop :=
  Safe (fun s ℓ => s = ℓ ()) (fun _ _ => True) (fun _ s => s) E () x Q s

lemma solo_lift {x : EStateM ε σ α} {Q : α → σ → Prop} {s : σ} (h : wp x Q E s) :
    Solo E (liftM x : Prog ε σ α) Q s := by
  refine safe_lift fun t ℓ hI hl => ?_
  rw [show t = s from hI.trans hl]
  refine wp_mono h (fun b s' hQ => ⟨s', ?_, hQ⟩) fun _ _ h => h
  rw [update_self]

lemma Solo.wp {Q : α → σ → Prop} {s : σ} (h : Solo E x Q s) : wp x.alone Q E s := by
  refine wp_mono (Safe.alone (fun _ => trivial) (fun _ => rfl) h (ℓ := fun _ => s) rfl rfl) ?_
    fun _ _ h => h
  rintro a s' ⟨l', hs, hQ⟩
  rw [update_self] at hs
  rw [hs]
  exact hQ

end Xv6.Lib.Conc
