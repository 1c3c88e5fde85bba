import Xv6.Lib.Wp

/-!
Programs that get further with more fuel.
-/

namespace Xv6.Lib.Fuel

open Wp

variable {ε σ α β : Type} {x y : EStateM ε σ α} {f g : α → EStateM ε σ β}

/-- Whatever `x` returns, `y` returns too. -/
def Extends (x y : EStateM ε σ α) : Prop := ∀ s a s', x s = .ok a s' → y s = .ok a s'

namespace Extends

lemma refl (x : EStateM ε σ α) : Extends x x := fun _ _ _ h => h

lemma throw (e : ε) (y : EStateM ε σ α) : Extends (throw e) y := by
  intro s a s' h
  cases h

lemma bind (hxy : Extends x y) (hfg : ∀ a, Extends (f a) (g a)) :
    Extends (x >>= f) (y >>= g) := by
  intro s b s' h
  obtain ⟨a, s₁, hx, hf⟩ := bind_ok h
  change EStateM.bind y g s = .ok b s'
  unfold EStateM.bind
  rw [hxy s a s₁ hx]
  exact hfg a s₁ b s' hf

lemma ite {c : Prop} [Decidable c] {x' y' : EStateM ε σ α} (h : Extends x y)
    (h' : Extends x' y') : Extends (if c then x else x') (if c then y else y') := by
  by_cases hc : c
  · rwa [if_pos hc, if_pos hc]
  · rwa [if_neg hc, if_neg hc]

end Extends

end Xv6.Lib.Fuel
