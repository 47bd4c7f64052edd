import LibSystemCTLM.Foundation.Instances
import Mathlib.Logic.Basic

/-!
# What holds of a result

A computation that ends with a value or an error (`Except`) meets `Post P E` if the value meets `P` and the error
meets `E`. The rule for a sequence is `Post.bind`.
-/

namespace LibSystemCTLM.Foundation

universe u

variable {ε : Type*} {α β : Type u}

/-- A value meets `P`, an error meets `E`. -/
def Post (P : α → Prop) (E : ε → Prop) : Except ε α → Prop
  | .ok a => P a
  | .error e => E e

variable {P : α → Prop} {Q : β → Prop} {E : ε → Prop}

@[simp] theorem post_ok (a : α) : Post P E (.ok a : Except ε α) ↔ P a := Iff.rfl

@[simp] theorem post_error (e : ε) : Post P E (.error e : Except ε α) ↔ E e := Iff.rfl

theorem Post.mono {P' : α → Prop} {E' : ε → Prop} {x : Except ε α} (h : Post P E x) (hP : ∀ a, P a → P' a) (hE : ∀ e, E e → E' e) :
    Post P' E' x := by
  cases x with
  | ok a => exact hP a h
  | error e => exact hE e h

/-- **The rule for a sequence.** -/
theorem Post.bind {x : Except ε α} {f : α → Except ε β} (h : Post P E x) (hf : ∀ a, P a → Post Q E (f a)) : Post Q E (x >>= f) := by
  cases x with
  | ok a => exact hf a h
  | error e => exact h

end LibSystemCTLM.Foundation
