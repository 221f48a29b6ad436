import Mathlib.Tactic.TypeStar

namespace ChatCommand

variable {ε ε' α β : Type} {x : Except ε α} {f : α → Except ε β} {g : ε → ε'}

theorem bind_eq_ok {b : β} : (x >>= f) = .ok b ↔ ∃ a, x = .ok a ∧ f a = .ok b := by
  cases x <;> simp [bind, Except.bind]

theorem bind_eq_error {e : ε} :
    (x >>= f) = .error e ↔ x = .error e ∨ ∃ a, x = .ok a ∧ f a = .error e := by
  cases x <;> simp [bind, Except.bind]

theorem check_bind_eq_ok {x : Except ε Unit} {f : Unit → Except ε β} {b : β} :
    (x >>= f) = .ok b ↔ x = .ok () ∧ f () = .ok b := by
  cases x <;> simp [bind, Except.bind]

theorem check_bind_eq_error {x : Except ε Unit} {f : Unit → Except ε β} {e : ε} :
    (x >>= f) = .error e ↔ x = .error e ∨ x = .ok () ∧ f () = .error e := by
  cases x <;> simp [bind, Except.bind]

theorem guard_eq_ok {p : Prop} [Decidable p] {e : ε} {b : β} {x : Except ε β} :
    (if p then .error e else x) = .ok b ↔ ¬p ∧ x = .ok b := by
  by_cases h : p <;> simp [h]

theorem guard_eq_error {p : Prop} [Decidable p] {e e' : ε} {x : Except ε β} :
    (if p then .error e' else x) = .error e ↔ p ∧ e' = e ∨ ¬p ∧ x = .error e := by
  by_cases h : p <;> simp [h]

theorem mapError_eq_error_iff {e : ε'} :
    x.mapError g = .error e ↔ ∃ inner, x = .error inner ∧ g inner = e := by
  rcases x with inner | a
  · change Except.error (g inner) = .error e ↔ _
    simp
  · change Except.ok a = .error e ↔ _
    simp

theorem mapError_eq_ok_iff {a : α} : x.mapError g = .ok a ↔ x = .ok a := by
  rcases x with inner | b
  · change Except.error (g inner) = .ok a ↔ _
    simp
  · change Except.ok b = .ok a ↔ _
    simp

theorem map_eq_error_iff {h : α → β} {e : ε} : x.map h = .error e ↔ x = .error e := by
  rcases x with e' | a
  · change Except.error e' = .error e ↔ _
    simp
  · change Except.ok (h a) = .error e ↔ _
    simp

end ChatCommand
