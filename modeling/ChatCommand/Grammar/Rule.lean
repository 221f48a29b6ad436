import ChatCommand.LineError

namespace ChatCommand

open Text

variable {α β : Type}

/-- What a rule finds at the front of a text, and the text that it leaves. -/
abbrev Step (α : Type) := Except LineError (Option α × Text)

namespace Step

def map (f : α → β) (r : Step α) : Step β :=
  Except.map (Prod.map (Option.map f) id) r

theorem map_eq_some {f : α → β} {r : Step α} {b : β} {rest : Text}
    (h : r.map f = .ok (some b, rest)) : ∃ a, r = .ok (some a, rest) ∧ f a = b := by
  rcases r with e | ⟨_ | a, t⟩
  · cases h
  · cases h
  · cases h
    exact ⟨a, rfl, rfl⟩

end Step

/-- Every match takes at least one character, so a rule cannot match forever. -/
def Shortens (rule : Text → Step α) : Prop :=
  ∀ ⦃s a rest⦄, rule s = .ok (some a, rest) → rest.length < s.length

namespace Grammar

/-- The rule behind the blanks at the front. Nothing is found in a text of blanks. -/
def trimmed (rule : Text → Step α) (s : Text) : Step α :=
  match trim s with
  | [] => .ok (none, [])
  | c :: t => rule (c :: t)

theorem trimmed_shortens {rule : Text → Step α} (h : Shortens rule) :
    Shortens (trimmed rule) := by
  intro s a rest hs
  simp only [Grammar.trimmed] at hs
  split at hs
  · cases hs
  · rename_i c t ht
    have := length_trim_le s
    rw [ht] at this
    exact Nat.lt_of_lt_of_le (h hs) this

def exhaust (rule : Text → Step α) (shortens : Shortens rule) (s : Text) :
    Except LineError (List α × Text) :=
  match _hs : trimmed rule s with
  | .error e => .error e
  | .ok (none, _) => .ok ([], s)
  | .ok (some a, rest) =>
    match exhaust rule shortens rest with
    | .error e => .error e
    | .ok (found, left) => .ok (a :: found, left)
termination_by s.length
decreasing_by exact trimmed_shortens shortens _hs

theorem exhaust_length {rule : Text → Step α} {shortens : Shortens rule} {s : Text}
    {found : List α} {rest : Text} (h : exhaust rule shortens s = .ok (found, rest)) :
    found.length + rest.length ≤ s.length := by
  induction hn : s.length using Nat.strongRecOn generalizing s found rest with
  | ind n ih =>
    subst hn
    rw [exhaust] at h
    split at h
    · cases h
    · cases h
      simp
    · rename_i a left hs
      have hlt := trimmed_shortens shortens hs
      split at h
      · cases h
      · rename_i more final hm
        cases h
        have := ih _ hlt hm rfl
        simp only [List.length_cons]
        omega

end Grammar

end ChatCommand
