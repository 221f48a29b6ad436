import ChatCommand.Text.Trim

namespace ChatCommand.Json

variable {α : Type}

/-- A reader takes what it reads from the front, at least one character of it. -/
def Consumes (read : Text → Option (α × Text)) : Prop :=
  ∀ ⦃s a rest⦄, read s = some (a, rest) → rest.length < s.length

def isBlank (c : Char) : Bool :=
  c = ' ' || c = '\n' || c = '\t' || c = '\r'

def skipBlanks (s : Text) : Text :=
  s.dropWhile isBlank

theorem length_skipBlanks_le (s : Text) : (skipBlanks s).length ≤ s.length :=
  (List.dropWhile_sublist isBlank).length_le

def expect (c : Char) (s : Text) : Option Text :=
  match skipBlanks s with
  | [] => none
  | d :: t => if d = c then some t else none

theorem expect_length {c : Char} {s rest : Text} (h : expect c s = some rest) :
    rest.length < s.length := by
  have := length_skipBlanks_le s
  simp only [expect] at h
  split at h
  · cases h
  · rename_i d t ht
    split at h
    · cases h
      rw [ht] at this
      exact this
    · cases h

theorem skipBlanks_append {b : Text} (hb : ∀ x ∈ b, isBlank x) {c : Char} (hc : isBlank c = false)
    (s : Text) : skipBlanks (b ++ c :: s) = c :: s := by
  simp [skipBlanks, List.dropWhile_append_of_pos hb, hc]

theorem expect_append {b : Text} (hb : ∀ x ∈ b, isBlank x) {c : Char} (hc : isBlank c = false)
    (s : Text) : expect c (b ++ c :: s) = some s := by
  simp [expect, skipBlanks_append hb hc]

theorem expect_cons {c : Char} (hc : isBlank c = false) (s : Text) : expect c (c :: s) = some s :=
  expect_append (b := []) (by simp) hc s

/-- The reader makes the value out of the text, whatever blanks stand in front of it and whatever
follows. -/
def ReadsAs (read : Text → Option (α × Text)) (t : Text) (a : α) : Prop :=
  ∀ ⦃b⦄, (∀ c ∈ b, isBlank c) → ∀ rest, read (b ++ (t ++ rest)) = some (a, rest)

end ChatCommand.Json
