import ChatCommand.Text.Class

namespace ChatCommand

abbrev Text := List Char

namespace Text

def trimStart (s : Text) : Text :=
  s.dropWhile isBlank

def trimEndBy (p : Char → Bool) : Text → Text
  | [] => []
  | c :: s =>
    let t := trimEndBy p s
    if t.isEmpty && p c then [] else c :: t

def trimBy (p : Char → Bool) (s : Text) : Text :=
  trimEndBy p (s.dropWhile p)

def trimEnd (s : Text) : Text :=
  trimEndBy isBlank s

def trim (s : Text) : Text :=
  trimBy isBlank s

theorem length_trimStart_le (s : Text) : (trimStart s).length ≤ s.length :=
  (List.dropWhile_sublist isBlank).length_le

theorem length_trimEndBy_le (p : Char → Bool) (s : Text) : (trimEndBy p s).length ≤ s.length := by
  induction s with
  | nil => simp [trimEndBy]
  | cons c s ih =>
    simp only [trimEndBy]
    split
    · simp
    · simpa using ih

theorem length_trim_le (s : Text) : (trim s).length ≤ s.length :=
  Nat.le_trans (length_trimEndBy_le isBlank _) (length_trimStart_le s)

theorem trimEndBy_eq_nil_iff {p : Char → Bool} {s : Text} :
    trimEndBy p s = [] ↔ ∀ c ∈ s, p c := by
  induction s with
  | nil => simp [trimEndBy]
  | cons c s ih => by_cases h : trimEndBy p s = [] <;> simp_all [trimEndBy]

end Text

end ChatCommand
