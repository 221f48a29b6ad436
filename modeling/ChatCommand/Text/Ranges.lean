namespace ChatCommand

/-- Whether a number lies in one of the ranges, which stand in rising order, ends included. -/
def inRanges : List (Nat × Nat) → Nat → Bool
  | [], _ => false
  | (low, high) :: ranges, n => low ≤ n && (n ≤ high || inRanges ranges n)

end ChatCommand
