import ChatCommand.Text.Trim

namespace ChatCommand

namespace Number

def naturalText (n : Nat) : Text :=
  Nat.toDigits 10 n

def natural? (s : Text) : Option Nat :=
  if s ≠ [] ∧ s.all Char.isDigit then some (Nat.ofDigitChars 10 s 0) else none

def integerText : Int → Text
  | .ofNat n => naturalText n
  | .negSucc n => '-' :: naturalText (n + 1)

def integer? : Text → Option Int
  | '+' :: s => (natural? s).map fun n ↦ n
  | '-' :: s => (natural? s).map fun n ↦ -n
  | s => (natural? s).map fun n ↦ n

def int64Text (n : Int64) : Text :=
  integerText n.toInt

def int64? (s : Text) : Option Int64 :=
  (integer? s).bind fun n ↦
    if Int64.minValue.toInt ≤ n ∧ n ≤ Int64.maxValue.toInt then some (.ofInt n) else none

def uint64Text (n : UInt64) : Text :=
  naturalText n.toNat

/-- Of the decimal forms of a number only the one without needless zeros is read. -/
def uint64? (s : Text) : Option UInt64 :=
  (natural? s).bind fun n ↦ if naturalText n = s ∧ n < UInt64.size then some (.ofNat n) else none

theorem isDigit_of_mem_naturalText {n : Nat} {c : Char} (h : c ∈ naturalText n) : c.isDigit :=
  Nat.isDigit_of_mem_toDigits (by decide) (by decide) h

theorem natural?_naturalText (n : Nat) : natural? (naturalText n) = some n := by
  have digits : (naturalText n).all Char.isDigit := by
    simpa only [List.all_eq_true] using fun _ ↦ isDigit_of_mem_naturalText
  rw [natural?, if_pos ⟨Nat.toDigits_ne_nil, digits⟩, naturalText,
    Nat.ofDigitChars_toDigits (by decide) (by decide)]

theorem uint64?_uint64Text (k : UInt64) : uint64? (uint64Text k) = some k := by
  simp [uint64?, uint64Text, natural?_naturalText, UInt64.toNat_lt_size]

end Number

end ChatCommand
