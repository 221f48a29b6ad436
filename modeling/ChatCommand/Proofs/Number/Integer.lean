import ChatCommand.Number.Integer
import ChatCommand.Token

namespace ChatCommand.Number

variable {n : Int} {k : Int64}

theorem naturalText_ne_nil (n : Nat) : naturalText n ≠ [] :=
  Nat.toDigits_ne_nil

theorem feed_notMem_naturalText (n : Nat) : '\n' ∉ naturalText n := by
  intro h
  have hdigit := isDigit_of_mem_naturalText h
  contradiction

theorem feed_notMem_integerText (n : Int) : '\n' ∉ integerText n := by
  cases n with
  | ofNat n => exact feed_notMem_naturalText n
  | negSucc n =>
    rw [integerText, List.mem_cons, not_or]
    exact ⟨by decide, feed_notMem_naturalText _⟩

theorem integer?_of_natural? {s : Text} {n : Nat} (h : natural? s = some n) :
    integer? s = some (n : Int) := by
  unfold integer?
  split
  · simp [natural?] at h
  · simp [natural?] at h
  · rw [h]
    rfl

theorem integer?_naturalText (n : Nat) : integer? (naturalText n) = some (n : Int) :=
  integer?_of_natural? (natural?_naturalText n)

theorem integer?_integerText (n : Int) : integer? (integerText n) = some n := by
  cases n with
  | ofNat n => exact integer?_naturalText n
  | negSucc n =>
    rw [integerText, integer?, natural?_naturalText]
    rfl

def word? (n : Int) : Option Int64 :=
  if Int64.minValue.toInt ≤ n ∧ n ≤ Int64.maxValue.toInt then some (.ofInt n) else none

theorem word?_eq_some_iff : word? n = some k ↔ k.toInt = n := by
  rw [word?, Option.ite_none_right_eq_some, Option.some.injEq]
  constructor
  · rintro ⟨⟨hmin, hmax⟩, rfl⟩
    rw [Int64.toInt_minValue] at hmin
    rw [Int64.toInt_maxValue] at hmax
    exact Int64.toInt_ofInt_of_le hmin (by omega)
  · rintro rfl
    exact ⟨⟨k.minValue_le_toInt, k.toInt_le⟩, Int64.ofInt_toInt k⟩

theorem exists_word?_iff :
    (∃ k, word? n = some k) ↔ -9223372036854775808 ≤ n ∧ n ≤ 9223372036854775807 := by
  rw [← Option.isSome_iff_exists, word?, Int64.toInt_minValue, Int64.toInt_maxValue]
  split <;> simp <;> omega

theorem int64?_eq_bind (s : Text) : int64? s = (integer? s).bind word? :=
  rfl

theorem int64?_int64Text (k : Int64) : int64? (int64Text k) = some k := by
  rw [int64?_eq_bind, int64Text, integer?_integerText, Option.bind_some, word?_eq_some_iff]

theorem isSymbol_naturalText (n : Nat) : Token.isSymbol (naturalText n) := by
  have hall : (naturalText n).all Token.isSymbolChar := by
    rw [List.all_eq_true]
    intro c hc
    have hdigit : c.isAlphanum := by simp [Char.isAlphanum, isDigit_of_mem_naturalText hc]
    simp [Token.isSymbolChar, isAlphanumeric_of_isAlphanum hdigit]
  simp [Token.isSymbol, hall, naturalText_ne_nil]

theorem half_size : UInt64.size / 2 = 9223372036854775808 :=
  rfl

theorem int64?_naturalText (n : Nat) : int64? (naturalText n) = word? n := by
  rw [int64?_eq_bind, integer?_naturalText, Option.bind_some]

theorem int64?_naturalText_of_lt {n : Nat} (h : n < UInt64.size / 2) :
    int64? (naturalText n) = some (.ofNat n) := by
  rw [int64?_naturalText, word?_eq_some_iff, Int64.toInt_ofNat_of_lt h]

theorem int64?_naturalText_of_ge {n : Nat} (h : UInt64.size / 2 ≤ n) :
    int64? (naturalText n) = none := by
  rw [int64?_naturalText, Option.eq_none_iff_forall_ne_some]
  intro k hk
  have hrange := exists_word?_iff.1 ⟨k, hk⟩
  rw [half_size] at h
  omega

theorem int64Text_ofNat {n : Nat} (h : n < UInt64.size / 2) :
    int64Text (.ofNat n) = naturalText n := by
  rw [int64Text, Int64.toInt_ofNat_of_lt h]
  rfl

end ChatCommand.Number
