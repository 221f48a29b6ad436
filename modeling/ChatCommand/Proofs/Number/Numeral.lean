import ChatCommand.Proofs.Bind.Reading
import ChatCommand.Proofs.Number.Integer
import Mathlib.Data.Nat.Digits.Defs

namespace ChatCommand

namespace Number

variable {s : Text} {c : Char} {n : Int} {k : Int64} {a b : Nat} {sign : Int}

def digit (c : Char) : Nat :=
  c.toNat - '0'.toNat

def IsDigits (s : Text) : Prop :=
  s ≠ [] ∧ ∀ c ∈ s, c.isDigit

/-- Each digit counts by the power of ten of its place. -/
def placeValue (s : Text) : Nat :=
  Nat.ofDigits 10 (s.reverse.map digit)

/-- Digits behind one sign at most, with the number that they denote. -/
inductive Numeral : Text → Int → Prop
  | unsigned {s : Text} : IsDigits s → Numeral s (placeValue s)
  | plus {s : Text} : IsDigits s → Numeral ('+' :: s) (placeValue s)
  | minus {s : Text} : IsDigits s → Numeral ('-' :: s) (-placeValue s)

theorem placeValue_cons (c : Char) (s : Text) :
    placeValue (c :: s) = 10 ^ s.length * digit c + placeValue s := by
  simp [placeValue, Nat.ofDigits_append, Nat.add_comm]

theorem ofDigitChars_eq_placeValue (s : Text) : Nat.ofDigitChars 10 s 0 = placeValue s := by
  induction s with
  | nil => rfl
  | cons c s ih =>
    rw [Nat.ofDigitChars_cons, Nat.ofDigitChars_eq_ofDigitChars_zero, ih, placeValue_cons,
      Nat.mul_zero, Nat.zero_add, digit]

theorem natural?_eq_some_iff : natural? s = some a ↔ IsDigits s ∧ a = placeValue s := by
  rw [natural?, ofDigitChars_eq_placeValue, Option.ite_none_right_eq_some, Option.some.injEq,
    List.all_eq_true, IsDigits]
  exact and_congr_right fun _ ↦ eq_comm

theorem map_natural?_eq_some_iff {f : Int → Int} :
    (natural? s : Option Int).map f = some n ↔ IsDigits s ∧ f (placeValue s) = n := by
  rcases h : natural? s with _ | a
  · have hdigits : ¬IsDigits s := fun hs ↦ by cases h.symm.trans (natural?_eq_some_iff.2 ⟨hs, rfl⟩)
    simp [hdigits]
  · obtain ⟨hs, rfl⟩ := natural?_eq_some_iff.1 h
    simp [hs]

theorem integer?_eq_some_iff : integer? s = some n ↔ Numeral s n := by
  constructor
  · intro h
    unfold integer? at h
    split at h <;> obtain ⟨hdigits, rfl⟩ := map_natural?_eq_some_iff.1 h
    · exact .plus hdigits
    · exact .minus hdigits
    · exact .unsigned hdigits
  · intro h
    cases h with
    | unsigned hs => exact integer?_of_natural? (natural?_eq_some_iff.2 ⟨hs, rfl⟩)
    | plus hs => exact map_natural?_eq_some_iff.2 ⟨hs, rfl⟩
    | minus hs => exact map_natural?_eq_some_iff.2 ⟨hs, rfl⟩

theorem int64?_eq_some_iff : int64? s = some k ↔ Numeral s k.toInt := by
  simp only [int64?_eq_bind, Option.bind_eq_some_iff, integer?_eq_some_iff, word?_eq_some_iff,
    exists_eq_right']

/-- Puts a digit behind the digits of a word, unless the product or the sum does not fit one. -/
def push (sign : Int) (k : Int64) (c : Char) : Option Int64 :=
  (word? (10 * k.toInt)).bind fun tenfold ↦
    if c.isDigit then word? (tenfold.toInt + sign * digit c) else none

def accumulate (sign : Int) (s : Text) : Option Int64 :=
  if s = [] then none else s.foldlM (push sign) 0

/-- A numeral read digit by digit in a word of 64 bits, that of a negative number downwards. -/
def accumulated? : Text → Option Int64
  | '+' :: s => accumulate 1 s
  | '-' :: s => accumulate (-1) s
  | s => accumulate 1 s

theorem word?_eq_none_of_le (hsign : sign = 1 ∨ sign = -1) (hle : a ≤ b)
    (h : word? (sign * a) = none) : word? (sign * b) = none := by
  rw [Option.eq_none_iff_forall_ne_some] at h ⊢
  intro k hk
  have hb := exists_word?_iff.1 ⟨k, hk⟩
  have ha : -9223372036854775808 ≤ sign * a ∧ sign * a ≤ 9223372036854775807 := by
    rcases hsign with rfl | rfl <;> omega
  obtain ⟨j, hj⟩ := exists_word?_iff.2 ha
  exact h j hj

theorem push_of_isDigit (hsign : sign = 1 ∨ sign = -1) (hk : k.toInt = sign * a)
    (hc : c.isDigit) : push sign k c = word? (sign * (10 * a + digit c : Nat)) := by
  have htenfold : 10 * k.toInt = sign * (10 * a : Nat) := by
    rw [hk]
    push_cast
    ring
  rw [push, htenfold]
  rcases h : word? (sign * (10 * a : Nat)) with _ | t
  -- A product that is too big already gives a sum that is too big.
  · exact (word?_eq_none_of_le hsign (Nat.le_add_right _ _) h).symm
  · have hsum : t.toInt + sign * digit c = sign * (10 * a + digit c : Nat) := by
      rw [word?_eq_some_iff.1 h]
      push_cast
      ring
    rw [Option.bind_some, if_pos hc, hsum]

theorem le_ofDigitChars (s : Text) (a : Nat) : a ≤ Nat.ofDigitChars 10 s a := by
  rw [Nat.ofDigitChars_eq_ofDigitChars_zero]
  exact Nat.le_add_right_of_le (Nat.le_mul_of_pos_left a (Nat.pow_pos (by decide)))

theorem foldlM_push (hsign : sign = 1 ∨ sign = -1) (hk : k.toInt = sign * a) :
    s.foldlM (push sign) k =
      if s.all Char.isDigit then word? (sign * Nat.ofDigitChars 10 s a) else none := by
  induction s generalizing k a with
  | nil => exact (word?_eq_some_iff.2 hk).symm
  | cons c s ih =>
    rw [List.foldlM_cons, List.all_cons]
    by_cases hc : c.isDigit
    · have hdigits : Nat.ofDigitChars 10 (c :: s) a = Nat.ofDigitChars 10 s (10 * a + digit c) :=
        Nat.ofDigitChars_cons
      rw [push_of_isDigit hsign hk hc, hdigits, hc, Bool.true_and]
      rcases h : word? (sign * (10 * a + digit c : Nat)) with _ | next
      -- The digits behind are not looked at any more, and could only make the number bigger.
      · rw [word?_eq_none_of_le hsign (le_ofDigitChars s _) h, ite_self]
        rfl
      · exact ih (word?_eq_some_iff.1 h)
    · have hnone : push sign k c = none := by simp [push, hc]
      rw [hnone, Bool.eq_false_iff.2 hc]
      rfl

theorem accumulate_eq (hsign : sign = 1 ∨ sign = -1) (s : Text) :
    accumulate sign s = (natural? s).bind fun a ↦ word? (sign * a) := by
  have hfold := foldlM_push (s := s) (a := 0) hsign (k := 0) (by simp)
  by_cases hs : s = []
  · simp [accumulate, natural?, hs]
  · rw [accumulate, if_neg hs, hfold, natural?]
    by_cases hall : s.all Char.isDigit
    · rw [if_pos hall, if_pos ⟨hs, hall⟩, Option.bind_some]
    · rw [if_neg hall, if_neg (fun h ↦ hall h.2), Option.bind_none]

/-- Nothing is lost where a word of 64 bits is used for each digit instead of the whole number. -/
theorem int64?_eq_accumulated? (s : Text) : int64? s = accumulated? s := by
  rw [int64?_eq_bind]
  unfold accumulated?
  split
  · rename_i t
    rw [accumulate_eq (.inl rfl), integer?]
    rcases natural? t with _ | a <;> simp
  · rename_i t
    rw [accumulate_eq (.inr rfl), integer?]
    rcases natural? t with _ | a <;> simp
  · rename_i hplus hminus
    rw [accumulate_eq (.inl rfl), integer?]
    · rcases natural? s with _ | a <;> simp
    · exact hplus
    · exact hminus

end Number

open Number

/-- Exactly the numerals of the numbers of 64 bits are integers, and each is the number that it
denotes. -/
theorem Ty.coerce_integer_exact (s : Text) :
    ((∃ v, Ty.integer.coerce s = .ok v) ↔
      ∃ n, Numeral s n ∧ -9223372036854775808 ≤ n ∧ n ≤ 9223372036854775807) ∧
    (∀ v, Ty.integer.coerce s = .ok v ↔ ∃ k, v = .int k ∧ Numeral s k.toInt) ∧
    (∀ m, Ty.integer.coerce s = .error m → m = .coercion s .integer) ∧
    Ty.integer.read? s = (accumulated? s).map .int ∧
    ∀ k, Ty.integer.coerce (Value.int k).text = .ok (.int k) := by
  have hvalue (v : Value) :
      Ty.integer.coerce s = .ok v ↔ ∃ k, v = .int k ∧ Numeral s k.toInt := by
    rw [Ty.coerce_eq_ok_iff, Ty.read?, Option.map_eq_some_iff]
    constructor
    · rintro ⟨k, hk, rfl⟩
      exact ⟨k, rfl, int64?_eq_some_iff.1 hk⟩
    · rintro ⟨k, rfl, hk⟩
      exact ⟨k, int64?_eq_some_iff.2 hk, rfl⟩
  refine ⟨⟨?_, ?_⟩, hvalue, fun m hm ↦ (Ty.coerce_eq_error_iff.1 hm).2, ?_, fun k ↦ ?_⟩
  · rintro ⟨v, hv⟩
    obtain ⟨k, -, hk⟩ := (hvalue v).1 hv
    exact ⟨k.toInt, hk, exists_word?_iff.1 ⟨k, word?_eq_some_iff.2 rfl⟩⟩
  · rintro ⟨n, hn, hrange⟩
    obtain ⟨k, hk⟩ := exists_word?_iff.2 hrange
    obtain rfl := word?_eq_some_iff.1 hk
    exact ⟨.int k, (hvalue _).2 ⟨k, rfl, hn⟩⟩
  · rw [Ty.read?, int64?_eq_accumulated?]
  · rw [Ty.coerce_eq_ok_iff, Ty.read?, Value.text, int64?_int64Text, Option.map_some]

/-- The lowest number behind zeros is read, and its like without a sign is one too high. -/
theorem Ty.coerce_integer_exact_lowest :
    Ty.integer.coerce "-009223372036854775808".toList = .ok (.int Int64.minValue) ∧
      Numeral "-009223372036854775808".toList Int64.minValue.toInt ∧
      Ty.integer.coerce "9223372036854775808".toList =
        .error (.coercion "9223372036854775808".toList .integer) ∧
      (¬∃ n, Numeral "9223372036854775808".toList n ∧
        -9223372036854775808 ≤ n ∧ n ≤ 9223372036854775807) ∧
      Ty.integer.coerce (Value.int Int64.minValue).text = .ok (.int Int64.minValue) := by
  have hlow : Ty.integer.coerce "-009223372036854775808".toList = .ok (.int Int64.minValue) := by
    decide +kernel
  have hhigh : Ty.integer.coerce "9223372036854775808".toList =
      .error (.coercion "9223372036854775808".toList .integer) := by
    decide +kernel
  obtain ⟨k, hk, hnumeral⟩ := ((Ty.coerce_integer_exact _).2.1 _).1 hlow
  cases hk
  refine ⟨hlow, hnumeral, hhigh, fun hn ↦ ?_, (Ty.coerce_integer_exact []).2.2.2.2 _⟩
  obtain ⟨v, hv⟩ := (Ty.coerce_integer_exact _).1.2 hn
  cases hhigh.symm.trans hv

end ChatCommand
