import ChatCommand.Text.Alphabetic
import ChatCommand.Text.Numeric
import ChatCommand.Text.Ranges

namespace ChatCommand

/-- The code points with the Unicode property White_Space. -/
def blankRanges : List (Nat × Nat) :=
  [(0x09, 0x0D), (0x20, 0x20), (0x85, 0x85), (0xA0, 0xA0), (0x1680, 0x1680), (0x2000, 0x200A),
    (0x2028, 0x2029), (0x202F, 0x202F), (0x205F, 0x205F), (0x3000, 0x3000)]

def isBlank (c : Char) : Bool :=
  inRanges blankRanges c.toNat

def isAlphabetic (c : Char) : Bool :=
  inRanges alphabeticRanges c.toNat

def isAlphanumeric (c : Char) : Bool :=
  isAlphabetic c || inRanges numericRanges c.toNat

theorem isAlphanumeric_of_isAlphanum {c : Char} (h : c.isAlphanum) : isAlphanumeric c := by
  have ascii : ∀ n < 128, (Char.ofNat n).isAlphanum → isAlphanumeric (Char.ofNat n) := by
    decide +kernel
  have low : c.toNat < 128 := by
    have bound (d : Char) (hd : d.toNat < 128) (hc : c ≤ d) : c.toNat < 128 :=
      Nat.lt_of_le_of_lt (UInt32.le_iff_toNat_le.1 hc) hd
    rcases Bool.or_eq_true_iff.1 h with h | h
    · rcases Bool.or_eq_true_iff.1 h with h | h
      · exact bound 'Z' (by decide) (of_decide_eq_true h).2
      · exact bound 'z' (by decide) (of_decide_eq_true (Bool.and_eq_true_iff.1 h).2)
    · exact bound '9' (by decide) (of_decide_eq_true (Bool.and_eq_true_iff.1 h).2)
  have := ascii c.toNat low
  rw [Char.ofNat_toNat] at this
  exact this h

theorem toNat_mem_of_isBlank {c : Char} (h : isBlank c) :
    c.toNat ∈ [0x09, 0x0A, 0x0B, 0x0C, 0x0D, 0x20, 0x85, 0xA0, 0x1680, 0x2000, 0x2001, 0x2002,
      0x2003, 0x2004, 0x2005, 0x2006, 0x2007, 0x2008, 0x2009, 0x200A, 0x2028, 0x2029, 0x202F,
      0x205F, 0x3000] := by
  simp only [isBlank, blankRanges, inRanges, Bool.and_eq_true, Bool.or_eq_true, decide_eq_true_eq,
    Bool.or_false] at h
  simp only [List.mem_cons, List.not_mem_nil, or_false]
  omega

theorem not_isAlphanumeric_of_isBlank {c : Char} (h : isBlank c) : isAlphanumeric c = false := by
  have blank : ∀ n ∈ [0x09, 0x0A, 0x0B, 0x0C, 0x0D, 0x20, 0x85, 0xA0, 0x1680, 0x2000, 0x2001,
      0x2002, 0x2003, 0x2004, 0x2005, 0x2006, 0x2007, 0x2008, 0x2009, 0x200A, 0x2028, 0x2029,
      0x202F, 0x205F, 0x3000],
      (inRanges alphabeticRanges n || inRanges numericRanges n) = false := by
    decide +kernel
  exact blank _ (toNat_mem_of_isBlank h)

end ChatCommand
