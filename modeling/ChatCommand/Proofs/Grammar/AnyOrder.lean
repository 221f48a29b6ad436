import ChatCommand.Proofs.Grammar.OnePass

namespace ChatCommand.Grammar

open Text

inductive Kind where
  | flag
  | value
  | kwarg

namespace Kind

def rule : Kind → Text → Step Node
  | flag => Grammar.flag
  | value => Grammar.value
  | kwarg => Grammar.kwarg

/-- The rule finds a piece at the front of the text, or fails on it. -/
def Applies (k : Kind) (s : Text) : Prop :=
  ∀ t, k.rule s ≠ .ok (none, t)

def ofText : Text → Kind
  | '-' :: '-' :: _ => kwarg
  | '-' :: _ => flag
  | _ => value

end Kind

/-- What is read off a text when any rule that applies may be used at its front, again and again,
until none does. -/
inductive Reading : Text → Except LineError (List Node × Text) → Prop
  | done {s : Text} : (∀ k : Kind, ¬k.Applies (trim s)) → Reading s (.ok ([], s))
  | fault {s : Text} {k : Kind} {e : LineError} :
      k.rule (trim s) = .error e → Reading s (.error e)
  | found {s rest : Text} {k : Kind} {n : Node} {r : Except LineError (List Node × Text)} :
      k.rule (trim s) = .ok (some n, rest) → Reading rest r →
      Reading s (r.map fun p ↦ (n :: p.1, p.2))

variable {s rest : Text} {k : Kind} {n : Node} {e : LineError}
  {r : Except LineError (List Node × Text)}

theorem flag_undashed (h : ∀ t, s ≠ '-' :: t) : flag s = .ok (none, s) := by
  have : Token.letter s = none := by
    unfold Token.letter
    split
    · rename_i c t
      exact absurd rfl (h (c :: t))
    · rfl
  simp [flag, this]

namespace Kind

theorem applies_of_error (h : k.rule s = .error e) : k.Applies s := by
  intro t hnone
  cases h.symm.trans hnone

theorem applies_of_some (h : k.rule s = .ok (some n, rest)) : k.Applies s := by
  intro t hnone
  cases h.symm.trans hnone

theorem Applies.eq_ofText (h : k.Applies s) : k = ofText s := by
  cases k with
  | flag =>
    unfold ofText
    split
    · exact absurd (flag_dash_dash _) (h _)
    · rfl
    · rename_i hundashed
      exact absurd (flag_undashed hundashed) (h s)
  | value =>
    unfold ofText
    split
    · exact absurd (value_dash _) (h _)
    · exact absurd (value_dash _) (h _)
    · rfl
  | kwarg =>
    obtain ⟨t, rfl⟩ := (kwarg_cases s).resolve_left (h s)
    rfl

end Kind

theorem value_of_none {t : Text} (h : value s = .ok (none, t)) : t = s := by
  unfold value literal at h
  split at h
  · split at h <;> cases h
    rfl
  · split at h <;> cases h
    rfl

theorem piece_eq_rule (s : Text) : piece s = (Kind.ofText s).rule s := by
  unfold Kind.ofText
  split
  · rename_i t
    rw [piece, flag_dash_dash]
    simp only [value_dash]
    rfl
  · rename_i t hone
    change piece ('-' :: t) = flag ('-' :: t)
    have hkwarg : kwarg ('-' :: t) = .ok (none, '-' :: t) := by
      refine (kwarg_cases _).resolve_right ?_
      rintro ⟨u, hu⟩
      exact hone u (List.cons.inj hu).2
    rcases flag_cases ('-' :: t) with hflag | ⟨c, rest, hflag⟩
    · simp only [piece, hflag, value_dash, hkwarg]
    · simp only [piece, hflag]
  · rename_i hundashed
    change piece s = value s
    have hflag := flag_undashed hundashed
    have hkwarg : kwarg s = .ok (none, s) := by
      refine (kwarg_cases s).resolve_right ?_
      rintro ⟨u, hu⟩
      exact hundashed _ hu
    rcases hvalue : value s with e | ⟨_ | n, t⟩
    · simp only [piece, hflag, hvalue]
    · obtain rfl := value_of_none hvalue
      simp only [piece, hflag, hvalue, hkwarg]
    · simp only [piece, hflag, hvalue]

namespace Kind

theorem rule_none {t : Text} (h : k.rule s = .ok (none, t)) : t = s := by
  cases k with
  | flag =>
    change Grammar.flag s = _ at h
    rcases flag_cases s with hs | ⟨c, rest, hs⟩
    · cases hs.symm.trans h
      rfl
    · cases hs.symm.trans h
  | value => exact value_of_none h
  | kwarg =>
    change Grammar.kwarg s = _ at h
    unfold Grammar.kwarg at h
    split at h
    · cases h
      rfl
    · split at h <;> cases h

theorem rule_eq_none {t : Text} (h : piece s = .ok (none, t)) (k : Kind) :
    k.rule s = .ok (none, s) := by
  obtain ⟨u, hu⟩ : ∃ u, k.rule s = .ok (none, u) := by
    by_contra hno
    have hk : k.Applies s := fun u hu ↦ hno ⟨u, hu⟩
    rw [piece_eq_rule, ← hk.eq_ofText] at h
    exact hk t h
  rw [hu, rule_none hu]

end Kind

theorem trimmed_piece_eq (s : Text) : trimmed piece s = piece (trim s) := by
  by_cases h : trim s = []
  · rw [trimmed_of_trim_eq_nil h, h]
    rfl
  · exact trimmed_of_trim_ne_nil h

theorem trimmed_piece_eq_rule (s : Text) :
    trimmed piece s = (Kind.ofText (trim s)).rule (trim s) :=
  (trimmed_piece_eq s).trans (piece_eq_rule _)

theorem reading_onePass (s : Text) : Reading s (onePass s) := by
  refine exhaust_induction (P := Reading) ?fault ?done ?more s
  case fault =>
    intro s e he
    exact .fault ((trimmed_piece_eq_rule s).symm.trans he)
  case done =>
    intro s t ht
    refine .done fun k hk ↦ ?_
    have hnone := (trimmed_piece_eq_rule s).symm.trans ht
    rw [← hk.eq_ofText] at hnone
    exact hk t hnone
  case more =>
    intro s a rest r ha ih
    exact .found ((trimmed_piece_eq_rule s).symm.trans ha) ih

theorem Reading.eq_onePass (h : Reading s r) : r = onePass s := by
  induction h with
  | @done s hnone =>
    obtain ⟨t, ht⟩ : ∃ t, trimmed piece s = .ok (none, t) := by
      by_contra hsome
      refine hnone (Kind.ofText (trim s)) fun t ht ↦ hsome ⟨t, ?_⟩
      exact (trimmed_piece_eq_rule s).trans ht
    rw [onePass, exhaust_of_none ht]
  | fault he =>
    have hk := (Kind.applies_of_error he).eq_ofText
    rw [hk] at he
    rw [onePass, exhaust_of_error ((trimmed_piece_eq_rule _).trans he)]
  | found ha _ ih =>
    have hk := (Kind.applies_of_some ha).eq_ofText
    rw [hk] at ha
    rw [onePass, exhaust_of_some ((trimmed_piece_eq_rule _).trans ha), ih]
    rfl

/-- The two phases read a text as it is read piece by piece, and then put the kwargs at the end. At
most one rule applies anywhere, so that there is one reading, whatever is tried first. -/
theorem args_reading (s : Text) :
    (∀ j k : Kind, j.Applies s → k.Applies s → j = k) ∧
      ∃ r, (∀ r', Reading s r' ↔ r' = r) ∧
        args s = r.map fun p ↦ (p.1.filter (!isKwarg ·) ++ p.1.filter isKwarg, p.2) := by
  refine ⟨fun j k hj hk ↦ hj.eq_ofText.trans hk.eq_ofText.symm, onePass s, fun r' ↦ ?_, ?_⟩
  · constructor
    · exact Reading.eq_onePass
    · rintro rfl
      exact reading_onePass s
  · rw [args, gather_eq_onePass]
    rcases onePass s with e | ⟨found, left⟩ <;> rfl

/-- What no rule applies to is left, and all that is behind it. -/
example : args "-v 'x' --to me  y -! z".toList =
    .ok ([.flag 'v', .value ['x'], .value ['y'], .kwarg ['t', 'o'] (some ['m', 'e'])],
      "-! z".toList) := by
  decide +kernel

end ChatCommand.Grammar
