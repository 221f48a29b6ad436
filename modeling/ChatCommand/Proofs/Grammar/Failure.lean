import ChatCommand.Proofs.Grammar.AnyOrder
import ChatCommand.Proofs.Grammar.Piece

namespace ChatCommand.Grammar

open Text

variable {line s a rest : Text} {n : Node} {e : LineError}

theorem literal_eq_error_iff : literal s = .error e ↔
    ∃ mark body, Token.isQuote mark ∧ mark ∉ body ∧ s = mark :: body ∧
      e = .unterminatedQuote mark s := by
  constructor
  · intro h
    simp only [literal] at h
    -- Only behind a mark can a literal fail; a bare word that is no symbol is just not found.
    split at h
    · rename_i hquote
      obtain ⟨mark, body, rfl⟩ : ∃ mark body, s = mark :: body := by
        cases s with
        | nil => cases hquote
        | cons mark body => exact ⟨mark, body, rfl⟩
      have hmark : Token.isQuote mark := hquote
      have hopen : (mark :: body).dropWhile (!Token.isQuote ·) = mark :: body := by simp [hmark]
      rw [Token.quoted, hopen] at h
      rcases hclose : body.dropWhile (· != mark) with _ | ⟨c, t⟩
      · have hfree : mark ∉ body := fun hmem ↦ by
          simpa using List.dropWhile_eq_nil_iff.1 hclose mark hmem
        simp only [hclose] at h
        cases h
        exact ⟨mark, body, hmark, hfree, rfl, rfl⟩
      · simp [hclose] at h
    · split at h <;> cases h
  · rintro ⟨mark, body, hmark, hfree, rfl, rfl⟩
    have hopen : (mark :: body).dropWhile (!Token.isQuote ·) = mark :: body := by simp [hmark]
    have hclose : body.dropWhile (· != mark) = [] :=
      List.dropWhile_eq_nil_iff.2 fun c hc ↦ by simpa using ne_of_mem_of_not_mem hc hfree
    have hquoted : Token.quoted (mark :: body) =
        .error (.unterminatedQuote mark (mark :: body)) := by
      rw [Token.quoted, hopen]
      simp [hclose]
    have hstart : Token.startsWithQuote (mark :: body) = true := hmark
    simp only [literal, hstart, if_true, hquoted]

theorem suffix_of_literal (h : literal s = .ok (some a, rest)) : rest <:+ s := by
  rcases literal_eq_some_iff.1 h with ⟨-, t, -, rfl, rfl⟩ | ⟨mark, -, -, rfl⟩
  · exact (List.tail_suffix t).trans (List.suffix_append a t)
  · exact (List.suffix_cons mark rest).trans (List.suffix_append (mark :: a) _)

theorem subset_of_literal (h : literal s = .ok (some a, rest)) : a ⊆ s := by
  rcases literal_eq_some_iff.1 h with ⟨-, t, -, rfl, -⟩ | ⟨mark, -, -, rfl⟩
  · exact List.subset_append_left a t
  · exact fun c hc ↦ List.mem_cons_of_mem mark (List.mem_append_left _ hc)

theorem piece_eq_error (h : piece s = .error e) :
    literal s = .error e ∨
      ∃ k t, s = '-' :: '-' :: k ++ t ∧ literal (trim t.tail) = .error e := by
  cases hk : Kind.ofText s with
  | flag =>
    rw [piece_eq_rule, hk] at h
    change flag s = _ at h
    rcases flag_cases s with hs | ⟨c, left, hs⟩ <;> cases hs.symm.trans h
  | value =>
    rw [piece_eq_rule, hk] at h
    change value s = _ at h
    rcases hs : literal s with e' | ⟨found, left⟩
    · rw [value, hs] at h
      cases h
      exact .inl rfl
    · rw [value, hs] at h
      cases h
  | kwarg =>
    rw [piece_eq_rule, hk] at h
    change kwarg s = _ at h
    simp only [kwarg] at h
    split at h
    · cases h
    · rename_i hkey
      obtain ⟨-, t, -, hs, rfl⟩ := Token.key_eq_some_iff.1 hkey
      split at h
      · rename_i hvalue
        cases h
        exact .inr ⟨_, t, hs, trimmed_eq_error hvalue⟩
      · cases h
      · cases h

/-- What is still to be read of a line: what it ends in, inside of a cluster of flags behind a dash
that the line does not have there. -/
inductive Remains (line : Text) : Text → Prop
  | ending {s : Text} : s <:+ trim line → Remains line s
  | cluster {s : Text} : s <:+ trim line → Remains line ('-' :: s)

namespace Remains

theorem of_dash (h : Remains line ('-' :: s)) : s <:+ trim line := by
  cases h with
  | ending h => exact (List.suffix_cons '-' s).trans h
  | cluster h => exact h

theorem of_cons {c : Char} (h : Remains line (c :: s)) (hc : c ≠ '-') : c :: s <:+ trim line := by
  cases h with
  | ending h => exact h
  | cluster => exact absurd rfl hc

theorem trim (h : Remains line s) : Remains line (trim s) := by
  cases h with
  | ending h =>
    rw [trim_of_suffix h]
    exact .ending ((List.dropWhile_suffix isBlank).trans h)
  | @cluster s h =>
    have htrim : Text.trim ('-' :: s) = '-' :: trimEnd s :=
      solid_dash.trim_append (List.forall_mem_nil _)
    rw [htrim, trimEnd_of_suffix h]
    exact .cluster h

theorem clusterRest (h : s <:+ Text.trim line) : Remains line (Token.clusterRest s) := by
  cases s with
  | nil => exact .ending h
  | cons c s =>
    rw [Token.clusterRest]
    split
    · exact .ending ((List.dropWhile_suffix isBlank).trans h)
    · exact .cluster h

theorem behind_key {k t : Text} (h : Remains line ('-' :: '-' :: k ++ t)) :
    t.tail <:+ Text.trim line :=
  ((List.tail_suffix t).trans (List.suffix_append ('-' :: k) t)).trans h.of_dash

theorem piece (h : Remains line s) (hs : Piece s n rest) : Remains line rest := by
  cases hs with
  | value ha =>
    cases h with
    | ending h => exact .ending ((suffix_of_literal ha).trans h)
    | cluster => cases (literal_dash _).symm.trans ha
  | @flag c t hc => exact clusterRest ((List.suffix_cons c t).trans h.of_dash)
  | key => exact .ending h.behind_key
  | keyed _ _ ha =>
    have hvalue := suffix_of_literal (trimmed_eq_some ha)
    rw [trim_of_suffix h.behind_key] at hvalue
    exact .ending ((hvalue.trans (List.dropWhile_suffix isBlank)).trans h.behind_key)

theorem found (h : Remains line s) (hs : trimmed Grammar.piece s = .ok (some n, rest)) :
    Remains line rest :=
  h.trim.piece (piece_eq_some_iff.1 (trimmed_eq_some hs))

theorem unclosed (h : Remains line s) (he : literal s = .error e) :
    ∃ mark body, Token.isQuote mark ∧ mark ∉ body ∧ mark :: body <:+ Text.trim line ∧
      e = .unterminatedQuote mark (mark :: body) := by
  obtain ⟨mark, body, hmark, hfree, rfl, rfl⟩ := literal_eq_error_iff.1 he
  have hdash : mark ≠ '-' := by
    rintro rfl
    cases hmark
  exact ⟨mark, body, hmark, hfree, h.of_cons hdash, rfl⟩

theorem fault (h : Remains line s) (hs : trimmed Grammar.piece s = .error e) :
    ∃ mark body, Token.isQuote mark ∧ mark ∉ body ∧ mark :: body <:+ Text.trim line ∧
      e = .unterminatedQuote mark (mark :: body) := by
  rcases piece_eq_error (trimmed_eq_error hs) with he | ⟨k, t, hk, he⟩
  · exact h.trim.unclosed he
  · have hkey := h.trim
    rw [hk] at hkey
    exact (ending hkey.behind_key).trim.unclosed he

end Remains

/-- Why a line is not a command, with what is at hand where the reading stops. -/
inductive Fails (line : Text) : LineError → Prop
  | emptyInput : trim line = [] → Fails line .emptyInput
  | missingName : (Token.word (trim line)).1 ≠ [] →
      Token.isName (Token.word (trim line)).1 = false →
      Fails line (.missingName (Token.word (trim line)).1)
  | unterminatedQuote {mark : Char} {body : Text} : Token.isQuote mark → mark ∉ body →
      mark :: body <:+ trim line → Fails line (.unterminatedQuote mark (mark :: body))
  | unexpectedInput {rest : Text} : rest ≠ [] → trim rest = rest → Remains line rest →
      (∀ k : Kind, k.rule rest = .ok (none, rest)) → Fails line (.unexpectedInput rest)

theorem fails_of_parseLine (h : parseLine line = .error e) : Fails line e := by
  by_cases hname : Token.isName (Token.word (trim line)).1
  · obtain ⟨hfault, hread⟩ := parseLine_of_name hname
    have hremains : Remains line (Token.word (trim line)).2 :=
      .ending ((List.tail_suffix _).trans (List.dropWhile_suffix _))
    -- What the line leaves is traced back to the line through every match of the one pass.
    rcases honce : onePass (Token.word (trim line)).2 with e' | ⟨ns, left⟩
    · cases (hfault e' honce).symm.trans h
      obtain ⟨t, ht, he⟩ := exhaust_error (fun _ _ _ ↦ Remains.found) hremains honce
      obtain ⟨mark, body, hmark, hfree, hline, rfl⟩ := ht.fault he
      exact .unterminatedQuote hmark hfree hline
    · rw [hread ns left honce] at h
      split at h
      · cases h
      · rename_i hleft
        cases h
        have hrest : Remains line left :=
          (exhaust_invariant (P := fun _ ↦ True)
            (fun _ _ _ hi hs ↦ ⟨trivial, Remains.found hi hs⟩) hremains honce).2
        obtain ⟨t, ht⟩ := exhaust_left honce
        rw [trimmed_of_trim_ne_nil hleft] at ht
        exact .unexpectedInput hleft (trim_trim left) hrest.trim (Kind.rule_eq_none ht)
  · rw [parseLine_of_no_name (by simpa using hname)] at h
    cases h
    split
    · rename_i hline
      exact .emptyInput hline
    · rename_i hline
      exact .missingName (fun hw ↦ hline (word_trim_eq_nil_iff.1 hw)) (by simpa using hname)

/-- A line fails for want of words, for its first word, for a mark that is not closed, or for what
no rule can read. -/
theorem parseLine_failures (line : Text) :
    (parseLine line = .error .emptyInput ↔ ∀ c ∈ line, isBlank c) ∧
      (∀ found, parseLine line = .error (.missingName found) ↔
        found = (Token.word (trim line)).1 ∧ found ≠ [] ∧ Token.isName found = false) ∧
      (∀ mark text, parseLine line = .error (.unterminatedQuote mark text) →
        text <:+ trim line ∧ Token.isQuote mark ∧ ∃ body, text = mark :: body ∧ mark ∉ body) ∧
      ∀ rest, parseLine line = .error (.unexpectedInput rest) →
        rest ≠ [] ∧ trim rest = rest ∧
          (rest <:+ trim line ∨ ∃ t, t <:+ trim line ∧ rest = '-' :: t) ∧
          ∀ k : Kind, k.rule rest = .ok (none, rest) := by
  refine ⟨⟨fun h ↦ ?_, fun h ↦ ?_⟩, fun found ↦ ⟨fun h ↦ ?_, fun h ↦ ?_⟩, fun mark text h ↦ ?_,
    fun rest h ↦ ?_⟩
  · cases fails_of_parseLine h with
    | emptyInput hline => exact trim_eq_nil_iff.1 hline
  · have hline := trim_eq_nil_iff.2 h
    have hname : Token.isName (Token.word (trim line)).1 = false := by
      rw [hline]
      rfl
    rw [parseLine_of_no_name hname, if_pos hline]
  · cases fails_of_parseLine h with
    | missingName hne hname => exact ⟨rfl, hne, hname⟩
  · obtain ⟨rfl, hne, hname⟩ := h
    have hline : trim line ≠ [] := fun hline ↦ hne (word_trim_eq_nil_iff.2 hline)
    rw [parseLine_of_no_name hname, if_neg hline]
  · cases fails_of_parseLine h with
    | unterminatedQuote hmark hfree hline => exact ⟨hline, hmark, _, rfl, hfree⟩
  · cases fails_of_parseLine h with
    | unexpectedInput hne htrim hremains hno =>
      refine ⟨hne, htrim, ?_, hno⟩
      cases hremains with
      | ending hrest => exact .inl hrest
      | cluster hrest => exact .inr ⟨_, hrest, rfl⟩

theorem parseLine_failures_halted :
    parseLine " q --to 'a\" ".toList = .error (.unterminatedQuote '\'' "'a\"".toList) ∧
      "'a\"".toList <:+ trim " q --to 'a\" ".toList ∧
      parseLine "q -a.b".toList = .error (.unexpectedInput "-.b".toList) ∧
      (∃ t, t <:+ trim "q -a.b".toList ∧ "-.b".toList = '-' :: t) ∧
      ∀ k : Kind, k.rule "-.b".toList = .ok (none, "-.b".toList) := by
  have hopen : parseLine " q --to 'a\" ".toList =
      .error (.unterminatedQuote '\'' "'a\"".toList) := by decide +kernel
  have hrest : parseLine "q -a.b".toList = .error (.unexpectedInput "-.b".toList) := by
    decide +kernel
  obtain ⟨hmark, -⟩ := (parseLine_failures _).2.2.1 _ _ hopen
  obtain ⟨-, -, hplace, hno⟩ := (parseLine_failures _).2.2.2 _ hrest
  have hdash : ¬"-.b".toList <:+ trim "q -a.b".toList := by decide +kernel
  exact ⟨hopen, hmark, hrest, hplace.resolve_left hdash, hno⟩

end ChatCommand.Grammar
