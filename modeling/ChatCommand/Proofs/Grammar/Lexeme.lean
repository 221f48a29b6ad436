import ChatCommand.Proofs.Grammar.OnePass

namespace ChatCommand

open Text

namespace Token

variable {s : Text} {c : Char}

theorem forall_of_isSymbol (h : isSymbol s) : s ≠ [] ∧ ∀ c ∈ s, isSymbolChar c := by
  simpa [isSymbol] using h

theorem not_isBlank_of_isSymbolChar (h : isSymbolChar c) : isBlank c = false := by
  cases hb : isBlank c with
  | false => rfl
  | true =>
    simp only [isSymbolChar, not_isAlphanumeric_of_isBlank hb, Bool.false_or,
      decide_eq_true_eq] at h
    subst h
    exact absurd hb (by decide)

theorem isSymbolChar_of_isAlphanumeric (h : isAlphanumeric c) : isSymbolChar c := by
  simp [isSymbolChar, h]

theorem not_isQuote_of_isSymbolChar (h : isSymbolChar c) : isQuote c = false := by
  have marks : isSymbolChar '\'' = false ∧ isSymbolChar '"' = false := by decide +kernel
  cases hq : isQuote c with
  | false => rfl
  | true =>
    simp only [isQuote, Bool.or_eq_true, decide_eq_true_eq] at hq
    rcases hq with rfl | rfl
    · exact absurd h (by simp [marks.1])
    · exact absurd h (by simp [marks.2])

theorem ne_dash_of_isSymbolChar (h : isSymbolChar c) : c ≠ '-' := by
  intro heq
  subst heq
  exact absurd h (by decide +kernel)

theorem feed_notMem_of_isSymbol (h : isSymbol s) : '\n' ∉ s := by
  intro hfeed
  have hblank := not_isBlank_of_isSymbolChar ((forall_of_isSymbol h).2 _ hfeed)
  contradiction

theorem feed_notMem_of_isName (h : isName s) : '\n' ∉ s :=
  feed_notMem_of_isSymbol (Bool.and_eq_true_iff.1 h).1

theorem solid_of_isSymbol (h : isSymbol s) : Solid s := by
  obtain ⟨hne, hs⟩ := forall_of_isSymbol h
  exact .of_forall hne fun c hc ↦ not_isBlank_of_isSymbolChar (hs c hc)

theorem word_of_isSymbol {rest : Text} (hs : isSymbol s) (hrest : Parted rest) :
    word (s ++ rest) = (s, rest.tail) :=
  hrest.word_append fun c hc ↦ not_isBlank_of_isSymbolChar ((forall_of_isSymbol hs).2 c hc)

theorem not_isBlank_of_isQuote (h : isQuote c) : isBlank c = false := by
  simp only [isQuote, Bool.or_eq_true, decide_eq_true_eq] at h
  rcases h with rfl | rfl <;> decide

end Token

namespace Grammar

abbrev Gap := {s : Text // s ≠ [] ∧ ∀ c ∈ s, isBlank c}

/-- A text as it can stand in a line: bare, or between two marks that it does not contain. -/
inductive Literal where
  | bare (s : Text) (symbol : Token.isSymbol s)
  | quoted (mark : Char) (s : Text) (isMark : Token.isQuote mark) (free : mark ∉ s)

namespace Literal

def content : Literal → Text
  | bare s _ => s
  | quoted _ s _ _ => s

def text : Literal → Text
  | bare s _ => s
  | quoted mark s _ _ => mark :: s ++ [mark]

theorem solid (l : Literal) : Solid l.text := by
  cases l with
  | bare s h => exact Token.solid_of_isSymbol h
  | quoted mark s h _ =>
    have := Token.not_isBlank_of_isQuote h
    exact ⟨⟨mark, s ++ [mark], rfl, this⟩, ⟨mark :: s, mark, rfl, this⟩⟩

end Literal

theorem literal_bare {s rest : Text} (hs : Token.isSymbol s) (hrest : Parted rest) :
    literal (s ++ rest) = .ok (some s, rest.tail) := by
  obtain ⟨hne, hall⟩ := Token.forall_of_isSymbol hs
  have hword := Token.word_of_isSymbol hs hrest
  obtain ⟨c, t, rfl⟩ := List.exists_cons_of_ne_nil hne
  have hc : Token.isSymbolChar c := hall c (by simp)
  have hquote : Token.startsWithQuote (c :: t ++ rest) = false :=
    Token.not_isQuote_of_isSymbolChar hc
  have hflag : Token.startsWithFlag (c :: t ++ rest) = false := by
    simp [Token.startsWithFlag, Token.ne_dash_of_isSymbolChar hc]
  have hbare : Token.bare (c :: t ++ rest) = some (c :: t, rest.tail) := by
    rw [Token.bare, hquote, hflag, hword]
    simp [hs]
  rw [literal, hquote, hbare]
  rfl

theorem literal_quoted {mark : Char} {s : Text} (hmark : Token.isQuote mark) (hs : mark ∉ s)
    (rest : Text) : literal (mark :: s ++ mark :: rest) = .ok (some s, rest) := by
  have inside : ∀ c ∈ s, (c != mark) = true := by
    intro c hc
    simpa using ne_of_mem_of_not_mem hc hs
  have hquoted : Token.quoted (mark :: s ++ mark :: rest) = .ok (some (s, rest)) := by
    simp [Token.quoted, hmark, List.takeWhile_append_of_pos inside,
      List.dropWhile_append_of_pos inside]
  have hquote : Token.startsWithQuote (mark :: s ++ mark :: rest) = true := hmark
  simp only [literal, hquote, if_true, hquoted]

theorem literal_text (l : Literal) {rest : Text} (hrest : Parted rest) :
    ∃ left, literal (l.text ++ rest) = .ok (some l.content, left) ∧ trim left = trim rest := by
  cases l with
  | bare s h => exact ⟨rest.tail, literal_bare h hrest, hrest.trim_tail⟩
  | quoted mark s h free =>
    refine ⟨rest, ?_, rfl⟩
    rw [Literal.text, List.append_assoc]
    exact literal_quoted h free rest

/-- What a line is made of behind its first word. A kwarg and its value are one piece. -/
inductive Lexeme where
  | literal (l : Literal)
  | cluster (first : Char) (more : List Char) (alphanumeric : ∀ c ∈ first :: more, isAlphanumeric c)
  | key (key : Text) (symbol : Token.isSymbol key)
  | keyed (key : Text) (symbol : Token.isSymbol key) (gap : Gap) (l : Literal)

namespace Lexeme

def text : Lexeme → Text
  | literal l => l.text
  | cluster first more _ => '-' :: first :: more
  | key k _ => '-' :: '-' :: k
  | keyed k _ gap l => '-' :: '-' :: k ++ (gap.1 ++ l.text)

def positionals : Lexeme → List Node
  | literal l => [.value l.content]
  | cluster first more _ => (first :: more).map .flag
  | key _ _ | keyed _ _ _ _ => []

def kwargs : Lexeme → List Node
  | literal _ | cluster _ _ _ => []
  | key k _ => [.kwarg k none]
  | keyed k _ _ l => [.kwarg k (some l.content)]

def isLiteral : Lexeme → Bool
  | literal _ => true
  | _ => false

def isOpenKey : Lexeme → Bool
  | key _ _ => true
  | _ => false

/-- A literal behind a key without a value would be taken for its value. -/
def Separate (t u : Lexeme) : Prop :=
  t.isOpenKey → u.isLiteral = false

theorem solid (t : Lexeme) : Solid t.text := by
  have dashed {s : Text} (h : ∀ c ∈ s, isBlank c = false) : Solid ('-' :: s) :=
    .of_forall (by simp) fun c hc ↦ by
      rcases List.mem_cons.1 hc with rfl | hc
      · rfl
      · exact h c hc
  have keySolid {k : Text} (h : Token.isSymbol k) : Solid ('-' :: '-' :: k) :=
    dashed fun c hc ↦ by
      rcases List.mem_cons.1 hc with rfl | hc
      · rfl
      · exact Token.not_isBlank_of_isSymbolChar ((Token.forall_of_isSymbol h).2 c hc)
  cases t with
  | literal l => exact l.solid
  | cluster first more h =>
    exact dashed fun c hc ↦
      Token.not_isBlank_of_isSymbolChar (Token.isSymbolChar_of_isAlphanumeric (h c hc))
  | key k h => exact keySolid h
  | keyed k h gap l =>
    have := (keySolid h).append l.solid gap.1
    rwa [List.append_assoc] at this

theorem exists_dash (t : Lexeme) (h : t.isLiteral = false) : ∃ s, t.text = '-' :: s := by
  cases t with
  | literal l => cases h
  | cluster | key | keyed => exact ⟨_, rfl⟩

end Lexeme

end Grammar

end ChatCommand
