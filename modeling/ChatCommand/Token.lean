import ChatCommand.LineError

namespace ChatCommand

open Text

namespace Token

def isQuote (c : Char) : Bool :=
  c = '\'' || c = '"'

def startsWithFlag (s : Text) : Bool :=
  s.head? = some '-'

def startsWithKey (s : Text) : Bool :=
  s.take 2 = ['-', '-']

def startsWithQuote (s : Text) : Bool :=
  s.head?.any isQuote

def isSymbolChar (c : Char) : Bool :=
  isAlphanumeric c || c = '_'

def isSymbol (s : Text) : Bool :=
  !s.isEmpty && s.all isSymbolChar

def isName (s : Text) : Bool :=
  isSymbol s && s.head?.any isAlphabetic

/-- The text up to the first blank, and what follows that one blank. -/
def word (s : Text) : Text × Text :=
  (s.takeWhile (!isBlank ·), (s.dropWhile (!isBlank ·)).tail)

/-- The text between the first quotation mark and the next one like it, and what follows. Anything
in front of the first mark is lost, so the full effect is had only at a mark. -/
def quoted (s : Text) : Except LineError (Option (Text × Text)) :=
  match s.dropWhile (!isQuote ·) with
  | [] => .ok none
  | quote :: body =>
    match body.dropWhile (· != quote) with
    | [] => .error (.unterminatedQuote quote s)
    | _ :: rest => .ok (some (body.takeWhile (· != quote), rest))

def bare (s : Text) : Option (Text × Text) :=
  if startsWithQuote s || startsWithFlag s then none
  else if isSymbol (word s).1 then some (word s) else none

def clusterRest : Text → Text
  | [] => []
  | c :: s => if isBlank c then trimStart (c :: s) else '-' :: c :: s

/-- The first letter of a cluster of flags: `-rf x` gives `r` and leaves `-f x`. -/
def letter : Text → Option (Char × Text)
  | '-' :: c :: s => if isAlphanumeric c then some (c, clusterRest s) else none
  | _ => none

def key : Text → Option (Text × Text)
  | '-' :: '-' :: s => if isSymbol (word s).1 then some (word s) else none
  | _ => none

theorem length_word_le (s : Text) : (word s).1.length + (word s).2.length ≤ s.length := by
  have h := congrArg List.length (List.takeWhile_append_dropWhile (p := (!isBlank ·)) (l := s))
  simp only [List.length_append] at h
  simp only [word, List.length_tail]
  omega

theorem length_pos_of_isSymbol {s : Text} (h : isSymbol s) : 0 < s.length := by
  cases s <;> simp_all [isSymbol]

theorem length_word_lt {s : Text} (h : isSymbol (word s).1) : (word s).2.length < s.length := by
  have := length_word_le s
  have := length_pos_of_isSymbol h
  omega

theorem length_quoted {s content rest : Text} (h : quoted s = .ok (some (content, rest))) :
    content.length + rest.length + 2 ≤ s.length := by
  simp only [quoted] at h
  split at h
  · cases h
  rename_i quote body hs
  split at h
  · cases h
  rename_i mark tail hb
  cases h
  have outer := (List.dropWhile_sublist (l := s) (!isQuote ·)).length_le
  have inner := congrArg List.length
    (List.takeWhile_append_dropWhile (p := (· != quote)) (l := body))
  simp only [hs, List.length_cons] at outer
  simp only [hb, List.length_append, List.length_cons] at inner
  omega

theorem length_bare {s t rest : Text} (h : bare s = some (t, rest)) :
    t.length + rest.length ≤ s.length ∧ 0 < t.length := by
  simp only [bare] at h
  split at h
  · cases h
  split at h
  · rename_i ht
    have hw := length_word_le s
    simp only [Option.some.injEq] at h
    rw [h] at ht hw
    exact ⟨hw, length_pos_of_isSymbol ht⟩
  · cases h

theorem length_clusterRest_le (s : Text) : (clusterRest s).length ≤ s.length + 1 := by
  cases s with
  | nil => simp [clusterRest]
  | cons c s =>
    simp only [clusterRest]
    split
    · exact Nat.le_succ_of_le (length_trimStart_le _)
    · simp

theorem length_letter {s rest : Text} {c : Char} (h : letter s = some (c, rest)) :
    rest.length < s.length := by
  unfold letter at h
  split at h
  · rename_i d s
    split at h
    · cases h
      have := length_clusterRest_le s
      simp only [List.length_cons]
      omega
    · cases h
  · cases h

theorem length_key {s t rest : Text} (h : key s = some (t, rest)) :
    t.length + rest.length + 2 ≤ s.length := by
  unfold key at h
  split at h
  · rename_i s
    split at h
    · simp only [Option.some.injEq] at h
      have := length_word_le s
      simp only [h, List.length_cons] at this ⊢
      omega
    · cases h
  · cases h

end Token

end ChatCommand
