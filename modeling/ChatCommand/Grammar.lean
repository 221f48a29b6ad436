import ChatCommand.Grammar.Rule
import ChatCommand.Token
import ChatCommand.Tree

namespace ChatCommand

open Text

namespace Grammar

def literal (s : Text) : Step Text :=
  if Token.startsWithQuote s then
    match Token.quoted s with
    | .error e => .error e
    | .ok none => .ok (none, s)
    | .ok (some (content, rest)) => .ok (some content, rest)
  else
    match Token.bare s with
    | none => .ok (none, s)
    | some (content, rest) => .ok (some content, rest)

def value (s : Text) : Step Node :=
  (literal s).map .value

def flag (s : Text) : Step Node :=
  match Token.letter s with
  | none => .ok (none, s)
  | some (c, rest) => .ok (some (.flag c), rest)

def kwarg (s : Text) : Step Node :=
  match Token.key s with
  | none => .ok (none, s)
  | some (key, rest) =>
    match trimmed literal rest with
    | .error e => .error e
    | .ok (none, _) => .ok (some (.kwarg key none), rest)
    | .ok (some content, left) => .ok (some (.kwarg key (some content)), left)

def name (s : Text) : Step Text :=
  if Token.isName (Token.word s).1 then .ok (some (Token.word s).1, (Token.word s).2)
  else .ok (none, s)

def arg (s : Text) : Step Node :=
  match trimmed flag s with
  | .error e => .error e
  | .ok (some n, rest) => .ok (some n, rest)
  | .ok (none, _) => trimmed value s

theorem literal_shortens : Shortens literal := by
  intro s a rest h
  simp only [literal] at h
  split at h
  · split at h
    · cases h
    · cases h
    · rename_i hq
      cases h
      have := Token.length_quoted hq
      omega
  · split at h
    · cases h
    · rename_i hb
      cases h
      have := Token.length_bare hb
      omega

theorem value_shortens : Shortens value := by
  intro s a rest h
  obtain ⟨_, h, _⟩ := Step.map_eq_some h
  exact literal_shortens h

theorem flag_shortens : Shortens flag := by
  intro s a rest h
  simp only [flag] at h
  split at h
  · cases h
  · rename_i hl
    cases h
    exact Token.length_letter hl

theorem kwarg_shortens : Shortens kwarg := by
  intro s a rest h
  simp only [kwarg] at h
  split at h
  · cases h
  rename_i key left hk
  have := Token.length_key hk
  split at h
  · cases h
  · cases h
    omega
  · rename_i content final hv
    cases h
    have := trimmed_shortens literal_shortens hv
    omega

theorem name_shortens : Shortens name := by
  intro s a rest h
  simp only [name] at h
  split at h
  · rename_i hn
    cases h
    simp only [Token.isName, Bool.and_eq_true] at hn
    exact Token.length_word_lt hn.1
  · cases h

theorem arg_shortens : Shortens arg := by
  intro s a rest h
  simp only [arg] at h
  split at h
  · cases h
  · rename_i hf
    cases h
    exact trimmed_shortens flag_shortens hf
  · exact trimmed_shortens value_shortens h

/-- What stands behind a name: values and flags in one list and kwargs in another, in the order of
the line. A value may follow a kwarg, so both are looked for again until neither is found. -/
def gather (s : Text) : Except LineError (List Node × List Node × Text) :=
  match _ha : exhaust arg arg_shortens s with
  | .error e => .error e
  | .ok (args, afterArgs) =>
    match _hk : exhaust kwarg kwarg_shortens afterArgs with
    | .error e => .error e
    | .ok (kwargs, rest) =>
      if _hn : args = [] ∧ kwargs = [] then .ok ([], [], rest)
      else
        match gather rest with
        | .error e => .error e
        | .ok (moreArgs, moreKwargs, left) => .ok (args ++ moreArgs, kwargs ++ moreKwargs, left)
termination_by s.length
decreasing_by
  have := exhaust_length _ha
  have := exhaust_length _hk
  have : args ≠ [] ∨ kwargs ≠ [] := by grind
  rcases this with h | h <;> have := List.length_pos_iff.2 h <;> omega

theorem length_lt_of_found {s afterArgs rest : Text} {args kwargs : List Node}
    (ha : exhaust arg arg_shortens s = .ok (args, afterArgs))
    (hk : exhaust kwarg kwarg_shortens afterArgs = .ok (kwargs, rest))
    (h : ¬(args = [] ∧ kwargs = [])) : rest.length < s.length := by
  have hargs := exhaust_length ha
  have hkwargs := exhaust_length hk
  rw [← List.length_eq_zero_iff, ← List.length_eq_zero_iff] at h
  omega

theorem gather_length {s : Text} {args kwargs : List Node} {rest : Text}
    (h : gather s = .ok (args, kwargs, rest)) :
    args.length + kwargs.length + rest.length ≤ s.length := by
  induction hn : s.length using Nat.strongRecOn generalizing s args kwargs rest with
  | ind n ih =>
    subst hn
    rw [gather] at h
    split at h
    · cases h
    rename_i as afterArgs ha
    have hla := exhaust_length ha
    split at h
    · cases h
    rename_i ks left hk
    have hlk := exhaust_length hk
    split at h
    · cases h
      simp only [List.length_nil]
      omega
    rename_i progress
    have hlt := length_lt_of_found ha hk progress
    split at h
    · cases h
    rename_i moreArgs moreKwargs final hg
    cases h
    have := ih _ hlt hg rfl
    simp only [List.length_append]
    omega

def args (s : Text) : Except LineError (List Node × Text) :=
  match gather s with
  | .error e => .error e
  | .ok (args, kwargs, rest) => .ok (args ++ kwargs, rest)

def command (s : Text) : Step Tree :=
  match trimmed name s with
  | .error e => .error e
  | .ok (none, _) => .ok (none, s)
  | .ok (some root, rest) =>
    match args rest with
    | .error e => .error e
    | .ok (children, left) => .ok (some ⟨some root, children⟩, left)

theorem args_length {s : Text} {found : List Node} {rest : Text}
    (h : args s = .ok (found, rest)) : found.length + rest.length ≤ s.length := by
  simp only [args] at h
  split at h
  · cases h
  · rename_i hg
    cases h
    simpa using gather_length hg

theorem command_shortens : Shortens command := by
  intro s a rest h
  simp only [command] at h
  split at h
  · cases h
  · cases h
  rename_i root left hn
  have := trimmed_shortens name_shortens hn
  split at h
  · cases h
  · rename_i ha
    cases h
    have := args_length ha
    omega

/-- A whole line must be one command. -/
def parseLine (line : Text) : Except LineError Tree :=
  match trimmed command line with
  | .error e => .error e
  | .ok (some tree, rest) =>
    if trim rest = [] then .ok tree else .error (.unexpectedInput (trim rest))
  | .ok (none, _) =>
    match (Token.word (trim line)).1 with
    | [] => .error .emptyInput
    | c :: found => .error (.missingName (c :: found))

end Grammar

end ChatCommand
