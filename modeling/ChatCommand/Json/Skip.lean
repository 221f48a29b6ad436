import ChatCommand.Json.Items
import ChatCommand.Text.Split

namespace ChatCommand.Json

/-- The rest of a text whose content does not matter: escapes are looked at one unit at a time. -/
def skipBody : Text → Option Text
  | [] => none
  | '"' :: s => some s
  | '\\' :: 'u' :: a :: b :: c :: d :: s =>
    if [a, b, c, d].all (hexDigit? · |>.isSome) then skipBody s else none
  | '\\' :: c :: s => if (ofEscapeLetter? c).isSome then skipBody s else none
  | c :: s => if c.toNat < 0x20 then none else skipBody s

def skipDigits (s : Text) : Option Text :=
  match s with
  | c :: t => if c.isDigit then some (t.dropWhile Char.isDigit) else none
  | [] => none

def skipFraction : Text → Option Text
  | '.' :: s => skipDigits s
  | s => some s

def skipExponent : Text → Option Text
  | c :: s =>
    if c = 'e' ∨ c = 'E' then
      match s with
      | '+' :: t | '-' :: t => skipDigits t
      | _ => skipDigits s
    else some (c :: s)
  | [] => some []

def skipWhole : Text → Option Text
  | '0' :: s => some s
  | s => skipDigits s

def skipNumber (s : Text) : Option Text := do
  let s ← skipWhole (match s with | '-' :: t => t | _ => s)
  skipExponent (← skipFraction s)

def skipScalar : Text → Option Text
  | '"' :: s => skipBody s
  | 't' :: s => Text.dropPrefix? "rue".toList s
  | 'f' :: s => Text.dropPrefix? "alse".toList s
  | 'n' :: s => Text.dropPrefix? "ull".toList s
  | s => skipNumber s

inductive Want where
  | value
  | key
  | next

/-- Brackets that are open, the innermost first: the flag tells braces from square brackets. -/
abbrev Open := List Bool

/-- One token of a value that is skipped: what is wanted next, inside of which brackets, and the
text behind the token. Nothing is wanted after a value outside of all brackets. -/
def skipToken : Want → Open → Text → Option (Want × Open × Text)
  | .value, stack, s =>
    match skipBlanks s with
    | [] => none
    | c :: t =>
      if c = '[' then
        match expect ']' t with
        | some t => some (.next, stack, t)
        | none => some (.value, false :: stack, t)
      else if c = '{' then
        match expect '}' t with
        | some t => some (.next, stack, t)
        | none => some (.key, true :: stack, t)
      else (skipScalar (c :: t)).map (.next, stack, ·)
  | .key, stack, s => do
    let s ← skipBody (← expect '"' s)
    some (.value, stack, ← expect ':' s)
  | .next, [], _ => none
  | .next, braces :: stack, s =>
    match skipBlanks s with
    | [] => none
    | c :: t =>
      if c = ',' then some (if braces then .key else .value, braces :: stack, t)
      else if c = (if braces then '}' else ']') then some (.next, stack, t)
      else none

theorem skipBody_length {s rest : Text} (h : skipBody s = some rest) :
    rest.length < s.length := by
  fun_induction skipBody s with
  | case1 => cases h
  | case2 => grind
  | case3 => grind
  | case4 => cases h
  | case5 => grind
  | case6 => cases h
  | case7 => cases h
  | case8 => grind

theorem skipDigits_length {s rest : Text} (h : skipDigits s = some rest) :
    rest.length < s.length := by
  unfold skipDigits at h
  split at h
  · rename_i c t
    split at h
    · cases h
      exact Nat.lt_succ_of_le (List.dropWhile_sublist (l := t) Char.isDigit).length_le
    · cases h
  · cases h

theorem skipFraction_length {s rest : Text} (h : skipFraction s = some rest) :
    rest.length ≤ s.length := by
  unfold skipFraction at h
  split at h
  · have := skipDigits_length h
    simp only [List.length_cons]
    omega
  · cases h
    simp

theorem skipExponent_length {s rest : Text} (h : skipExponent s = some rest) :
    rest.length ≤ s.length := by
  unfold skipExponent at h
  split at h
  · split at h
    · split at h <;> have := skipDigits_length h <;> simp only [List.length_cons] at * <;> omega
    · cases h
      simp
  · cases h
    simp

theorem skipWhole_length {s rest : Text} (h : skipWhole s = some rest) :
    rest.length < s.length := by
  unfold skipWhole at h
  split at h
  · cases h
    simp
  · exact skipDigits_length h

theorem skipNumber_length {s rest : Text} (h : skipNumber s = some rest) :
    rest.length < s.length := by
  simp only [skipNumber, Option.bind_eq_bind, Option.bind_eq_some_iff] at h
  obtain ⟨t, ht, u, hu, h⟩ := h
  have := skipWhole_length ht
  have := skipFraction_length hu
  have := skipExponent_length h
  split at ht <;> simp only [List.length_cons] at * <;> omega

theorem skipScalar_length {s rest : Text} (h : skipScalar s = some rest) :
    rest.length < s.length := by
  unfold skipScalar at h
  split at h
  · exact Nat.lt_succ_of_lt (skipBody_length h)
  · exact Nat.lt_succ_of_le (Text.length_dropPrefix?_le h)
  · exact Nat.lt_succ_of_le (Text.length_dropPrefix?_le h)
  · exact Nat.lt_succ_of_le (Text.length_dropPrefix?_le h)
  · exact skipNumber_length h

theorem skipToken_length {want want' : Want} {stack stack' : Open} {s rest : Text}
    (h : skipToken want stack s = some (want', stack', rest)) : rest.length < s.length := by
  have hb := length_skipBlanks_le s
  unfold skipToken at h
  split at h
  · split at h
    · cases h
    rename_i c t ht
    rw [ht, List.length_cons] at hb
    have close {d : Char} {u : Text} (h : expect d t = some u) := expect_length h
    split at h
    · grind
    split at h
    · grind
    · obtain ⟨_, hs, h⟩ := Option.map_eq_some_iff.1 h
      cases h
      have := skipScalar_length hs
      simp only [List.length_cons] at this
      omega
  · simp only [Option.bind_eq_bind, Option.bind_eq_some_iff, Option.some.injEq, Prod.mk.injEq] at h
    obtain ⟨u, hu, t, ht, v, hv, _, _, rfl⟩ := h
    have := expect_length hu
    have := skipBody_length ht
    have := expect_length hv
    omega
  · cases h
  · split at h
    · cases h
    rename_i c t ht
    rw [ht, List.length_cons] at hb
    grind

def skipFrom (want : Want) (stack : Open) (s : Text) : Option Text :=
  match want, stack with
  | .next, [] => some s
  | _, _ =>
    match _h : skipToken want stack s with
    | none => none
    | some (want, stack, rest) => skipFrom want stack rest
termination_by s.length
decreasing_by exact skipToken_length _h

theorem skipFrom_length {want : Want} {stack : Open} {s rest : Text}
    (h : skipFrom want stack s = some rest) : rest.length ≤ s.length := by
  induction hn : s.length using Nat.strongRecOn generalizing want stack s rest with
  | ind n ih =>
    subst hn
    rw [skipFrom.eq_def] at h
    split at h
    · cases h
      simp
    · split at h
      · cases h
      · rename_i ht
        have := skipToken_length ht
        have := ih _ this h rfl
        omega

def skipValue (s : Text) : Option Text :=
  skipFrom .value [] s

theorem skipValue_length {s rest : Text} (h : skipValue s = some rest) :
    rest.length < s.length := by
  rw [skipValue, skipFrom.eq_def] at h
  split at h
  · contradiction
  · split at h
    · cases h
    · rename_i ht
      have := skipToken_length ht
      have := skipFrom_length h
      omega

end ChatCommand.Json
