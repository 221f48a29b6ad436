import ChatCommand.Json.Reader
import ChatCommand.Number.Integer

namespace ChatCommand.Json

def escapeLetter? (c : Char) : Option Char :=
  if c = '"' then some '"'
  else if c = '\\' then some '\\'
  else if c = '\n' then some 'n'
  else if c = '\r' then some 'r'
  else if c = '\t' then some 't'
  else if c = '\x08' then some 'b'
  else if c = '\x0c' then some 'f'
  else none

def escape (c : Char) : Text :=
  match escapeLetter? c with
  | some letter => ['\\', letter]
  | none =>
    if c.toNat < 0x20 then
      ['\\', 'u', '0', '0', Nat.digitChar (c.toNat / 16), Nat.digitChar (c.toNat % 16)]
    else [c]

def writeText (s : Text) : Text :=
  '"' :: s.flatMap escape ++ ['"']

def hexDigit? (c : Char) : Option Nat :=
  if '0' ≤ c ∧ c ≤ '9' then some (c.toNat - '0'.toNat)
  else if 'a' ≤ c ∧ c ≤ 'f' then some (c.toNat - 'a'.toNat + 10)
  else if 'A' ≤ c ∧ c ≤ 'F' then some (c.toNat - 'A'.toNat + 10)
  else none

def hexUnit? : Text → Option (Nat × Text)
  | a :: b :: c :: d :: s => do
    let a ← hexDigit? a
    let b ← hexDigit? b
    let c ← hexDigit? c
    let d ← hexDigit? d
    some (((a * 16 + b) * 16 + c) * 16 + d, s)
  | _ => none

theorem hexUnit?_length {s rest : Text} {n : Nat} (h : hexUnit? s = some (n, rest)) :
    rest.length < s.length := by
  unfold hexUnit? at h
  split at h
  · simp only [Option.bind_eq_bind, Option.bind_eq_some_iff, Option.some.injEq, Prod.mk.injEq] at h
    obtain ⟨_, _, _, _, _, _, _, _, _, rfl⟩ := h
    simp only [List.length_cons]
    omega
  · cases h

/-- A unit of UTF-16, or a pair of surrogates, behind `\u`. -/
def readUnits (s : Text) : Option (Char × Text) :=
  match hexUnit? s with
  | none => none
  | some (high, rest) =>
    if high < 0xD800 ∨ 0xE000 ≤ high then some (.ofNat high, rest)
    else if 0xDC00 ≤ high then none
    else
      match rest with
      | '\\' :: 'u' :: t =>
        match hexUnit? t with
        | none => none
        | some (low, rest) =>
          if 0xDC00 ≤ low ∧ low < 0xE000 then
            some (.ofNat (0x10000 + (high - 0xD800) * 0x400 + (low - 0xDC00)), rest)
          else none
      | _ => none

def ofEscapeLetter? (letter : Char) : Option Char :=
  if letter = '"' then some '"'
  else if letter = '\\' then some '\\'
  else if letter = '/' then some '/'
  else if letter = 'n' then some '\n'
  else if letter = 'r' then some '\r'
  else if letter = 't' then some '\t'
  else if letter = 'b' then some '\x08'
  else if letter = 'f' then some '\x0c'
  else none

def readEscape : Text → Option (Char × Text)
  | [] => none
  | c :: s => if c = 'u' then readUnits s else (ofEscapeLetter? c).map (·, s)

theorem readUnits_length {s rest : Text} {c : Char} (h : readUnits s = some (c, rest)) :
    rest.length < s.length := by
  simp only [readUnits] at h
  split at h
  · cases h
  rename_i high mid hu
  have hlt := hexUnit?_length hu
  split at h
  · cases h
    exact hlt
  split at h
  · cases h
  split at h
  · rename_i t
    split at h
    · cases h
    rename_i low final hl
    have := hexUnit?_length hl
    simp only [List.length_cons] at hlt
    split at h
    · obtain ⟨_, rfl⟩ := Prod.mk.inj (Option.some.inj h)
      omega
    · cases h
  · cases h

theorem readEscape_length {s rest : Text} {c : Char} (h : readEscape s = some (c, rest)) :
    rest.length < s.length := by
  cases s with
  | nil => cases h
  | cons d s =>
    simp only [readEscape] at h
    split at h
    · exact Nat.lt_succ_of_lt (readUnits_length h)
    · obtain ⟨_, _, h⟩ := Option.map_eq_some_iff.1 h
      cases h
      simp

def readBody : Text → Option (Text × Text)
  | [] => none
  | c :: s =>
    if c = '"' then some ([], s)
    else if c = '\\' then
      match _h : readEscape s with
      | none => none
      | some (d, rest) => (readBody rest).map fun p ↦ (d :: p.1, p.2)
    else if c.toNat < 0x20 then none
    else (readBody s).map fun p ↦ (c :: p.1, p.2)
termination_by s => s.length
decreasing_by
  · exact Nat.lt_succ_of_lt (readEscape_length _h)
  · simp

theorem readBody_length {s t rest : Text} (h : readBody s = some (t, rest)) :
    rest.length < s.length := by
  induction hn : s.length using Nat.strongRecOn generalizing s t rest with
  | ind n ih =>
    subst hn
    cases s with
    | nil =>
      rw [readBody] at h
      cases h
    | cons c s =>
      rw [readBody] at h
      split at h
      · cases h
        simp
      split at h
      · split at h
        · cases h
        · rename_i d mid he
          obtain ⟨p, hp, h⟩ := Option.map_eq_some_iff.1 h
          cases h
          have := readEscape_length he
          have := ih mid.length (by simp; omega) hp rfl
          simp only [List.length_cons]
          omega
      split at h
      · cases h
      · obtain ⟨p, hp, h⟩ := Option.map_eq_some_iff.1 h
        cases h
        have := ih s.length (by simp) hp rfl
        simp only [List.length_cons]
        omega

def readText (s : Text) : Option (Text × Text) :=
  match expect '"' s with
  | none => none
  | some s => readBody s

theorem readText_consumes : Consumes readText := by
  intro s t rest h
  simp only [readText] at h
  split at h
  · cases h
  · rename_i he
    have := expect_length he
    have := readBody_length h
    omega

def readKey (s : Text) : Option (UInt64 × Text) :=
  match expect '"' s with
  | none => none
  | some s =>
    match Number.uint64? (s.takeWhile Char.isDigit), s.dropWhile Char.isDigit with
    | some k, c :: rest => if c = '"' then some (k, rest) else none
    | _, _ => none

theorem readKey_consumes : Consumes readKey := by
  intro s k rest h
  simp only [readKey] at h
  split at h
  · cases h
  rename_i t ht
  have := expect_length ht
  split at h
  · rename_i hd
    split at h
    · cases h
      have := (List.dropWhile_sublist (l := t) Char.isDigit).length_le
      simp only [hd, List.length_cons] at this
      omega
    · cases h
  · cases h

theorem ofEscapeLetter?_of_escapeLetter? {c letter : Char} (h : escapeLetter? c = some letter) :
    ofEscapeLetter? letter = some c ∧ letter ≠ 'u' := by
  unfold escapeLetter? at h
  repeat' split at h
  all_goals cases h
  all_goals simp_all [ofEscapeLetter?]

theorem hexDigit?_digitChar {n : Nat} (h : n < 16) : hexDigit? n.digitChar = some n := by
  revert n
  decide

theorem readUnits_control {c : Char} (h : c.toNat < 0x20) (t : Text) :
    readUnits ('0' :: '0' :: Nat.digitChar (c.toNat / 16) :: Nat.digitChar (c.toNat % 16) :: t) =
      some (c, t) := by
  have zero : hexDigit? '0' = some 0 := rfl
  have high := hexDigit?_digitChar (n := c.toNat / 16) (by omega)
  have low := hexDigit?_digitChar (n := c.toNat % 16) (by omega)
  have hex : hexUnit? ('0' :: '0' :: Nat.digitChar (c.toNat / 16) ::
      Nat.digitChar (c.toNat % 16) :: t) = some (c.toNat, t) := by
    simp only [hexUnit?, zero, high, low, Option.bind_eq_bind, Option.bind_some]
    congr 2
    omega
  simp only [readUnits, hex]
  rw [if_pos (by omega), Char.ofNat_toNat]

theorem readBody_backslash {c d : Char} {s t : Text} (h : readEscape (c :: s) = some (d, t)) :
    readBody ('\\' :: c :: s) = (readBody t).map fun p ↦ (d :: p.1, p.2) := by
  rw [readBody]
  simp only [Char.reduceEq, if_false, if_true]
  split
  · simp_all
  · rename_i h'
    rw [h] at h'
    cases h'
    rfl

theorem readBody_escape (c : Char) (t : Text) :
    readBody (escape c ++ t) = (readBody t).map fun p ↦ (c :: p.1, p.2) := by
  unfold escape
  split
  · rename_i letter hl
    obtain ⟨h, hu⟩ := ofEscapeLetter?_of_escapeLetter? hl
    exact readBody_backslash (by simp [readEscape, hu, h])
  rename_i hl
  split
  · rename_i h
    exact readBody_backslash (readUnits_control h t)
  · rename_i hc
    have hq : c ≠ '"' := by
      rintro rfl
      cases hl
    have hb : c ≠ '\\' := by
      rintro rfl
      cases hl
    rw [List.singleton_append, readBody, if_neg hq, if_neg hb, if_neg hc]

theorem readBody_escapes (s t : Text) : readBody (s.flatMap escape ++ '"' :: t) = some (s, t) := by
  induction s with
  | nil => simp [readBody]
  | cons c s ih =>
    rw [List.flatMap_cons, List.append_assoc, readBody_escape, ih]
    rfl

theorem readText_writeText (s : Text) : ReadsAs readText (writeText s) s := by
  intro b hb rest
  have layout : b ++ (writeText s ++ rest) = b ++ '"' :: (s.flatMap escape ++ '"' :: rest) := by
    simp [writeText]
  rw [layout, readText, expect_append hb rfl]
  exact readBody_escapes s rest

def writeKey (k : UInt64) : Text :=
  '"' :: Number.uint64Text k ++ ['"']

theorem readKey_writeKey (k : UInt64) : ReadsAs readKey (writeKey k) k := by
  intro b hb rest
  have digits : ∀ c ∈ Number.uint64Text k, c.isDigit :=
    fun _ ↦ Number.isDigit_of_mem_naturalText
  have layout : b ++ (writeKey k ++ rest) = b ++ '"' :: (Number.uint64Text k ++ '"' :: rest) := by
    simp [writeKey]
  have take : (Number.uint64Text k ++ '"' :: rest).takeWhile Char.isDigit =
      Number.uint64Text k := by
    rw [List.takeWhile_append_of_pos digits]
    simp
  have drop : (Number.uint64Text k ++ '"' :: rest).dropWhile Char.isDigit = '"' :: rest := by
    rw [List.dropWhile_append_of_pos digits]
    simp
  rw [layout, readKey, expect_append hb rfl]
  simp [take, drop, Number.uint64?_uint64Text]

end ChatCommand.Json
