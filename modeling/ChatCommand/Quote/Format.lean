import ChatCommand.Json.Format
import ChatCommand.Json.Skip
import ChatCommand.Quote

namespace ChatCommand

namespace Quote

open Json

inductive Field where
  | speaker (s : Text)
  | audience (names : List Text)
  | text (s : Text)
  | unknown

namespace Field

def speaker? : Field → Option Text
  | .speaker s => some s
  | _ => none

def audience? : Field → Option (List Text)
  | .audience names => some names
  | _ => none

def text? : Field → Option Text
  | .text s => some s
  | _ => none

end Field

/-- Each known field stands once, whatever the order; the others do not matter. -/
def ofFields (fields : List Field) : Option Quote :=
  match fields.filterMap Field.speaker?, fields.filterMap Field.audience?,
    fields.filterMap Field.text? with
  | [speaker], [audience], [text] => some ⟨speaker, audience, text⟩
  | _, _, _ => none

def readFieldValue (key s : Text) : Option (Field × Text) :=
  if key = "speaker".toList then (readText s).map fun p ↦ (.speaker p.1, p.2)
  else if key = "audience".toList then (readTexts s).map fun p ↦ (.audience p.1, p.2)
  else if key = "text".toList then (readText s).map fun p ↦ (.text p.1, p.2)
  else (skipValue s).map (.unknown, ·)

def readField (s : Text) : Option (Field × Text) :=
  match readText s with
  | none => none
  | some (key, s) =>
    match expect ':' s with
    | none => none
    | some s => readFieldValue key s

theorem readFieldValue_consumes (key : Text) : Consumes (readFieldValue key) := by
  intro s field rest h
  simp only [readFieldValue] at h
  split at h
  · obtain ⟨_, hr, h⟩ := Option.map_eq_some_iff.1 h
    cases h
    exact readText_consumes hr
  split at h
  · obtain ⟨_, hr, h⟩ := Option.map_eq_some_iff.1 h
    cases h
    exact readItems_consumes hr
  split at h
  · obtain ⟨_, hr, h⟩ := Option.map_eq_some_iff.1 h
    cases h
    exact readText_consumes hr
  · obtain ⟨_, hr, h⟩ := Option.map_eq_some_iff.1 h
    cases h
    exact skipValue_length hr

theorem readField_consumes : Consumes readField := by
  intro s field rest h
  simp only [readField] at h
  split at h
  · cases h
  rename_i hk
  have := readText_consumes hk
  split at h
  · cases h
  rename_i hc
  have := expect_length hc
  have := readFieldValue_consumes _ h
  omega

def readObject (s : Text) : Option (Quote × Text) :=
  match readItems readField readField_consumes '{' '}' s with
  | none => none
  | some (fields, rest) => (ofFields fields).map (·, rest)

def readTriple (s : Text) : Option (Quote × Text) := do
  let (speaker, s) ← readText (← expect '[' s)
  let (audience, s) ← readTexts (← expect ',' s)
  let (text, s) ← readText (← expect ',' s)
  some (⟨speaker, audience, text⟩, ← expect ']' s)

def read (s : Text) : Option (Quote × Text) :=
  (readObject s).or (readTriple s)

theorem readObject_consumes : Consumes readObject := by
  intro s q rest h
  simp only [readObject] at h
  split at h
  · cases h
  rename_i hr
  obtain ⟨_, _, h⟩ := Option.map_eq_some_iff.1 h
  cases h
  exact readItems_consumes hr

theorem readTriple_consumes : Consumes readTriple := by
  intro s q rest h
  simp only [readTriple, Option.bind_eq_bind, Option.bind_eq_some_iff, Option.some.injEq,
    Prod.mk.injEq] at h
  obtain ⟨_, h₁, p, h₂, _, h₃, p', h₄, _, h₅, p'', h₆, _, h₇, _, rfl⟩ := h
  have := expect_length h₁
  have := readText_consumes h₂
  have := expect_length h₃
  have : p'.2.length < _ := readItems_consumes h₄
  have := expect_length h₅
  have := readText_consumes h₆
  have := expect_length h₇
  omega

theorem read_consumes : Consumes read := by
  intro s q rest h
  rcases Option.or_eq_some_iff.1 h with h | ⟨_, h⟩
  · exact readObject_consumes h
  · exact readTriple_consumes h

def writeField (name : String) (value : Text) : Text :=
  writeText name.toList ++ ": ".toList ++ value

/-- A field that quotes do not have is never written. -/
def Field.write (indent : Nat) : Field → Text
  | .speaker s => writeField "speaker" (writeText s)
  | .audience names => writeField "audience" (writeTexts (indent + 2) names)
  | .text s => writeField "text" (writeText s)
  | .unknown => writeText []

def write (indent : Nat) (q : Quote) : Text :=
  writeItems '{' '}' indent
    ([.speaker q.speaker, .audience q.audience, .text q.text].map (Field.write indent))

instance : Format Quote where
  write := write
  read := read
  consumes := read_consumes

theorem readField_writeField {name : String} {value : Text} {field : Field}
    (h : ReadsAs (readFieldValue name.toList) value field) :
    ReadsAs readField (writeField name value) field := by
  intro b hb rest
  have layout : b ++ (writeField name value ++ rest) =
      b ++ (writeText name.toList ++ (':' :: ([' '] ++ (value ++ rest)))) := by
    simp [writeField]
  rw [layout, readField, readText_writeText _ hb]
  simp only
  rw [expect_cons rfl]
  exact h (by simp [Json.isBlank]) rest

theorem readField_write {n : Nat} {field : Field} (h : field ≠ .unknown) :
    ReadsAs readField (field.write n) field := by
  cases field with
  | speaker s =>
    refine readField_writeField fun b hb rest ↦ ?_
    simp [readFieldValue, readText_writeText s hb rest]
  | audience names =>
    refine readField_writeField fun b hb rest ↦ ?_
    simp [readFieldValue, readTexts_writeTexts (n + 2) names hb rest]
  | text s =>
    refine readField_writeField fun b hb rest ↦ ?_
    simp [readFieldValue, readText_writeText s hb rest]
  | unknown => exact absurd rfl h

instance : LawfulFormat Quote where
  readsAs n q := by
    have starts (f : Field) : ∃ c t, f.write n = c :: t ∧ Json.isBlank c = false ∧ c ≠ '}' := by
      cases f <;> exact ⟨'"', _, rfl, rfl, by decide⟩
    have back : ReadsAs (readItems readField readField_consumes '{' '}') (q.write n)
        [.speaker q.speaker, .audience q.audience, .text q.text] :=
      readItems_writeItems rfl rfl (by decide) starts n fun f hf ↦ readField_write (by
        rintro rfl
        simp at hf)
    intro b hb rest
    have object : readObject (b ++ (q.write n ++ rest)) = some (q, rest) := by
      rw [readObject, back hb rest]
      rfl
    exact Option.or_eq_some_iff.2 (.inl object)

end Quote

end ChatCommand
