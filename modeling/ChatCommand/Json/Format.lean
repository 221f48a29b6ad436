import ChatCommand.Json.Items
import ChatCommand.SortedMap

namespace ChatCommand.Json

/-- How the values of a type stand in a file. The writer gets the number of spaces that the line
is set in by. -/
class Format (V : Type) where
  write : Nat → V → Text
  read : Text → Option (V × Text)
  consumes : Consumes read

instance : Format Text where
  write _ := writeText
  read := readText
  consumes := readText_consumes

class LawfulFormat (V : Type) [Format V] : Prop where
  readsAs (n : Nat) (v : V) : ReadsAs Format.read (Format.write n v) v

instance : LawfulFormat Text where
  readsAs _ := readText_writeText

variable {V : Type} [Format V]

def writeEntry (e : UInt64 × V) : Text :=
  writeKey e.1 ++ [':', ' '] ++ Format.write 2 e.2

def writeMap (m : SortedMap UInt64 V) : Text :=
  writeItems '{' '}' 0 (m.entries.map writeEntry)

def readEntry (s : Text) : Option ((UInt64 × V) × Text) :=
  match readKey s with
  | none => none
  | some (key, s) =>
    match expect ':' s with
    | none => none
    | some s => (Format.read s).map fun p ↦ ((key, p.1), p.2)

theorem readEntry_consumes : Consumes (readEntry (V := V)) := by
  intro s e rest h
  simp only [readEntry] at h
  split at h
  · cases h
  rename_i hk
  have := readKey_consumes hk
  split at h
  · cases h
  rename_i hc
  have := expect_length hc
  obtain ⟨p, hp, h⟩ := Option.map_eq_some_iff.1 h
  cases h
  have := Format.consumes hp
  omega

/-- A whole file: one object with nothing but blanks around it. Of equal keys the last counts. -/
def readMap (s : Text) : Option (SortedMap UInt64 V) :=
  match readItems readEntry readEntry_consumes '{' '}' s with
  | none => none
  | some (entries, rest) => if skipBlanks rest = [] then some (.ofList entries) else none

variable [LawfulFormat V]

theorem readEntry_writeEntry (e : UInt64 × V) : ReadsAs readEntry (writeEntry e) e := by
  intro b hb rest
  have layout : b ++ (writeEntry e ++ rest) =
      b ++ (writeKey e.1 ++ (':' :: ([' '] ++ (Format.write 2 e.2 ++ rest)))) := by
    simp [writeEntry]
  rw [layout, readEntry, readKey_writeKey e.1 hb]
  simp only
  rw [expect_cons rfl]
  simp only
  rw [LawfulFormat.readsAs 2 e.2 (b := [' ']) (by simp [isBlank]) rest]
  rfl

theorem readMap_writeMap (m : SortedMap UInt64 V) : readMap (writeMap m) = some m := by
  have back : ReadsAs (readItems readEntry readEntry_consumes '{' '}') (writeMap m) m.entries :=
    readItems_writeItems rfl rfl (by decide) (fun e ↦ ⟨'"', _, rfl, rfl, by decide⟩) 0
      fun e _ ↦ readEntry_writeEntry e
  have := back (b := []) (by simp) []
  simp only [List.append_nil, List.nil_append] at this
  simp [readMap, this, skipBlanks, SortedMap.ofList_entries]

end ChatCommand.Json
