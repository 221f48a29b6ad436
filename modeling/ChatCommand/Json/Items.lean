import ChatCommand.Json.Literal
import ChatCommand.Text.Lines

namespace ChatCommand.Json

variable {α : Type}

def readMore (read : Text → Option (α × Text)) (consumes : Consumes read) (close : Char)
    (s : Text) : Option (List α × Text) :=
  match _h : read s with
  | none => none
  | some (a, rest) =>
    match _he : skipBlanks rest with
    | [] => none
    | c :: t =>
      if c = ',' then (readMore read consumes close t).map fun p ↦ (a :: p.1, p.2)
      else if c = close then some ([a], t)
      else none
termination_by s.length
decreasing_by
  have := consumes _h
  have := length_skipBlanks_le rest
  simp only [_he, List.length_cons] at this
  omega

def readItems (read : Text → Option (α × Text)) (consumes : Consumes read) («open» close : Char)
    (s : Text) : Option (List α × Text) :=
  match expect «open» s with
  | none => none
  | some s =>
    match expect close s with
    | some rest => some ([], rest)
    | none => readMore read consumes close s

theorem readMore_length {read : Text → Option (α × Text)} {consumes : Consumes read} {close : Char}
    {s rest : Text} {items : List α} (h : readMore read consumes close s = some (items, rest)) :
    rest.length < s.length := by
  induction hn : s.length using Nat.strongRecOn generalizing s items rest with
  | ind n ih =>
    subst hn
    rw [readMore] at h
    split at h
    · cases h
    rename_i a mid hr
    have := consumes hr
    have hle := length_skipBlanks_le mid
    split at h
    · cases h
    rename_i c t ht
    simp only [ht, List.length_cons] at hle
    split at h
    · obtain ⟨p, hp, h⟩ := Option.map_eq_some_iff.1 h
      cases h
      have := ih t.length (by omega) hp rfl
      omega
    split at h
    · cases h
      omega
    · cases h

theorem readItems_consumes {read : Text → Option (α × Text)} {consumes : Consumes read}
    {a b : Char} : Consumes (readItems read consumes a b) := by
  intro s items rest h
  simp only [readItems] at h
  split at h
  · cases h
  rename_i t ht
  have := expect_length ht
  split at h
  · rename_i he
    cases h
    have := expect_length he
    omega
  · have := readMore_length h
    omega

def newline (indent : Nat) : Text :=
  '\n' :: List.replicate indent ' '

/-- Brackets around items on lines of their own, two spaces further in than the closing one. -/
def writeItems (a b : Char) (indent : Nat) (items : List Text) : Text :=
  if items.isEmpty then [a, b]
  else
    a :: newline (indent + 2) ++ Text.join (',' :: newline (indent + 2)) items ++
      newline indent ++ [b]

theorem isBlank_newline (n : Nat) : ∀ c ∈ newline n, isBlank c := by
  intro c hc
  simp only [newline, List.mem_cons, List.mem_replicate] at hc
  rcases hc with rfl | ⟨_, rfl⟩ <;> rfl

theorem readMore_join {read : Text → Option (α × Text)} {consumes : Consumes read}
    {write : α → Text} {close : Char} (hc : isBlank close = false) (hne : close ≠ ',')
    {sep last : Text} (hs : ∀ c ∈ sep, isBlank c) (hl : ∀ c ∈ last, isBlank c) (rest : Text) (a : α)
    (items : List α) (back : ∀ x ∈ a :: items, ReadsAs read (write x) x) {b : Text}
    (hb : ∀ c ∈ b, isBlank c) :
    readMore read consumes close
      (b ++ (Text.join (',' :: sep) ((a :: items).map write) ++ (last ++ close :: rest))) =
      some (a :: items, rest) := by
  induction items generalizing a b with
  | nil =>
    have hr := back a (by simp) hb (last ++ close :: rest)
    simp only [List.map_cons, List.map_nil, Text.join]
    rw [readMore]
    split
    · simp_all
    rename_i h
    rw [hr] at h
    cases h
    split
    · rename_i h
      rw [skipBlanks_append hl hc] at h
      cases h
    · rename_i h
      rw [skipBlanks_append hl hc] at h
      cases h
      simp [hne]
  | cons a' items ih =>
    have hr := back a (by simp) hb
      (',' :: sep ++ Text.join (',' :: sep) ((a' :: items).map write) ++ (last ++ close :: rest))
    -- The blanks behind the comma are those in front of the next item.
    have hi := ih a' (fun x hx ↦ back x (by simp [hx])) hs
    simp only [List.map_cons, List.append_assoc, Text.join] at hr hi ⊢
    rw [readMore]
    split
    · simp_all
    rename_i h
    rw [hr] at h
    cases h
    split
    · rename_i h
      cases h
    · rename_i h
      rw [List.cons_append, show skipBlanks (',' :: _) = ',' :: _ from
        skipBlanks_append (b := []) (by simp) rfl _] at h
      cases h
      rw [if_pos rfl, hi]
      rfl

theorem readItems_writeItems {read : Text → Option (α × Text)} {consumes : Consumes read}
    {write : α → Text} {a z : Char} (ha : isBlank a = false) (hz : isBlank z = false)
    (hne : z ≠ ',') (starts : ∀ x, ∃ c t, write x = c :: t ∧ isBlank c = false ∧ c ≠ z) (n : Nat)
    {items : List α} (back : ∀ x ∈ items, ReadsAs read (write x) x) :
    ReadsAs (readItems read consumes a z) (writeItems a z n (items.map write)) items := by
  intro b hb rest
  rcases items with _ | ⟨x, items⟩
  · simp [readItems, writeItems, expect_append hb ha, expect_cons hz]
  obtain ⟨c, t, hw, hc, hcz⟩ := starts x
  have layout : b ++ (writeItems a z n ((x :: items).map write) ++ rest) =
      b ++ a :: (newline (n + 2) ++ (Text.join (',' :: newline (n + 2)) ((x :: items).map write) ++
        (newline n ++ z :: rest))) := by
    simp [writeItems]
  obtain ⟨u, hu⟩ : ∃ u, Text.join (',' :: newline (n + 2)) ((x :: items).map write) = c :: u := by
    cases items <;> simp [Text.join, hw]
  have filled : expect z (newline (n + 2) ++ (Text.join (',' :: newline (n + 2))
      ((x :: items).map write) ++ (newline n ++ z :: rest))) = none := by
    rw [hu]
    simp [expect, skipBlanks, List.dropWhile_append_of_pos (isBlank_newline (n + 2)), hc, hcz]
  rw [layout, readItems, expect_append hb ha]
  simp only
  rw [filled]
  exact readMore_join hz hne (isBlank_newline (n + 2)) (isBlank_newline n) rest x items back
    (isBlank_newline (n + 2))

def readTexts (s : Text) : Option (List Text × Text) :=
  readItems readText readText_consumes '[' ']' s

def writeTexts (indent : Nat) (texts : List Text) : Text :=
  writeItems '[' ']' indent (texts.map writeText)

theorem writeText_starts (s : Text) :
    ∃ c t, writeText s = c :: t ∧ isBlank c = false ∧ c ≠ ']' :=
  ⟨'"', _, rfl, rfl, by decide⟩

theorem readTexts_writeTexts (n : Nat) (texts : List Text) :
    ReadsAs readTexts (writeTexts n texts) texts :=
  readItems_writeItems rfl rfl (by decide) writeText_starts n fun s _ ↦ readText_writeText s

end ChatCommand.Json
