import ChatCommand.Proofs.Grammar.Layout

namespace ChatCommand

open Text

namespace Token

variable {s a rest : Text} {c : Char}

theorem exists_word (s : Text) :
    ∃ t, Parted t ∧ s = (word s).1 ++ t ∧ (word s).2 = t.tail := by
  refine ⟨s.dropWhile (!isBlank ·), ?_, List.takeWhile_append_dropWhile.symm, rfl⟩
  intro c hc
  have := List.head?_dropWhile_not (!isBlank ·) s
  rw [hc] at this
  simpa using this

theorem word_eq_iff (ha : isSymbol a) :
    word s = (a, rest) ↔ ∃ t, Parted t ∧ s = a ++ t ∧ rest = t.tail := by
  constructor
  · intro h
    obtain ⟨t, ht, hs, hrest⟩ := exists_word s
    rw [h] at hs hrest
    exact ⟨t, ht, hs, hrest⟩
  · rintro ⟨t, ht, rfl, rfl⟩
    exact word_of_isSymbol ha ht

theorem key_eq_some_iff :
    key s = some (a, rest) ↔
      isSymbol a ∧ ∃ t, Parted t ∧ s = '-' :: '-' :: a ++ t ∧ rest = t.tail := by
  constructor
  · intro h
    unfold key at h
    split at h
    · rename_i s
      split at h
      · rename_i ha
        have hword : word s = (a, rest) := Option.some.inj h
        rw [hword] at ha
        obtain ⟨t, ht, rfl, hrest⟩ := (word_eq_iff ha).1 hword
        exact ⟨ha, t, ht, rfl, hrest⟩
      · cases h
    · cases h
  · rintro ⟨ha, t, ht, rfl, rfl⟩
    simp [key, word_of_isSymbol ha ht, ha]

theorem letter_eq_some_iff :
    letter s = some (c, rest) ↔
      isAlphanumeric c ∧ ∃ t, s = '-' :: c :: t ∧ rest = clusterRest t := by
  constructor
  · intro h
    unfold letter at h
    split at h
    · rename_i d t
      split at h
      · rename_i hd
        cases h
        exact ⟨hd, t, rfl, rfl⟩
      · cases h
    · cases h
  · rintro ⟨hc, t, rfl, rfl⟩
    simp [letter, hc]

theorem quoted_sound {mark : Char} {body : Text} (hmark : isQuote mark)
    (h : quoted (mark :: body) = .ok (some (a, rest))) : mark ∉ a ∧ body = a ++ mark :: rest := by
  have hopen : (mark :: body).dropWhile (!isQuote ·) = mark :: body := by simp [hmark]
  have hclose := List.head?_dropWhile_not (· != mark) body
  have hbody := List.takeWhile_append_dropWhile (p := (· != mark)) (l := body)
  rw [quoted, hopen] at h
  rcases hrest : body.dropWhile (· != mark) with _ | ⟨c, t⟩
  · simp [hrest] at h
  · simp only [hrest, Except.ok.injEq, Option.some.injEq, Prod.mk.injEq] at h
    obtain ⟨rfl, rfl⟩ := h
    have hc : c = mark := by simpa [hrest] using hclose
    rw [hrest, hc] at hbody
    refine ⟨fun hmem ↦ ?_, hbody.symm⟩
    simpa using List.mem_takeWhile_imp hmem

end Token

namespace Grammar

variable {s a rest line : Text} {n : Node}

theorem literal_eq_some_iff :
    literal s = .ok (some a, rest) ↔
      (Token.isSymbol a ∧ ∃ t, Parted t ∧ s = a ++ t ∧ rest = t.tail) ∨
        ∃ mark, Token.isQuote mark ∧ mark ∉ a ∧ s = mark :: a ++ mark :: rest := by
  constructor
  · intro h
    simp only [literal] at h
    -- A mark at the front asks for another one like it; without one the word is bare.
    split at h
    · rename_i hquote
      obtain ⟨mark, body, rfl⟩ : ∃ mark body, s = mark :: body := by
        cases s with
        | nil => cases hquote
        | cons mark body => exact ⟨mark, body, rfl⟩
      have hmark : Token.isQuote mark := hquote
      split at h
      · cases h
      · cases h
      · rename_i hq
        cases h
        obtain ⟨hfree, rfl⟩ := Token.quoted_sound hmark hq
        exact .inr ⟨mark, hmark, hfree, rfl⟩
    · split at h
      · cases h
      · rename_i hbare
        cases h
        simp only [Token.bare] at hbare
        split at hbare
        · cases hbare
        · split at hbare
          · rename_i ha
            have hword : Token.word s = (a, rest) := Option.some.inj hbare
            rw [hword] at ha
            exact .inl ⟨ha, (Token.word_eq_iff ha).1 hword⟩
          · cases hbare
  · rintro (⟨ha, t, ht, rfl, rfl⟩ | ⟨mark, hmark, hfree, rfl⟩)
    · exact literal_bare ha ht
    · exact literal_quoted hmark hfree rest

/-- A node at the very front of a text, and the text that it leaves. -/
inductive Piece : Text → Node → Text → Prop
  | value {s a rest : Text} : literal s = .ok (some a, rest) → Piece s (.value a) rest
  | flag {c : Char} (t : Text) : isAlphanumeric c →
      Piece ('-' :: c :: t) (.flag c) (Token.clusterRest t)
  | key {k t u : Text} : Token.isSymbol k → Parted t → trimmed literal t.tail = .ok (none, u) →
      Piece ('-' :: '-' :: k ++ t) (.kwarg k none) t.tail
  | keyed {k t a rest : Text} : Token.isSymbol k → Parted t →
      trimmed literal t.tail = .ok (some a, rest) →
      Piece ('-' :: '-' :: k ++ t) (.kwarg k (some a)) rest

theorem piece_eq_some_iff : piece s = .ok (some n, rest) ↔ Piece s n rest := by
  constructor
  · intro h
    simp only [piece] at h
    split at h
    · split at h
      · simp only [kwarg] at h
        split at h
        · cases h
        · rename_i hkey
          obtain ⟨hk, t, ht, rfl, rfl⟩ := Token.key_eq_some_iff.1 hkey
          split at h
          · cases h
          · rename_i hnone
            cases h
            exact .key hk ht hnone
          · rename_i hsome
            cases h
            exact .keyed hk ht hsome
      · obtain ⟨a, ha, rfl⟩ := Step.map_eq_some h
        exact .value ha
    · simp only [flag] at h
      split at h
      · cases h
      · rename_i hletter
        cases h
        obtain ⟨hc, t, rfl, rfl⟩ := Token.letter_eq_some_iff.1 hletter
        exact .flag t hc
  · intro h
    cases h with
    | value ha => exact piece_literal ha
    | flag t hc => exact piece_letter hc t
    | key hk ht hnone => rw [piece_key hk ht, hnone]
    | keyed hk ht hsome => rw [piece_key hk ht, hsome]

theorem mem_kwargs_last {ns : List Node} :
    n ∈ ns.filter (!isKwarg ·) ++ ns.filter isKwarg ↔ n ∈ ns := by
  rw [List.mem_append, List.mem_filter, List.mem_filter]
  cases isKwarg n <;> simp

theorem parseLine_eq_ok_iff {tree : Tree} :
    parseLine line = .ok tree ↔
      ∃ root rest ns, Token.isName root ∧ Parted rest ∧ trim line = root ++ rest ∧
        ReadsAs rest ns ∧ tree = ⟨some root, ns.filter (!isKwarg ·) ++ ns.filter isKwarg⟩ := by
  constructor
  · intro h
    by_cases hroot : Token.isName (Token.word (trim line)).1
    · obtain ⟨hfault, hread⟩ := parseLine_of_name hroot
      rcases honce : onePass (Token.word (trim line)).2 with e | ⟨ns, left⟩
      · cases (hfault e honce).symm.trans h
      · rw [hread ns left honce] at h
        split at h
        · rename_i hleft
          cases h
          obtain ⟨rest, hrest, hline, htail⟩ := Token.exists_word (trim line)
          have hreads : ReadsAs rest.tail ns := ⟨left, htail ▸ honce, hleft⟩
          exact ⟨_, rest, ns, hroot, hrest, hline, hreads.congr hrest.trim_tail, rfl⟩
        · cases h
    · rw [parseLine_of_no_name (by simpa using hroot)] at h
      cases h
  · rintro ⟨root, rest, ns, hroot, hrest, hline, hread, rfl⟩
    have hnone : ∀ c ∈ ([] : Text), isBlank c := by simp
    have := parseLine_of_readsAs hroot hnone hrest hread
    rw [List.nil_append, ← hline] at this
    rwa [parseLine, trimmed_congr (trim_trim line), trim_trim, ← parseLine] at this

end Grammar

end ChatCommand
