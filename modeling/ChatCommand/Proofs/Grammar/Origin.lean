import ChatCommand.Proofs.Grammar.Piece

namespace ChatCommand.Grammar

open Text

variable {line s t rest before after letters k : Text} {v : Option Text} {n : Node}

/-- What stands in front of a token: nothing, a blank, or a quoted text. -/
inductive TokenStart : Text → Prop
  | line : TokenStart []
  | blank {c : Char} (s : Text) : isBlank c → TokenStart (s ++ [c])
  | quoted {s content : Text} {mark : Char} : TokenStart s → Token.isQuote mark →
      mark ∉ content → TokenStart (s ++ (mark :: content ++ [mark]))

theorem TokenStart.append (h : TokenStart s) (ht : ∀ c ∈ t, isBlank c) : TokenStart (s ++ t) := by
  rcases List.eq_nil_or_concat' t with rfl | ⟨u, c, rfl⟩
  · simpa using h
  · rw [← List.append_assoc]
    exact .blank _ (ht c (by simp))

/-- The key stands in the line with the dashes in front of it, at the start of a token and up to
the end of a word. -/
def HasKey (line dashes k : Text) : Prop :=
  ∃ before after, line = before ++ (dashes ++ (k ++ after)) ∧ TokenStart before ∧ Parted after

/-- The key is that of a token `--key`, or it stands behind a dash in a cluster of flags. -/
def SpellsKey (line k : Text) : Prop :=
  HasKey line ['-', '-'] k ∨
    ∃ letters, letters ≠ [] ∧ (∀ c ∈ letters, isAlphanumeric c) ∧
      HasKey line ('-' :: letters ++ ['-']) k

/-- What is still to be read of a line, but for blanks at its end. Inside of a cluster of flags it
has a dash in front that the line does not have there. -/
inductive Unread (line : Text) : Text → Prop
  | spent : Unread line []
  | token {before s after : Text} : line = before ++ (s ++ after) → TokenStart before →
      Parted after → Unread line s
  | cluster {before letters s after : Text} : line = before ++ ('-' :: letters ++ (s ++ after)) →
      TokenStart before → letters ≠ [] → (∀ c ∈ letters, isAlphanumeric c) →
      Parted after → Unread line ('-' :: s)

namespace Unread

theorem trim (h : Unread line s) : Unread line (trim s) := by
  cases h with
  | spent => exact .spent
  | @token before s after hline hstart hafter =>
    obtain ⟨a, b, hs, ha, hb⟩ := exists_trim s
    have hcut : line = (before ++ a) ++ (Text.trim s ++ (b ++ after)) := by
      rw [hline]
      nth_rewrite 1 [hs]
      simp
    exact .token hcut (hstart.append ha) ((Parted.of_blank hb).append fun _ ↦ hafter)
  | @cluster before letters s after hline hstart hne hletters hafter =>
    have htrim : Text.trim ('-' :: s) = '-' :: trimEnd s :=
      solid_dash.trim_append (List.forall_mem_nil _)
    obtain ⟨b, hs, hb⟩ := exists_trimEndBy_append isBlank s
    have hcut : line = before ++ ('-' :: letters ++ (trimEnd s ++ (b ++ after))) := by
      rw [hline]
      nth_rewrite 1 [hs]
      simp [trimEnd]
    rw [htrim]
    exact .cluster hcut hstart hne hletters ((Parted.of_blank hb).append fun _ ↦ hafter)

theorem tail (hline : line = before ++ (t ++ after)) (ht : Parted t) (hafter : Parted after) :
    Unread line t.tail := by
  cases t with
  | nil => exact .spent
  | cons c t =>
    have hcut : line = (before ++ [c]) ++ (t ++ after) := by simp [hline]
    exact .token hcut (.blank before (ht c rfl)) hafter

theorem literal {a : Text} (h : Unread line s) (ha : literal s = .ok (some a, rest)) :
    Unread line rest := by
  cases h with
  | spent => cases ha
  | @token before s after hline hstart hafter =>
    rcases literal_eq_some_iff.1 ha with ⟨-, t, ht, rfl, rfl⟩ | ⟨mark, hmark, hfree, rfl⟩
    · have hcut : line = (before ++ a) ++ (t ++ after) := by simp [hline]
      exact tail hcut ht hafter
    · have hcut : line = (before ++ (mark :: a ++ [mark])) ++ (rest ++ after) := by simp [hline]
      exact .token hcut (hstart.quoted hmark hfree) hafter
  | cluster => cases (literal_dash _).symm.trans ha

theorem clusterRest (hline : line = before ++ ('-' :: letters ++ (t ++ after)))
    (hstart : TokenStart before) (hne : letters ≠ []) (hletters : ∀ c ∈ letters, isAlphanumeric c)
    (hafter : Parted after) : Unread line (Text.trim (Token.clusterRest t)) := by
  cases t with
  | nil => exact .spent
  | cons c t =>
    by_cases hc : isBlank c
    · have hparted : Parted (c :: t) := by simpa [Parted] using hc
      have hcut : line = (before ++ '-' :: letters) ++ (c :: t ++ after) := by simp [hline]
      rw [clusterRest_of_parted hparted, trim_trimStart, ← hparted.trim_tail]
      exact (tail hcut hparted hafter).trim
    · rw [Token.clusterRest, if_neg hc]
      exact (cluster hline hstart hne hletters hafter).trim

theorem flag {c : Char} (h : Unread line ('-' :: c :: t)) (hc : isAlphanumeric c) :
    Unread line (Text.trim (Token.clusterRest t)) := by
  cases h with
  | @token before _ after hline hstart hafter =>
    have hcut : line = before ++ ('-' :: [c] ++ (t ++ after)) := hline
    exact clusterRest hcut hstart (by simp) (List.forall_mem_singleton.2 hc) hafter
  | @cluster before letters _ after hline hstart hne hletters hafter =>
    have hcut : line = before ++ ('-' :: (letters ++ [c]) ++ (t ++ after)) := by simp [hline]
    have hall : ∀ d ∈ letters ++ [c], isAlphanumeric d := by
      simp only [List.mem_append, List.mem_singleton]
      rintro d (hd | rfl)
      · exact hletters d hd
      · exact hc
    exact clusterRest hcut hstart (by simp) hall hafter

theorem key (h : Unread line ('-' :: '-' :: k ++ t)) (ht : Parted t) :
    SpellsKey line k ∧ Unread line t.tail := by
  cases h with
  | @token before _ after hline hstart hafter =>
    have hcut : line = (before ++ '-' :: '-' :: k) ++ (t ++ after) := by simp [hline]
    have hkey : line = before ++ (['-', '-'] ++ (k ++ (t ++ after))) := by simp [hline]
    exact ⟨.inl ⟨_, _, hkey, hstart, ht.append fun _ ↦ hafter⟩, tail hcut ht hafter⟩
  | @cluster before letters _ after hline hstart hne hletters hafter =>
    have hcut : line = (before ++ '-' :: letters ++ '-' :: k) ++ (t ++ after) := by simp [hline]
    have hkey : line = before ++ ('-' :: letters ++ ['-'] ++ (k ++ (t ++ after))) := by
      simp [hline]
    exact ⟨.inr ⟨letters, hne, hletters, _, _, hkey, hstart, ht.append fun _ ↦ hafter⟩,
      tail hcut ht hafter⟩

theorem piece (h : Unread line s) (hs : Piece s n rest) :
    (∀ k v, n = .kwarg k v → SpellsKey line k) ∧ Unread line (Text.trim rest) := by
  cases hs with
  | value ha => exact ⟨by simp, (h.literal ha).trim⟩
  | flag t hc => exact ⟨by simp, h.flag hc⟩
  | @key k t _ hk ht _ =>
    obtain ⟨hspells, hrest⟩ := h.key ht
    refine ⟨fun _ _ hn ↦ ?_, hrest.trim⟩
    cases hn
    exact hspells
  | @keyed k t a rest hk ht ha =>
    obtain ⟨hspells, hrest⟩ := h.key ht
    refine ⟨fun _ _ hn ↦ ?_, (hrest.trim.literal (trimmed_eq_some ha)).trim⟩
    cases hn
    exact hspells

theorem found (h : Unread line (Text.trim s)) (hs : trimmed Grammar.piece s = .ok (some n, rest)) :
    (∀ k v, n = .kwarg k v → SpellsKey line k) ∧ Unread line (Text.trim rest) :=
  h.piece (piece_eq_some_iff.1 (trimmed_eq_some hs))

end Unread

/-- The key of a kwarg stands in the line behind two dashes, or else behind a dash in a cluster of
flags. -/
theorem kwarg_spelled {tree : Tree} (h : parseLine line = .ok tree)
    (hn : .kwarg k v ∈ tree.children) : SpellsKey line k := by
  obtain ⟨root, rest, ns, -, hrest, hline, ⟨left, hread, -⟩, rfl⟩ := parseLine_eq_ok_iff.1 h
  obtain ⟨a, b, hcut, -, hb⟩ := exists_trim line
  rw [hline] at hcut
  have hcut : line = (a ++ root) ++ (rest ++ b) := by simpa using hcut
  have hunread : Unread line (trim rest) := by
    rw [← hrest.trim_tail]
    exact (Unread.tail hcut hrest (.of_blank hb)).trim
  have hspells := (exhaust_invariant (fun _ _ _ ↦ Unread.found) hunread hread).1
  exact hspells (.kwarg k v) (mem_kwargs_last.1 hn) k v rfl

def dashed : Tree :=
  ⟨some ['q'], [.flag 'a', .flag 'b', .kwarg ['x'] none]⟩

theorem kwarg_spelled_dashed :
    parseLine "q -ab-x".toList = .ok dashed ∧ .kwarg ['x'] none ∈ dashed.children ∧
      SpellsKey "q -ab-x".toList ['x'] := by
  have h : parseLine "q -ab-x".toList = .ok dashed := by decide +kernel
  have hn : .kwarg ['x'] none ∈ dashed.children := by simp [dashed]
  exact ⟨h, hn, kwarg_spelled h hn⟩

/-- A line without two dashes in a row may all the same have a kwarg. -/
theorem kwarg_without_dashes :
    ∃ line tree k, parseLine line = .ok tree ∧ .kwarg k none ∈ tree.children ∧
      ¬['-', '-'] <:+: line :=
  ⟨"q -a-x".toList, ⟨some ['q'], [.flag 'a', .kwarg ['x'] none]⟩, ['x'], by decide +kernel,
    by simp, by decide +kernel⟩

end ChatCommand.Grammar
