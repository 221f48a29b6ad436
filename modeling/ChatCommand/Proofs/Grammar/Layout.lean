import ChatCommand.Proofs.Grammar.Lexeme
import ChatCommand.Proofs.Text.Lines
import Mathlib.Data.List.Chain

namespace ChatCommand.Grammar

open Text

theorem trimmed_front {α : Type} {rule : Text → Step α} {s lead : Text} (hs : Solid s)
    (hlead : ∀ c ∈ lead, isBlank c) (rest : Text) :
    trimmed rule (lead ++ (s ++ rest)) = rule (s ++ trimEnd rest) := by
  have htrim := hs.trim_append (t := rest) hlead
  rw [trimmed_of_trim_ne_nil, htrim]
  rw [htrim]
  simp [hs.ne_nil]

/-- The pieces are found in the text, and nothing but blanks is left. -/
def ReadsAs (s : Text) (ns : List Node) : Prop :=
  ∃ left, onePass s = .ok (ns, left) ∧ trim left = []

namespace ReadsAs

variable {s t rest : Text} {n : Node} {ns : List Node}

theorem of_blank (h : ∀ c ∈ s, isBlank c) : ReadsAs s [] := by
  have hs := trim_eq_nil_iff.2 h
  exact ⟨s, exhaust_of_none (trimmed_of_trim_eq_nil hs), hs⟩

theorem cons (hs : trimmed piece s = .ok (some n, rest)) (h : ReadsAs rest ns) :
    ReadsAs s (n :: ns) := by
  obtain ⟨left, hrest, hleft⟩ := h
  refine ⟨left, ?_, hleft⟩
  rw [onePass, exhaust_of_some hs, ← onePass, hrest]
  rfl

theorem congr (hs : trim s = trim t) (h : ReadsAs s ns) : ReadsAs t ns := by
  obtain ⟨left, hread, hleft⟩ := h
  have hpiece : trimmed piece s = trimmed piece t := trimmed_congr hs
  rcases exhaust_cases piece_shortens s with ⟨e, _, he⟩ | ⟨u, hu, hnil⟩ | ⟨a, mid, ha, _, hmid⟩
  · cases he.symm.trans hread
  · cases hnil.symm.trans hread
    exact ⟨t, exhaust_of_none (hpiece ▸ hu), hs ▸ hleft⟩
  · refine ⟨left, ?_, hleft⟩
    rw [onePass, exhaust_of_some (hpiece ▸ ha), ← hmid]
    exact hread

end ReadsAs

theorem piece_literal {s rest : Text} {a : Text} (h : literal s = .ok (some a, rest)) :
    piece s = .ok (some (.value a), rest) := by
  have hvalue : value s = .ok (some (.value a), rest) := by
    rw [value, h]
    rfl
  have hflag : flag s = .ok (none, s) := by
    have : Token.letter s = none := by
      unfold Token.letter
      split
      · rename_i c t
        cases (literal_dash (c :: t)).symm.trans h
      · rfl
    simp [flag, this]
  simp only [piece, hflag, hvalue]

theorem piece_letter {c : Char} (h : isAlphanumeric c) (s : Text) :
    piece ('-' :: c :: s) = .ok (some (.flag c), Token.clusterRest s) := by
  simp [piece, flag, Token.letter, h]

theorem clusterRest_of_parted {s : Text} (h : Parted s) : Token.clusterRest s = trimStart s := by
  cases s with
  | nil => rfl
  | cons c s =>
    have hc : isBlank c := h c rfl
    rw [Token.clusterRest, if_pos hc]

theorem clusterRest_of_letter {c : Char} (h : isAlphanumeric c) (s : Text) :
    Token.clusterRest (c :: s) = '-' :: c :: s := by
  have hc := Token.not_isBlank_of_isSymbolChar (Token.isSymbolChar_of_isAlphanumeric h)
  rw [Token.clusterRest, if_neg (by simp [hc])]

theorem piece_key {k rest : Text} (hk : Token.isSymbol k) (hrest : Parted rest) :
    piece ('-' :: '-' :: k ++ rest) =
      match trimmed literal rest.tail with
      | .error e => .error e
      | .ok (none, _) => .ok (some (.kwarg k none), rest.tail)
      | .ok (some content, left) => .ok (some (.kwarg k (some content)), left) := by
  have hkey : Token.key ('-' :: '-' :: (k ++ rest)) = some (k, rest.tail) := by
    simp [Token.key, Token.word_of_isSymbol hk hrest, hk]
  rcases hvalue : trimmed literal rest.tail with e | ⟨_ | content, left⟩
  all_goals simp only [piece, List.cons_append, flag_dash_dash, value_dash, kwarg, hkey, hvalue]

namespace ReadsAs

variable {rest lead : Text} {ns : List Node}

theorem literal (l : Literal) (hlead : ∀ c ∈ lead, isBlank c) (hrest : Parted rest)
    (h : ReadsAs rest ns) : ReadsAs (lead ++ (l.text ++ rest)) (.value l.content :: ns) := by
  obtain ⟨left, hl, hleft⟩ := literal_text l hrest.trimEnd
  rw [trim_trimEnd] at hleft
  refine .cons ?_ (h.congr hleft.symm)
  rw [trimmed_front l.solid hlead]
  exact piece_literal hl

theorem cluster {first : Char} {more : List Char} (hall : ∀ c ∈ first :: more, isAlphanumeric c)
    (hlead : ∀ c ∈ lead, isBlank c) (hrest : Parted rest) (h : ReadsAs rest ns) :
    ReadsAs (lead ++ ((Lexeme.cluster first more hall).text ++ rest))
      ((first :: more).map .flag ++ ns) := by
  have hfirst : isAlphanumeric first := hall first (by simp)
  induction more generalizing first lead rest with
  | nil =>
    have hread : ReadsAs (trimStart (trimEnd rest)) ns := h.congr (by simp)
    refine .cons ?_ hread
    rw [trimmed_front (Lexeme.cluster first [] hall).solid hlead]
    rw [← clusterRest_of_parted hrest.trimEnd]
    exact piece_letter hfirst _
  | cons d more ih =>
    have hmore : ∀ c ∈ d :: more, isAlphanumeric c := fun c hc ↦ hall c (by simp [hc])
    have hd : isAlphanumeric d := hmore d (by simp)
    have hnone : ∀ c ∈ ([] : Text), isBlank c := by simp
    have hread := ih hmore hnone hrest.trimEnd (h.congr (by simp)) hd
    refine .cons ?_ hread
    rw [trimmed_front (Lexeme.cluster first (d :: more) hall).solid hlead]
    have hstep := piece_letter hfirst (d :: (more ++ trimEnd rest))
    rw [clusterRest_of_letter hd] at hstep
    exact hstep

theorem openKey {k : Text} (hk : Token.isSymbol k) (hlead : ∀ c ∈ lead, isBlank c)
    (hrest : Parted rest) (hnone : ∃ t, trimmed Grammar.literal rest = .ok (none, t))
    (h : ReadsAs rest ns) :
    ReadsAs (lead ++ ((Lexeme.key k hk).text ++ rest)) (.kwarg k none :: ns) := by
  have htail : trim (trimEnd rest).tail = trim rest := by rw [hrest.trimEnd.trim_tail, trim_trimEnd]
  obtain ⟨t, ht⟩ := hnone
  have hread : ReadsAs (trimEnd rest).tail ns := h.congr htail.symm
  refine .cons ?_ hread
  rw [trimmed_front (Lexeme.key k hk).solid hlead]
  refine (piece_key hk hrest.trimEnd).trans ?_
  rw [trimmed_congr htail, ht]

theorem keyed {k : Text} (hk : Token.isSymbol k) (gap : Gap) (l : Literal)
    (hlead : ∀ c ∈ lead, isBlank c) (hrest : Parted rest) (h : ReadsAs rest ns) :
    ReadsAs (lead ++ ((Lexeme.keyed k hk gap l).text ++ rest))
      (.kwarg k (some l.content) :: ns) := by
  obtain ⟨gap, hne, hgap⟩ := gap
  obtain ⟨c, g, rfl⟩ := List.exists_cons_of_ne_nil hne
  have hparted : Parted (c :: g ++ (l.text ++ trimEnd rest)) := by
    simpa [Parted] using hgap c (by simp)
  obtain ⟨left, hl, hleft⟩ := literal_text l hrest.trimEnd.trimEnd
  have hread : ReadsAs left ns := h.congr (by simpa using hleft.symm)
  refine .cons ?_ hread
  rw [trimmed_front (Lexeme.keyed k hk ⟨c :: g, hne, hgap⟩ l).solid hlead, Lexeme.text,
    List.append_assoc, List.append_assoc]
  refine (piece_key hk hparted).trans ?_
  have hvalue : trimmed Grammar.literal (g ++ (l.text ++ trimEnd rest)) =
      .ok (some l.content, left) := by
    rw [trimmed_front l.solid fun c hc ↦ hgap c (by simp [hc])]
    exact hl
  simp only [List.cons_append, List.tail_cons, hvalue]

theorem lexeme (t : Lexeme) (hlead : ∀ c ∈ lead, isBlank c) (hrest : Parted rest)
    (hopen : t.isOpenKey → ∃ u, trimmed Grammar.literal rest = .ok (none, u))
    (h : ReadsAs rest ns) :
    ReadsAs (lead ++ (t.text ++ rest)) (t.positionals ++ t.kwargs ++ ns) := by
  cases t with
  | literal l => exact literal l hlead hrest h
  | cluster first more hall =>
    simpa [Lexeme.positionals, Lexeme.kwargs, Lexeme.text] using cluster hall hlead hrest h
  | key k hk => exact openKey hk hlead hrest (hopen rfl) h
  | keyed k hk gap l => exact keyed hk gap l hlead hrest h

end ReadsAs

/-- Pieces one behind the other, each behind its gap. -/
def layout (parts : List (Gap × Lexeme)) : Text :=
  parts.flatMap fun p ↦ p.1.1 ++ p.2.text

variable {parts : List (Gap × Lexeme)} {trail : Text}

theorem parted_layout (htrail : ∀ c ∈ trail, isBlank c) : Parted (layout parts ++ trail) := by
  cases parts with
  | nil => exact .of_blank htrail
  | cons p parts =>
    obtain ⟨⟨gap, hne, hgap⟩, t⟩ := p
    obtain ⟨c, g, rfl⟩ := List.exists_cons_of_ne_nil hne
    simpa [Parted, layout] using hgap c (by simp)

theorem literal_layout (htrail : ∀ c ∈ trail, isBlank c)
    (hfirst : ∀ t ∈ (parts.map (·.2)).head?, t.isLiteral = false) :
    ∃ u, trimmed literal (layout parts ++ trail) = .ok (none, u) := by
  cases parts with
  | nil => exact ⟨[], trimmed_of_trim_eq_nil (trim_eq_nil_iff.2 htrail)⟩
  | cons p parts =>
    obtain ⟨⟨gap, hne, hgap⟩, t⟩ := p
    obtain ⟨s, hs⟩ := t.exists_dash (hfirst t rfl)
    have split : layout ((⟨gap, hne, hgap⟩, t) :: parts) ++ trail =
        gap ++ (t.text ++ (layout parts ++ trail)) := by
      simp [layout]
    rw [split, trimmed_front t.solid hgap, hs]
    exact ⟨_, literal_dash _⟩

theorem readsAs_layout (hparts : (parts.map (·.2)).IsChain Lexeme.Separate)
    (htrail : ∀ c ∈ trail, isBlank c) :
    ReadsAs (layout parts ++ trail) (parts.flatMap fun p ↦ p.2.positionals ++ p.2.kwargs) := by
  induction parts with
  | nil => exact .of_blank htrail
  | cons p parts ih =>
    obtain ⟨⟨gap, hne, hgap⟩, t⟩ := p
    have hopen (h : t.isOpenKey) : ∃ u, trimmed literal (layout parts ++ trail) = .ok (none, u) :=
      literal_layout htrail fun u hu ↦ (List.isChain_cons.1 hparts).1 u hu h
    have hrest := ih (List.isChain_cons.1 hparts).2
    have := ReadsAs.lexeme t hgap (parted_layout htrail) hopen hrest
    simpa [layout] using this

section Line

variable {line : Text}

theorem word_trim_eq_nil_iff : (Token.word (trim line)).1 = [] ↔ trim line = [] := by
  constructor
  · intro h
    by_contra hne
    obtain ⟨c, t, hline, hc⟩ := (solid_trim hne).first
    simp [hline, Token.word, hc] at h
  · intro h
    rw [h]
    rfl

theorem parseLine_of_no_name (h : Token.isName (Token.word (trim line)).1 = false) :
    parseLine line =
      .error (if trim line = [] then .emptyInput
        else .missingName (Token.word (trim line)).1) := by
  have hname : name (trim line) = .ok (none, trim line) := by simp [name, h]
  by_cases hline : trim line = []
  · rw [parseLine, trimmed_of_trim_eq_nil hline]
    simp [hline, Token.word]
  · have hcommand : trimmed command line = .ok (none, trim line) := by
      rw [trimmed_of_trim_ne_nil hline, command, trimmed_of_trim_ne_nil (by simpa using hline),
        trim_trim, hname]
    have hword : (Token.word (trim line)).1 ≠ [] := fun hw ↦ hline (word_trim_eq_nil_iff.1 hw)
    obtain ⟨c, found, hfound⟩ := List.exists_cons_of_ne_nil hword
    rw [parseLine, hcommand]
    simp only [hfound, if_neg hline]

theorem parseLine_of_name (h : Token.isName (Token.word (trim line)).1) :
    (∀ e, onePass (Token.word (trim line)).2 = .error e → parseLine line = .error e) ∧
      ∀ ns left, onePass (Token.word (trim line)).2 = .ok (ns, left) →
        parseLine line =
          if trim left = [] then
            .ok ⟨some (Token.word (trim line)).1, ns.filter (!isKwarg ·) ++ ns.filter isKwarg⟩
          else .error (.unexpectedInput (trim left)) := by
  have hline : trim line ≠ [] := by
    intro hnil
    rw [hnil] at h
    cases h
  have hname : trimmed name (trim line) =
      .ok (some (Token.word (trim line)).1, (Token.word (trim line)).2) := by
    rw [trimmed_of_trim_ne_nil (by simpa using hline), trim_trim, name, if_pos h]
  have hcommand : trimmed command line = command (trim line) := trimmed_of_trim_ne_nil hline
  refine ⟨fun e he ↦ ?_, fun ns left hread ↦ ?_⟩
  · have hargs : args (Token.word (trim line)).2 = .error e := by
      rw [args, gather_eq_onePass, he]
      rfl
    simp only [parseLine, hcommand, command, hname, hargs]
  · have hargs : args (Token.word (trim line)).2 =
        .ok (ns.filter (!isKwarg ·) ++ ns.filter isKwarg, left) := by
      rw [args, gather_eq_onePass, hread]
      rfl
    simp only [parseLine, hcommand, command, hname, hargs]

end Line

theorem parseLine_of_readsAs {root lead rest : Text} {ns : List Node} (hroot : Token.isName root)
    (hlead : ∀ c ∈ lead, isBlank c) (hrest : Parted rest) (h : ReadsAs rest ns) :
    parseLine (lead ++ (root ++ rest)) =
      .ok ⟨some root, ns.filter (!isKwarg ·) ++ ns.filter isKwarg⟩ := by
  have hsymbol : Token.isSymbol root := (Bool.and_eq_true_iff.1 hroot).1
  have hword : Token.word (trim (lead ++ (root ++ rest))) = (root, (trimEnd rest).tail) := by
    rw [(Token.solid_of_isSymbol hsymbol).trim_append hlead]
    exact Token.word_of_isSymbol hsymbol hrest.trimEnd
  have htail : trim rest = trim (trimEnd rest).tail := by
    rw [hrest.trimEnd.trim_tail, trim_trimEnd]
  obtain ⟨left, hread, hleft⟩ := h.congr htail
  have hname : Token.isName (Token.word (trim (lead ++ (root ++ rest)))).1 := by rwa [hword]
  rw [(parseLine_of_name hname).2 ns left (by rwa [hword]), hword, if_pos hleft]

theorem parseLine_of_symbols {root a b : Text} (hroot : Token.isName root)
    (ha : Token.isSymbol a) (hb : Token.isSymbol b) :
    parseLine (root ++ ' ' :: (a ++ ' ' :: b)) = .ok ⟨some root, [.value a, .value b]⟩ := by
  have hnone : ∀ c ∈ ([] : Text), isBlank c := List.forall_mem_nil _
  have hspace : ∀ c ∈ [' '], isBlank c := List.forall_mem_singleton.2 rfl
  have hparted (s : Text) : Parted (' ' :: s) := by
    intro c hc
    cases hc
    rfl
  have hlast : ReadsAs ([' '] ++ (b ++ [])) [.value b] :=
    ReadsAs.literal (.bare b hb) hspace (fun _ hc ↦ by cases hc) (.of_blank hnone)
  have hboth : ReadsAs ([' '] ++ (a ++ ([' '] ++ (b ++ [])))) [.value a, .value b] :=
    hlast.literal (.bare a ha) hspace (hparted _)
  have hline := parseLine_of_readsAs hroot hnone (hparted _) hboth
  simp only [List.append_nil, List.nil_append, List.cons_append] at hline
  exact hline

theorem filter_positionals (parts : List (Gap × Lexeme)) :
    (parts.flatMap fun p ↦ p.2.positionals ++ p.2.kwargs).filter (!isKwarg ·) =
      parts.flatMap (·.2.positionals) := by
  rw [List.filter_flatMap]
  refine congrArg (List.flatMap · parts) (funext fun p ↦ ?_)
  rcases p with ⟨gap, _ | _ | _ | _⟩ <;> simp [Lexeme.positionals, Lexeme.kwargs, isKwarg]

theorem filter_kwargs (parts : List (Gap × Lexeme)) :
    (parts.flatMap fun p ↦ p.2.positionals ++ p.2.kwargs).filter isKwarg =
      parts.flatMap (·.2.kwargs) := by
  rw [List.filter_flatMap]
  refine congrArg (List.flatMap · parts) (funext fun p ↦ ?_)
  rcases p with ⟨gap, _ | _ | _ | _⟩ <;> simp [Lexeme.positionals, Lexeme.kwargs, isKwarg]

/-- Whatever the pieces of a line and the blanks around them, the line is read as those pieces: the
values and flags in their order, then the kwargs in theirs. -/
theorem parseLine_layout (lead root trail : Text) (parts : List (Gap × Lexeme))
    (hlead : ∀ c ∈ lead, isBlank c) (hroot : Token.isName root)
    (hparts : (parts.map (·.2)).IsChain Lexeme.Separate) (htrail : ∀ c ∈ trail, isBlank c) :
    parseLine (lead ++ root ++ layout parts ++ trail) =
      .ok ⟨some root, parts.flatMap (·.2.positionals) ++ parts.flatMap (·.2.kwargs)⟩ := by
  have hread := parseLine_of_readsAs hroot hlead (parted_layout htrail)
    (readsAs_layout hparts htrail)
  rw [filter_positionals, filter_kwargs] at hread
  simpa only [List.append_assoc] using hread

theorem parseLine_layout_mixed :
    parseLine ['\u3000', 'q', ' ', '-', 'r', 'f', '\t', ' ', '"', 'i', '\'', 's', ' ', '-', 'x',
        '"', ' ', '-', '-', 't', 'o', ' ', '\n', '\'', '"', ' ', '\'', ' ', '-', '-', 'a', 'l', 'l',
        ' ', '-', 'v', ' ', 'å', '_', ' ', '-', '-', 'z', ' '] =
      .ok ⟨some ['q'], [.flag 'r', .flag 'f', .value ['i', '\'', 's', ' ', '-', 'x'], .flag 'v',
        .value ['å', '_'], .kwarg ['t', 'o'] (some ['"', ' ']), .kwarg ['a', 'l', 'l'] none,
        .kwarg ['z'] none]⟩ := by
  let space : Gap := ⟨[' '], by simp, List.all_eq_true.1 rfl⟩
  let tab : Gap := ⟨['\t', ' '], by simp, List.all_eq_true.1 rfl⟩
  let line : Gap := ⟨[' ', '\n'], by simp, List.all_eq_true.1 rfl⟩
  exact parseLine_layout ['\u3000'] ['q'] [' ']
    [(space, .cluster 'r' ['f'] (List.all_eq_true.1 (by decide +kernel))),
      (tab, .literal (.quoted '"' ['i', '\'', 's', ' ', '-', 'x'] rfl (by decide))),
      (space, .keyed ['t', 'o'] (by decide +kernel) line (.quoted '\'' ['"', ' '] rfl (by decide))),
      (space, .key ['a', 'l', 'l'] (by decide +kernel)),
      (space, .cluster 'v' [] (List.all_eq_true.1 (by decide +kernel))),
      (space, .literal (.bare ['å', '_'] (by decide +kernel))),
      (space, .key ['z'] (by decide +kernel))]
    (List.all_eq_true.1 rfl) (by decide +kernel)
    (by simp [Lexeme.Separate, Lexeme.isOpenKey, Lexeme.isLiteral]) (List.all_eq_true.1 rfl)

end ChatCommand.Grammar
