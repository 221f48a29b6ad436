import ChatCommand.Proofs.Grammar.Piece

namespace ChatCommand

open Text

def Text.Quotable (s : Text) : Prop :=
  ¬('\'' ∈ s ∧ '"' ∈ s)

theorem Text.quotable_iff {s : Text} : Quotable s ↔ ∃ mark, Token.isQuote mark ∧ mark ∉ s := by
  have marks (c : Char) : Token.isQuote c ↔ c = '\'' ∨ c = '"' := by simp [Token.isQuote]
  rw [Quotable, not_and_or]
  constructor
  · rintro (h | h)
    · exact ⟨_, (marks _).2 (.inl rfl), h⟩
    · exact ⟨_, (marks _).2 (.inr rfl), h⟩
  · rintro ⟨mark, hmark, h⟩
    rcases (marks mark).1 hmark with rfl | rfl
    · exact .inl h
    · exact .inr h

namespace Node

/-- A node that can be spelled on a line. -/
def Legible : Node → Prop
  | .value s => Quotable s
  | .flag c => isAlphanumeric c
  | .kwarg k v => Token.isSymbol k ∧ ∀ s ∈ v, Quotable s
  | .tree _ _ => False

/-- A spelling of a node, texts between marks that they do not contain. -/
inductive Written : Node → Text → Prop
  | value {mark : Char} {s : Text} : Token.isQuote mark → mark ∉ s →
      Written (.value s) (mark :: s ++ [mark])
  | flag (c : Char) : Written (.flag c) ['-', c]
  | key (k : Text) : Written (.kwarg k none) ('-' :: '-' :: k)
  | keyed {mark : Char} {s : Text} (k : Text) : Token.isQuote mark → mark ∉ s →
      Written (.kwarg k (some s)) ('-' :: '-' :: k ++ ' ' :: (mark :: s ++ [mark]))

theorem Legible.exists_written {n : Node} (h : n.Legible) : ∃ text, n.Written text := by
  cases n with
  | value s =>
    obtain ⟨mark, hmark, hs⟩ := quotable_iff.1 h
    exact ⟨_, .value hmark hs⟩
  | flag c => exact ⟨_, .flag c⟩
  | kwarg k v =>
    cases v with
    | none => exact ⟨_, .key k⟩
    | some s =>
      obtain ⟨mark, hmark, hs⟩ := quotable_iff.1 (h.2 s rfl)
      exact ⟨_, .keyed k hmark hs⟩
  | tree => cases h

theorem exists_forall₂_written {ns : List Node} (h : ∀ n ∈ ns, n.Legible) :
    ∃ texts, List.Forall₂ Written ns texts := by
  induction ns with
  | nil => exact ⟨[], .nil⟩
  | cons n ns ih =>
    obtain ⟨hn, hns⟩ := List.forall_mem_cons.1 h
    obtain ⟨text, htext⟩ := hn.exists_written
    obtain ⟨texts, htexts⟩ := ih hns
    exact ⟨text :: texts, .cons htext htexts⟩

end Node

namespace Tree

/-- What a line can be read as: a name, then values and flags, and kwargs at the end. -/
structure Canonical (t : Tree) : Prop where
  name : ∃ root, t.root = some root ∧ Token.isName root
  order : ∃ positionals kwargs, t.children = positionals ++ kwargs ∧
    (∀ n ∈ positionals, Grammar.isKwarg n = false) ∧ ∀ n ∈ kwargs, Grammar.isKwarg n
  legible : ∀ n ∈ t.children, n.Legible

/-- The tree on a line, with one space in front of each node. -/
def WrittenAs (t : Tree) (line : Text) : Prop :=
  ∃ texts, List.Forall₂ Node.Written t.children texts ∧
    line = t.name ++ texts.flatMap (' ' :: ·)

theorem Canonical.exists_writtenAs {t : Tree} (h : t.Canonical) : ∃ line, t.WrittenAs line := by
  obtain ⟨texts, htexts⟩ := Node.exists_forall₂_written h.legible
  exact ⟨_, texts, htexts, rfl⟩

end Tree

namespace Grammar

variable {s rest line : Text} {n : Node} {ns : List Node} {texts : List Text} {tree : Tree}

theorem quotable_of_literal {a : Text} (h : literal s = .ok (some a, rest)) : Quotable a := by
  rw [quotable_iff]
  rcases literal_eq_some_iff.1 h with ⟨ha, -⟩ | ⟨mark, hmark, hfree, -⟩
  · refine ⟨'"', by decide, fun hmem ↦ ?_⟩
    exact absurd ((Token.forall_of_isSymbol ha).2 _ hmem) (by decide +kernel)
  · exact ⟨mark, hmark, hfree⟩

theorem legible_of_piece (h : Piece s n rest) : n.Legible := by
  cases h with
  | value ha => exact quotable_of_literal ha
  | flag t hc => exact hc
  | key hk => exact ⟨hk, by simp⟩
  | keyed hk _ ha =>
    have hquotable := quotable_of_literal (trimmed_eq_some ha)
    exact ⟨hk, by simpa using hquotable⟩

theorem ReadsAs.legible (h : ReadsAs s ns) : ∀ n ∈ ns, n.Legible := by
  obtain ⟨left, hread, -⟩ := h
  exact exhaust_forall (fun _ _ _ hpiece ↦ legible_of_piece (piece_eq_some_iff.1 hpiece)) hread

theorem canonical_of_parseLine (h : parseLine line = .ok tree) : tree.Canonical := by
  obtain ⟨root, rest, ns, hroot, -, -, hread, rfl⟩ := parseLine_eq_ok_iff.1 h
  refine ⟨⟨root, rfl, hroot⟩, ⟨_, _, rfl, ?_, ?_⟩,
    fun n hn ↦ hread.legible n (mem_kwargs_last.1 hn)⟩
  · simp
  · simp

theorem literal_of_dash {lead : Text} (hlead : ∀ c ∈ lead, isBlank c) :
    ∃ u, trimmed literal (lead ++ '-' :: s) = .ok (none, u) := by
  have hfront : trimmed literal (lead ++ (['-'] ++ s)) = _ := trimmed_front solid_dash hlead s
  exact ⟨_, hfront.trans (literal_dash _)⟩

theorem exists_dash_of_written {text : Text} (h : n.Written text) (hn : isKwarg n) :
    ∃ t, text = '-' :: t := by
  cases h with
  | value | flag => cases hn
  | key | keyed => exact ⟨_, rfl⟩

theorem parted_written : Parted (texts.flatMap (' ' :: ·)) := by
  cases texts with
  | nil => exact .of_blank (by simp)
  | cons text texts =>
    intro c hc
    cases hc
    rfl

theorem isBlank_space : ∀ c ∈ [' '], isBlank c :=
  List.forall_mem_singleton.2 rfl

theorem ReadsAs.written {text : Text} (h : ReadsAs rest ns) (hn : n.Written text)
    (hlegible : n.Legible) (hrest : Parted rest)
    (hopen : isKwarg n → ∃ u, trimmed Grammar.literal rest = .ok (none, u)) :
    ReadsAs (' ' :: (text ++ rest)) (n :: ns) := by
  cases hn with
  | @value mark s hmark hfree =>
    exact ReadsAs.literal (.quoted mark s hmark hfree) isBlank_space hrest h
  | flag c =>
    exact ReadsAs.cluster (List.forall_mem_singleton.2 hlegible) isBlank_space hrest h
  | key k => exact ReadsAs.openKey hlegible.1 isBlank_space hrest (hopen rfl) h
  | @keyed mark s k hmark hfree =>
    exact ReadsAs.keyed hlegible.1 ⟨[' '], by simp, isBlank_space⟩ (.quoted mark s hmark hfree)
      isBlank_space hrest h

theorem readsAs_written (h : List.Forall₂ Node.Written ns texts) (hlegible : ∀ n ∈ ns, n.Legible)
    (horder : ns.Pairwise fun m n ↦ isKwarg m → isKwarg n) :
    ReadsAs (texts.flatMap (' ' :: ·)) ns := by
  induction h with
  | nil => exact .of_blank (by simp)
  | @cons n text ns texts hn hns ih =>
    obtain ⟨hfirst, horder⟩ := List.pairwise_cons.1 horder
    have hread := ih (fun m hm ↦ hlegible m (by simp [hm])) horder
    refine hread.written hn (hlegible n (by simp)) parted_written fun hkwarg ↦ ?_
    cases hns with
    | nil => exact ⟨[], rfl⟩
    | @cons m text ms texts hm =>
      obtain ⟨t, rfl⟩ := exists_dash_of_written hm (hfirst m (by simp) hkwarg)
      exact literal_of_dash isBlank_space

section Order

variable {positionals kwargs : List Node}

theorem pairwise_isKwarg (hpos : ∀ n ∈ positionals, isKwarg n = false)
    (hkw : ∀ n ∈ kwargs, isKwarg n) :
    (positionals ++ kwargs).Pairwise fun m n ↦ isKwarg m → isKwarg n := by
  refine List.pairwise_append.2 ⟨?_, ?_, fun m _ n hn _ ↦ hkw n hn⟩
  · exact List.pairwise_of_forall_mem_list fun m hm n _ h ↦ by simp [hpos m hm] at h
  · exact List.pairwise_of_forall_mem_list fun m _ n hn _ ↦ hkw n hn

theorem filter_isKwarg_append (hpos : ∀ n ∈ positionals, isKwarg n = false)
    (hkw : ∀ n ∈ kwargs, isKwarg n) :
    (positionals ++ kwargs).filter (!isKwarg ·) ++ (positionals ++ kwargs).filter isKwarg =
      positionals ++ kwargs := by
  have hfront : (positionals ++ kwargs).filter (!isKwarg ·) = positionals := by
    rw [List.filter_append, List.filter_eq_self.2 (by simpa using hpos),
      List.filter_eq_nil_iff.2 (by simpa using hkw), List.append_nil]
  have hback : (positionals ++ kwargs).filter isKwarg = kwargs := by
    rw [List.filter_append, List.filter_eq_nil_iff.2 (by simpa using hpos),
      List.filter_eq_self.2 hkw, List.nil_append]
  rw [hfront, hback]

end Order

theorem parseLine_of_writtenAs (hc : tree.Canonical) (hw : tree.WrittenAs line) :
    parseLine line = .ok tree := by
  obtain ⟨root, children⟩ := tree
  obtain ⟨⟨root, rfl, hroot⟩, ⟨positionals, kwargs, rfl, hpos, hkw⟩, hlegible⟩ := hc
  obtain ⟨texts, htexts, rfl⟩ := hw
  have hnone : ∀ c ∈ ([] : Text), isBlank c := List.forall_mem_nil _
  have hread := readsAs_written htexts hlegible (pairwise_isKwarg hpos hkw)
  have hparse := parseLine_of_readsAs hroot hnone parted_written hread
  rwa [filter_isKwarg_append hpos hkw] at hparse

/-- The trees of lines are the canonical ones, and each is read again from any way to write it. -/
theorem parseLine_image :
    (∀ tree, (∃ line, parseLine line = .ok tree) ↔ tree.Canonical) ∧
      ∀ line tree, parseLine line = .ok tree →
        (∃ back, tree.WrittenAs back) ∧
          ∀ back, tree.WrittenAs back → parseLine back = .ok tree := by
  refine ⟨fun tree ↦ ⟨fun ⟨_, h⟩ ↦ canonical_of_parseLine h, fun h ↦ ?_⟩, fun line tree h ↦ ?_⟩
  · obtain ⟨line, hline⟩ := h.exists_writtenAs
    exact ⟨line, parseLine_of_writtenAs h hline⟩
  · have hc := canonical_of_parseLine h
    exact ⟨hc.exists_writtenAs, fun back hback ↦ parseLine_of_writtenAs hc hback⟩

def tagged : Tree :=
  ⟨some ['q'], [.flag 'a', .flag 'b', .value ['x', '"'],
    .kwarg ['t', 'o'] (some ['i', 't', '\'', 's']), .kwarg ['a', 'l', 'l'] none]⟩

def retagged : Text :=
  "q -a -b 'x\"' --to \"it's\" --all".toList

theorem parseLine_image_tagged :
    parseLine "q --to \"it's\" -ab  'x\"'--all".toList = .ok tagged ∧
      tagged.WrittenAs retagged ∧ parseLine retagged = .ok tagged := by
  have h : parseLine "q --to \"it's\" -ab  'x\"'--all".toList = .ok tagged := by decide +kernel
  have htext : Node.Written (.value ['x', '"']) ['\'', 'x', '"', '\''] := .value rfl (by decide)
  have hto : Node.Written (.kwarg ['t', 'o'] (some ['i', 't', '\'', 's']))
      "--to \"it's\"".toList := .keyed _ rfl (by decide)
  have hw : tagged.WrittenAs retagged :=
    ⟨_, .cons (.flag _) (.cons (.flag _) (.cons htext (.cons hto (.cons (.key _) .nil)))), rfl⟩
  exact ⟨h, hw, (parseLine_image.2 _ _ h).2 _ hw⟩

end Grammar

end ChatCommand
