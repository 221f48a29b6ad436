import ChatCommand.Command.Help
import ChatCommand.Proofs.Command.WellFormed
import ChatCommand.Proofs.Grammar.Lexeme
import ChatCommand.Proofs.Text.Lines
import ChatCommand.Proofs.Text.Pieces

namespace ChatCommand

open Text

namespace Text

variable {s line : Text} {ls : List Text} {m n : Nat}

def indentation (line : Text) : Nat :=
  (line.takeWhile (· = ' ')).length

/-- Whether there is something on the line, behind just so many spaces. -/
def standsAt (n : Nat) (line : Text) : Bool :=
  line ≠ [] && indentation line = n

@[simp]
theorem standsAt_nil (n : Nat) : standsAt n [] = false := rfl

theorem standsAt_iff : standsAt n line ↔ line ≠ [] ∧ indentation line = n := by
  simp only [standsAt, Bool.and_eq_true, decide_eq_true_eq]

theorem eq_of_standsAt (hm : standsAt m line) (hn : standsAt n line) : m = n := by
  have hm := (standsAt_iff.1 hm).2
  have hn := (standsAt_iff.1 hn).2
  omega

theorem indentation_spaces_append (n : Nat) (s : Text) :
    indentation (spaces n ++ s) = n + indentation s := by
  have hspaces : ∀ c ∈ spaces n, decide (c = ' ') = true := fun c hc ↦
    decide_eq_true (List.eq_of_mem_replicate hc)
  rw [indentation, List.takeWhile_append_of_pos hspaces, List.length_append, indentation]
  exact congrArg (· + _) List.length_replicate

theorem indentation_cons_of_ne {c : Char} (h : c ≠ ' ') (s : Text) : indentation (c :: s) = 0 := by
  rw [indentation, List.takeWhile_cons_of_neg (by simpa using h), List.length_nil]

theorem standsAt_spaces_append {c : Char} (h : c ≠ ' ') (n : Nat) (s : Text) :
    standsAt n (spaces n ++ c :: s) := by
  rw [standsAt_iff, indentation_spaces_append, indentation_cons_of_ne h]
  exact ⟨List.append_ne_nil_of_right_ne_nil _ (List.cons_ne_nil c s), rfl⟩

theorem unlines_eq_nil_iff : unlines ls = [] ↔ ls = [] := by
  cases ls with
  | nil => simp
  | cons l ls => simp [unlines_cons]

/-- Groups of lines one below the other, with an empty line between any two. -/
def spaced : List (List Text) → List Text
  | [] => []
  | ls :: more => ls ++ more.flatMap ([] :: ·)

theorem unlines_flatMap {α : Type} (f : α → List Text) (l : List α) :
    unlines (l.flatMap f) = l.flatMap fun a ↦ unlines (f a) := by
  simp only [unlines, List.flatMap_assoc]

theorem unlines_spaced (groups : List (List Text)) :
    unlines (spaced groups) = join ['\n'] (groups.map unlines) := by
  cases groups with
  | nil => rfl
  | cons ls more =>
    rw [spaced, unlines_append, unlines_flatMap, List.map_cons, join_cons, List.flatMap_map]
    rfl

theorem filter_spaced {p : Text → Bool} (h : p [] = false) (groups : List (List Text)) :
    (spaced groups).filter p = groups.flatMap (·.filter p) := by
  cases groups with
  | nil => rfl
  | cons ls more =>
    rw [spaced, List.filter_append, List.filter_flatMap, List.flatMap_cons]
    simp only [List.filter_cons_of_neg (by simp [h] : ¬p [] = true)]

theorem forall_mem_spaced {P : Text → Prop} {groups : List (List Text)} (hnil : P [])
    (h : ∀ ls ∈ groups, ∀ line ∈ ls, P line) : ∀ line ∈ spaced groups, P line := by
  cases groups with
  | nil => exact List.forall_mem_nil _
  | cons ls more =>
    obtain ⟨hls, hmore⟩ := List.forall_mem_cons.1 h
    refine List.forall_mem_append.2 ⟨hls, fun line hline ↦ ?_⟩
    obtain ⟨group, hgroup, hline⟩ := List.mem_flatMap.1 hline
    rcases List.mem_cons.1 hline with rfl | hline
    · exact hnil
    · exact hmore group hgroup line hline

def docLines (indent : Nat) (doc : Text) : List Text :=
  (((pieces '\n' doc).map trimEnd).filter (· ≠ [])).map (spaces indent ++ ·)

theorem unlines_docLines (indent : Nat) (doc : Text) :
    unlines (docLines indent doc) = indentLines indent doc := by
  rw [docLines, indentLines]
  induction pieces '\n' doc with
  | nil => rfl
  | cons line lines ih =>
    rw [List.map_cons, List.flatMap_cons, ← ih]
    by_cases h : trimEnd line = []
    · simp [h]
    · simp [h, unlines_cons]

theorem mem_docLines (h : line ∈ docLines n s) :
    '\n' ∉ line ∧ line ≠ [] ∧ n ≤ indentation line := by
  obtain ⟨text, htext, rfl⟩ := List.mem_map.1 h
  obtain ⟨htext, hne⟩ := List.mem_filter.1 htext
  obtain ⟨piece, hpiece, rfl⟩ := List.mem_map.1 htext
  obtain ⟨cut, hcut, -⟩ := exists_trimEndBy_append isBlank piece
  have hfeed : '\n' ∉ trimEnd piece := fun hc ↦
    notMem_of_mem_pieces hpiece (hcut ▸ List.mem_append_left cut hc)
  refine ⟨?_, ?_, ?_⟩
  · simpa [spaces] using hfeed
  · simp only [decide_eq_true_eq] at hne
    simp [hne]
  · rw [indentation_spaces_append]
    exact Nat.le_add_right ..

def entry (head doc : Text) : List Text :=
  head :: docLines 6 doc

theorem unlines_entry (head doc : Text) :
    unlines (entry head doc) = head ++ '\n' :: indentLines 6 doc := by
  rw [entry, unlines_cons, unlines_docLines]

theorem feed_notMem_entry {head : Text} (h : '\n' ∉ head) (doc : Text) :
    ∀ line ∈ entry head doc, '\n' ∉ line :=
  List.forall_mem_cons.2 ⟨h, fun _ hline ↦ (mem_docLines hline).1⟩

theorem filter_standsAt_four (h : ∀ line ∈ ls, standsAt 4 line) :
    ls.filter (standsAt n) = if n = 4 then ls else [] := by
  split
  · rename_i hn
    subst hn
    exact List.filter_eq_self.2 h
  · rename_i hn
    apply List.filter_eq_nil_iff.2
    intro line hline hstands
    exact hn (eq_of_standsAt hstands (h line hline))

theorem filter_entry {head : Text} (h : standsAt 4 head) (hn : n < 6) (doc : Text) :
    (entry head doc).filter (standsAt n) = if n = 4 then [head] else [] := by
  have hdoc : (docLines 6 doc).filter (standsAt n) = [] := by
    apply List.filter_eq_nil_iff.2
    intro line hline hstands
    have hle := (mem_docLines hline).2.2
    have hindent := (standsAt_iff.1 hstands).2
    omega
  have hhead : ∀ line ∈ [head], standsAt 4 line := List.forall_mem_singleton.2 h
  rw [entry, ← List.singleton_append, List.filter_append, hdoc, filter_standsAt_four hhead,
    List.append_nil]

theorem filter_entries {α : Type} (l : List α) (head doc : α → Text) (h : ∀ a, standsAt 4 (head a))
    (hn : n < 6) : (l.map fun a ↦ entry (head a) (doc a)).flatMap (·.filter (standsAt n)) =
      if n = 4 then l.map head else [] := by
  simp only [List.flatMap_map, filter_entry (h _) hn]
  split
  · exact List.map_eq_flatMap.symm
  · exact List.flatMap_eq_nil_iff.2 fun _ _ ↦ rfl

theorem spaced_entries_eq_nil_iff {α : Type} {l : List α} {head doc : α → Text} :
    spaced (l.map fun a ↦ entry (head a) (doc a)) = [] ↔ l = [] := by
  cases l with
  | nil => simp [spaced]
  | cons a l => simp [spaced, entry]

def headedLines (title : String) (entries : List Text) : List Text :=
  if entries = [] then [] else [] :: (title.toList ++ [':']) :: entries

theorem unlines_headedLines (title : String) (entries : List Text) :
    unlines (headedLines title entries) = Help.headed title (unlines entries) := by
  have hcolon : ":\n".toList = [':', '\n'] := rfl
  rw [headedLines, Help.headed]
  by_cases h : entries = []
  · rw [if_pos h, h]
    rfl
  · rw [if_neg h, if_neg (by simpa [unlines_eq_nil_iff] using h), unlines_cons, unlines_cons,
      hcolon]
    simp only [List.nil_append, List.append_assoc, List.cons_append]

theorem head?_headedLines (title : String) (entries : List Text) :
    (headedLines title entries).head? = if entries = [] then none else some [] := by
  rw [headedLines]
  split <;> rfl

theorem feed_notMem_headedLines {title : String} {entries : List Text}
    (htitle : '\n' ∉ title.toList ++ [':']) (h : ∀ line ∈ entries, '\n' ∉ line) :
    ∀ line ∈ headedLines title entries, '\n' ∉ line := by
  rw [headedLines]
  split
  · exact List.forall_mem_nil _
  · exact List.forall_mem_cons.2 ⟨List.not_mem_nil, List.forall_mem_cons.2 ⟨htitle, h⟩⟩

theorem filter_headedLines_four {title : String} (htitle : standsAt 0 (title.toList ++ [':']))
    (entries : List Text) :
    (headedLines title entries).filter (standsAt 4) = entries.filter (standsAt 4) := by
  have hfour : ¬standsAt 4 (title.toList ++ [':']) := by
    intro h
    have := eq_of_standsAt h htitle
    omega
  rw [headedLines]
  split
  · rename_i h
    rw [h]
  · rw [List.filter_cons_of_neg (by simp), List.filter_cons_of_neg hfour]

theorem filter_headedLines_zero {title : String} (htitle : standsAt 0 (title.toList ++ [':']))
    {entries : List Text} (h : entries.filter (standsAt 0) = []) :
    (headedLines title entries).filter (standsAt 0) =
      if entries = [] then [] else [title.toList ++ [':']] := by
  rw [headedLines]
  split
  · rfl
  · rw [List.filter_cons_of_neg (by simp), List.filter_cons_of_pos htitle, h]

end Text

section Listing

variable {names : List Text} {name : Text}

def listingRow (width : Nat) (name doc : Text) : Text :=
  spaces 4 ++ padEnd width name ++ spaces 2 ++ firstLine doc

theorem listingLine_eq (width : Nat) (name doc : Text) :
    listingLine width name doc = listingRow width name doc ++ ['\n'] :=
  rfl

theorem listingRow_eq (width : Nat) (name doc : Text) :
    listingRow width name doc =
      spaces 4 ++ (name ++ (spaces (width - name.length + 2) ++ firstLine doc)) := by
  rw [listingRow, padEnd, ← spaces_append]
  simp only [List.append_assoc]

theorem feed_notMem_listingRow (h : '\n' ∉ name) (width : Nat) (doc : Text) :
    '\n' ∉ listingRow width name doc := by
  have hdoc : '\n' ∉ firstLine doc := by
    rw [firstLine]
    rcases hlines : lines doc with _ | ⟨line, more⟩
    · exact List.not_mem_nil
    · exact feed_notMem_lines (hlines ▸ List.mem_cons_self ..)
  simp [listingRow_eq, spaces, h, hdoc]

theorem standsAt_listingRow (h : Token.isName name) (width : Nat) (doc : Text) :
    standsAt 4 (listingRow width name doc) := by
  have hsymbol := Token.forall_of_isSymbol (Bool.and_eq_true_iff.1 h).1
  obtain ⟨c, name, rfl⟩ := List.exists_cons_of_ne_nil hsymbol.1
  have hc : c ≠ ' ' := by
    intro hspace
    have hblank := Token.not_isBlank_of_isSymbolChar (hsymbol.2 c (List.mem_cons_self ..))
    rw [hspace] at hblank
    contradiction
  rw [listingRow_eq]
  exact standsAt_spaces_append hc 4 _

theorem label_prefix_listingRow (width : Nat) (name doc : Text) :
    spaces 4 ++ (name ++ [' ']) <+: listingRow width name doc := by
  rw [listingRow_eq, List.prefix_append_right_inj, List.prefix_append_right_inj]
  exact ⟨spaces (width - name.length + 1) ++ firstLine doc, rfl⟩

theorem length_le_byteLength (s : Text) : s.length ≤ byteLength s := by
  induction s with
  | nil => exact Nat.le_refl 0
  | cons c s ih =>
    have hc := c.utf8Size_pos
    simp only [byteLength, List.foldr_cons, List.length_cons] at ih ⊢
    omega

/-- No name has more characters than the longest one has bytes. -/
theorem length_le_columnWidth (h : name ∈ names) : name.length ≤ columnWidth names := by
  induction names with
  | nil => cases h
  | cons first names ih =>
    simp only [columnWidth, List.map_cons, List.foldr_cons] at ih ⊢
    rcases List.mem_cons.1 h with rfl | h
    · have hbytes := length_le_byteLength name
      omega
    · have hle := ih h
      omega

end Listing

namespace Command

variable {C : Type} {cmds : List (Command C)}

def listing (cmds : List (Command C)) : List Text :=
  cmds.map fun cmd ↦ listingRow (columnWidth (cmds.map (·.name))) cmd.name cmd.doc

theorem unlines_listing (cmds : List (Command C)) :
    unlines (listing cmds) = cmds.flatMap fun cmd ↦
      listingLine (columnWidth (cmds.map (·.name))) cmd.name cmd.doc := by
  simp only [listing, unlines, List.flatMap_map, listingLine_eq]

theorem feed_notMem_listing (h : ∀ cmd ∈ cmds, Token.isName cmd.name) :
    ∀ line ∈ listing cmds, '\n' ∉ line :=
  List.forall_mem_map.2 fun cmd hcmd ↦
    feed_notMem_listingRow (Token.feed_notMem_of_isName (h cmd hcmd)) _ cmd.doc

theorem filter_listing (h : ∀ cmd ∈ cmds, Token.isName cmd.name) (n : Nat) :
    (listing cmds).filter (standsAt n) = if n = 4 then listing cmds else [] :=
  filter_standsAt_four <| List.forall_mem_map.2 fun cmd hcmd ↦
    standsAt_listingRow (h cmd hcmd) _ cmd.doc

/-- A row has the name and, from a column on, the first line of the documentation. -/
def Row (column : Nat) (cmd : Command C) (row : Text) : Prop :=
  ∃ gap line, 2 ≤ gap ∧ 4 + cmd.name.length + gap = column ∧ HasFirstLine cmd.doc line ∧
    row = spaces 4 ++ cmd.name ++ spaces gap ++ line

theorem forall₂_row_listing (cmds : List (Command C)) :
    List.Forall₂ (Row (columnWidth (cmds.map (·.name)) + 6)) cmds (listing cmds) := by
  rw [listing, List.forall₂_map_right_iff, List.forall₂_same]
  intro cmd hcmd
  have hle : cmd.name.length ≤ columnWidth (cmds.map (·.name)) :=
    length_le_columnWidth (List.mem_map_of_mem hcmd)
  refine ⟨columnWidth (cmds.map (·.name)) - cmd.name.length + 2, firstLine cmd.doc, by omega,
    by omega, hasFirstLine_firstLine cmd.doc, ?_⟩
  rw [listingRow_eq]
  simp only [List.append_assoc]

end Command

end ChatCommand
