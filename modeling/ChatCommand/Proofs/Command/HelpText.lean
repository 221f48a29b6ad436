import ChatCommand.Proofs.Command.HelpLines
import ChatCommand.Proofs.Number.Integer
import ChatCommand.Value

namespace ChatCommand

open Text

section Value

variable {v : Value}

theorem Binary64.feed_notMem_positional (m : Nat) (e : Int) : '\n' ∉ positional m e := by
  have hdigits := Number.feed_notMem_naturalText m
  rw [positional]
  split
  · split <;> simp [hdigits]
  · intro h
    rcases List.mem_append.1 h with h | h
    · have := List.mem_of_mem_take h
      simp [hdigits] at this
    · rcases List.mem_cons.1 h with h | h
      · cases h
      · have := List.mem_of_mem_drop h
        simp [hdigits] at this

theorem Binary64.feed_notMem_text (x : Binary64) : '\n' ∉ x.text := by
  have hsign : '\n' ∉ x.sign := by
    rw [sign]
    split <;> decide
  rw [text]
  split
  · decide
  · exact fun h ↦ (List.mem_append.1 h).elim hsign (by decide)
  · exact fun h ↦ (List.mem_append.1 h).elim hsign (feed_notMem_positional _ _)

theorem Value.feed_notMem_text (h : ∀ s, v = .str s → '\n' ∉ s) : '\n' ∉ v.text := by
  cases v with
  | str s => exact h s rfl
  | int n => exact Number.feed_notMem_integerText _
  | float x => exact x.feed_notMem_text

theorem Ty.feed_notMem_text (ty : Ty) : '\n' ∉ ty.text := by
  cases ty <;> decide

end Value

namespace Command

open Help

variable {C : Type} {cmd : Command C}

def usage (cmd : Command C) : Text :=
  cmd.name ++ " \x7bargs\x7d -\x7bflags\x7d --\x7bkey\x7d value".toList

def argLines (cmd : Command C) : List Text :=
  spaced (cmd.args.map fun arg ↦ entry (argHead arg) arg.doc)

def flagHead (flag : FlagSpec) : Text :=
  spaces 4 ++ ['-', flag.name]

def flagLines (cmd : Command C) : List Text :=
  spaced (cmd.flags.map fun flag ↦ entry (flagHead flag) flag.doc)

def kwargLines (cmd : Command C) : List Text :=
  cmd.kwargs.flatMap (fun kwarg ↦ entry (kwargHead kwarg) kwarg.doc ++ [[]]) ++
    ["    --help".toList, "      Prints help information.".toList]

theorem kwargLines_ne_nil (cmd : Command C) : cmd.kwargLines ≠ [] := by
  rw [kwargLines, ne_eq, List.append_eq_nil_iff]
  exact fun h ↦ List.cons_ne_nil _ _ h.2

def sectionLines (cmd : Command C) : List Text :=
  headedLines "SUBCOMMANDS" (listing cmd.subcommands) ++ headedLines "ARGS" cmd.argLines ++
    headedLines "FLAGS" cmd.flagLines ++ headedLines "KWARGS" cmd.kwargLines

theorem unlines_argLines (cmd : Command C) :
    unlines cmd.argLines = join ['\n'] (cmd.args.map argEntry) := by
  simp only [argLines, unlines_spaced, List.map_map, Function.comp_def, unlines_entry]
  rfl

theorem unlines_flagLines (cmd : Command C) :
    unlines cmd.flagLines = join ['\n'] (cmd.flags.map flagEntry) := by
  simp only [flagLines, unlines_spaced, List.map_map, Function.comp_def, unlines_entry, flagHead,
    List.append_assoc]
  rfl

theorem unlines_kwargLines (cmd : Command C) :
    unlines cmd.kwargLines = cmd.kwargs.flatMap (fun kwarg ↦ kwargEntry kwarg ++ ['\n']) ++
      "    --help\n      Prints help information.\n".toList := by
  have hclosing : unlines ["    --help".toList, "      Prints help information.".toList] =
      "    --help\n      Prints help information.\n".toList := by decide
  rw [kwargLines, unlines_append, unlines_flatMap, hclosing]
  simp only [unlines_append, unlines_entry]
  rfl

theorem help_eq_unlines (cmd : Command C) :
    cmd.help = unlines (cmd.usage :: docLines 2 cmd.doc ++ cmd.sectionLines) := by
  have hkwargs : headed "KWARGS" (unlines cmd.kwargLines) =
      "\nKWARGS:\n".toList ++ unlines cmd.kwargLines := by
    have hne : unlines cmd.kwargLines ≠ [] := mt unlines_eq_nil_iff.1 cmd.kwargLines_ne_nil
    rw [headed, if_neg (by simpa using hne)]
    rfl
  have hform : " \x7bargs\x7d -\x7bflags\x7d --\x7bkey\x7d value\n".toList =
      " \x7bargs\x7d -\x7bflags\x7d --\x7bkey\x7d value".toList ++ ['\n'] := by decide
  have husage (s : Text) : cmd.usage ++ '\n' :: s =
      cmd.name ++ " \x7bargs\x7d -\x7bflags\x7d --\x7bkey\x7d value\n".toList ++ s := by
    rw [usage, hform]
    simp only [List.append_assoc, List.cons_append, List.nil_append]
  rw [List.cons_append, unlines_cons, husage, unlines_append, unlines_docLines, sectionLines]
  simp only [unlines_append, unlines_headedLines]
  rw [hkwargs, unlines_listing, unlines_argLines, unlines_flagLines, unlines_kwargLines]
  unfold help
  simp only [List.append_assoc]

theorem Checked.isName_subcommands (hc : cmd.Checked) :
    ∀ sub ∈ cmd.subcommands, Token.isName sub.name := fun _ hsub ↦
  (hc.of_mem hsub).wellFormed.name

/-- The names of the positionals and the texts that are fallbacks go over one line each. -/
structure SingleLine (cmd : Command C) : Prop where
  argName : ∀ arg ∈ cmd.args, '\n' ∉ arg.name
  argFallback : ∀ arg ∈ cmd.args, ∀ s, arg.fallback = some (.str s) → '\n' ∉ s
  kwargFallback : ∀ kwarg ∈ cmd.kwargs, ∀ s, kwarg.arity = .fallback (.str s) → '\n' ∉ s

theorem SingleLine.feed_notMem_argHead (hs : cmd.SingleLine) {arg : ArgSpec}
    (h : arg ∈ cmd.args) : '\n' ∉ argHead arg := by
  have hname := hs.argName arg h
  have hty := arg.ty.feed_notMem_text
  rcases hfallback : arg.fallback with _ | v
  · simp [argHead, hfallback, spaces, hname, hty]
  · have hvalue : '\n' ∉ v.text := Value.feed_notMem_text fun s hv ↦
      hs.argFallback arg h s (hv ▸ hfallback)
    simp [argHead, hfallback, spaces, hname, hty, hvalue]

theorem SingleLine.feed_notMem_kwargHead (hs : cmd.SingleLine) (hw : cmd.WellFormed)
    {kwarg : KwargSpec} (h : kwarg ∈ cmd.kwargs) : '\n' ∉ kwargHead kwarg := by
  have hkey : '\n' ∉ kwarg.key := Token.feed_notMem_of_isSymbol (hw.kwargKey kwarg h).2
  have hty := kwarg.ty.feed_notMem_text
  rw [kwargHead, List.mem_append, List.mem_append, not_or, not_or]
  refine ⟨⟨?_, ?_⟩, ?_⟩
  · simp [spaces, hkey]
  · split <;> simp [hty]
  · split
    · exact List.not_mem_nil
    · decide
    · rename_i v harity
      have hvalue : '\n' ∉ v.text := Value.feed_notMem_text fun s hv ↦
        hs.kwargFallback kwarg h s (hv ▸ harity)
      simp [hvalue]

theorem SingleLine.feed_notMem_sectionLines (hs : cmd.SingleLine) (hc : cmd.Checked) :
    ∀ line ∈ cmd.sectionLines, '\n' ∉ line := by
  have hw := hc.wellFormed
  have hsubs := feed_notMem_listing hc.isName_subcommands
  have hargs : ∀ line ∈ cmd.argLines, '\n' ∉ line :=
    forall_mem_spaced List.not_mem_nil <| List.forall_mem_map.2 fun arg harg ↦
      feed_notMem_entry (hs.feed_notMem_argHead harg) arg.doc
  have hflags : ∀ line ∈ cmd.flagLines, '\n' ∉ line := by
    refine forall_mem_spaced List.not_mem_nil <| List.forall_mem_map.2 fun flag hflag ↦
      feed_notMem_entry ?_ flag.doc
    have hname : '\n' ≠ flag.name := by
      intro h
      have halpha := hw.flagName flag hflag
      rw [← h] at halpha
      exact absurd halpha (by decide +kernel)
    simp [flagHead, spaces, hname]
  have hkwargs : ∀ line ∈ cmd.kwargLines, '\n' ∉ line := by
    refine List.forall_mem_append.2 ⟨?_, by decide⟩
    intro line hline
    obtain ⟨kwarg, hkwarg, hline⟩ := List.mem_flatMap.1 hline
    rcases List.mem_append.1 hline with hline | hline
    · exact feed_notMem_entry (hs.feed_notMem_kwargHead hw hkwarg) kwarg.doc line hline
    · rw [List.mem_singleton.1 hline]
      exact List.not_mem_nil
  simp only [sectionLines, List.forall_mem_append]
  exact ⟨⟨⟨feed_notMem_headedLines (by decide) hsubs, feed_notMem_headedLines (by decide) hargs⟩,
    feed_notMem_headedLines (by decide) hflags⟩, feed_notMem_headedLines (by decide) hkwargs⟩

def helpBody (cmd : Command C) : List Text :=
  ((pieces '\n' cmd.help).dropWhile (· ≠ [])).tail

theorem SingleLine.pieces_help (hs : cmd.SingleLine) (hc : cmd.Checked) :
    pieces '\n' cmd.help = cmd.usage :: docLines 2 cmd.doc ++ cmd.sectionLines ++ [[]] := by
  have hname : '\n' ∉ cmd.name := Token.feed_notMem_of_isName hc.wellFormed.name
  have husage : '\n' ∉ cmd.usage := by simp [usage, hname]
  have hall : ∀ line ∈ cmd.usage :: docLines 2 cmd.doc ++ cmd.sectionLines, '\n' ∉ line := by
    refine List.forall_mem_append.2 ⟨List.forall_mem_cons.2 ⟨husage, ?_⟩, ?_⟩
    · exact fun line hline ↦ (mem_docLines hline).1
    · exact hs.feed_notMem_sectionLines hc
  have hpieces := pieces_unlines_append hall []
  rwa [← help_eq_unlines, List.append_nil] at hpieces

theorem exists_sectionLines (cmd : Command C) : ∃ lines, cmd.sectionLines = [] :: lines := by
  refine List.head?_eq_some_iff.1 ?_
  simp only [sectionLines, List.head?_append, head?_headedLines, if_neg cmd.kwargLines_ne_nil]
  split <;> split <;> split <;> rfl

theorem SingleLine.filter_helpBody (hs : cmd.SingleLine) (hc : cmd.Checked) (n : Nat) :
    cmd.helpBody.filter (standsAt n) = cmd.sectionLines.filter (standsAt n) := by
  have hfront : ∀ line ∈ cmd.usage :: docLines 2 cmd.doc, decide (line ≠ []) = true := by
    refine List.forall_mem_cons.2 ⟨?_, fun line hline ↦ ?_⟩
    · simp [usage]
    · exact decide_eq_true (mem_docLines hline).2.1
  obtain ⟨lines, hlines⟩ := cmd.exists_sectionLines
  rw [helpBody, hs.pieces_help hc, List.append_assoc, List.dropWhile_append_of_pos hfront, hlines]
  simp

theorem standsAt_argHead (arg : ArgSpec) : standsAt 4 (argHead arg) := by
  rw [argHead]
  split <;> exact standsAt_spaces_append (by decide) 4 _

theorem standsAt_flagHead (flag : FlagSpec) : standsAt 4 (flagHead flag) :=
  standsAt_spaces_append (by decide) 4 _

theorem standsAt_kwargHead (kwarg : KwargSpec) : standsAt 4 (kwargHead kwarg) := by
  have hdashes : "--".toList = ['-', '-'] := rfl
  simp only [kwargHead, hdashes, List.append_assoc, List.cons_append]
  exact standsAt_spaces_append (by decide) 4 _

/-- The lines that introduce what can be given, in the order of the help text. -/
def heads (cmd : Command C) : List Text :=
  listing cmd.subcommands ++ cmd.args.map argHead ++ cmd.flags.map flagHead ++
    (cmd.kwargs.map kwargHead ++ ["    --help".toList])

theorem filter_argLines (cmd : Command C) {n : Nat} (hn : n < 6) :
    cmd.argLines.filter (standsAt n) = if n = 4 then cmd.args.map argHead else [] := by
  rw [argLines, filter_spaced rfl, filter_entries _ _ _ standsAt_argHead hn]

theorem filter_flagLines (cmd : Command C) {n : Nat} (hn : n < 6) :
    cmd.flagLines.filter (standsAt n) = if n = 4 then cmd.flags.map flagHead else [] := by
  rw [flagLines, filter_spaced rfl, filter_entries _ _ _ standsAt_flagHead hn]

theorem filter_kwargLines (cmd : Command C) {n : Nat} (hn : n < 6) :
    cmd.kwargLines.filter (standsAt n) =
      if n = 4 then cmd.kwargs.map kwargHead ++ ["    --help".toList] else [] := by
  have hhelp : standsAt 4 "    --help".toList := by decide
  have hclosing : ["    --help".toList, "      Prints help information.".toList].filter
      (standsAt n) = if n = 4 then ["    --help".toList] else [] :=
    filter_entry hhelp hn "Prints help information.".toList
  have hempty (ls : List Text) : (ls ++ [[]]).filter (standsAt n) = ls.filter (standsAt n) := by
    rw [List.filter_append, List.filter_cons_of_neg (by simp), List.filter_nil, List.append_nil]
  have hentries := filter_entries cmd.kwargs kwargHead (·.doc) standsAt_kwargHead hn
  rw [List.flatMap_map] at hentries
  rw [kwargLines, List.filter_append, List.filter_flatMap, hclosing]
  simp only [hempty]
  rw [hentries]
  split <;> rfl

theorem filter_sectionLines_four (hc : cmd.Checked) :
    cmd.sectionLines.filter (standsAt 4) = cmd.heads := by
  simp only [sectionLines, List.filter_append]
  rw [filter_headedLines_four rfl, filter_headedLines_four rfl, filter_headedLines_four rfl,
    filter_headedLines_four rfl, filter_listing hc.isName_subcommands,
    filter_argLines _ (by decide), filter_flagLines _ (by decide), filter_kwargLines _ (by decide)]
  rfl

/-- The titles of the sections that have something on their lists. -/
def titles (cmd : Command C) : List Text :=
  (if cmd.subcommands.isEmpty then [] else ["SUBCOMMANDS:".toList]) ++
    (if cmd.args.isEmpty then [] else ["ARGS:".toList]) ++
    (if cmd.flags.isEmpty then [] else ["FLAGS:".toList]) ++ ["KWARGS:".toList]

theorem filter_sectionLines_zero (hc : cmd.Checked) :
    cmd.sectionLines.filter (standsAt 0) = cmd.titles := by
  have hsubs : listing cmd.subcommands = [] ↔ cmd.subcommands.isEmpty := by simp [listing]
  have hargs : cmd.argLines = [] ↔ cmd.args.isEmpty := by
    rw [argLines, spaced_entries_eq_nil_iff, List.isEmpty_iff]
  have hflags : cmd.flagLines = [] ↔ cmd.flags.isEmpty := by
    rw [flagLines, spaced_entries_eq_nil_iff, List.isEmpty_iff]
  simp only [sectionLines, List.filter_append]
  rw [filter_headedLines_zero rfl (filter_listing hc.isName_subcommands 0),
    filter_headedLines_zero rfl (cmd.filter_argLines (by decide)),
    filter_headedLines_zero rfl (cmd.filter_flagLines (by decide)),
    filter_headedLines_zero rfl (cmd.filter_kwargLines (by decide)),
    if_neg cmd.kwargLines_ne_nil]
  simp only [hsubs, hargs, hflags]
  rfl

/-- How the lines that introduce what can be given have to start: with the names in the order of
the declaration. -/
def labels (cmd : Command C) : List Text :=
  cmd.subcommands.map (fun sub ↦ spaces 4 ++ (sub.name ++ [' '])) ++
    cmd.args.map (fun arg ↦ spaces 4 ++
      if arg.fallback.isSome then '[' :: arg.name ++ [']'] else '<' :: arg.name ++ ['>']) ++
    cmd.flags.map (fun flag ↦ spaces 4 ++ ['-', flag.name]) ++
    (cmd.kwargs.map (fun kwarg ↦ spaces 4 ++ ("--".toList ++ kwarg.key ++ [' '])) ++
      ["    --help".toList])

theorem forall₂_map_prefix {α : Type} {f g : α → Text} (h : ∀ a, f a <+: g a) (l : List α) :
    List.Forall₂ (· <+: ·) (l.map f) (l.map g) := by
  rw [List.forall₂_map_left_iff, List.forall₂_map_right_iff]
  exact List.forall₂_same.2 fun a _ ↦ h a

theorem labels_heads (cmd : Command C) : List.Forall₂ (· <+: ·) cmd.labels cmd.heads := by
  refine List.rel_append (List.rel_append (List.rel_append ?subs ?args) ?flags)
    (List.rel_append ?kwargs ?help)
  case subs =>
    refine forall₂_map_prefix (fun sub ↦ ?_) _
    exact label_prefix_listingRow _ sub.name sub.doc
  case args =>
    refine forall₂_map_prefix (fun arg ↦ ?_) _
    rcases hfallback : arg.fallback with _ | v
    · simp [argHead, hfallback]
    · simp [argHead, hfallback]
  case flags => exact forall₂_map_prefix (fun flag ↦ List.prefix_rfl) _
  case kwargs =>
    refine forall₂_map_prefix (fun kwarg ↦ ?_) _
    cases hbare : kwarg.bare
    · simp [kwargHead, hbare]
    · simp [kwargHead, hbare]
  case help => exact .cons List.prefix_rfl .nil

/-- Whatever the documentation, the lines of the help text that are set in by four spaces introduce
one after the other the subcommands, positionals, flags and kwargs, and those that are not set in
are the titles. -/
theorem help_layout (hc : cmd.Checked) (hs : cmd.SingleLine) :
    List.Forall₂ (· <+: ·) cmd.labels (cmd.helpBody.filter (standsAt 4)) ∧
      cmd.helpBody.filter (standsAt 0) = cmd.titles := by
  rw [hs.filter_helpBody hc, hs.filter_helpBody hc, filter_sectionLines_four hc]
  exact ⟨cmd.labels_heads, filter_sectionLines_zero hc⟩

/-- A command whose documentation looks like titles and like lines that introduce something, with
empty lines in between and blanks behind. -/
def masquerade : Command Unit where
  name := "play".toList
  doc := "FLAGS:\n\n    --help  \n".toList
  args := [⟨"first act".toList, .string, "\nKWARGS:\n    <scene>: string  \n".toList, none⟩,
    ⟨"scene".toList, .integer, "   \n    [act]: string = x".toList, some (.int 3)⟩]
  flags := [⟨'q', "    -r\n\n\nARGS:".toList⟩, ⟨'r', []⟩]
  kwargs := [⟨"cast".toList, .string, "\t--help\n".toList, .fallback (.str "    -q".toList), true⟩]
  subcommands := [⟨"añadir".toList, "    --help\nSUBCOMMANDS:".toList, [], [], [], [], none⟩,
    ⟨"end".toList, [], [], [], [], [], none⟩]
  handler := none

theorem help_layout_masquerade :
    masquerade.Checked ∧ masquerade.SingleLine ∧
      List.Forall₂ (· <+: ·)
        ["    añadir ".toList, "    end ".toList, "    <first act>".toList, "    [scene]".toList,
          "    -q".toList, "    -r".toList, "    --cast ".toList, "    --help".toList]
        (masquerade.helpBody.filter (standsAt 4)) ∧
      masquerade.helpBody.filter (standsAt 0) =
        ["SUBCOMMANDS:".toList, "ARGS:".toList, "FLAGS:".toList, "KWARGS:".toList] := by
  have hc : masquerade.Checked := checkDeep_eq_ok_iff.1 (by decide +kernel)
  have hs : masquerade.SingleLine := by
    refine ⟨by decide, ?_, ?_⟩
    · intro arg harg s hs
      simp only [masquerade, List.mem_cons, List.not_mem_nil, or_false] at harg
      obtain rfl | rfl := harg <;> cases hs
    · intro kwarg hkwarg s hs
      obtain rfl := List.mem_singleton.1 hkwarg
      cases hs
      decide
  obtain ⟨hlabels, htitles⟩ := help_layout hc hs
  exact ⟨hc, hs, hlabels, htitles⟩

end Command

end ChatCommand
