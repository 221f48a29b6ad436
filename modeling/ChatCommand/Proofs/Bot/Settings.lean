import ChatCommand.Bot.Settings
import ChatCommand.Proofs.Bind.Suits
import ChatCommand.Proofs.Bot.Order
import ChatCommand.Proofs.Grammar.Image

namespace ChatCommand

open Text

namespace Command.Binds

variable {C : Type} {cmd : Command C} {nodes : List Node} {a : Arguments} {spec : KwargSpec}
  {s : Text}

theorem get?_of_text (h : cmd.Binds nodes a) (hw : cmd.WellFormed) (hs : spec ∈ cmd.kwargs)
    (hty : spec.ty = .string) (hn : .kwarg spec.key (some s) ∈ nodes) :
    a.kwargs.get? spec.key = some (some (.str s)) := by
  obtain ⟨other, ho, hsame, v, htakes, hget⟩ := h.given _ _ hn
  obtain rfl := hw.kwarg_unique ho hs hsame
  cases htakes with
  | value hread =>
    rw [Ty.coerce_eq_ok_iff, hty] at hread
    cases hread
    exact hget

theorem text_mem (h : cmd.Binds nodes a) (hw : cmd.WellFormed) (hs : spec ∈ cmd.kwargs)
    (hty : spec.ty = .string) (harity : spec.arity = .optional)
    (hget : a.kwargs.get? spec.key = some (some (.str s))) :
    .kwarg spec.key (some s) ∈ nodes := by
  by_cases hkey : spec.key ∈ keys nodes
  · obtain ⟨literal, hn⟩ := mem_keys.1 hkey
    rcases literal with _ | t
    · obtain ⟨spec, -, -, v, htakes, hv⟩ := h.given _ _ hn
      cases htakes with
      | bare => cases hget.symm.trans hv
    · cases hget.symm.trans (h.get?_of_text hw hs hty hn)
      exact hn
  · rw [h.get?_of_not_given hw hs hkey, harity] at hget
    cases hget

end Command.Binds

namespace Settings

variable {s : Text} {args : List Text} {settings : Settings} {nodes : List Node} {a : Arguments}

theorem checked_command : command.Checked :=
  Command.checkDeep_eq_ok_iff.1 checkDeep_command

theorem wellFormed_command : command.WellFormed :=
  checked_command.wellFormed

theorem subcommands_command : command.subcommands = [] :=
  rfl

theorem exists_databaseSpec : ∃ spec ∈ command.kwargs, spec.key = "db".toList ∧
    spec.ty = .string ∧ spec.arity = .optional :=
  ⟨_, List.mem_cons_of_mem _ (List.mem_singleton_self _), rfl, rfl, rfl⟩

theorem exists_prefixSpec : ∃ spec ∈ command.kwargs, spec.key = "prefix".toList ∧
    spec.arity = .fallback (.str defaultMarker) :=
  ⟨_, List.mem_cons_self .., rfl, rfl⟩

theorem ofArgs_of_parseLine {tree : Tree} (h : Grammar.parseLine (line args) = .ok tree) :
    ofArgs args = (command.resolve tree).map fun b ↦ ofArguments b.arguments := by
  unfold ofArgs
  rw [h]

theorem binds_of_resolve {tree : Tree} {b : Bound Unit} (h : command.resolve tree = .ok b) :
    command.Binds tree.children b.arguments := by
  have hstops : command.Stops tree.children := Command.stops_of_childless subcommands_command _
  rcases Command.resolve_cases checked_command (.here _ _) hstops with
    ⟨-, hresolve⟩ | ⟨-, ⟨a, hbind, hresolve⟩ | ⟨m, -, hresolve⟩⟩
  · cases hresolve.symm.trans h
  · cases hresolve.symm.trans h
    exact Command.bind_binds wellFormed_command hbind
  · cases hresolve.symm.trans h

theorem resolve_of_suits (tree : Tree) (hhelp : command.asksHelp tree.children = false)
    (h : command.Suits tree.children) : ∃ a, command.resolve tree = .ok ⟨command, a⟩ := by
  have hstops : command.Stops tree.children := Command.stops_of_childless subcommands_command _
  obtain ⟨a, hbind, -⟩ := h.exists_bind wellFormed_command
  rcases Command.resolve_cases checked_command (.here _ _) hstops with
    ⟨hasks, -⟩ | ⟨-, ⟨a, -, hresolve⟩ | ⟨m, hfails, -⟩⟩
  · cases hhelp.symm.trans hasks
  · exact ⟨a, hresolve⟩
  · cases hbind.symm.trans hfails

theorem exists_binds_of_ofArgs (h : ofArgs args = .ok settings) :
    ∃ tree a, Grammar.parseLine (line args) = .ok tree ∧ command.Binds tree.children a ∧
      settings = ofArguments a := by
  rcases hparse : Grammar.parseLine (line args) with e | tree
  · unfold ofArgs at h
    rw [hparse] at h
    cases h
  · rw [ofArgs_of_parseLine hparse] at h
    rcases hresolve : command.resolve tree with e | b
    · rw [hresolve] at h
      cases h
    · rw [hresolve] at h
      cases h
      exact ⟨tree, b.arguments, rfl, binds_of_resolve hresolve, rfl⟩

theorem exists_literal_quoteArg (hs : Token.startsWithFlag s = false) (hq : Quotable s) :
    ∃ l : Grammar.Literal, l.text = quoteArg s ∧ l.content = s := by
  by_cases hsymbol : Token.isSymbol s
  · refine ⟨.bare s hsymbol, ?_, rfl⟩
    rw [quoteArg, if_pos (by simp [hsymbol])]
    rfl
  · have hplain : ¬(Token.startsWithFlag s || Token.isSymbol s) := by simp [hs, hsymbol]
    by_cases hmark : '\'' ∈ s
    · refine ⟨.quoted '"' s rfl fun h ↦ hq ⟨hmark, h⟩, ?_, rfl⟩
      rw [quoteArg, if_neg hplain, if_pos hmark]
      rfl
    · refine ⟨.quoted '\'' s rfl hmark, ?_, rfl⟩
      rw [quoteArg, if_neg hplain, if_neg hmark]
      rfl

theorem line_database (s : Text) :
    line ["--db".toList, s] = command.name ++ (' ' :: ('-' :: '-' :: "db".toList ++
      ([' '] ++ quoteArg s))) := by
  have hdb : quoteArg "--db".toList = '-' :: '-' :: "db".toList := by decide +kernel
  simp only [line, List.flatMap_cons, List.flatMap_nil, List.append_nil, hdb]
  rfl

theorem parseLine_database (hs : Token.startsWithFlag s = false) (hq : Quotable s) :
    Grammar.parseLine (line ["--db".toList, s]) =
      .ok ⟨some command.name, [.kwarg "db".toList (some s)]⟩ := by
  obtain ⟨l, htext, hcontent⟩ := exists_literal_quoteArg hs hq
  have hnone : ∀ c ∈ ([] : Text), isBlank c := List.forall_mem_nil _
  have hkey : Token.isSymbol "db".toList := by decide +kernel
  have hname : Token.isName command.name := by decide +kernel
  have hread := Grammar.ReadsAs.keyed hkey ⟨[' '], by simp, Grammar.isBlank_space⟩ l
    Grammar.isBlank_space (.of_blank hnone) (.of_blank hnone)
  have hparted (t : Text) : Parted (' ' :: t) := by
    intro c hc
    cases hc
    rfl
  have hparse := Grammar.parseLine_of_readsAs hname hnone (hparted _) hread
  rw [List.append_nil, hcontent, Grammar.Lexeme.text, htext] at hparse
  rw [line_database]
  exact hparse

theorem asksHelp_database (s : Text) :
    command.asksHelp [.kwarg "db".toList (some s)] = false := by
  have hkey : decide ("db".toList = helpWord) = false := by decide +kernel
  rw [Command.asksHelp, List.any_cons, Command.isHelpKwarg, hkey]
  rfl

theorem suits_database (s : Text) : command.Suits [.kwarg "db".toList (some s)] where
  fits := Nat.le_refl _
  enough := Nat.le_refl _
  values i spec t h := by cases h
  flags c h := by
    simp at h
  keysDistinct := List.nodup_singleton _
  kwargs key literal h := by
    obtain ⟨spec, hspec, hkey, hty, -⟩ := exists_databaseSpec
    cases List.mem_singleton.1 h
    exact ⟨spec, hspec, hkey, some (.str s), .value (by rw [hty]; rfl)⟩
  required spec hspec h := by
    simp only [command, List.mem_cons, List.not_mem_nil, or_false] at hspec
    rcases hspec with rfl | rfl <;> cases h
  noTree root children h := by
    simp at h

theorem ofArguments_database (h : command.Binds [.kwarg "db".toList (some s)] a) :
    ofArguments a = ⟨defaultMarker, some s, false⟩ := by
  have hmarker : a.kwarg? "prefix".toList = some (.str defaultMarker) := by
    obtain ⟨spec, hspec, hkey, harity⟩ := exists_prefixSpec
    have hother : spec.key ∉ keys [.kwarg "db".toList (some s)] := by
      rw [hkey]
      exact fun hmem ↦ absurd (List.mem_singleton.1 hmem) (by decide +kernel)
    rw [Arguments.kwarg?, ← hkey, h.filled spec hspec hother _ harity]
    rfl
  have hfile : a.kwarg? "db".toList = some (.str s) := by
    obtain ⟨spec, hspec, hkey, hty, -⟩ := exists_databaseSpec
    have hn : .kwarg spec.key (some s) ∈ [Node.kwarg "db".toList (some s)] := by
      rw [hkey]
      exact List.mem_singleton_self _
    rw [Arguments.kwarg?, ← hkey, h.get?_of_text wellFormed_command hspec hty hn]
    rfl
  have hflag : a.hasFlag 'v' = false := by
    rw [Bool.eq_false_iff, ne_eq, h.flags]
    simp
  rw [ofArguments, hmarker, hfile, hflag]
  rfl

theorem ofArgs_database (hs : Token.startsWithFlag s = false) (hq : Quotable s) :
    ofArgs ["--db".toList, s] = .ok ⟨defaultMarker, some s, false⟩ := by
  obtain ⟨a, hresolve⟩ := resolve_of_suits ⟨some command.name, [.kwarg "db".toList (some s)]⟩
    (asksHelp_database s) (suits_database s)
  rw [ofArgs_of_parseLine (parseLine_database hs hq), hresolve]
  exact congrArg Except.ok (ofArguments_database (binds_of_resolve hresolve))

theorem quotable_of_ofArgs (h : ofArgs args = .ok settings) (hfile : settings.file = some s) :
    Quotable s := by
  obtain ⟨tree, a, hparse, hbinds, rfl⟩ := exists_binds_of_ofArgs h
  obtain ⟨spec, hspec, hkey, hty, harity⟩ := exists_databaseSpec
  obtain ⟨v, hv, hs⟩ := Option.bind_eq_some_iff.1 hfile
  obtain rfl : v = .str s := by
    cases v with
    | str t =>
      cases hs
      rfl
    | int | float => cases hs
  rw [Arguments.kwarg?, Option.join_eq_some_iff, ← hkey] at hv
  have hn := hbinds.text_mem wellFormed_command hspec hty harity hv
  exact ((Grammar.canonical_of_parseLine hparse).legible _ hn).2 s rfl

/-- An argument that is no option configures the file that it names, unless it has quotation marks
of both kinds: with one kind at most it is read back as one value, whatever stands behind it. -/
theorem ofArgs_file (hs : Token.startsWithFlag s = false) :
    (ofArgs ["--db".toList, s] = .ok ⟨defaultMarker, some s, false⟩ ↔ Quotable s) ∧
      (Quotable s → ∀ rest, Parted rest → ∃ left,
        Grammar.trimmed Grammar.literal (' ' :: (quoteArg s ++ rest)) = .ok (some s, left) ∧
          trim left = trim rest) := by
  refine ⟨⟨fun h ↦ quotable_of_ofArgs h rfl, ofArgs_database hs⟩, fun hq rest hrest ↦ ?_⟩
  obtain ⟨l, htext, rfl⟩ := exists_literal_quoteArg hs hq
  obtain ⟨left, hread, hleft⟩ := Grammar.literal_text l hrest.trimEnd
  refine ⟨left, ?_, hleft.trans (trim_trimEnd rest)⟩
  rw [← htext, ← hread]
  exact Grammar.trimmed_front l.solid Grammar.isBlank_space rest

def oddPath : Text :=
  " it's --prefix ?".toList

theorem ofArgs_file_odd :
    Token.startsWithFlag oddPath = false ∧
      ofArgs ["--db".toList, oddPath] = .ok ⟨['!'], some oddPath, false⟩ ∧
      ∃ left, Grammar.trimmed Grammar.literal (' ' :: (quoteArg oddPath ++ " -v".toList)) =
        .ok (some oddPath, left) ∧ trim left = "-v".toList := by
  have hs : Token.startsWithFlag oddPath = false := by decide +kernel
  have hq : Quotable oddPath := by
    rw [quotable_iff]
    exact ⟨'"', rfl, by decide +kernel⟩
  have hrest : Parted " -v".toList := by
    intro c hc
    cases hc
    rfl
  obtain ⟨hfile, hread⟩ := ofArgs_file hs
  exact ⟨hs, hfile.2 hq, hread hq _ hrest⟩

/-- An argument that breaks out of its quotation marks and brings options of its own along. -/
def breakout : Text :=
  "x'\" -v --prefix \"?".toList

theorem file_not_configured :
    Token.startsWithFlag breakout = false ∧
      ofArgs ["--db".toList, breakout] = .ok ⟨['?'], some "x'".toList, true⟩ ∧
      ofArgs ["--db".toList, breakout] ≠ .ok ⟨['!'], some breakout, false⟩ := by
  have hsettings : ofArgs ["--db".toList, breakout] = .ok ⟨['?'], some "x'".toList, true⟩ := by
    decide +kernel
  refine ⟨by decide +kernel, hsettings, fun h ↦ ?_⟩
  rw [hsettings] at h
  exact absurd (Except.ok.inj h) (by decide +kernel)

end Settings

end ChatCommand
