import ChatCommand.Proofs.Registry.Call
import ChatCommand.Proofs.Registry.Chain
import ChatCommand.Proofs.Text.Pieces

namespace ChatCommand

open Text

variable {C : Type}

namespace Command

variable {cmd target sub : Command C} {names : List Text} {name word : Text}

def below? (cmd : Command C) : List Text → Option (Command C)
  | [] => some cmd
  | name :: names => (cmd.subcommand? name).bind (·.below? names)

theorem below?_append (cmd : Command C) (names more : List Text) :
    cmd.below? (names ++ more) = (cmd.below? names).bind (·.below? more) := by
  induction names generalizing cmd with
  | nil => rfl
  | cons name names ih =>
    rw [List.cons_append, below?, below?]
    rcases cmd.subcommand? name with _ | sub
    · rfl
    · exact ih sub

theorem mem_of_subcommand? (h : cmd.subcommand? name = some sub) :
    sub ∈ cmd.subcommands ∧ sub.name = name :=
  ⟨List.mem_of_find?_eq_some h, by simpa using List.find?_some h⟩

theorem stops_of_subcommand? (h : cmd.subcommand? word = none) (nodes : List Node) :
    cmd.Stops (.value word :: nodes) := by
  intro sub hsub hhead
  have hname : sub.name = word := by simpa [eq_comm] using hhead
  exact List.find?_eq_none.1 h sub hsub (decide_eq_true hname)

theorem descent_of_below? (h : cmd.below? names = some target) (rest : List Node) :
    Descent cmd (names.map .value ++ rest) names target rest := by
  induction names generalizing cmd with
  | nil =>
    cases h
    exact .here _ rest
  | cons name names ih =>
    obtain ⟨sub, hsub, hbelow⟩ := Option.bind_eq_some_iff.1 h
    obtain ⟨hmem, rfl⟩ := mem_of_subcommand? hsub
    exact .down hmem (ih hbelow)

theorem helpBelow_of_below? (h : cmd.below? names = some target) (path : List Node) :
    Registry.helpBelow cmd (names.map .value ++ path) = Registry.helpBelow target path := by
  induction names generalizing cmd with
  | nil =>
    cases h
    rfl
  | cons name names ih =>
    obtain ⟨sub, hsub, hbelow⟩ := Option.bind_eq_some_iff.1 h
    rw [List.map_cons, List.cons_append, Registry.helpBelow, hsub]
    exact ih hbelow

end Command

namespace Registry

variable {r : Registry C} {line root word : Text} {target : Command C}
  {path before after names : List Text} {nodes : List Node}

/-- The command at the end of a path, which starts with the name of a root command. -/
def at? (r : Registry C) : List Text → Option (Command C)
  | [] => none
  | name :: names => (r.get? name).bind (·.below? names)

/-- The lines that ask for the help of the command at the end of the path: with the word in front,
with the kwarg behind, and with the word behind, where it is neither a value nor a subcommand. -/
inductive HelpLine (path : List Text) (target : Command C) : Text → Prop
  | front : HelpLine path target (join [' '] (helpWord :: path))
  | key : HelpLine path target (join [' '] (path ++ ["--help".toList]))
  | back : target.args = [] → target.subcommand? helpWord = none →
      HelpLine path target (join [' '] (path ++ [helpWord]))

section Parse

theorem parseLine_of_names {call : Call} {texts : List Text}
    (hnames : ∀ name ∈ root :: names, Token.isName name)
    (hlegible : ∀ n ∈ call.nodes, n.Legible) (h : List.Forall₂ Node.Written call.nodes texts) :
    Grammar.parseLine (join [' '] (root :: names ++ texts)) =
      .ok ⟨some root, names.map .value ++ call.nodes⟩ := by
  obtain ⟨hroot, hnames⟩ := List.forall_mem_cons.1 hnames
  refine Call.parseLine_of_saidBy hroot hnames hlegible ⟨texts, h, ?_⟩
  rw [List.cons_append, join_cons, List.flatMap_append]
  rfl

theorem parseLine_of_words (hnames : ∀ name ∈ root :: names, Token.isName name) :
    Grammar.parseLine (join [' '] (root :: names)) = .ok ⟨some root, names.map .value⟩ := by
  have hlegible : ∀ n ∈ (⟨[], [], []⟩ : Call).nodes, n.Legible := List.forall_mem_nil _
  simpa [Call.nodes, Call.positionals, Call.options] using
    parseLine_of_names hnames hlegible .nil

theorem isName_helpWord : Token.isName helpWord := by
  decide +kernel

theorem parseLine_of_key (hnames : ∀ name ∈ root :: names, Token.isName name) :
    Grammar.parseLine (join [' '] (root :: names ++ ["--help".toList])) =
      .ok ⟨some root, names.map .value ++ [.kwarg helpWord none]⟩ := by
  let call : Call := ⟨[], [], [(helpWord, none)]⟩
  have hsymbol : Token.isSymbol helpWord := (Bool.and_eq_true_iff.1 isName_helpWord).1
  have hlegible : ∀ n ∈ call.nodes, n.Legible :=
    List.forall_mem_singleton.2 ⟨hsymbol, fun _ hs ↦ nomatch hs⟩
  exact parseLine_of_names hnames hlegible (.cons (.key helpWord) .nil)

end Parse

theorem isName_of_at? (hr : r.Checked) (h : r.at? path = some target) :
    ∀ name ∈ path, Token.isName name := by
  cases path with
  | nil => cases h
  | cons name names =>
    obtain ⟨root, hroot, hbelow⟩ := Option.bind_eq_some_iff.1 h
    have hc := hr name root hroot
    refine List.forall_mem_cons.2 ⟨?_, (Command.descent_of_below? hbelow []).isName hc⟩
    rw [← name_of_get? hroot]
    exact hc.wellFormed.name

section Front

theorem resolve_of_helpWord (hnone : r.get? helpWord = none)
    (hparse : Grammar.parseLine line = .ok ⟨some helpWord, nodes⟩) :
    (∀ text, r.helpFor nodes = .ok text → r.resolve line = .error (.help text)) ∧
      ∀ m : Misfit, r.helpFor nodes = .error m → r.resolve line = .error (.bind m) := by
  have hname : (⟨some helpWord, nodes⟩ : Tree).name = helpWord := rfl
  refine ⟨fun text htext ↦ ?_, fun m hm ↦ ?_⟩
  · have hlookup : r.lookup line = .error (.help text) := by
      simp only [lookup, hparse, hname, hnone, if_pos, htext]
    rw [resolve, hlookup]
  · have hlookup : r.lookup line = .error (.bind m) := by
      simp only [lookup, hparse, hname, hnone, if_pos, hm]
    rw [resolve, hlookup]

theorem helpFor_of_at? (h : r.at? path = some target) :
    r.helpFor (path.map .value) = .ok target.help := by
  cases path with
  | nil => cases h
  | cons name names =>
    obtain ⟨root, hroot, hbelow⟩ := Option.bind_eq_some_iff.1 h
    have hend := Command.helpBelow_of_below? hbelow []
    rw [List.append_nil] at hend
    simp only [List.map_cons, helpFor, hroot, hend, helpBelow]

theorem helpFor_of_missing (hbefore : before ≠ [] → (r.at? before).isSome)
    (hword : r.at? (before ++ [word]) = none) :
    r.helpFor ((before ++ word :: after).map .value) =
      .error (.unknownCommand (join [' '] (before.getLast?.toList ++ [word]))) := by
  cases before with
  | nil =>
    have hroot : r.get? word = none := by
      simpa [at?, Command.below?] using hword
    simp only [List.nil_append, List.map_cons, helpFor, hroot]
    rfl
  | cons name names =>
    obtain ⟨target, htarget⟩ := Option.isSome_iff_exists.1 (hbefore (List.cons_ne_nil _ _))
    obtain ⟨root, hroot, hbelow⟩ := Option.bind_eq_some_iff.1 htarget
    have hmissing : target.subcommand? word = none := by
      simpa [at?, hroot, Command.below?_append, hbelow, Command.below?] using hword
    have hlast : (name :: names).getLast? = some target.name := by
      rw [← name_of_get? hroot]
      exact (Command.descent_of_below? hbelow []).getLast?
    rw [hlast, List.cons_append, List.map_cons, List.map_append]
    simp only [helpFor, hroot, Command.helpBelow_of_below? hbelow, List.map_cons, helpBelow,
      hmissing]
    simp [join]

end Front

theorem resolve_of_asksHelp (hr : r.Checked) (h : r.at? (root :: names) = some target)
    (hparse : Grammar.parseLine line = .ok ⟨some root, names.map .value ++ nodes⟩)
    (hstops : target.Stops nodes) (hasks : target.asksHelp nodes) :
    r.resolve line = .error (.help target.help) := by
  obtain ⟨cmd, hroot, hbelow⟩ := Option.bind_eq_some_iff.1 h
  have hd := Command.descent_of_below? hbelow nodes
  refine (resolve_eq_help_of_get? hparse hroot).2 ?_
  exact (Command.resolve_eq_help_iff (hr root cmd hroot) hd hstops).2 ⟨hasks, rfl⟩

theorem resolve_of_helpLine (hr : r.Checked) (hnone : r.get? helpWord = none)
    (h : r.at? path = some target) (hline : HelpLine path target line) :
    r.resolve line = .error (.help target.help) := by
  have hnames := isName_of_at? hr h
  cases hline with
  | front =>
    have hparse := parseLine_of_words (List.forall_mem_cons.2 ⟨isName_helpWord, hnames⟩)
    exact (resolve_of_helpWord hnone hparse).1 _ (helpFor_of_at? h)
  | key =>
    cases path with
    | nil => cases h
    | cons root names =>
      refine resolve_of_asksHelp hr h (parseLine_of_key hnames) (fun sub _ hhead ↦ nomatch hhead) ?_
      exact Command.asksHelp_iff.2 (.inl ⟨none, List.mem_singleton.2 rfl⟩)
  | back hargs hsub =>
    cases path with
    | nil => cases h
    | cons root names =>
      have hwords : ∀ name ∈ root :: (names ++ [helpWord]), Token.isName name := by
        rw [← List.cons_append]
        exact List.forall_mem_append.2 ⟨hnames, List.forall_mem_singleton.2 isName_helpWord⟩
      have hparse := parseLine_of_words hwords
      rw [List.map_append] at hparse
      refine resolve_of_asksHelp hr h hparse (Command.stops_of_subcommand? hsub []) ?_
      exact Command.asksHelp_iff.2 (.inr ⟨rfl, hargs⟩)

/-- However the help of a command is asked for, the answer is the same text, outside of all frames,
and nothing is run. A path that leads nowhere is answered with its first word that names no
command, behind the word before it. -/
theorem help_agrees (hr : r.Checked) (hnone : r.get? helpWord = none) (ctx : C) :
    (∀ path target, r.at? path = some target → ∀ line, HelpLine path target line →
      r.resolve line = .error (.help target.help) ∧
        r.dispatch line ctx = (.error (.help target.help), ctx)) ∧
    ∀ before word after, (∀ name ∈ before ++ word :: after, Token.isName name) →
      (before ≠ [] → (r.at? before).isSome) → r.at? (before ++ [word]) = none →
      let line := join [' '] (helpWord :: (before ++ word :: after))
      let missed : BindError :=
        ⟨[], .unknownCommand (join [' '] (before.getLast?.toList ++ [word]))⟩
      r.resolve line = .error (.bind missed) ∧
        r.dispatch line ctx = (.error (.bind missed), ctx) := by
  refine ⟨fun path target h line hline ↦ ?_, fun before word after hnames hbefore hword ↦ ?_⟩
  · have hhelp := resolve_of_helpLine hr hnone h hline
    exact ⟨hhelp, dispatch_of_error hhelp ctx⟩
  · have hparse := parseLine_of_words (List.forall_mem_cons.2 ⟨isName_helpWord, hnames⟩)
    have hmissed := (resolve_of_helpWord hnone hparse).2 _ (helpFor_of_missing hbefore hword)
    exact ⟨hmissed, dispatch_of_error hmissed ctx⟩

def manual : Command Unit where
  name := helpWord
  doc := ['m']
  args := []
  flags := []
  kwargs := []
  subcommands := []
  handler := none

def tool : Command Unit where
  name := "tool".toList
  doc := ['t']
  args := []
  flags := []
  kwargs := []
  subcommands := [manual]
  handler := none

def workshop : Registry Unit where
  commands := .ofList [(tool.name, tool)]
  named := (List.forall_mem_singleton (a := (tool.name, tool))).2 rfl

theorem workshop_checked : workshop.Checked := by
  intro name cmd h
  have hentry := SortedMap.get?_eq_some_iff.1 h
  obtain ⟨-, rfl⟩ := Prod.mk.inj (List.mem_singleton.1 hentry)
  exact Command.checkDeep_eq_ok_iff.1 (by decide +kernel)

theorem help_agrees_workshop :
    workshop.Checked ∧ workshop.get? helpWord = none ∧
      workshop.at? [tool.name, helpWord] = some manual ∧
      workshop.resolve "help tool help".toList = .error (.help manual.help) ∧
      workshop.resolve "tool help --help".toList = .error (.help manual.help) ∧
      workshop.dispatch "tool help help".toList () = (.error (.help manual.help), ()) ∧
      workshop.resolve "help tool saw help".toList =
        .error (.bind ⟨[], .unknownCommand "tool saw".toList⟩) ∧
      workshop.dispatch "help saw".toList () =
        (.error (.bind ⟨[], .unknownCommand "saw".toList⟩), ()) := by
  have hnone : workshop.get? helpWord = none := by decide +kernel
  have hpath : workshop.at? [tool.name, helpWord] = some manual := rfl
  obtain ⟨hfound, hmissed⟩ := help_agrees workshop_checked hnone ()
  have hsaw := hmissed [tool.name] "saw".toList [helpWord] (by decide +kernel) (fun _ ↦ rfl) rfl
  have hfirst := hmissed [] "saw".toList [] (by decide +kernel) (fun h ↦ absurd rfl h) (by rfl)
  exact ⟨workshop_checked, hnone, hpath, (hfound _ _ hpath _ .front).1,
    (hfound _ _ hpath _ .key).1, (hfound _ _ hpath _ (.back rfl rfl)).2, hsaw.1, hfirst.2⟩

end Registry

end ChatCommand
