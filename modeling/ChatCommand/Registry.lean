import ChatCommand.Bind
import ChatCommand.Grammar

namespace ChatCommand

open Text

/-- Root commands, each under its own name. -/
structure Registry (C : Type) where
  commands : SortedMap Text (Command C)
  named : ∀ e ∈ commands.entries, e.2.name = e.1

namespace Registry

variable {C : Type}

def empty : Registry C :=
  ⟨.empty, by simp [SortedMap.empty]⟩

def get? (r : Registry C) (name : Text) : Option (Command C) :=
  r.commands.get? name

def register (r : Registry C) (cmd : Command C) : Except DeclarationError (Registry C) :=
  if r.commands.contains cmd.name then .error (.duplicateCommand cmd.name)
  else
    .ok ⟨r.commands.insert cmd.name cmd, fun e he ↦ by
      rcases SortedMap.mem_insertEntry he with rfl | he
      · rfl
      · exact r.named e he⟩

def help (r : Registry C) : Text :=
  "COMMANDS:\n".toList ++
    (r.commands.values.flatMap fun cmd ↦
      listingLine (columnWidth r.commands.keys) cmd.name cmd.doc) ++
    "\nUse `help <command>` for more information.\n".toList

def helpBelow (cmd : Command C) : List Node → Except Misfit Text
  | [] => .ok cmd.help
  | .value name :: path =>
    match cmd.subcommand? name with
    | some sub => helpBelow sub path
    | none => .error (.unknownCommand (cmd.name ++ ' ' :: name))
  | n :: _ => .error (.unexpectedNode n.spelling helpWord)

def helpFor (r : Registry C) : List Node → Except Misfit Text
  | [] => .ok r.help
  | .value name :: path =>
    match r.get? name with
    | some cmd => helpBelow cmd path
    | none => .error (.unknownCommand name)
  | n :: _ => .error (.unexpectedNode n.spelling helpWord)

/-- The root command that a line names, and its tree. The word `help` asks for help in front of a
path of names, unless a root command has that name. -/
def lookup (r : Registry C) (line : Text) : Except Interruption (Command C × Tree) :=
  match Grammar.parseLine line with
  | .error e => .error (.line e)
  | .ok tree =>
    match r.get? tree.name with
    | some cmd => .ok (cmd, tree)
    | none =>
      if tree.name = helpWord then
        match r.helpFor tree.children with
        | .ok text => .error (.help text)
        | .error m => .error (.bind m)
      else .error (.bind (Misfit.unknownCommand tree.name))

def resolve (r : Registry C) (line : Text) : Except Interruption (Bound C) :=
  match r.lookup line with
  | .error e => .error e
  | .ok (cmd, tree) => (cmd.resolve tree).mapError (·.nest cmd.name)

def dispatch (r : Registry C) (line : Text) (ctx : C) : Except Interruption Text × C :=
  match r.lookup line with
  | .error e => (.error e, ctx)
  | .ok (cmd, tree) => cmd.invoke tree ctx

end Registry

end ChatCommand
