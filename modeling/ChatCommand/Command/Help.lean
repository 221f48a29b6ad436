import ChatCommand.Command
import ChatCommand.Text.Lines

namespace ChatCommand

open Text

/-- The width of a column of names is that of the longest one in bytes, so names with other
characters than ASCII leave it wider than need be. -/
def columnWidth (names : List Text) : Nat :=
  (names.map byteLength).foldr max 0

def listingLine (width : Nat) (name doc : Text) : Text :=
  spaces 4 ++ padEnd width name ++ spaces 2 ++ firstLine doc ++ ['\n']

namespace Help

def argHead (arg : ArgSpec) : Text :=
  match arg.fallback with
  | none => spaces 4 ++ '<' :: arg.name ++ ">: ".toList ++ arg.ty.text
  | some v =>
    spaces 4 ++ '[' :: arg.name ++ "]: ".toList ++ arg.ty.text ++ " = ".toList ++ v.text

def argEntry (arg : ArgSpec) : Text :=
  argHead arg ++ '\n' :: indentLines 6 arg.doc

def flagEntry (flag : FlagSpec) : Text :=
  spaces 4 ++ '-' :: flag.name :: '\n' :: indentLines 6 flag.doc

def kwargHead (kwarg : KwargSpec) : Text :=
  spaces 4 ++ "--".toList ++ kwarg.key ++
    (if kwarg.bare then " [".toList ++ kwarg.ty.text ++ [']']
      else " <".toList ++ kwarg.ty.text ++ ['>']) ++
    match kwarg.arity with
    | .optional => []
    | .required => " (required)".toList
    | .fallback v => " = ".toList ++ v.text

def kwargEntry (kwarg : KwargSpec) : Text :=
  kwargHead kwarg ++ '\n' :: indentLines 6 kwarg.doc

def headed (title : String) (entries : Text) : Text :=
  if entries.isEmpty then [] else '\n' :: title.toList ++ ":\n".toList ++ entries

end Help

open Help

namespace Command

variable {C : Type}

/-- The usage text: the general form, the documentation, then what can be given, section by
section. The kwarg `--help` belongs to every command. -/
def help (cmd : Command C) : Text :=
  cmd.name ++ " \x7bargs\x7d -\x7bflags\x7d --\x7bkey\x7d value\n".toList ++
    indentLines 2 cmd.doc ++
    headed "SUBCOMMANDS"
      (cmd.subcommands.flatMap fun sub ↦
        listingLine (columnWidth (cmd.subcommands.map (·.name))) sub.name sub.doc) ++
    headed "ARGS" (join ['\n'] (cmd.args.map argEntry)) ++
    headed "FLAGS" (join ['\n'] (cmd.flags.map flagEntry)) ++
    "\nKWARGS:\n".toList ++
    cmd.kwargs.flatMap (fun kwarg ↦ kwargEntry kwarg ++ ['\n']) ++
    "    --help\n      Prints help information.\n".toList

end Command

end ChatCommand
