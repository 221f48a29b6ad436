import ChatCommand.Registry

namespace ChatCommand

/-- How a run of the bot is set up: what marks a command, and the file that keeps the quotes. -/
structure Settings where
  marker : Text
  file : Option Text
  verbose : Bool
  deriving DecidableEq

namespace Settings

def defaultMarker : Text :=
  ['!']

def command : Command Unit where
  name := "quotes".toList
  doc := "Keeps chat quotes, reading the chat from stdin.".toList
  args := []
  flags := [⟨'v', "Log at debug level.".toList⟩]
  kwargs := [
    ⟨"prefix".toList, .string, "Marks a command line.".toList, .fallback (.str defaultMarker),
      false⟩,
    ⟨"db".toList, .string, "JSON file to keep quotes in across runs.".toList, .optional, false⟩]
  subcommands := []
  handler := none

theorem checkDeep_command : command.checkDeep = .ok () := by
  rfl

/-- An argument of the program as a token of a command line: an option as it is, and all else as
one value, in quotation marks where it needs them. -/
def quoteArg (arg : Text) : Text :=
  if Token.startsWithFlag arg || Token.isSymbol arg then arg
  else if '\'' ∈ arg then '"' :: arg ++ ['"']
  else '\'' :: arg ++ ['\'']

def line (args : List Text) : Text :=
  command.name ++ args.flatMap fun arg ↦ ' ' :: quoteArg arg

def ofArguments (a : Arguments) : Settings where
  marker := ((a.kwarg? "prefix".toList).bind Value.str?).getD defaultMarker
  file := (a.kwarg? "db".toList).bind Value.str?
  verbose := a.hasFlag 'v'

def ofArgs (args : List Text) : Except Interruption Settings :=
  match Grammar.parseLine (line args) with
  | .error e => .error (.line e)
  | .ok tree => (command.resolve tree).map fun b ↦ ofArguments b.arguments

end Settings

end ChatCommand
