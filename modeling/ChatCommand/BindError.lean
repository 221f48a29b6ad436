import ChatCommand.Text.Lines
import ChatCommand.Value

namespace ChatCommand

open Text

inductive Misfit where
  | unknownCommand (name : Text)
  | invalidFlag (flag : Char) (command : Text)
  | invalidKwarg (key command : Text)
  | duplicateKwarg (key : Text)
  | missingKwargValue (key : Text) (ty : Ty)
  | missingKwarg (key : Text)
  | coercion (literal : Text) (ty : Ty)
  | tooManyArguments (expected got : Nat)
  | tooFewArguments (expected got : Nat)
  | unexpectedNode (found command : Text)
  | subcommandRequired (command : Text)
  | noHandler (command : Text)
  deriving DecidableEq

def Misfit.message : Misfit → Text
  | .unknownCommand name =>
    "unknown command: `".toList ++ name ++ "`. Use `help` for more information".toList
  | .invalidFlag flag command =>
    '`' :: flag :: "` is not a valid flag of command `".toList ++ command ++ ['`']
  | .invalidKwarg key command =>
    '`' :: key ++ "` is not a valid kwarg of command `".toList ++ command ++ ['`']
  | .duplicateKwarg key => "duplicate kwarg: `--".toList ++ key ++ ['`']
  | .missingKwargValue key ty =>
    "kwarg `--".toList ++ key ++ "` expects a value of type ".toList ++ ty.text
  | .missingKwarg key => "missing required kwarg: `--".toList ++ key ++ ['`']
  | .coercion literal ty =>
    '`' :: literal ++ "` can not be converted to type ".toList ++ ty.text
  | .tooManyArguments expected got =>
    "too many arguments: expected ".toList ++ Number.naturalText expected ++ ", got ".toList ++
      Number.naturalText got
  | .tooFewArguments expected got =>
    "too few arguments: expected ".toList ++ Number.naturalText expected ++ ", got ".toList ++
      Number.naturalText got
  | .unexpectedNode found command =>
    "unexpected `".toList ++ found ++ "` in arguments of command `".toList ++ command ++ ['`']
  | .subcommandRequired command =>
    "a subcommand of `".toList ++ command ++
      "` is required. Use `help` for more information".toList
  | .noHandler command => "command `".toList ++ command ++ "` has nothing to run".toList

/-- A misfit with the chain of commands that led to it, the outermost first. -/
structure BindError where
  frames : List Text
  innermost : Misfit
  deriving DecidableEq

namespace BindError

def nest (command : Text) (e : BindError) : BindError :=
  { e with frames := command :: e.frames }

/-- Set in by four, except that an empty line stays empty. -/
def indented (line : Text) : Text :=
  (if line.isEmpty then [] else spaces 4 ++ line) ++ ['\n']

def frame (command message : Text) : Text :=
  "Command: ".toList ++ command ++ " \x7b\n".toList ++ (lines message).flatMap indented ++ ['}']

def message (e : BindError) : Text :=
  e.frames.foldr frame e.innermost.message

end BindError

instance : Coe Misfit BindError :=
  ⟨fun m ↦ ⟨[], m⟩⟩

def Ty.coerce (ty : Ty) (literal : Text) : Except Misfit Value :=
  match ty.read? literal with
  | some v => .ok v
  | none => .error (.coercion literal ty)

end ChatCommand
