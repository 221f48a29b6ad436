import ChatCommand.Command
import ChatCommand.Text.Lines

namespace ChatCommand

open Text

/-! Declarations on one line: records with named fields, lists in brackets, texts and characters
quoted. -/

namespace Inspect

def hex (n : Nat) : Text :=
  Nat.toDigits 16 n

def escaped (quote c : Char) : Text :=
  if c = quote ∨ c = '\\' then ['\\', c]
  else if c = '\n' then "\\n".toList
  else if c = '\r' then "\\r".toList
  else if c = '\t' then "\\t".toList
  else if c.toNat = 0 then "\\0".toList
  else if c.toNat < 0x20 ∨ c.toNat = 0x7F then "\\u\x7b".toList ++ hex c.toNat ++ ['}']
  else [c]

def quotedText (s : Text) : Text :=
  '"' :: s.flatMap (escaped '"') ++ ['"']

def quotedChar (c : Char) : Text :=
  '\'' :: escaped '\'' c ++ ['\'']

def bool (b : Bool) : Text :=
  if b then "true".toList else "false".toList

def call (name : String) (argument : Text) : Text :=
  name.toList ++ '(' :: argument ++ [')']

def bracketed (items : List Text) : Text :=
  '[' :: join ", ".toList items ++ [']']

def record (name : String) (fields : List (String × Text)) : Text :=
  name.toList ++ " \x7b ".toList ++
    join ", ".toList (fields.map fun f ↦ f.1.toList ++ ": ".toList ++ f.2) ++ " \x7d".toList

def ty : Ty → Text
  | .string => "String".toList
  | .integer => "Integer".toList
  | .float => "Float".toList

def value : Value → Text
  | .str s => call "Str" (quotedText s)
  | .int n => call "Int" (Number.int64Text n)
  | .float x => call "Float" x.literal

def arity : Arity → Text
  | .optional => "Optional".toList
  | .required => "Required".toList
  | .fallback v => call "Default" (value v)

def arg (a : ArgSpec) : Text :=
  record "ArgSpec" [("name", quotedText a.name), ("ty", ty a.ty), ("doc", quotedText a.doc),
    ("default", a.fallback.elim "None".toList fun v ↦ call "Some" (value v))]

def flag (f : FlagSpec) : Text :=
  record "FlagSpec" [("name", quotedChar f.name), ("doc", quotedText f.doc)]

def kwarg (k : KwargSpec) : Text :=
  record "KwargSpec" [("key", quotedText k.key), ("ty", ty k.ty), ("doc", quotedText k.doc),
    ("arity", arity k.arity), ("bare", bool k.bare)]

variable {C : Type}

mutual

def command : Command C → Text
  | ⟨name, _, args, flags, kwargs, subcommands, handler⟩ =>
    record "Command" [("name", quotedText name), ("args", bracketed (args.map arg)),
      ("flags", bracketed (flags.map flag)), ("kwargs", bracketed (kwargs.map kwarg)),
      ("subcommands", bracketed (commands subcommands)), ("handler", bool handler.isSome)]

def commands : List (Command C) → List Text
  | [] => []
  | cmd :: cmds => command cmd :: commands cmds

end

end Inspect

end ChatCommand
