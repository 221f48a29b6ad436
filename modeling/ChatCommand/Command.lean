import ChatCommand.SortedMap
import ChatCommand.Token
import ChatCommand.Value

namespace ChatCommand

/-- The typed arguments of one call. A kwarg without a value is present, with nothing under it. -/
structure Arguments where
  values : List Value
  flags : SortedMap Char Unit
  kwargs : SortedMap Text (Option Value)
  deriving DecidableEq

namespace Arguments

def empty : Arguments :=
  ⟨[], .empty, .empty⟩

def value? (a : Arguments) (i : Nat) : Option Value :=
  a.values[i]?

def str? (a : Arguments) (i : Nat) : Option Text :=
  (a.value? i).bind Value.str?

def int? (a : Arguments) (i : Nat) : Option Int64 :=
  (a.value? i).bind Value.int?

def float? (a : Arguments) (i : Nat) : Option Binary64 :=
  (a.value? i).bind Value.float?

def hasFlag (a : Arguments) (c : Char) : Bool :=
  a.flags.contains c

def hasKwarg (a : Arguments) (key : Text) : Bool :=
  a.kwargs.contains key

def kwarg? (a : Arguments) (key : Text) : Option Value :=
  (a.kwargs.get? key).join

end Arguments

/-- A positional. It may be left out if it has a fallback. -/
structure ArgSpec where
  name : Text
  ty : Ty
  doc : Text
  fallback : Option Value
  deriving DecidableEq

structure FlagSpec where
  name : Char
  doc : Text
  deriving DecidableEq

inductive Arity where
  | optional
  | required
  | fallback (value : Value)
  deriving DecidableEq

/-- An option `--key value`, of which a bare one may also be written without a value. -/
structure KwargSpec where
  key : Text
  ty : Ty
  doc : Text
  arity : Arity
  bare : Bool
  deriving DecidableEq

/-- What runs a command: from the arguments and a context to a reply, or to the reason why there is
none, with the context as it is afterwards. -/
abbrev Handler (C : Type) := Arguments → C → Except Text Text × C

structure Command (C : Type) where
  name : Text
  doc : Text
  args : List ArgSpec
  flags : List FlagSpec
  kwargs : List KwargSpec
  subcommands : List (Command C)
  handler : Option (Handler C)

namespace Command

variable {C : Type}

def subcommand? (cmd : Command C) (name : Text) : Option (Command C) :=
  cmd.subcommands.find? (·.name = name)

def flag? (cmd : Command C) (c : Char) : Option FlagSpec :=
  cmd.flags.find? (·.name = c)

def kwarg? (cmd : Command C) (key : Text) : Option KwargSpec :=
  cmd.kwargs.find? (·.key = key)

def requiredArgs (cmd : Command C) : Nat :=
  (cmd.args.takeWhile (·.fallback.isNone)).length

end Command

end ChatCommand
