import ChatCommand.BindError
import ChatCommand.Command.Check
import ChatCommand.Command.Help
import ChatCommand.LineError
import ChatCommand.Tree

namespace ChatCommand

/-- Why a line is answered without the reply of a handler. A request for help is no fault. -/
inductive Interruption where
  | line (e : LineError)
  | bind (e : BindError)
  | help (text : Text)
  | run (reason : Text)
  deriving DecidableEq

namespace Interruption

def message : Interruption → Text
  | .line e => e.message
  | .bind e => e.message
  | .help text => text
  | .run reason => reason

def isHelp : Interruption → Bool
  | .help _ => true
  | _ => false

/-- Only what went wrong in binding is put in a frame. -/
def nest (command : Text) : Interruption → Interruption
  | .bind e => .bind (e.nest command)
  | e => e

end Interruption

variable {C : Type}

structure Bound (C : Type) where
  command : Command C
  arguments : Arguments

namespace Command

/-- The command that the leading values lead to, with the names on the way and the nodes that are
left for it. -/
structure Route (C : Type) where
  names : List Text
  command : Command C
  nodes : List Node

def route (cmd : Command C) : List Node → Route C
  | .value head :: nodes =>
    match cmd.subcommand? head with
    | some sub =>
      let r := sub.route nodes
      { r with names := sub.name :: r.names }
    | none => ⟨[], cmd, .value head :: nodes⟩
  | nodes => ⟨[], cmd, nodes⟩

def isHelpKwarg : Node → Bool
  | .kwarg key _ => key = helpWord
  | _ => false

/-- Whether the nodes left for a command ask for its help. A command with positionals takes the
word `help` as an ordinary value. -/
def asksHelp (cmd : Command C) (nodes : List Node) : Bool :=
  (nodes.head? = some (.value helpWord) && cmd.args.isEmpty) || nodes.any isHelpKwarg

/-- What the nodes read so far amount to. Values beyond the declared ones are only counted. -/
structure Binding where
  arguments : Arguments
  got : Nat

def bindValue (cmd : Command C) (b : Binding) (literal : Text) : Except Misfit Binding :=
  match cmd.args[b.got]? with
  | none => .ok { b with got := b.got + 1 }
  | some spec => do
    let v ← spec.ty.coerce literal
    .ok ⟨{ b.arguments with values := b.arguments.values ++ [v] }, b.got + 1⟩

def bindFlag (cmd : Command C) (b : Binding) (c : Char) : Except Misfit Binding :=
  match cmd.flag? c with
  | none => .error (.invalidFlag c cmd.name)
  | some _ => .ok { b with arguments.flags := b.arguments.flags.insert c () }

def kwargValue (spec : KwargSpec) : Option Text → Except Misfit (Option Value)
  | some literal => (spec.ty.coerce literal).map some
  | none => if spec.bare then .ok none else .error (.missingKwargValue spec.key spec.ty)

def bindKwarg (cmd : Command C) (b : Binding) (key : Text) (value : Option Text) :
    Except Misfit Binding :=
  match cmd.kwarg? key with
  | none => .error (.invalidKwarg key cmd.name)
  | some spec =>
    if b.arguments.kwargs.contains key then .error (.duplicateKwarg key)
    else do
      let v ← kwargValue spec value
      .ok { b with arguments.kwargs := b.arguments.kwargs.insert key v }

def bindNode (cmd : Command C) (b : Binding) : Node → Except Misfit Binding
  | .value literal => cmd.bindValue b literal
  | .flag c => cmd.bindFlag b c
  | .kwarg key value => cmd.bindKwarg b key value
  | .tree root children => .error (.unexpectedNode (Node.tree root children).spelling cmd.name)

def bindNodes (cmd : Command C) (b : Binding) : List Node → Except Misfit Binding
  | [] => .ok b
  | n :: nodes => do cmd.bindNodes (← cmd.bindNode b n) nodes

def fillKwargs : List KwargSpec → SortedMap Text (Option Value) →
    Except Misfit (SortedMap Text (Option Value))
  | [], given => .ok given
  | spec :: specs, given =>
    if given.contains spec.key then fillKwargs specs given
    else
      match spec.arity with
      | .optional => fillKwargs specs given
      | .required => .error (.missingKwarg spec.key)
      | .fallback v => fillKwargs specs (given.insert spec.key (some v))

def complete (cmd : Command C) (b : Binding) : Except Misfit Arguments :=
  if cmd.args.length < b.got then .error (.tooManyArguments cmd.args.length b.got)
  else if b.got < cmd.requiredArgs then .error (.tooFewArguments cmd.requiredArgs b.got)
  else do
    let kwargs ← fillKwargs cmd.kwargs b.arguments.kwargs
    .ok { b.arguments with
      values := b.arguments.values ++ (cmd.args.drop b.got).filterMap (·.fallback)
      kwargs := kwargs }

def bind (cmd : Command C) (nodes : List Node) : Except Misfit Arguments := do
  cmd.complete (← cmd.bindNodes ⟨.empty, 0⟩ nodes)

/-- Binds the children of the tree, all of them or none. The root of the tree is not looked at. -/
def resolve (cmd : Command C) (tree : Tree) : Except Interruption (Bound C) :=
  let r := cmd.route tree.children
  if r.command.asksHelp r.nodes then .error (.help r.command.help)
  else
    match r.command.bind r.nodes with
    | .ok arguments => .ok ⟨r.command, arguments⟩
    | .error m => .error (.bind ⟨r.names, m⟩)

end Command

def Bound.run (b : Bound C) (ctx : C) : Except Interruption Text × C :=
  match b.command.handler with
  | some handler =>
    let (reply, ctx) := handler b.arguments ctx
    (reply.mapError .run, ctx)
  | none =>
    if b.command.subcommands.isEmpty then
      (.error (.bind (Misfit.noHandler b.command.name)), ctx)
    else (.error (.bind (Misfit.subcommandRequired b.command.name)), ctx)

/-- Resolves the tree and runs the handler, what goes wrong in a frame for the command. -/
def Command.invoke (cmd : Command C) (tree : Tree) (ctx : C) : Except Interruption Text × C :=
  match cmd.resolve tree with
  | .error e => (.error (e.nest cmd.name), ctx)
  | .ok b =>
    let (reply, ctx) := b.run ctx
    (reply.mapError (·.nest cmd.name), ctx)

end ChatCommand
