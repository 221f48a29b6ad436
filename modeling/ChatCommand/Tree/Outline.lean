import ChatCommand.Tree

namespace ChatCommand

open Text

namespace Node

def braced (indent : Nat) (body : Text) : Text :=
  if body.isEmpty then ['\n'] else " \x7b\n".toList ++ body ++ spaces indent ++ "\x7d\n".toList

mutual

def outlineAt (indent : Nat) : Node → Text
  | .value s => spaces indent ++ "Value: ".toList ++ s ++ ['\n']
  | .flag c => spaces indent ++ "Flag: ".toList ++ [c, '\n']
  | .kwarg key none => spaces indent ++ "Kwarg: ".toList ++ key ++ braced indent []
  | .kwarg key (some s) =>
    spaces indent ++ "Kwarg: ".toList ++ key ++
      braced indent (spaces (indent + 4) ++ "Value: ".toList ++ s ++ ['\n'])
  | .tree root children =>
    spaces indent ++ "Tree: ".toList ++ root.getD "<anon>".toList ++
      braced indent (outlinesAt (indent + 4) children)

def outlinesAt (indent : Nat) : List Node → Text
  | [] => []
  | n :: ns => outlineAt indent n ++ outlinesAt indent ns

end

/-- The node over several lines, its children set in by four. Blanks at the very end are cut, those
of the last value included. -/
def outline (n : Node) : Text :=
  trimEnd (outlineAt 0 n)

end Node

def Tree.outline (t : Tree) : Text :=
  t.toNode.outline

end ChatCommand
