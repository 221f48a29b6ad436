import ChatCommand.Text.Lines

namespace ChatCommand

inductive Node where
  | value (text : Text)
  | flag (letter : Char)
  | kwarg (key : Text) (value : Option Text)
  | tree (root : Option Text) (children : List Node)

structure Tree where
  root : Option Text
  children : List Node

def Tree.toNode (t : Tree) : Node :=
  .tree t.root t.children

def Tree.name (t : Tree) : Text :=
  t.root.getD []

namespace Node

mutual

def decEq : (m n : Node) → Decidable (m = n)
  | .value s, .value t => decidable_of_iff (s = t) (by simp)
  | .flag c, .flag d => decidable_of_iff (c = d) (by simp)
  | .kwarg k v, .kwarg l w => decidable_of_iff (k = l ∧ v = w) (by simp)
  | .tree r ms, .tree s ns =>
    have := decEqList ms ns
    decidable_of_iff (r = s ∧ ms = ns) (by simp)
  | .value _, .flag _ | .value _, .kwarg _ _ | .value _, .tree _ _
  | .flag _, .value _ | .flag _, .kwarg _ _ | .flag _, .tree _ _
  | .kwarg _ _, .value _ | .kwarg _ _, .flag _ | .kwarg _ _, .tree _ _
  | .tree _ _, .value _ | .tree _ _, .flag _ | .tree _ _, .kwarg _ _ => .isFalse (by simp)

def decEqList : (ms ns : List Node) → Decidable (ms = ns)
  | [], [] => .isTrue rfl
  | m :: ms, n :: ns =>
    have := decEq m n
    have := decEqList ms ns
    decidable_of_iff (m = n ∧ ms = ns) (by simp)
  | [], _ :: _ | _ :: _, [] => .isFalse (by simp)

end

instance : DecidableEq Node :=
  decEq

/-- The node as a user would write it, though without quotation marks. -/
def spelling : Node → Text
  | .value s => s
  | .flag c => ['-', c]
  | .kwarg key none => '-' :: '-' :: key
  | .kwarg key (some s) => '-' :: '-' :: key ++ ' ' :: s
  | .tree root _ => root.getD []

end Node

deriving instance DecidableEq for Tree

end ChatCommand
