import ChatCommand.Number.Shortest

namespace ChatCommand

inductive Ty where
  | string
  | integer
  | float
  deriving DecidableEq

inductive Value where
  | str (s : Text)
  | int (n : Int64)
  | float (x : Binary64)
  deriving DecidableEq

namespace Value

def ty : Value → Ty
  | .str _ => .string
  | .int _ => .integer
  | .float _ => .float

def str? : Value → Option Text
  | .str s => some s
  | _ => none

def int? : Value → Option Int64
  | .int n => some n
  | _ => none

def float? : Value → Option Binary64
  | .float x => some x
  | _ => none

def text : Value → Text
  | .str s => s
  | .int n => Number.int64Text n
  | .float x => x.text

end Value

namespace Ty

def text : Ty → Text
  | .string => "string".toList
  | .integer => "integer".toList
  | .float => "float".toList

/-- The value that a literal denotes. Of the floats only finite ones can be written. -/
def read? : Ty → Text → Option Value
  | .string, s => some (.str s)
  | .integer, s => (Number.int64? s).map .int
  | .float, s => ((Binary64.ofText? s).filter Binary64.isFinite).map .float

theorem ty_of_read? {ty : Ty} {s : Text} {v : Value} (h : ty.read? s = some v) : v.ty = ty := by
  cases ty with
  | string =>
    cases h
    rfl
  | integer | float =>
    obtain ⟨_, _, rfl⟩ := Option.map_eq_some_iff.1 h
    rfl

end Ty

end ChatCommand
