import ChatCommand.SortedMap

namespace ChatCommand

abbrev Shelf (V : Type) := SortedMap UInt64 V

namespace Shelf

variable {V : Type}

/-- The number for a new value: the one after the last in use, from one on. There is none after the
greatest number, which is then the error. -/
def nextKey (s : Shelf V) : Except UInt64 UInt64 :=
  match s.lastKey? with
  | none => .ok 1
  | some last => if last.toNat + 1 < UInt64.size then .ok (last + 1) else .error last

def set (s : Shelf V) (key : UInt64) (value : V) : Option V × Shelf V :=
  (s.get? key, SortedMap.insert s key value)

def delete (s : Shelf V) (key : UInt64) : Option V × Shelf V :=
  (s.get? key, s.erase key)

def add (s : Shelf V) (value : V) : Except UInt64 (UInt64 × Shelf V) :=
  match s.nextKey with
  | .error last => .error last
  | .ok key => .ok (key, (s.set key value).2)

end Shelf

end ChatCommand
