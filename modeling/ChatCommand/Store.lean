import ChatCommand.Archive

namespace ChatCommand

/-- A shelf that is forgotten at the end, or one that is kept. -/
inductive Store (V : Type) where
  | memory (shelf : Shelf V)
  | archive (a : Archive V)

namespace Store

variable {V : Type}

def shelf : Store V → Shelf V
  | .memory shelf => shelf
  | .archive a => a.shelf

variable [Json.Format V]

def set (s : Store V) (d : Disk) (key : UInt64) (value : V) :
    Except StoreError (Option V) × Store V × Disk :=
  match s with
  | .memory shelf =>
    let (old, shelf) := shelf.set key value
    (.ok old, .memory shelf, d)
  | .archive a =>
    let (answer, a, d) := a.set d key value
    (answer, .archive a, d)

def delete (s : Store V) (d : Disk) (key : UInt64) :
    Except StoreError (Option V) × Store V × Disk :=
  match s with
  | .memory shelf =>
    let (old, shelf) := shelf.delete key
    (.ok old, .memory shelf, d)
  | .archive a =>
    let (answer, a, d) := a.delete d key
    (answer, .archive a, d)

def add (s : Store V) (d : Disk) (value : V) : Except StoreError UInt64 × Store V × Disk :=
  match s with
  | .memory shelf =>
    match shelf.add value with
    | .error last => (.error (.keysExhausted last), .memory shelf, d)
    | .ok (key, shelf) => (.ok key, .memory shelf, d)
  | .archive a =>
    let (answer, a, d) := a.add d value
    (answer, .archive a, d)

end Store

end ChatCommand
