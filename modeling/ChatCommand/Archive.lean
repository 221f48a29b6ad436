import ChatCommand.Disk
import ChatCommand.Json.Format
import ChatCommand.Number.Integer
import ChatCommand.Shelf

namespace ChatCommand

inductive StoreError where
  | keysExhausted (last : UInt64)
  | access (path : Text) (fault : DiskFault)
  | decode (path source : Text)
  deriving DecidableEq

def StoreError.message : StoreError → Text
  | .keysExhausted last => "no free key left after `".toList ++ Number.uint64Text last ++ ['`']
  | .access path fault => "can't access `".toList ++ path ++ "`: ".toList ++ fault.message
  | .decode path source => "can't decode `".toList ++ path ++ "`: ".toList ++ source

/-- A shelf that is kept in a file, which is written anew after every change. -/
structure Archive (V : Type) where
  path : Text
  shelf : Shelf V

namespace Archive

variable {V : Type} [Json.Format V]

/-- A file that is missing or empty is an empty shelf. What there is to say of data that cannot be
read is up to whoever reads it. -/
def load (explain : Text → Text) (d : Disk) (path : Text) : Except StoreError (Archive V) :=
  match d.read path with
  | .error .notFound => .ok ⟨path, .empty⟩
  | .error fault => .error (.access path fault)
  | .ok [] => .ok ⟨path, .empty⟩
  | .ok (c :: data) =>
    match Json.readMap (c :: data) with
    | none => .error (.decode path (explain (c :: data)))
    | some shelf => .ok ⟨path, shelf⟩

def draftPath (path : Text) : Text :=
  Path.withExtension path "json.tmp".toList

/-- Writes a draft beside the file and then puts it in the file's place, so that the file is never
half written. -/
def save (a : Archive V) (d : Disk) : Except StoreError Unit × Disk :=
  let draft := draftPath a.path
  let parent := Path.parent draft
  match if parent.isEmpty then (.ok (), d) else d.makeDirectories parent with
  | (.error fault, d) => (.error (.access a.path fault), d)
  | (.ok (), d) =>
    match d.write draft (Json.writeMap a.shelf) with
    | (.error fault, d) => (.error (.access a.path fault), d)
    | (.ok (), d) =>
      match d.rename draft a.path with
      | (.error fault, d) => (.error (.access a.path fault), d)
      | (.ok (), d) => (.ok (), d)

/-- Saves a changed shelf and then gives the answer. The change stays when it cannot be saved. -/
def commit {α : Type} (a : Archive V) (d : Disk) (answer : α) :
    Except StoreError α × Archive V × Disk :=
  let (saved, d) := a.save d
  (saved.map fun _ ↦ answer, a, d)

def set (a : Archive V) (d : Disk) (key : UInt64) (value : V) :
    Except StoreError (Option V) × Archive V × Disk :=
  let (old, shelf) := a.shelf.set key value
  commit { a with shelf } d old

def delete (a : Archive V) (d : Disk) (key : UInt64) :
    Except StoreError (Option V) × Archive V × Disk :=
  match a.shelf.delete key with
  | (none, _) => (.ok none, a, d)
  | (some old, shelf) => commit { a with shelf } d (some old)

def add (a : Archive V) (d : Disk) (value : V) : Except StoreError UInt64 × Archive V × Disk :=
  match a.shelf.add value with
  | .error last => (.error (.keysExhausted last), a, d)
  | .ok (key, shelf) => commit { a with shelf } d key

end Archive

end ChatCommand
