import ChatCommand.Path
import ChatCommand.Trie

namespace ChatCommand

inductive DiskFault where
  | notFound
  | permissionDenied
  | busy
  | alreadyExists
  | notDirectory
  | isDirectory
  | noSpace
  | nameTooLong
  | nulCharacter
  deriving DecidableEq

def DiskFault.message : DiskFault → Text
  | .notFound => "No such file or directory (os error 2)".toList
  | .permissionDenied => "Permission denied (os error 13)".toList
  | .busy => "Device or resource busy (os error 16)".toList
  | .alreadyExists => "File exists (os error 17)".toList
  | .notDirectory => "Not a directory (os error 20)".toList
  | .isDirectory => "Is a directory (os error 21)".toList
  | .noSpace => "No space left on device (os error 28)".toList
  | .nameTooLong => "File name too long (os error 36)".toList
  | .nulCharacter => "file name contained an unexpected NUL byte".toList

/-- The steps that lead from the working directory to a place: at most at the start some upwards or
the one to the top, and then names. -/
abbrev Place := List Text

inductive Entry where
  | directory
  | file (data : Text)
  deriving DecidableEq

/-- A refusal for no reason of the tree. Of data to be written, some may be kept all the same. -/
structure Trouble where
  fault : DiskFault
  kept : Option Nat
  deriving DecidableEq

/-- The directories and files there are, and the troubles that the coming changes meet, one for
each change as long as the list goes. There are no links: a name stands in one place, and for what
is there. -/
structure Disk where
  entries : Trie Text Entry
  troubles : List (Option Trouble)

namespace Disk

def empty : Disk :=
  ⟨.empty, []⟩

/-- Whether no name leads to the place: the working directory, one above it, or the topmost one. -/
def isGround (place : Place) : Bool :=
  place.all fun step ↦ step = Path.up || step = Path.root

def above (place : Place) : Place :=
  if place = [Path.root] then place
  else if isGround place then place ++ [Path.up]
  else place.dropLast

/-- What is at a place. Directories that no name leads to are always there. -/
def entry? (d : Disk) (place : Place) : Option Entry :=
  if isGround place then some .directory else d.entries.get? place

/-- One step further along a path, from a directory. A name takes at most 255 bytes. -/
def follow (d : Disk) (place : Place) (step : Text) : Except DiskFault Place :=
  if step = Path.root then .ok [Path.root]
  else
    match d.entry? place with
    | none => .error .notFound
    | some (.file _) => .error .notDirectory
    | some .directory =>
      if step = [] ∨ step = ['.'] then .ok place
      else if step = Path.up then .ok (above place)
      else if 255 < Text.byteLength step then .error .nameTooLong
      else .ok (place ++ [step])

/-- Where a path ends. All but the end of it must be there. -/
def locate (d : Disk) (steps : List Text) : Except DiskFault Place :=
  steps.foldlM d.follow []

def locatePath (d : Disk) (path : Text) : Except DiskFault Place :=
  if path = [] then .error .notFound
  else if '\x00' ∈ path then .error .nulCharacter
  else if 4095 < Text.byteLength path then .error .nameTooLong
  else d.locate (Path.steps path)

def read (d : Disk) (path : Text) : Except DiskFault Text :=
  match d.locatePath path with
  | .error e => .error e
  | .ok place =>
    match d.entry? place with
    | none => .error .notFound
    | some .directory => .error .isDirectory
    | some (.file data) => .ok data

def put (d : Disk) (place : Place) (entry : Entry) : Disk :=
  { d with entries := d.entries.insert place entry }

def trouble (d : Disk) : Option Trouble × Disk :=
  match d.troubles with
  | [] => (none, d)
  | t :: rest => (t, { d with troubles := rest })

def enter (d : Disk) (place : Place) : Except DiskFault Place × Disk :=
  match d.entry? place with
  | none => (.ok place, d.put place .directory)
  | some .directory => (.ok place, d)
  | some (.file _) => (.error .alreadyExists, d)

/-- A directory and, where they are missing, those above it. What was made stays when a later one
cannot be made. The path is given from its end. -/
def makeBelow (d : Disk) : (back : List Text) → Except DiskFault Place × Disk
  | [] => (.ok [], d)
  | step :: back =>
    match d.locate (step :: back).reverse with
    | .ok place => d.enter place
    | .error .notFound =>
      match d.makeBelow back with
      | (.error e, d) => (.error e, d)
      | (.ok above, d) =>
        match d.follow above step with
        | .error e => (.error e, d)
        | .ok place => d.enter place
    | .error e => (.error e, d)

def makeDirectories (d : Disk) (steps : List Text) : Except DiskFault Unit × Disk :=
  match d.trouble with
  | (some t, d) => (.error t.fault, d)
  | (none, d) =>
    let (made, d) := d.makeBelow steps.reverse
    (made.map fun _ ↦ (), d)

def store (d : Disk) (path data : Text) : Except DiskFault Disk :=
  match d.locatePath path with
  | .error e => .error e
  | .ok place =>
    if d.entry? place = some .directory then .error .isDirectory
    else .ok (d.put place (.file data))

/-- Writes a file anew. In trouble a part of the data may stand in its place. -/
def write (d : Disk) (path data : Text) : Except DiskFault Unit × Disk :=
  match d.trouble with
  | (some t, d) =>
    match t.kept.map fun n ↦ d.store path (data.take n) with
    | some (.ok d) => (.error t.fault, d)
    | _ => (.error t.fault, d)
  | (none, d) =>
    match d.store path data with
    | .ok d => (.ok (), d)
    | .error e => (.error e, d)

def moveFile (d : Disk) (source target : Text) : Except DiskFault Disk :=
  match d.locatePath source with
  | .error e => .error e
  | .ok a =>
    match d.entry? a with
    | none => .error .notFound
    | some .directory => .error .isDirectory
    | some (.file data) =>
      if target.getLast? = some '/' then .error .notDirectory
      else
        match d.locatePath target with
        | .error e => .error e
        | .ok b =>
          if d.entry? b = some .directory then .error .isDirectory
          else .ok { d with entries := (d.entries.erase a).insert b (.file data) }

def move (d : Disk) (source target : Text) : Except DiskFault Disk :=
  if Path.endsInStep target then
    match d.locatePath target with
    | .error e => .error e
    | .ok _ => .error .busy
  else d.moveFile source target

/-- Puts a file in the place of another one, all at once. -/
def rename (d : Disk) (source target : Text) : Except DiskFault Unit × Disk :=
  match d.trouble with
  | (some t, d) => (.error t.fault, d)
  | (none, d) =>
    match d.move source target with
    | .ok d => (.ok (), d)
    | .error e => (.error e, d)

end Disk

end ChatCommand
