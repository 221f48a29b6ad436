import ChatCommand.Text.Lines

namespace ChatCommand

open Text

namespace Path

def up : Text :=
  ['.', '.']

/-- The step to the topmost directory, which no name can be taken for. -/
def root : Text :=
  ['/']

/-- The steps of a path, from the top if it starts with a slash. Empty pieces and dots stay where
they are. -/
def steps (path : Text) : List Text :=
  if path.head? = some '/' then root :: pieces '/' path else pieces '/' path

def components (path : Text) : List Text :=
  (steps path).filter fun p ↦ p ≠ [] ∧ p ≠ ['.']

def parent (path : Text) : List Text :=
  (components path).dropLast

def endsInStep (path : Text) : Bool :=
  ((pieces '/' path).reverse.find? (· ≠ [])).any fun p ↦ p = ['.'] || p = up

/-- A file name in front of its last dot. A dot at the very front belongs to the name. -/
def stem (name : Text) : Text :=
  let back := name.reverse.dropWhile (· ≠ '.')
  if back.length ≤ 1 then name else back.tail.reverse

/-- The pieces of a path, the last one first, with another extension for the file name. What stands
behind the file name is lost. -/
def extend (extension : Text) : List Text → Option (List Text)
  | [] => none
  | p :: rest =>
    if p = [] ∨ p = ['.'] then extend extension rest
    else if p = up then none
    else some ((stem p ++ '.' :: extension) :: rest)

/-- The path with another extension in place of the last one of its file name. A path without a
file name stays as it is. The old extension goes first, and what it leaves of `..b` at the end of a
path is no file name but the step upwards. -/
def withExtension (path extension : Text) : Text :=
  match (pieces '/' path).reverse with
  | [] => path
  | p :: rest =>
    if p ≠ ['.'] ∧ stem p = ['.'] then join ['/'] (up :: rest).reverse
    else ((extend extension (p :: rest)).map fun back ↦ join ['/'] back.reverse).getD path

end Path

end ChatCommand
