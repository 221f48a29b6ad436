import ChatCommand.Text.Trim

namespace ChatCommand.Text

/-- A line ends at a line feed, which takes one carriage return before it along. What follows the
last line feed is a line only if it is not empty. -/
def lines : Text → List Text
  | [] => []
  | '\n' :: s => [] :: lines s
  | '\r' :: '\n' :: s => [] :: lines s
  | c :: s =>
    match lines s with
    | [] => [[c]]
    | line :: more => (c :: line) :: more

def firstLine (s : Text) : Text :=
  (lines s).headD []

/-- The pieces between the separators: one more than there are separators. -/
def pieces (sep : Char) : Text → List Text
  | [] => [[]]
  | c :: s =>
    if c = sep then [] :: pieces sep s
    else
      match pieces sep s with
      | [] => [[c]]
      | piece :: more => (c :: piece) :: more

def join (sep : Text) : List Text → Text
  | [] => []
  | [s] => s
  | s :: t :: parts => s ++ sep ++ join sep (t :: parts)

def spaces (n : Nat) : Text :=
  List.replicate n ' '

/-- Fills up to a width that is counted in characters. -/
def padEnd (width : Nat) (s : Text) : Text :=
  s ++ spaces (width - s.length)

def byteLength (s : Text) : Nat :=
  s.foldr (fun c n ↦ c.utf8Size + n) 0

/-- The lines at line feeds alone, without the blanks at their ends and without empty ones, each
set in by the given number of spaces. -/
def indentLines (indent : Nat) (s : Text) : Text :=
  (pieces '\n' s).flatMap fun line ↦
    let line := trimEnd line
    if line.isEmpty then [] else spaces indent ++ line ++ ['\n']

theorem pieces_ne_nil (sep : Char) (s : Text) : pieces sep s ≠ [] := by
  cases s with
  | nil => simp [pieces]
  | cons c s => grind [pieces]

end ChatCommand.Text
