import ChatCommand.Quote

namespace ChatCommand.Quote

open Text

def quotationMarks : List Char :=
  ['\'', '"', '«', '»', '„', '“', '”', '‘', '’', '‚']

/-- A block is a header `Speaker til A og B` and the lines of the quote under it. -/
def ofBlock (block : Text) : Except (Text × QuoteFault) Quote :=
  let lines := (trim block).lines
  let header := trim (trimBy (· ∈ quotationMarks) (lines.headD []))
  let (speaker, audience) :=
    match splitOnce " til ".toList header with
    | some (speaker, audience) => (speaker, splitNames audience)
    | none => (header, [])
  let quote : Quote := ⟨trim speaker, audience, join ['\n'] (lines.tail.map trim)⟩
  match quote.check with
  | .ok () => .ok quote
  | .error fault => .error (trim block, fault)

/-- Runs of lines that are not blank, given the lines of the run that is being read. -/
def gatherBlocks : (run : List Text) → List Text → List Text
  | [], [] => []
  | l :: run, [] => [join ['\n'] (l :: run)]
  | run, line :: lines =>
    if trim line = [] then
      match run with
      | [] => gatherBlocks [] lines
      | l :: run => join ['\n'] (l :: run) :: gatherBlocks [] lines
    else gatherBlocks (run ++ [line]) lines

def blocks (prose : Text) : List Text :=
  gatherBlocks [] prose.lines

end ChatCommand.Quote
