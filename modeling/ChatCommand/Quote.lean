import ChatCommand.Text.Split

namespace ChatCommand

open Text

structure Quote where
  speaker : Text
  audience : List Text
  text : Text
  deriving DecidableEq

inductive QuoteFault where
  | noSpeaker
  | noText
  | unnamedListener
  deriving DecidableEq

def QuoteFault.message : QuoteFault → Text
  | .noSpeaker => "speaker not found".toList
  | .noText => "quote not found".toList
  | .unnamedListener => "audience member can not be an empty string".toList

namespace Quote

def check (q : Quote) : Except QuoteFault Unit :=
  if q.speaker = [] then .error .noSpeaker
  else if q.text = [] then .error .noText
  else if [] ∈ q.audience then .error .unnamedListener
  else .ok ()

def namesText : List Text → Text
  | [] => []
  | [name] => name
  | [a, b] => a ++ " og ".toList ++ b
  | a :: b :: names => a ++ ", ".toList ++ namesText (b :: names)

def display (q : Quote) : Text :=
  '"' :: q.text.flatMap (fun c ↦ if c = '\n' then " / ".toList else [c]) ++ "\" - ".toList ++
    q.speaker ++ (if q.audience = [] then [] else " til ".toList ++ namesText q.audience)

/-- The listeners of `A, B og C`, also where a comma stands in front of `og`. -/
def splitNames (names : Text) : List Text :=
  let names := replace ", og ".toList (by decide) " og ".toList names
  let names := replace ",og ".toList (by decide) " og ".toList names
  ((splitOn " og ".toList (by decide) names).flatMap (pieces ',')).map trim

end Quote

end ChatCommand
