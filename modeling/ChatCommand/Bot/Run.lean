import ChatCommand.Bot.Channel

namespace ChatCommand

namespace Settings

def openStore (s : Settings) (explain : Text → Text) (d : Disk) : Except StoreError (Store Quote) :=
  match s.file with
  | none => .ok (.memory .empty)
  | some path => (Archive.load explain d path).map .archive

end Settings

/-- What a run of the program leaves: what it printed, why it failed, and the disk. -/
structure Outcome where
  output : Text
  failure : Option Text
  disk : Disk

def Outcome.ofRun (explain : Text → Text) (args : List Text) (input : Text) (d : Disk)
    (draws : Nat → Nat) : Outcome :=
  match Settings.ofArgs args with
  | .error (.help text) => ⟨text, none, d⟩
  | .error e => ⟨[], some e.message, d⟩
  | .ok settings =>
    match settings.openStore explain d with
    | .error e => ⟨[], some e.message, d⟩
    | .ok quotes =>
      let (output, bot) := Bot.hear ⟨quotes, d, draws⟩ settings.marker input.lines
      ⟨output, none, bot.disk⟩

end ChatCommand
