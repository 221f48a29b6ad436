import ChatCommand.Bot.Run

namespace ChatCommand.Program

open Text

/-- What the file system has at a path. A file that is not text cannot be a store, and stands for
itself by a text that is not one either. -/
def look (path : Text) : IO (Option Entry) := do
  let path := (← IO.currentDir) / String.ofList path
  if ← path.isDir then return some .directory
  unless ← path.pathExists do return none
  return some (.file ((String.fromUTF8? (← IO.FS.readBinFile path)).elim ['?'] String.toList))

def snapshot (path : Text) : IO Disk := do
  let steps := Path.components path
  (List.range steps.length).foldlM (fun d n ↦ do
    let way := steps.take (n + 1)
    match d.locate way, ← look (join ['/'] way) with
    | .ok place, some entry => return if Disk.isGround place then d else d.put place entry
    | _, _ => return d) Disk.empty

def writeOut (path : Text) (d : Disk) : IO Unit := do
  if let .ok data := d.read path then
    let target := (← IO.currentDir) / String.ofList path
    let draft := (← IO.currentDir) / String.ofList (Archive.draftPath path)
    if let some parent := draft.parent then IO.FS.createDirAll parent
    IO.FS.writeFile draft (String.ofList data)
    IO.FS.rename draft target

def print (text : Text) : IO Unit := do
  let out ← IO.getStdout
  out.putStr (String.ofList text)
  out.flush

def sync (settings : Settings) (old new : Disk) : IO Unit :=
  match settings.file with
  | some path =>
    if (old.read path).toOption = (new.read path).toOption then pure () else writeOut path new
  | none => pure ()

partial def converse (settings : Settings) (bot : Bot) (prose : Text) : IO Unit := do
  match lines (← (← IO.getStdin).getLine).toList with
  | [] =>
    let (reply, next) := bot.respondLast (Utterance.ofEnd prose)
    sync settings bot.disk next.disk
    print reply
  | line :: _ =>
    if settings.verbose then IO.eprintln (String.ofList line)
    let (heard, prose) := Utterance.ofLine settings.marker prose line
    let draw ← IO.rand 0 4294967295
    let (reply, next) := { bot with draws := fun _ ↦ draw }.respondAll heard.toList
    sync settings bot.disk next.disk
    print reply
    converse settings next prose

def fail (message : Text) : IO UInt32 := do
  IO.eprintln (String.ofList ("Error: ".toList ++ message))
  return 1

def start (settings : Settings) : IO UInt32 := do
  let d ← settings.file.elim (pure Disk.empty) snapshot
  match settings.openStore (fun _ ↦ "not a store of quotes".toList) d with
  | .error e => fail e.message
  | .ok quotes =>
    converse settings ⟨quotes, d, fun _ ↦ 0⟩ []
    return 0

end ChatCommand.Program

open ChatCommand in
def main (args : List String) : IO UInt32 :=
  match Settings.ofArgs (args.map String.toList) with
  | .ok settings => Program.start settings
  | .error (.help text) => do
    Program.print text
    return 0
  | .error e => Program.fail e.message
