import ChatCommand.Quote.Block
import ChatCommand.Quote.Format
import ChatCommand.Store

namespace ChatCommand

open Text

/-- The keeper of the quotes of a channel. What it draws at random is not its own choice: the
coming draws are given with it. -/
structure Bot where
  quotes : Store Quote
  disk : Disk
  draws : Nat → Nat

inductive BotError where
  | invalid (fault : QuoteFault)
  | invalidBlock (block : Text) (fault : QuoteFault)
  | alreadyStored (quote : Quote)
  | unknownId (id : Int64)
  | store (e : StoreError)
  deriving DecidableEq

def BotError.message : BotError → Text
  | .invalid fault => fault.message
  | .invalidBlock block fault => block ++ "\nis not a valid quote: ".toList ++ fault.message
  | .alreadyStored quote => quote.display ++ " is already stored".toList
  | .unknownId id => "no quote with id ".toList ++ Number.int64Text id
  | .store e => e.message

namespace Bot

def numbered (id : UInt64) (quote : Quote) : Text :=
  '#' :: Number.uint64Text id ++ ' ' :: quote.display

def stored (bot : Bot) : List Quote :=
  bot.quotes.shelf.values

def keep (bot : Bot) (quote : Quote) : Except BotError Text × Bot :=
  if quote ∈ bot.stored then (.error (.alreadyStored quote), bot)
  else
    match bot.quotes.add bot.disk quote with
    | (.error e, quotes, disk) => (.error (.store e), { bot with quotes, disk })
    | (.ok id, quotes, disk) =>
      (.ok ("added #".toList ++ Number.uint64Text id ++ ": ".toList ++ quote.display),
        { bot with quotes, disk })

def keepAll (bot : Bot) : List Quote → List Text × Bot
  | [] => ([], bot)
  | quote :: quotes =>
    let (receipt, bot) := bot.keep quote
    let (receipts, bot) := bot.keepAll quotes
    match receipt with
    | .ok text => (text :: receipts, bot)
    | .error e => (("skipped: ".toList ++ e.message) :: receipts, bot)

def ofBlocks : List Text → Except BotError (List Quote)
  | [] => .ok []
  | block :: blocks =>
    match Quote.ofBlock block with
    | .error (raw, fault) => .error (.invalidBlock raw fault)
    | .ok quote => (ofBlocks blocks).map (quote :: ·)

/-- Stores every block of the prose, or none if one of them is not a quote. -/
def keepProse (bot : Bot) (prose : Text) : Except BotError Text × Bot :=
  match ofBlocks (Quote.blocks prose) with
  | .error e => (.error e, bot)
  | .ok quotes =>
    let (receipts, bot) := bot.keepAll quotes
    (.ok (join ['\n'] receipts), bot)

def add (bot : Bot) (speaker text : Text) (audience : Option Text) : Except BotError Text × Bot :=
  let quote : Quote := ⟨speaker, audience.elim [] Quote.splitNames, text⟩
  match quote.check with
  | .error fault => (.error (.invalid fault), bot)
  | .ok () => bot.keep quote

def remove (bot : Bot) (id : Int64) : Except BotError Text × Bot :=
  if id.toInt < 0 then (.error (.unknownId id), bot)
  else
    match bot.quotes.delete bot.disk id.toUInt64 with
    | (.error e, quotes, disk) => (.error (.store e), { bot with quotes, disk })
    | (.ok none, quotes, disk) => (.error (.unknownId id), { bot with quotes, disk })
    | (.ok (some quote), quotes, disk) =>
      (.ok ("deleted #".toList ++ Number.int64Text id ++ ": ".toList ++ quote.display),
        { bot with quotes, disk })

def nothing : Text :=
  "no quotes yet".toList

def list (bot : Bot) (showIds : Bool) : Text :=
  if bot.quotes.shelf.isEmpty then nothing
  else
    join ['\n'] <| bot.quotes.shelf.entries.map fun (id, quote) ↦
      if showIds then numbered id quote else quote.display

/-- The quote that the next draw comes to, counted around as often as it takes. -/
def random (bot : Bot) : Text × Bot :=
  let drawn := bot.stored[bot.draws 0 % bot.stored.length]?
  (drawn.elim nothing Quote.display, { bot with draws := fun n ↦ bot.draws (n + 1) })

end Bot

end ChatCommand
