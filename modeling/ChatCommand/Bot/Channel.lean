import ChatCommand.Bot.Commands
import ChatCommand.Bot.Settings

namespace ChatCommand

open Text

/-- What the bot is told: a command, or prose that is complete. -/
inductive Utterance where
  | command (text : Text)
  | prose (text : Text)
  deriving DecidableEq

namespace Utterance

/-- What a line completes, if anything, and the prose that is still open behind it. A line behind
the marker is a command. Of the others an empty one completes the prose before it, if there is
any. -/
def ofLine (marker prose line : Text) : Option Utterance × Text :=
  match dropPrefix? marker (trim line) with
  | some text => (some (.command text), prose)
  | none =>
    if trim line = [] ∧ trim prose ≠ [] then (some (.prose prose), [])
    else (none, prose ++ line ++ ['\n'])

def ofEnd (prose : Text) : Option Utterance :=
  if trim prose = [] then none else some (.prose prose)

def ofLines (marker prose : Text) : List Text → List Utterance × Text
  | [] => ([], prose)
  | line :: lines =>
    let (u, prose) := ofLine marker prose line
    let (us, prose) := ofLines marker prose lines
    (u.toList ++ us, prose)

end Utterance

namespace Bot

def errorText (message : Text) : Text :=
  "error: ".toList ++ message

def commandReply : Except Interruption Text → Text
  | .ok reply => reply
  | .error e => if e.isHelp then e.message else errorText e.message

def proseReply : Except BotError Text → Text
  | .ok reply => reply
  | .error e => errorText e.message

def respond (bot : Bot) : Utterance → Text × Bot
  | .command text =>
    let (reply, bot) := registry.dispatch text bot
    (commandReply reply, bot)
  | .prose text =>
    let (reply, bot) := bot.keepProse text
    (proseReply reply, bot)

/-- A reply as it is printed. Only at the end of the channel the blanks at its end are kept. -/
def printed (reply : Text) : Text :=
  trimEnd reply ++ ['\n']

def respondAll (bot : Bot) : List Utterance → Text × Bot
  | [] => ([], bot)
  | u :: us =>
    let (reply, bot) := bot.respond u
    let (output, bot) := bot.respondAll us
    (printed reply ++ output, bot)

def respondLast (bot : Bot) : Option Utterance → Text × Bot
  | none => ([], bot)
  | some u =>
    let (reply, bot) := bot.respond u
    (reply ++ ['\n'], bot)

/-- What the bot prints while it hears the lines and then the end, and the bot afterwards. -/
def hear (bot : Bot) (marker : Text) (lines : List Text) : Text × Bot :=
  let (us, prose) := Utterance.ofLines marker [] lines
  let (output, bot) := bot.respondAll us
  let (last, bot) := bot.respondLast (Utterance.ofEnd prose)
  (output ++ last, bot)

end Bot

end ChatCommand
