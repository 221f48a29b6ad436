import ChatCommand.Bot
import ChatCommand.Registry

namespace ChatCommand.Bot

def answered (r : Except BotError Text × Bot) : Except Text Text × Bot :=
  (r.1.mapError BotError.message, r.2)

def addCommand : Command Bot where
  name := "add".toList
  doc := "Store one quote.".toList
  args := [⟨"speaker".toList, .string, "Who said it.".toList, none⟩,
    ⟨"text".toList, .string, "What was said, quoted.".toList, none⟩]
  flags := []
  kwargs := [⟨"audience".toList, .string,
    "Who it was said to, `A og B` for several.".toList, .optional, false⟩]
  subcommands := []
  handler := some fun a bot ↦
    answered (bot.add ((a.str? 0).getD []) ((a.str? 1).getD [])
      ((a.kwarg? "audience".toList).bind Value.str?))

def removeCommand : Command Bot where
  name := "remove".toList
  doc := "Delete a quote by id.".toList
  args := [⟨"id".toList, .integer, "Id as shown by `quote list -v`.".toList, none⟩]
  flags := []
  kwargs := []
  subcommands := []
  handler := some fun a bot ↦ answered (bot.remove ((a.int? 0).getD 0))

def listCommand : Command Bot where
  name := "list".toList
  doc := "Show all quotes.".toList
  args := []
  flags := [⟨'v', "Show ids.".toList⟩]
  kwargs := []
  subcommands := []
  handler := some fun a bot ↦ (.ok (bot.list (a.hasFlag 'v')), bot)

def randomCommand : Command Bot where
  name := "random".toList
  doc := "Show one quote.".toList
  args := []
  flags := []
  kwargs := []
  subcommands := []
  handler := some fun _ bot ↦
    let (shown, bot) := bot.random
    (.ok shown, bot)

def quoteCommand : Command Bot where
  name := "quote".toList
  doc := "Keep the quotes of the channel.".toList
  args := []
  flags := []
  kwargs := []
  subcommands := [addCommand, removeCommand, listCommand, randomCommand]
  handler := none

def registry : Registry Bot :=
  ⟨SortedMap.empty.insert quoteCommand.name quoteCommand, by
    intro e he
    simp only [SortedMap.insert, SortedMap.empty, SortedMap.insertEntry, List.mem_singleton] at he
    subst he
    rfl⟩

theorem checkDeep_quoteCommand : quoteCommand.checkDeep = .ok () := by
  rfl

end ChatCommand.Bot
