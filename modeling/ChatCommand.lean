import ChatCommand.Command.Inspect
import ChatCommand.Main
import ChatCommand.Proofs.Bind.Frames
import ChatCommand.Proofs.Bind.Rearranged
import ChatCommand.Proofs.Bind.Resolve
import ChatCommand.Proofs.Bot.Batch
import ChatCommand.Proofs.Bot.Removal
import ChatCommand.Proofs.Bot.Restart
import ChatCommand.Proofs.Bot.Settings
import ChatCommand.Proofs.Bot.Sound
import ChatCommand.Proofs.Bot.Stream
import ChatCommand.Proofs.Bot.Untouched
import ChatCommand.Proofs.Command.HelpText
import ChatCommand.Proofs.Command.Refusal
import ChatCommand.Proofs.Grammar.AnyOrder
import ChatCommand.Proofs.Grammar.Content
import ChatCommand.Proofs.Grammar.Failure
import ChatCommand.Proofs.Grammar.Image
import ChatCommand.Proofs.Grammar.Origin
import ChatCommand.Proofs.Grammar.Progress
import ChatCommand.Proofs.Number.Numeral
import ChatCommand.Proofs.Quote.Header
import ChatCommand.Proofs.Registry.Asking
import ChatCommand.Proofs.Registry.Call
import ChatCommand.Proofs.Registry.Chain
import ChatCommand.Proofs.Registry.Listing
import ChatCommand.Proofs.Store.FailedSave
import ChatCommand.Proofs.Store.Freshness
import ChatCommand.Proofs.Tree.Outline
import ChatCommand.Tree.Outline
