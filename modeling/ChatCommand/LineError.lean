import ChatCommand.Text.Trim

namespace ChatCommand

inductive LineError where
  | emptyInput
  | missingName (found : Text)
  | unterminatedQuote (quote : Char) (text : Text)
  | unexpectedInput (rest : Text)
  deriving DecidableEq

def LineError.message : LineError → Text
  | .emptyInput => "expected a command, got an empty line".toList
  | .missingName found => "expected a command name, got `".toList ++ found ++ ['`']
  | .unterminatedQuote quote text =>
    "unterminated quote: `".toList ++ quote :: "` in `".toList ++ text ++ "` is never closed".toList
  | .unexpectedInput rest => "unexpected input: `".toList ++ rest ++ ['`']

end ChatCommand
