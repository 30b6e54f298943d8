import Munch.CommandLine

/-!
# Help on the command line

What is told to a user whose command line does not run, and the code with which
the program then ends. Help that was asked for is no mistake.
-/

namespace Munch

namespace CommandLine

/-- How the program is used. -/
def usage : String :=
  String.intercalate "\n"
    ["Usage: munch [-q] [-v]... [--ts] COMMAND [OPTIONS]",
      "",
      "Commands:",
      "  split  Split input on a delimiter byte",
      "  lex    Lex input with the built-in word/number/space/punctuation lexicon",
      "",
      "Options of both commands:",
      "  --input PATH    Input file; - is the standard input",
      "  --output PATH   Output file; - is the standard output",
      "  -q, --quiet     Silence log messages",
      "  -v, --verbose   Log more",
      "  --ts            Log with timestamps",
      "",
      "Options of split:",
      "  -d, --delimiter BYTE   A character, \\n, \\t, \\r, \\0, \\\\ or a byte such as 0x1e",
      "  --parallel             Split the shares of the input in a pool",
      "  --max-pool COUNT       The greatest number of threads in the pool",
      "  --summary              Print only how many tokens there are",
      ""]

end CommandLine

namespace UsageError

/-- What is wrong with the command line, in words. -/
def message : UsageError → String
  | .help => ""
  | .helpOnNothing => ""
  | .missingCommand => "error: a command is required"
  | .unknownCommand => "error: there is no such command"
  | .unknownArgument => "error: unexpected argument"
  | .conflict => "error: an argument is given more than once"
  | .missingValue => "error: an option has no value"
  | .badValue => "error: the value of an option cannot be read"
  | .needlessValue => "error: a switch has a value"

/-- The text to print: what is wrong, and how the program is used. -/
def text (error : UsageError) : String :=
  if error.message = "" then CommandLine.usage
  else error.message ++ "\n\n" ++ CommandLine.usage

/-- The code with which the program ends. -/
def exitCode : UsageError → UInt32
  | .help => 0
  | _ => 2

end UsageError

end Munch
