import Munch.CommandLine
import Munch.Directory
import Munch.Lexicon
import Munch.Listing

/-!
# Running a command

A command reads all its input, opens its output, turns the input into text and
writes the text. What it turns the input into is a function of the input alone.
-/

namespace Munch

namespace CommandLine

/-- What a command makes of its input: the text to write, and warnings to log. -/
structure Product where
  text : List Char
  warnings : List String
  deriving DecidableEq

/-- The kind of a token that splitting made: the name of its first type. -/
def splitKind (token : Token) : List Char :=
  match token.types with
  | [] => ['?']
  | type :: _ => ((SplitType.ofId? type).map (·.name.toList)).getD ['?']

/-- How many delimiters there are and how many bytes follow the last of them.
Each delimiter has two tokens. -/
def summary (tokens rest : Nat) : List Char :=
  "delimiters\t".toList ++ Listing.decimal (tokens / 2) ++
    "\nremainder\t".toList ++ Listing.decimal rest ++ ['\n']

/-- What splitting makes of an input. -/
def splitProduct (options : SplitOptions) (machine : Machine) (onlySummary : Bool)
    (input : Bytes) : Except Failure Product := do
  let (tokens, rest) ← (options.tokenizer machine).tokenizeNew input
  let text :=
    if onlySummary then summary tokens.size rest.length
    else Listing.listing splitKind tokens.toList rest
  .ok ⟨text, []⟩

/-- What the lexicon makes of an input. Bytes that no lexeme matches are worth a
warning. -/
def lexProduct (input : Bytes) : Except Failure Product := do
  let (tokens, rest) ← Lexeme.tokenizer.tokenizeNew input
  let stopped := input.length - rest.length
  let warnings :=
    if rest.isEmpty then []
    else ["stopped at byte " ++ toString stopped ++ ": no lexeme matches"]
  .ok ⟨Listing.listing Lexeme.kindName tokens.toList rest, warnings⟩

/-- Where input comes from or output goes. -/
inductive Stream where
  | standard
  | file (path : String)
  deriving DecidableEq, Repr

/-- The stream for a path; a dash and no path at all mean the standard one. -/
def Stream.ofPath : Option String → Stream
  | none => .standard
  | some path => if path = "-" then .standard else .file path

/-- A command with its streams. -/
structure Job where
  source : Stream
  sink : Stream
  product : Bytes → Except Failure Product

/-- The settings for splitting. -/
def Given.splitOptions (given : Given) : SplitOptions :=
  { delimiter := given.delimiter.getD 10
    parallel := given.parallel
    maxPool := given.maxPool }

/-- The job that a command line asks for. -/
def Parsed.job (parsed : Parsed) (machine : Machine) : Job :=
  { source := .ofPath parsed.behind.input
    sink := .ofPath parsed.behind.output
    product :=
      match parsed.scope with
      | .split => splitProduct parsed.behind.splitOptions machine parsed.behind.summary
      | _ => lexProduct }

/-- The bytes of a text. -/
def bytesOfText (text : List Char) : Bytes :=
  (String.ofList text).toUTF8.toList

/-- What a finished job leaves behind. -/
structure Finished where
  standardOutput : List Char
  directory : Directory
  warnings : List String

/-- Run a job on a directory and the standard input. -/
def Job.run (job : Job) (directory : Directory) (standardInput : Bytes) :
    Except Failure Finished := do
  let input ← match job.source with
    | .standard => .ok standardInput
    | .file path => (directory.read path).mapError Refusal.failure
  let opened ← match job.sink with
    | .standard => .ok directory
    | .file path => (directory.write path []).mapError Refusal.failure
  let product ← job.product input
  match job.sink with
  | .standard => .ok ⟨product.text, opened, product.warnings⟩
  | .file path => do
      let written ← (opened.write path (bytesOfText product.text)).mapError Refusal.failure
      .ok ⟨[], written, product.warnings⟩

end CommandLine

end Munch
