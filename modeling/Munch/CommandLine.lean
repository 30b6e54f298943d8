import Munch.Delimiter

/-!
# Command lines

A command line is a list of arguments: switches and options, the name of a
command, and further switches and options of that command. The switches for
logging may stand before the command or behind it.

An argument is read as an option when it begins with a dash, so an option that
waits for its value does not get one that looks like an option; a single dash is
a value. `--` ends the options, but nothing may stand behind it. A value that was
given as an argument of its own is checked when the next option comes or the
arguments end, so an unknown argument in between is reported first.
-/

namespace Munch

/-- Why a command line cannot be run. Asking for help is one of the reasons. -/
inductive UsageError where
  | help
  | helpOnNothing
  | missingCommand
  | unknownCommand
  | unknownArgument
  | conflict
  | missingValue
  | badValue
  | needlessValue
  deriving DecidableEq, Repr

namespace CommandLine

/-- Everything that can be set on a command line. -/
inductive Setting where
  | help
  | quiet
  | verbose
  | timestamps
  | delimiter
  | parallel
  | maxPool
  | summary
  | input
  | output
  deriving DecidableEq, Repr

namespace Setting

/-- Whether a setting has a value. -/
def hasValue : Setting → Bool
  | .delimiter | .maxPool | .input | .output => true
  | _ => false

end Setting

/-- Where an argument stands: before any command, or behind one. -/
inductive Scope where
  | top
  | split
  | lex
  deriving DecidableEq, Repr

namespace Scope

/-- The setting with a long name. -/
def long? (scope : Scope) (name : String) : Option Setting :=
  match scope, name with
  | _, "help" => some .help
  | _, "quiet" => some .quiet
  | _, "verbose" => some .verbose
  | _, "ts" => some .timestamps
  | .split, "delimiter" => some .delimiter
  | .split, "parallel" => some .parallel
  | .split, "max-pool" => some .maxPool
  | .split, "summary" => some .summary
  | .split, "input" => some .input
  | .split, "output" => some .output
  | .lex, "input" => some .input
  | .lex, "output" => some .output
  | _, _ => none

/-- The setting with a short name. -/
def short? (scope : Scope) (name : Char) : Option Setting :=
  match scope, name with
  | _, 'h' => some .help
  | _, 'q' => some .quiet
  | _, 'v' => some .verbose
  | .split, 'd' => some .delimiter
  | _, _ => none

/-- The scope that a command opens. -/
def ofCommand? (name : String) : Option Scope :=
  if name = "split" then some .split
  else if name = "lex" then some .lex
  else none

end Scope

/-- What has been set. -/
structure Given where
  quiet : Bool := false
  verbose : Nat := 0
  timestamps : Bool := false
  delimiter : Option UInt8 := none
  parallel : Bool := false
  maxPool : Option Nat := none
  summary : Bool := false
  input : Option String := none
  output : Option String := none
  deriving DecidableEq, Repr

namespace Given

/-- A switch may be given once. -/
def once (already : Bool) (given : Given) : Except UsageError Given :=
  if already then .error .conflict else .ok given

/-- Set a switch. -/
def switch (given : Given) : Setting → Except UsageError Given
  | .help => .error .help
  | .quiet => once given.quiet { given with quiet := true }
  | .verbose => .ok { given with verbose := given.verbose + 1 }
  | .timestamps => once given.timestamps { given with timestamps := true }
  | .parallel => once given.parallel { given with parallel := true }
  | .summary => once given.summary { given with summary := true }
  | _ => .error .missingValue

/-- Give an option its value. It may be given once, whatever the value. -/
def assign (given : Given) (setting : Setting) (value : String) : Except UsageError Given :=
  match setting with
  | .delimiter =>
      if given.delimiter.isSome then .error .conflict
      else
        match Delimiter.parse value with
        | .ok byte => .ok { given with delimiter := some byte }
        | .error _ => .error .badValue
  | .maxPool =>
      if given.maxPool.isSome then .error .conflict
      else
        match Numeral.readPositive value.toList with
        | .ok most => .ok { given with maxPool := some most }
        | .error _ => .error .badValue
  | .input => once given.input.isSome { given with input := some value }
  | .output => once given.output.isSome { given with output := some value }
  | _ => .error .needlessValue

end Given

/-- An option whose value has not been checked, or has not come yet. -/
structure Waiting where
  setting : Setting
  value : Option String
  deriving DecidableEq, Repr

/-- What has been read so far within one scope. -/
structure Reading where
  given : Given := {}
  waiting : Option Waiting := none
  deriving DecidableEq, Repr

namespace Reading

/-- Check the value of the option that waits, if one does. -/
def settle (reading : Reading) : Except UsageError Given :=
  match reading.waiting with
  | none => .ok reading.given
  | some ⟨setting, some value⟩ => reading.given.assign setting value
  | some ⟨_, none⟩ => .error .missingValue

/-- Whether an option waits for its value. -/
def wantsValue (reading : Reading) : Option Setting :=
  match reading.waiting with
  | some ⟨setting, none⟩ => some setting
  | _ => none

/-- Set a switch, after settling what waits. -/
def switch (reading : Reading) (setting : Setting) : Except UsageError Reading := do
  let given ← reading.settle
  let given ← given.switch setting
  .ok { given }

/-- Give an option a value that is attached to it, after settling what waits. -/
def assign (reading : Reading) (setting : Setting) (value : String) :
    Except UsageError Reading := do
  let given ← reading.settle
  let given ← given.assign setting value
  .ok { given }

/-- Let an option wait for its value, after settling what waits. -/
def await (reading : Reading) (setting : Setting) : Except UsageError Reading := do
  let given ← reading.settle
  .ok { given, waiting := some ⟨setting, none⟩ }

end Reading

/-- The text before the first equals sign and, if there is one, the text behind
it. -/
def cutAtEquals : List Char → List Char × Option (List Char)
  | [] => ([], none)
  | '=' :: rest => ([], some rest)
  | char :: rest =>
      let (name, value) := cutAtEquals rest
      (char :: name, value)

/-- Read an argument behind two dashes. -/
def readLong (scope : Scope) (reading : Reading) (body : List Char) :
    Except UsageError Reading :=
  let (name, value) := cutAtEquals body
  match scope.long? (String.ofList name), value with
  | none, _ => .error .unknownArgument
  | some setting, some value =>
      if setting.hasValue then reading.assign setting (String.ofList value)
      else .error .needlessValue
  | some setting, none =>
      if setting.hasValue then reading.await setting else reading.switch setting

/-- The value attached to a short option: an equals sign before it does not
belong to it. -/
def attached (rest : List Char) : List Char :=
  match rest with
  | '=' :: value => value
  | value => value

/-- Read the letters behind a single dash: switches, and possibly an option with
the rest of the letters as its value. -/
def readShort (scope : Scope) (reading : Reading) : List Char → Except UsageError Reading
  | [] => .ok reading
  | letter :: rest =>
      match scope.short? letter with
      | none => .error .unknownArgument
      | some setting =>
          if setting.hasValue then
            if rest.isEmpty then reading.await setting
            else reading.assign setting (String.ofList (attached rest))
          else do
            let reading ← reading.switch setting
            readShort scope reading rest

/-- What kind of argument a text is. -/
inductive Argument where
  | doubleDash
  | long (body : List Char)
  | short (letters : List Char)
  | plain
  deriving DecidableEq, Repr

/-- Tell the kind of an argument by its dashes. -/
def Argument.ofChars : List Char → Argument
  | ['-', '-'] => .doubleDash
  | '-' :: '-' :: body => .long body
  | ['-'] => .plain
  | '-' :: letters => .short letters
  | _ => .plain

/-- Read the arguments behind a command. -/
def readCommandArgs (scope : Scope) : Reading → List String → Except UsageError Given
  | reading, [] => reading.settle
  | reading, arg :: args =>
      match Argument.ofChars arg.toList with
      | .doubleDash => if args.isEmpty then reading.settle else .error .unknownArgument
      | .long body => do
          let reading ← readLong scope reading body
          readCommandArgs scope reading args
      | .short letters => do
          let reading ← readShort scope reading letters
          readCommandArgs scope reading args
      | .plain =>
          match reading.wantsValue with
          | none => .error .unknownArgument
          | some setting =>
              readCommandArgs scope { reading with waiting := some ⟨setting, some arg⟩ } args

/-- How much is logged. -/
inductive LogLevel where
  | off
  | warn
  | info
  | debug
  | trace
  deriving DecidableEq, Repr

/-- The name of a level. -/
def LogLevel.name : LogLevel → String
  | .off => "off"
  | .warn => "warn"
  | .info => "info"
  | .debug => "debug"
  | .trace => "trace"

/-- The level for being quiet, and else for how often more was asked for. -/
def LogLevel.ofSwitches (quiet : Bool) (verbose : Nat) : LogLevel :=
  if quiet then .off
  else
    match verbose with
    | 0 => .warn
    | 1 => .info
    | 2 => .debug
    | _ => .trace

/-- A command line that can be run: the command, what was set before it and what
was set behind it. -/
structure Parsed where
  scope : Scope
  before : Given
  behind : Given
  deriving DecidableEq, Repr

namespace Parsed

/-- The log level. What is set behind the command counts before what is set in
front of it. -/
def level (parsed : Parsed) : LogLevel :=
  .ofSwitches (parsed.before.quiet || parsed.behind.quiet)
    (if parsed.behind.verbose = 0 then parsed.before.verbose else parsed.behind.verbose)

end Parsed

/-- What asking for help about commands comes to: only commands have help. -/
def helpOn : List String → UsageError
  | [] => .help
  | [name] => if name = "help" ∨ (Scope.ofCommand? name).isSome then .help else .unknownCommand
  | _ => .unknownCommand

/-- What comes of a command line that ends without a command. -/
def withoutCommand (given : Given) : UsageError :=
  if given = {} then .helpOnNothing else .missingCommand

/-- What comes of the first argument behind `--` where a command is due. -/
def behindDoubleDash (given : Given) : List String → UsageError
  | [] => withoutCommand given
  | arg :: _ =>
      if arg = "help" ∨ (Scope.ofCommand? arg).isSome then .unknownArgument else .unknownCommand

/-- Read a command line, after the arguments that gave `reading`. -/
def parseFrom : Reading → List String → Except UsageError Parsed
  | reading, [] => .error (withoutCommand reading.given)
  | reading, arg :: args =>
      if arg = "help" then .error (helpOn args)
      else
        match Scope.ofCommand? arg with
        | some scope => do
            let behind ← readCommandArgs scope {} args
            .ok ⟨scope, reading.given, behind⟩
        | none =>
            match Argument.ofChars arg.toList with
            | .doubleDash => .error (behindDoubleDash reading.given args)
            | .long body => do
                let reading ← readLong .top reading body
                parseFrom reading args
            | .short letters => do
                let reading ← readShort .top reading letters
                parseFrom reading args
            | .plain => .error .unknownCommand

/-- Read a command line. -/
def parse (args : List String) : Except UsageError Parsed :=
  parseFrom {} args

end CommandLine

end Munch
