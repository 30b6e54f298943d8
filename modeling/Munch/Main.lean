import Munch.CommandLine.Help
import Munch.CommandLine.Run

/-!
# The program

The outer layer: it reads the command line, moves bytes between the operating
system and a job, and prints what went wrong. What a job makes of its input, and
what a command line means, is decided elsewhere.
-/

namespace Munch

namespace Program

/-- All bytes that are left on a stream, behind those already seen. -/
partial def readToEnd (stream : IO.FS.Stream) (seen : ByteArray) : IO ByteArray := do
  let bytes ← stream.read 65536
  if bytes.isEmpty then
    return seen
  else
    readToEnd stream (seen ++ bytes)

/-- The whole input of a job. -/
def readSource : CommandLine.Stream → IO ByteArray
  | .standard => do readToEnd (← IO.getStdin) .empty
  | .file path => IO.FS.readBinFile path

/-- Open the output of a job, emptying the file that it leads to. -/
def openSink : CommandLine.Stream → IO IO.FS.Stream
  | .standard => IO.getStdout
  | .file path => IO.FS.Stream.ofHandle <$> IO.FS.Handle.mk path .write

/-- What is known about the machine. The number of cores has no part in any
answer, so one is enough. -/
def machine : IO Machine := do
  let values ← Machine.threadVariables.mapM fun name => do
    return (name, ← IO.getEnv name)
  return { cores := 1, environment? := fun name => (values.lookup name).join }

/-- Run the command that was asked for. -/
def run (parsed : CommandLine.Parsed) : IO UInt32 := do
  let job := parsed.job (← machine)
  let input ← readSource job.source
  let sink ← openSink job.sink
  match job.product input.toList with
  | .error failure =>
      IO.eprintln ("Error: " ++ failure.message)
      return 1
  | .ok product =>
      if parsed.level ≠ .off then
        for warning in product.warnings do
          IO.eprintln ("WARN - " ++ warning)
      sink.putStr (String.ofList product.text)
      sink.flush
      return 0

end Program

end Munch

/-- Read the command line and run what it asks for. -/
def main (args : List String) : IO UInt32 := do
  match Munch.CommandLine.parse args with
  | .error error =>
      if error.exitCode = 0 then
        IO.print error.text
      else
        IO.eprint error.text
      return error.exitCode
  | .ok parsed =>
      try
        Munch.Program.run parsed
      catch error =>
        IO.eprintln ("Error: " ++ toString error)
        return 1
