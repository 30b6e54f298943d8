/-!
# Failures

Matching and splitting cannot fail. What can fail is running tasks in a pool and
reading or writing files, and each cause has its own constructor.
-/

namespace Munch

/-- Why an operation failed. -/
inductive Failure where
  /-- A task reported that it failed. -/
  | taskFailed (task : Nat) (message : String)
  /-- A task panicked. -/
  | taskPanicked (task : Nat) (message : String)
  /-- A pool of threads could not be set up. -/
  | threadPool (message : String)
  /-- The operating system refused to read or write. -/
  | io (message : String)
  /-- A cause from outside. -/
  | external (message : String)
  deriving DecidableEq, Repr

namespace Failure

/-- The text shown for a failure. -/
def message : Failure → String
  | .taskFailed task message => "task " ++ toString task ++ " failed: " ++ message
  | .taskPanicked task message => "task " ++ toString task ++ " panicked: " ++ message
  | .threadPool message => "thread pool error: " ++ message
  | .io message => message
  | .external message => message

end Failure

/-- What a panic carries: a text, or some other value. -/
inductive Payload where
  | text (message : String)
  | other
  deriving DecidableEq, Repr

namespace Payload

/-- The text reported for a panic. -/
def message : Payload → String
  | .text message => message
  | .other => "<non-string panic payload>"

/-- The failure of a task that panicked. -/
def failure (task : Nat) (payload : Payload) : Failure :=
  .taskPanicked task payload.message

end Payload

end Munch
