import Munch.Pool
import Munch.Span
import Munch.Text.Numeral

/-!
# How many threads, and who does what

The number of threads that a machine offers can be set by environment variables;
without them it is the number of its cores. A request for a pool is never
answered with more threads than that.

`shares` divides a buffer among tasks as evenly as possible.
-/

namespace Munch

/-- What is known about the machine. -/
structure Machine where
  cores : Nat
  /-- The value of an environment variable that is set. -/
  environment? : String → Option String

namespace Machine

/-- The environment variables that set the number of threads; the first that
holds a positive number counts. -/
def threadVariables : List String :=
  ["RAYON_NUM_THREADS", "RAYON_RS_NUM_CPUS"]

/-- The positive number that an environment variable holds, if it does. -/
def positive? (machine : Machine) (name : String) : Option Nat := do
  let value ← machine.environment? name
  (Numeral.readPositive value.toList).toOption

/-- The number of threads that the machine offers. -/
def parallelism (machine : Machine) : Nat :=
  (threadVariables.findSome? machine.positive?).getD machine.cores

/-- The number of threads for a request of at most `most`. -/
def resolve (machine : Machine) (most : Option Nat) : Nat :=
  min (most.getD machine.parallelism) machine.parallelism

/-- A pool for a request of at most `most` threads. A machine starts all the
threads that it offers. -/
def pool (machine : Machine) (most : Option Nat) : Pool :=
  .ofThreads (machine.resolve most)

end Machine

/-- Stretches side by side from `start` on, `count` of them. Each is `base` long,
the first `extra` one longer. -/
def sharesFrom (base : Nat) : (extra count start : Nat) → List Span
  | _, 0, _ => []
  | 0, count + 1, start => ⟨start, start + base⟩ :: sharesFrom base 0 count (start + base)
  | extra + 1, count + 1, start =>
      ⟨start, start + (base + 1)⟩ :: sharesFrom base extra count (start + (base + 1))

/-- Divide `length` places into `count` stretches side by side, the longer ones
first. -/
def shares (length count : Nat) : List Span :=
  sharesFrom (length / count) (length % count) count 0

end Munch
