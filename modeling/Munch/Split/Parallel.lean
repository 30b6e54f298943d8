import Munch.Pool.Size
import Munch.Split

/-!
# Splitting by a pool of tasks

A buffer is split in two batches. In the first, each task hunts for delimiters in
its share of the buffer. Then it is known how many tokens there will be, so that
many blank tokens are added and divided into regions, one for each share. In the
second batch each task writes the tokens of its share into its region.

A buffer without a delimiter needs no second batch. When a batch fails, the
tokens are as they were before.
-/

namespace Munch

/-- Splits buffers at a delimiter with the tasks of a pool. -/
structure ParallelSplitter where
  delimiter : UInt8
  pool : Pool
  /-- The number of shares of a buffer. -/
  tasks : Nat

namespace ParallelSplitter

/-- One task for each thread of the pool, and at least one. -/
def ofPool (delimiter : UInt8) (pool : Pool) : ParallelSplitter :=
  ⟨delimiter, pool, max 1 pool.threads⟩

/-- The same with another number of tasks. -/
def withTasks (splitter : ParallelSplitter) (tasks : Nat) : ParallelSplitter :=
  { splitter with tasks := tasks }

/-- The splitter with its settings, as shown for diagnosis. -/
def describe (splitter : ParallelSplitter) : String :=
  "ParallelSplitTokenizer \x7b delimiter: " ++ toString splitter.delimiter.toNat ++
    ", num_threads: " ++ toString splitter.pool.threads ++
    ", num_tasks: " ++ toString splitter.tasks ++ " \x7d"

/-- A task that looks for delimiters in its share of a buffer. -/
structure Hunter where
  share : Span
  /-- Where delimiters were found, ascending. -/
  found : List Nat

/-- The places of a byte, where the first of `bytes` has the place `start`. -/
def placesFrom (wanted : UInt8) : (start : Nat) → Bytes → List Nat
  | _, [] => []
  | start, byte :: bytes =>
      if byte = wanted then start :: placesFrom wanted (start + 1) bytes
      else placesFrom wanted (start + 1) bytes

/-- What hunters do. -/
def hunting (delimiter : UInt8) (buffer : Array UInt8) : Work Hunter where
  reset hunter := { hunter with found := [] }
  run hunter :=
    let places := placesFrom delimiter hunter.share.first (hunter.share.extract buffer)
    ({ hunter with found := hunter.found ++ places }, .done)

/-- A task that writes the tokens of its share into its region. -/
structure Writer where
  /-- Where the delimiters of the share are, ascending. -/
  places : List Nat
  /-- Where the text before the first of them begins. -/
  textStart : Nat
  region : List Token

/-- Write the two tokens of each delimiter over the region, pair by pair. -/
def fill (buffer : Array UInt8) : (textStart : Nat) → (places : List Nat) →
    (region : List Token) → List Token
  | textStart, place :: places, _ :: _ :: region =>
      ⟨(Span.mk textStart place).extract buffer, SplitType.text.types⟩ ::
        ⟨(Span.mk place (place + 1)).extract buffer, SplitType.delimiter.types⟩ ::
        fill buffer (place + 1) places region
  | _, _, region => region

/-- What writers do. -/
def writing (buffer : Array UInt8) : Work Writer where
  reset writer := writer
  run writer :=
    ({ writer with region := fill buffer writer.textStart writer.places writer.region }, .done)

/-- The place behind the last delimiter found, or `start` if none was. -/
def textStartAfter (start : Nat) (found : List Nat) : Nat :=
  match found.getLast? with
  | some place => place + 1
  | none => start

/-- Divide a region among writers, one for each hunter, each with two tokens for
each delimiter that the hunter found. -/
def assign : (textStart : Nat) → (region : List Token) → List Hunter → List Writer
  | _, _, [] => []
  | textStart, region, hunter :: hunters =>
      let taken := 2 * hunter.found.length
      ⟨hunter.found, textStart, region.take taken⟩ ::
        assign (textStartAfter textStart hunter.found) (region.drop taken) hunters

/-- What splitting a buffer leaves behind. -/
structure Report where
  splitter : ParallelSplitter
  tokens : Array Token
  result : Except Failure Bytes

/-- Split a buffer: the tokens are added behind those that are there, and the
remainder is returned. -/
def split (splitter : ParallelSplitter) (buffer : Bytes) (tokens : Array Token) : Report :=
  let bytes := buffer.toArray
  let hunters := (shares buffer.length splitter.tasks).map (Hunter.mk · [])
  let hunt := splitter.pool.runBatch (hunting splitter.delimiter bytes) hunters.toArray
  match hunt.result with
  | .error failure => ⟨{ splitter with pool := hunt.pool }, tokens, .error failure⟩
  | .ok () =>
      let found := hunt.tasks.toList.flatMap (·.found)
      match found.getLast? with
      | none => ⟨{ splitter with pool := hunt.pool }, tokens, .ok buffer⟩
      | some last =>
          let region := List.replicate (2 * found.length) Token.blank
          let writers := assign 0 region hunt.tasks.toList
          let write := hunt.pool.runBatch (writing bytes) writers.toArray
          let written := tokens ++ write.tasks.toList.flatMap (·.region)
          match write.result with
          | .error failure =>
              ⟨{ splitter with pool := write.pool }, written.take tokens.size, .error failure⟩
          | .ok () =>
              ⟨{ splitter with pool := write.pool }, written, .ok (buffer.drop (last + 1))⟩

end ParallelSplitter

end Munch
