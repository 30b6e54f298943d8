import Munch.Failure

/-!
# Running tasks in batches

A pool resets and runs every task of a batch once, waits for all of them and
reports the failure of the first task, in the order of submission, that failed.
A task has a state of its own, so the tasks of a batch cannot disturb each
other.

In which order a pool resets and runs the tasks is its own business. A pool is
therefore described by the plan that it follows, a list of single steps, which
may differ from batch to batch. The plans that a pool may follow are those in
which each task has one reset and, later, one run (`Plan.Fair`). A pool may also
fail a batch after all tasks have succeeded.
-/

namespace Munch

/-- How a run of a task ends. -/
inductive Outcome where
  | done
  | failed (failure : Failure)
  | panicked (payload : Payload)
  deriving DecidableEq, Repr

namespace Outcome

/-- The failure of the task with the given index, if its run ended in one. -/
def failure? (task : Nat) : Outcome → Option Failure
  | .done => none
  | .failed failure => some failure
  | .panicked payload => some (payload.failure task)

end Outcome

/-- What can be done with a task of which `τ` is the state. -/
structure Work (τ : Type) where
  /-- Put the task back to its beginning. -/
  reset : τ → τ
  /-- Run the task once. -/
  run : τ → τ × Outcome

/-- One step of a plan: reset or run the task with the given index. -/
inductive Step where
  | reset (task : Nat)
  | run (task : Nat)
  deriving DecidableEq, Repr

namespace Step

/-- The task that a step is about. -/
def task : Step → Nat
  | .reset task => task
  | .run task => task

end Step

/-- The order in which a pool works on a batch. -/
abbrev Plan := List Step

namespace Plan

/-- Reset and run each task before turning to the next. -/
def oneByOne (size : Nat) : Plan :=
  (List.range size).flatMap fun task => [.reset task, .run task]

/-- Reset all tasks, then run them in the given order. -/
def resetFirst (size : Nat) (order : List Nat) : Plan :=
  (List.range size).map .reset ++ order.map .run

/-- Whether a plan for `size` tasks resets each of them once and runs it once
after that, and does nothing else. -/
def Fair (size : Nat) (plan : Plan) : Prop :=
  (∀ step ∈ plan, step.task < size) ∧
    ∀ task < size, plan.filter (fun step => step.task == task) = [.reset task, .run task]

end Plan

/-- A batch in the middle of its plan: the states of its tasks, and the failures
of those that have run. -/
structure Batch (τ : Type) where
  tasks : Array τ
  failures : Array (Option Failure)

namespace Batch

variable {τ : Type}

/-- A batch that has not begun. -/
def ofTasks (tasks : Array τ) : Batch τ :=
  ⟨tasks, Array.replicate tasks.size none⟩

/-- Carry out one step. A step about a task that does not exist does nothing. -/
def step (work : Work τ) (batch : Batch τ) : Step → Batch τ
  | .reset task => { batch with tasks := batch.tasks.modify task work.reset }
  | .run task =>
      match batch.tasks[task]? with
      | none => batch
      | some state =>
          let (state, outcome) := work.run state
          { tasks := batch.tasks.setIfInBounds task state
            failures := batch.failures.setIfInBounds task (outcome.failure? task) }

/-- Carry out a plan. -/
def follow (work : Work τ) (batch : Batch τ) (plan : Plan) : Batch τ :=
  plan.foldl (step work) batch

/-- The failure of the first task, in the order of submission, that failed. -/
def firstFailure? (batch : Batch τ) : Option Failure :=
  batch.failures.toList.findSome? id

end Batch

/-- A pool of threads. -/
structure Pool where
  /-- The number of threads the pool says it has. -/
  threads : Nat
  /-- The plan for a batch, by the number of batches before it and its size. -/
  plan : (earlier size : Nat) → Plan
  /-- Whether a batch is failed although its tasks succeeded, by the number of
  batches before it that had no failing task. -/
  fault : (earlier : Nat) → Option Failure
  /-- The number of batches so far. -/
  submitted : Nat
  /-- The number of batches so far that had no failing task. -/
  completed : Nat

namespace Pool

/-- A pool that runs tasks one by one where it is called. -/
def inline : Pool :=
  ⟨1, fun _ size => .oneByOne size, fun _ => none, 0, 0⟩

/-- A pool that resets all tasks and then lets its threads run them, in an order
that may be different for each batch. -/
def threaded (threads : Nat) (order : (earlier size : Nat) → List Nat) : Pool :=
  ⟨threads, fun earlier size => .resetFirst size (order earlier size), fun _ => none, 0, 0⟩

/-- A pool with the given number of threads, which take the tasks in order. -/
def ofThreads (threads : Nat) : Pool :=
  threaded threads fun _ size => List.range size

/-- What running a batch leaves behind. -/
structure Report (τ : Type) where
  pool : Pool
  tasks : Array τ
  result : Except Failure Unit

/-- Run a batch. -/
def runBatch {τ : Type} (pool : Pool) (work : Work τ) (tasks : Array τ) : Report τ :=
  let batch := (Batch.ofTasks tasks).follow work (pool.plan pool.submitted tasks.size)
  let pool' := { pool with submitted := pool.submitted + 1 }
  match batch.firstFailure? with
  | some failure => ⟨pool', batch.tasks, .error failure⟩
  | none =>
      ⟨{ pool' with completed := pool.completed + 1 }, batch.tasks,
        match pool.fault pool.completed with
        | some failure => .error failure
        | none => .ok ()⟩

/-- A pool that follows fair plans only. -/
def FairPlans (pool : Pool) : Prop :=
  ∀ earlier size, (pool.plan earlier size).Fair size

/-- A pool that keeps the contract: its plans are fair, and a batch fails only if
one of its tasks does. -/
def Honest (pool : Pool) : Prop :=
  pool.FairPlans ∧ ∀ earlier, pool.fault earlier = none

end Pool

end Munch
