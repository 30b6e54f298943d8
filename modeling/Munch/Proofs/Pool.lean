import Mathlib.Data.List.Nodup
import Munch.Pool

/-!
# Batches do not depend on the order of work

A step touches the slot of one task only, its state and its failure. So what a
plan does to a task is what the steps about that task do to it, in their order,
and every fair plan does the same to all of them: reset it, then run it.
-/

namespace Munch

namespace Batch

variable {τ : Type} {work : Work τ} {batch : Batch τ}

/-- What a step about a task does to its slot. -/
def slotStep (work : Work τ) (task : Nat) :
    τ × Option Failure → Step → τ × Option Failure
  | (state, failure), .reset _ => (work.reset state, failure)
  | (state, _), .run _ => ((work.run state).1, (work.run state).2.failure? task)

/-- What the slot of a task holds: its state and its failure. -/
def slot? (batch : Batch τ) (task : Nat) : Option (τ × Option Failure) :=
  batch.tasks[task]?.bind fun state => batch.failures[task]?.map (state, ·)

theorem slot?_eq_some_iff {task : Nat} {state : τ} {failure : Option Failure} :
    batch.slot? task = some (state, failure) ↔
      batch.tasks[task]? = some state ∧
        batch.failures[task]? = some failure := by
  rw [slot?]
  cases batch.tasks[task]? with
  | none => simp
  | some found => cases batch.failures[task]? <;> simp

theorem slot?_step_self (step : Step) :
    (batch.step work step).slot? step.task =
      (batch.slot? step.task).map (slotStep work step.task · step) := by
  cases step with
  | reset target =>
      simp only [Batch.step, slot?, Step.task, Array.getElem?_modify, if_true]
      cases batch.tasks[target]? with
      | none => rfl
      | some state => cases batch.failures[target]? <;> rfl
  | run target =>
      simp only [Batch.step, slot?, Step.task]
      cases found : batch.tasks[target]? with
      | none => simp [found]
      | some state =>
          have below := (Array.getElem?_eq_some_iff.mp found).1
          by_cases inside : target < batch.failures.size
          · simp [below, inside, slotStep]
          · simp [below, inside]

theorem slot?_step_other {step : Step} {task : Nat} (other : step.task ≠ task) :
    (batch.step work step).slot? task = batch.slot? task := by
  cases step with
  | reset target =>
      have apart : target ≠ task := other
      simp only [Batch.step, slot?, Array.getElem?_modify, if_neg apart]
  | run target =>
      have apart : target ≠ task := other
      simp only [Batch.step, slot?]
      cases batch.tasks[target]? with
      | none => rfl
      | some state => simp only [Array.getElem?_setIfInBounds, if_neg apart]

/-- A plan does to a slot what its steps about that task do. -/
theorem slot?_follow (plan : Plan) (task : Nat) :
    (batch.follow work plan).slot? task =
      (batch.slot? task).map fun slot =>
        (plan.filter (·.task == task)).foldl (slotStep work task) slot := by
  induction plan generalizing batch with
  | nil => simp [follow]
  | cons step plan ih =>
      have rest : (batch.follow work (step :: plan)) =
        (batch.step work step).follow work plan := rfl
      rw [rest, ih, List.filter_cons]
      by_cases same : step.task = task
      · subst same
        rw [slot?_step_self, BEq.rfl, if_pos rfl, Option.map_map]
        rfl
      · rw [slot?_step_other same, beq_false_of_ne same,
          if_neg Bool.false_ne_true]

@[simp] theorem size_tasks_step (step : Step) :
    (batch.step work step).tasks.size = batch.tasks.size := by
  cases step with
  | reset target => simp [Batch.step]
  | run target =>
      rw [Batch.step]
      split <;> simp

@[simp] theorem size_failures_step (step : Step) :
    (batch.step work step).failures.size = batch.failures.size := by
  cases step with
  | reset target => rfl
  | run target =>
      rw [Batch.step]
      split <;> simp

theorem sizes_follow (work : Work τ) (batch : Batch τ) (plan : Plan) :
    (batch.follow work plan).tasks.size = batch.tasks.size ∧
      (batch.follow work plan).failures.size = batch.failures.size := by
  induction plan generalizing batch with
  | nil => exact ⟨rfl, rfl⟩
  | cons step plan ih =>
      have rest : (batch.follow work (step :: plan)) =
        (batch.step work step).follow work plan := rfl
      rw [rest, (ih _).1, (ih _).2, size_tasks_step, size_failures_step]
      exact ⟨rfl, rfl⟩

/-- A fair plan resets every task and then runs it, whatever order it does that
in. -/
theorem follow_fair (work : Work τ) {tasks : Array τ} {plan : Plan}
    (fair : plan.Fair tasks.size) :
    ((ofTasks tasks).follow work plan).tasks =
        tasks.map (fun task => (work.run (work.reset task)).1) ∧
      ((ofTasks tasks).follow work plan).failures =
        tasks.mapIdx fun index task =>
          (work.run (work.reset task)).2.failure? index := by
  rcases sizes_follow work (ofTasks tasks) plan with ⟨tasksSize, failuresSize⟩
  have slots : ∀ (index : Nat) (inside : index < tasks.size),
      ((ofTasks tasks).follow work plan).slot? index =
        some ((work.run (work.reset tasks[index])).1,
          (work.run (work.reset tasks[index])).2.failure? index) := by
    intro index inside
    rw [slot?_follow, fair.2 index inside]
    simp [slot?, ofTasks, inside, slotStep]
  have failuresBound : (ofTasks tasks).failures.size = tasks.size := by
    rw [ofTasks, Array.size_replicate]
  constructor
  · apply Array.ext_getElem?
    intro index
    by_cases inside : index < tasks.size
    · rw [(slot?_eq_some_iff.mp (slots index inside)).1, Array.getElem?_map,
        Array.getElem?_eq_getElem inside, Option.map_some]
    · rw [Array.getElem?_eq_none
          (Nat.le_trans (Nat.le_of_eq tasksSize) (Nat.not_lt.mp inside)),
        Array.getElem?_eq_none
          (by rw [Array.size_map]; exact Nat.not_lt.mp inside)]
  · apply Array.ext_getElem?
    intro index
    by_cases inside : index < tasks.size
    · rw [(slot?_eq_some_iff.mp (slots index inside)).2, Array.getElem?_mapIdx,
        Array.getElem?_eq_getElem inside, Option.map_some]
    · rw [Array.getElem?_eq_none
          (Nat.le_trans (Nat.le_of_eq (failuresSize.trans failuresBound))
            (Nat.not_lt.mp inside)),
        Array.getElem?_eq_none
          (by rw [Array.size_mapIdx]; exact Nat.not_lt.mp inside)]

end Batch

namespace Pool

variable {τ : Type} {pool : Pool}

/-- A pool with fair plans leaves every task as resetting and running it
does. -/
theorem tasks_runBatch (fair : pool.FairPlans) (work : Work τ)
    (tasks : Array τ) :
    (pool.runBatch work tasks).tasks =
      tasks.map fun task => (work.run (work.reset task)).1 := by
  rw [← (Batch.follow_fair work (fair pool.submitted tasks.size)).1, runBatch]
  dsimp only
  split <;> rfl

/-- When all tasks succeed, a fair plan leaves no failure. -/
theorem firstFailure?_follow (fair : pool.FairPlans) (work : Work τ)
    (tasks : Array τ) (done : ∀ task, (work.run (work.reset task)).2 = .done) :
    ((Batch.ofTasks tasks).follow work
      (pool.plan pool.submitted tasks.size)).firstFailure? = none := by
  have failures :=
    (Batch.follow_fair work (fair pool.submitted tasks.size)).2
  rw [Batch.firstFailure?, failures, List.findSome?_eq_none_iff]
  intro failure member
  rw [Array.toList_mapIdx, List.mem_mapIdx] at member
  rcases member with ⟨index, inside, rfl⟩
  rw [done]
  rfl

/-- The pool when that many more batches have gone by, none of them with a
failing task. -/
def after (pool : Pool) (batches : Nat) : Pool :=
  { pool with
    submitted := pool.submitted + batches
    completed := pool.completed + batches }

/-- What the pool makes of a batch without a failing task. -/
def verdict (pool : Pool) : Except Failure Unit :=
  match pool.fault pool.completed with
  | some failure => .error failure
  | none => .ok ()

theorem after_after (pool : Pool) (first second : Nat) :
    (pool.after first).after second = pool.after (first + second) := by
  simp [after, Nat.add_assoc]

theorem FairPlans.after (fair : pool.FairPlans) (batches : Nat) :
    (pool.after batches).FairPlans :=
  fair

/-- A pool with fair plans counts a batch in which all tasks succeed, and only
its own fault can fail that batch. -/
theorem pool_runBatch (fair : pool.FairPlans) (work : Work τ) (tasks : Array τ)
    (done : ∀ task, (work.run (work.reset task)).2 = .done) :
    (pool.runBatch work tasks).pool = pool.after 1 ∧
      (pool.runBatch work tasks).result = pool.verdict := by
  rw [runBatch]
  dsimp only
  rw [firstFailure?_follow fair work tasks done]
  exact ⟨rfl, rfl⟩

/-- An honest pool stays honest. -/
theorem Honest.runBatch (honest : pool.Honest) (work : Work τ)
    (tasks : Array τ) :
    (pool.runBatch work tasks).pool.Honest := by
  rw [Pool.runBatch]
  dsimp only
  split <;> exact honest

/-- An honest pool succeeds when all tasks do. -/
theorem Honest.result_runBatch (honest : pool.Honest) (work : Work τ)
    (tasks : Array τ) (done : ∀ task, (work.run (work.reset task)).2 = .done) :
    (pool.runBatch work tasks).result = .ok () := by
  rw [(pool_runBatch honest.1 work tasks done).2, verdict, honest.2]

end Pool

/-! ## Fair plans -/

namespace Plan

theorem filter_task_oneByOne (size task : Nat) :
    (oneByOne size).filter (·.task == task) =
      if task < size then [.reset task, .run task] else [] := by
  rw [oneByOne]
  induction size with
  | zero => rfl
  | succ size ih =>
      rw [List.range_succ, List.flatMap_append, List.filter_append, ih,
        List.flatMap_singleton]
      by_cases last : size = task
      · subst last
        simp [Step.task]
      · have below : task < size + 1 ↔ task < size := by omega
        simp [Step.task, last, below]

/-- Turning to one task after another is fair. -/
theorem oneByOne_fair (size : Nat) : (oneByOne size).Fair size := by
  constructor
  · intro step listed
    rw [oneByOne, List.mem_flatMap] at listed
    rcases listed with ⟨task, below, member⟩
    rw [List.mem_range] at below
    simp only [List.mem_cons, List.not_mem_nil, or_false] at member
    rcases member with rfl | rfl
    · exact below
    · exact below
  · intro task below
    rw [filter_task_oneByOne, if_pos below]

theorem filter_task_map {order : List Nat} {task : Nat} (make : Nat → Step)
    (about : ∀ task, (make task).task = task) (nodup : order.Nodup)
    (listed : task ∈ order) :
    (order.map make).filter (·.task == task) = [make task] := by
  rw [List.filter_map]
  have test : (fun step : Step => step.task == task) ∘ make = (· == task) := by
    funext other
    rw [Function.comp_apply, about]
  rw [test, List.filter_beq, List.count_eq_one_of_mem nodup listed]
  rfl

/-- Resetting all tasks before the threads run them, each once and in any order,
is fair. -/
theorem resetFirst_fair {size : Nat} {order : List Nat}
    (all : order.Perm (List.range size)) :
    (resetFirst size order).Fair size := by
  constructor
  · intro step listed
    rw [resetFirst, List.mem_append, List.mem_map, List.mem_map] at listed
    rcases listed with ⟨task, below, rfl⟩ | ⟨task, member, rfl⟩
    · exact List.mem_range.mp below
    · exact List.mem_range.mp (all.mem_iff.mp member)
  · intro task below
    have listed := List.mem_range.mpr below
    rw [resetFirst, List.filter_append,
      filter_task_map .reset (fun _ => rfl) List.nodup_range listed,
      filter_task_map .run (fun _ => rfl) (all.nodup_iff.mpr List.nodup_range)
        (all.mem_iff.mpr listed)]
    rfl

end Plan

namespace Pool

theorem inline_honest : inline.Honest :=
  ⟨fun _ size => Plan.oneByOne_fair size, fun _ => rfl⟩

/-- Threads that take the tasks in any order, each task once, keep the
contract. -/
theorem threaded_honest {threads : Nat}
    {order : (earlier size : Nat) → List Nat}
    (all : ∀ earlier size, (order earlier size).Perm (List.range size)) :
    (threaded threads order).Honest :=
  ⟨fun earlier size => Plan.resetFirst_fair (all earlier size), fun _ => rfl⟩

end Pool

end Munch
