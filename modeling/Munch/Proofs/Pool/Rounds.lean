import Munch.Proofs.Pool

/-!
# Batches over the same tasks

The same tasks can be run in one batch after another, with work that differs
from batch to batch. Each batch resets every task once and runs it once after
that, whether or not other tasks fail, and reports the failure of the first
task, in the order of submission, that failed. All pools that keep the contract
agree on that, whatever order they work in.

To see what is done to a task, it is given a notebook. Each reset and each run
makes an entry, and nothing else depends on the entries.
-/

namespace Munch

namespace Outcome

theorem failure?_eq_none_iff {outcome : Outcome} {task : Nat} :
    outcome.failure? task = none ↔ outcome = .done := by
  cases outcome <;> simp [failure?]

/-- A task fails with the error that it returns, or with that of its panic. -/
theorem failure?_eq_some_iff {outcome : Outcome} {task : Nat}
    {failure : Failure} :
    outcome.failure? task = some failure ↔
      outcome = .failed failure ∨
        ∃ payload, outcome = .panicked payload ∧
          failure = .taskPanicked task payload.message := by
  cases outcome with
  | done => simp [failure?]
  | failed other => simp [failure?]
  | panicked payload => simp [failure?, Payload.failure, eq_comm]

end Outcome

/-! ## What a batch reports -/

namespace Work

variable {τ : Type} {work : Work τ}

/-- The state in which a batch leaves a task. -/
def after (work : Work τ) (task : τ) : τ :=
  (work.run (work.reset task)).1

/-- How the run of a task in a batch ends. -/
def outcome (work : Work τ) (task : τ) : Outcome :=
  (work.run (work.reset task)).2

/-- The failure of the first task that fails, where the first of the tasks has
the given index. -/
def firstFailure? (work : Work τ) : (index : Nat) → List τ → Option Failure
  | _, [] => none
  | index, task :: tasks =>
      match (work.outcome task).failure? index with
      | some failure => some failure
      | none => work.firstFailure? (index + 1) tasks

theorem firstFailure?_eq_none_iff {index : Nat} {tasks : List τ} :
    work.firstFailure? index tasks = none ↔
      ∀ task ∈ tasks, work.outcome task = .done := by
  induction tasks generalizing index with
  | nil => simp [firstFailure?]
  | cons task tasks ih =>
      rw [firstFailure?, List.forall_mem_cons,
        ← @Outcome.failure?_eq_none_iff _ index]
      split
      next failure failed => simp [failed]
      next fine => simp [fine, ih]

/-- The task whose failure counts is the one before which all succeed. -/
theorem firstFailure?_eq_some_iff {index : Nat} {tasks : List τ}
    {failure : Failure} :
    work.firstFailure? index tasks = some failure ↔
      ∃ before task behind, tasks = before ++ task :: behind ∧
        (∀ other ∈ before, work.outcome other = .done) ∧
        (work.outcome task).failure? (index + before.length) =
          some failure := by
  induction tasks generalizing index with
  | nil => simp [firstFailure?]
  | cons task tasks ih =>
      rw [firstFailure?]
      split
      next other failed =>
          constructor
          · intro same
            exact ⟨[], task, tasks, rfl, by simp, failed.trans same⟩
          · rintro ⟨before, found, behind, cut, done, fails⟩
            cases before with
            | nil =>
                cases cut
                exact failed.symm.trans fails
            | cons head before =>
                -- The head fails, so it is none of those that succeed.
                cases cut
                rw [done task List.mem_cons_self] at failed
                cases failed
      next fine =>
          rw [ih]
          constructor
          · rintro ⟨before, found, behind, rfl, done, fails⟩
            refine ⟨task :: before, found, behind, rfl, ?_, ?_⟩
            · rw [List.forall_mem_cons]
              exact ⟨Outcome.failure?_eq_none_iff.mp fine, done⟩
            · rw [List.length_cons, ← Nat.succ_add_eq_add_succ]
              exact fails
          · rintro ⟨before, found, behind, cut, done, fails⟩
            cases before with
            | nil =>
                cases cut
                exact nomatch fine.symm.trans fails
            | cons head before =>
                cases cut
                rw [List.forall_mem_cons] at done
                rw [List.length_cons, ← Nat.succ_add_eq_add_succ] at fails
                exact ⟨before, found, behind, rfl, done.2, fails⟩

/-- Looking for the first failure in the slots of a batch is looking for the
first task that fails. -/
theorem findSome?_mapIdx (work : Work τ) (index : Nat) (tasks : List τ) :
    (tasks.mapIdx fun place task =>
      (work.outcome task).failure? (index + place)).findSome? id =
      work.firstFailure? index tasks := by
  induction tasks generalizing index with
  | nil => rfl
  | cons task tasks ih =>
      have shift : (fun place (task : τ) =>
          (work.outcome task).failure? (index + (place + 1))) =
          fun place task =>
            (work.outcome task).failure? (index + 1 + place) := by
        funext place task
        rw [← Nat.succ_add_eq_add_succ]
      rw [List.mapIdx_cons, List.findSome?_cons, firstFailure?, shift, ih,
        id_eq, Nat.add_zero]
      cases (work.outcome task).failure? index <;> rfl

/-- What a batch is to report. -/
def verdict (work : Work τ) (tasks : Array τ) : Except Failure Unit :=
  match work.firstFailure? 0 tasks.toList with
  | some failure => .error failure
  | none => .ok ()

theorem verdict_eq_ok_iff {tasks : Array τ} :
    work.verdict tasks = .ok () ↔
      ∀ task ∈ tasks, work.outcome task = .done := by
  simp only [← Array.mem_toList_iff, ← @firstFailure?_eq_none_iff _ _ 0]
  rw [verdict]
  cases work.firstFailure? 0 tasks.toList <;> simp

theorem verdict_eq_error_iff {tasks : Array τ} {failure : Failure} :
    work.verdict tasks = .error failure ↔
      work.firstFailure? 0 tasks.toList = some failure := by
  rw [verdict]
  cases work.firstFailure? 0 tasks.toList <;> simp

end Work

/-! ## Batch after batch -/

/-- What batches over the same tasks leave behind. -/
structure Rounds (τ : Type) where
  tasks : Array τ
  /-- What the batches reported, in order. -/
  results : List (Except Failure Unit)

/-- What batches over the same tasks are to leave behind. -/
def Work.rounds {τ : Type} : List (Work τ) → Array τ → Rounds τ
  | [], tasks => ⟨tasks, []⟩
  | work :: works, tasks =>
      let rest := rounds works (tasks.map work.after)
      ⟨rest.tasks, work.verdict tasks :: rest.results⟩

namespace Pool

variable {τ : Type} {pool : Pool}

/-- Run batches over the same tasks one after another, also behind one that has
failed. -/
def runBatches (pool : Pool) : List (Work τ) → Array τ → Rounds τ
  | [], tasks => ⟨tasks, []⟩
  | work :: works, tasks =>
      let report := pool.runBatch work tasks
      let rest := report.pool.runBatches works report.tasks
      ⟨rest.tasks, report.result :: rest.results⟩

/-- A pool that keeps the contract reports what a batch is to report. -/
theorem Honest.result_runBatch_eq (honest : pool.Honest) (work : Work τ)
    (tasks : Array τ) :
    (pool.runBatch work tasks).result = work.verdict tasks := by
  have failures :=
    (Batch.follow_fair work (honest.1 pool.submitted tasks.size)).2
  have first := work.findSome?_mapIdx 0 tasks.toList
  simp only [Nat.zero_add, Work.outcome] at first
  rw [Pool.runBatch, Batch.firstFailure?, failures, Array.toList_mapIdx,
    first, Work.verdict]
  cases work.firstFailure? 0 tasks.toList with
  | some failure => rfl
  | none =>
      dsimp only
      rw [honest.2]

/-- A pool that keeps the contract leaves what batches are to leave. -/
theorem Honest.runBatches_eq (honest : pool.Honest) (works : List (Work τ))
    (tasks : Array τ) :
    pool.runBatches works tasks = Work.rounds works tasks := by
  induction works generalizing pool tasks with
  | nil => rfl
  | cons work works ih =>
      rw [runBatches, ih (honest.runBatch work tasks),
        tasks_runBatch honest.1, honest.result_runBatch_eq]
      rfl

end Pool

namespace Work

variable {τ : Type}

/-- What becomes of a task depends on that task alone. -/
theorem tasks_rounds (works : List (Work τ)) (tasks : Array τ) :
    (rounds works tasks).tasks =
      tasks.map fun task =>
        works.foldl (fun task work => work.after task) task := by
  induction works generalizing tasks with
  | nil => simp [rounds]
  | cons work works ih => rw [rounds, ih, Array.map_map]; rfl

/-- Each batch reports on the tasks as the batches before it have left them. -/
theorem getElem?_results_rounds (earlier : List (Work τ)) (work : Work τ)
    (later : List (Work τ)) (tasks : Array τ) :
    (rounds (earlier ++ work :: later) tasks).results[earlier.length]? =
      some (work.verdict (rounds earlier tasks).tasks) := by
  induction earlier generalizing tasks with
  | nil => rfl
  | cons first earlier ih => exact ih (tasks.map first.after)

end Work

/-! ## What is done to a task -/

/-- What can be done to a task. -/
inductive Deed where
  | reset
  | run
  deriving DecidableEq, Repr

/-- A task with a notebook. -/
structure Watched (τ : Type) where
  state : τ
  /-- What has been done to the task, in order. -/
  deeds : List Deed
  deriving DecidableEq

namespace Work

variable {τ : Type}

/-- The same work, noted down by each task. -/
def watched (work : Work τ) : Work (Watched τ) where
  reset task := ⟨work.reset task.state, task.deeds ++ [.reset]⟩
  run task :=
    let (state, outcome) := work.run task.state
    (⟨state, task.deeds ++ [.run]⟩, outcome)

/-- A batch adds a reset and a run behind it to the notes. -/
theorem after_watched (work : Work τ) (task : Watched τ) :
    work.watched.after task =
      ⟨work.after task.state, task.deeds ++ [.reset, .run]⟩ := by
  simp [after, watched]

theorem firstFailure?_watched (work : Work τ) (index : Nat)
    (tasks : List (Watched τ)) :
    work.watched.firstFailure? index tasks =
      work.firstFailure? index (tasks.map (·.state)) := by
  induction tasks generalizing index with
  | nil => rfl
  | cons task tasks ih => rw [firstFailure?, ih]; rfl

/-- Nothing that a batch reports depends on the notes. -/
theorem verdict_watched (work : Work τ) (tasks : Array (Watched τ)) :
    work.watched.verdict tasks = work.verdict (tasks.map (·.state)) := by
  rw [verdict, firstFailure?_watched, verdict, Array.toList_map]

/-- Batches add to the notes of every task and change nothing else. -/
theorem rounds_watched (works : List (Work τ)) (tasks : Array (Watched τ)) :
    (rounds (works.map watched) tasks).results =
        (rounds works (tasks.map (·.state))).results ∧
      (rounds (works.map watched) tasks).tasks.map (·.state) =
        (rounds works (tasks.map (·.state))).tasks ∧
      (rounds (works.map watched) tasks).tasks.map (·.deeds) =
        tasks.map fun task => task.deeds ++
          (List.replicate works.length [Deed.reset, .run]).flatten := by
  induction works generalizing tasks with
  | nil => simp [rounds]
  | cons work works ih =>
      have states : (tasks.map work.watched.after).map (·.state) =
          (tasks.map (·.state)).map work.after := by
        simp [after_watched, Function.comp_def]
      rcases ih (tasks.map work.watched.after) with ⟨results, left, deeds⟩
      rw [states] at results left
      refine ⟨?_, left, deeds.trans ?_⟩
      · rw [List.map_cons, rounds, rounds, verdict_watched, results]
      · simp [after_watched, Function.comp_def, List.replicate_succ]

end Work

namespace Pool

variable {τ : Type}

/-- A pool that runs tasks where it is called and one whose threads take them in
any order, each once, do the same. In every sequence of batches each task is
reset and then run, once for each batch, whatever becomes of the others. A batch
succeeds when the runs of all tasks do. Otherwise it reports the failure of the
first task, in the order of submission, that fails. -/
theorem runBatches_contract {threads : Nat}
    {order : (earlier size : Nat) → List Nat}
    (all : ∀ earlier size, (order earlier size).Perm (List.range size))
    (works : List (Work τ)) (tasks : Array τ) :
    inline.runBatches works tasks =
        (threaded threads order).runBatches works tasks ∧
      ∀ pool ∈ [inline, threaded threads order],
        let left := pool.runBatches works tasks
        let watched := pool.runBatches (works.map Work.watched)
          (tasks.map (Watched.mk · []))
        watched.tasks.map (·.deeds) =
            tasks.map (fun _ =>
              (List.replicate works.length [Deed.reset, .run]).flatten) ∧
          watched.tasks.map (·.state) = left.tasks ∧
          watched.results = left.results ∧
          left.tasks = tasks.map (fun task =>
            works.foldl (fun task work => work.after task) task) ∧
          ∀ (earlier : List (Work τ)) (work : Work τ) (later : List (Work τ)),
            works = earlier ++ work :: later →
            let found := (pool.runBatches earlier tasks).tasks
            ∃ result, left.results[earlier.length]? = some result ∧
              (result = .ok () ↔ ∀ task ∈ found, work.outcome task = .done) ∧
              ∀ failure, result = .error failure ↔
                ∃ before task behind, found.toList = before ++ task :: behind ∧
                  (∀ other ∈ before, work.outcome other = .done) ∧
                  (work.outcome task = .failed failure ∨
                    ∃ payload, work.outcome task = .panicked payload ∧
                      failure =
                        .taskPanicked before.length payload.message) := by
  have honest : ∀ pool ∈ [inline, threaded threads order], pool.Honest := by
    simp [inline_honest, threaded_honest all]
  constructor
  · rw [inline_honest.runBatches_eq, (threaded_honest all).runBatches_eq]
  intro pool member left watched
  have leaves : left = Work.rounds works tasks :=
    (honest pool member).runBatches_eq works tasks
  have noted := (honest pool member).runBatches_eq (works.map Work.watched)
    (tasks.map (Watched.mk · []))
  rcases Work.rounds_watched works (tasks.map (Watched.mk · [])) with
    ⟨results, states, deeds⟩
  have same : (tasks.map (Watched.mk · [])).map (·.state) = tasks := by
    simp [Function.comp_def]
  rw [same] at results states
  rw [Array.map_map] at deeds
  rw [← noted] at results states deeds
  refine ⟨deeds, ?_, ?_, ?_, ?_⟩
  · rw [leaves, ← states]
  · rw [leaves, ← results]
  · rw [leaves, Work.tasks_rounds]
  · rintro earlier work later rfl found
    refine ⟨work.verdict found, ?_, Work.verdict_eq_ok_iff, ?_⟩
    · simp only [found, leaves, (honest pool member).runBatches_eq]
      exact Work.getElem?_results_rounds earlier work later tasks
    · intro failure
      rw [Work.verdict_eq_error_iff, Work.firstFailure?_eq_some_iff]
      simp only [Outcome.failure?_eq_some_iff, Nat.zero_add]

/-- Tasks that count their runs, and fail or panic at certain counts. -/
def stumbling : Work Nat where
  reset count := count
  run count :=
    (count + 1,
      if count = 2 then .failed (.external "late")
      else if count = 4 then .panicked .other
      else .done)

/-- Threads that take the tasks of every other batch from the last to the
first. -/
def seesaw : Pool :=
  .threaded 2 fun earlier size =>
    if earlier % 2 = 0 then (List.range size).reverse else List.range size

/-- In the first batch the last task, which runs before the others, fails too. In
the second one only the first task fails. -/
theorem runBatches_stumbling :
    (∀ earlier size : Nat,
      (if earlier % 2 = 0 then (List.range size).reverse
        else List.range size).Perm (List.range size)) ∧
      inline.runBatches [stumbling, stumbling] #[1, 4, 2] =
        seesaw.runBatches [stumbling, stumbling] #[1, 4, 2] ∧
      (seesaw.runBatches [stumbling, stumbling] #[1, 4, 2]).results =
        [.error (.taskPanicked 1 "<non-string panic payload>"),
          .error (.external "late")] ∧
      (seesaw.runBatches [stumbling.watched, stumbling.watched]
        #[⟨1, []⟩, ⟨4, []⟩, ⟨2, []⟩]).tasks.map (·.deeds) =
          #[[.reset, .run, .reset, .run], [.reset, .run, .reset, .run],
            [.reset, .run, .reset, .run]] := by
  have all : ∀ earlier size : Nat,
      (if earlier % 2 = 0 then (List.range size).reverse
        else List.range size).Perm (List.range size) := by
    intro earlier size
    split
    next => exact List.reverse_perm _
    next => exact .refl _
  rcases @runBatches_contract Nat 2 _ all [stumbling, stumbling] #[1, 4, 2]
    with ⟨same, each⟩
  rcases each seesaw (by simp [seesaw]) with ⟨deeds, -⟩
  refine ⟨all, same, ?_, by simpa using deeds⟩
  rw [seesaw, ← same]
  rfl

end Pool

end Munch
