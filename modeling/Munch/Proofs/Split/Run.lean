import Mathlib.Algebra.GroupWithZero.Nat
import Munch.Proofs.Split.Parallel

/-!
# Splitting one buffer after another

A pool may fail a batch although its tasks have succeeded. A call that splits a
buffer then fails, and the number of batches it has used up decides which batch
of a later call is the next to fail. Wherever the failures fall, a failed call
leaves the tokens alone and a successful one adds what splitting its buffer from
the beginning to the end adds.
-/

namespace Munch

theorem Splitter.split_eq_append (splitter : Splitter) (buffer : Bytes)
    (tokens : Array Token) :
    splitter.split buffer tokens =
      (tokens ++ (splitter.split buffer #[]).1,
        (splitter.split buffer #[]).2) := by
  rw [split_eq, split_eq, Prod.mk.injEq]
  constructor
  · apply Array.ext'
    simp
  · rfl

namespace ParallelSplitter

/-! ## One call -/

theorem placesFrom_eq_nil_iff {wanted : UInt8} {start : Nat} {bytes : Bytes} :
    placesFrom wanted start bytes = [] ↔ wanted ∉ bytes := by
  induction bytes generalizing start with
  | nil => simp [placesFrom]
  | cons byte bytes ih =>
      rw [placesFrom, List.mem_cons, not_or]
      split
      next found => simp [found]
      next other => rw [ih, eq_comm, and_iff_right other]

theorem take_size_append (tokens : Array Token) (added : List Token) :
    (tokens ++ added).take tokens.size = tokens := by
  apply Array.ext'
  simp

/-- The failure that a call ends in, if its hunt is failed or if it has tokens
to write and that batch is failed. -/
def failure? (splitter : ParallelSplitter) (buffer : Bytes) : Option Failure :=
  match splitter.pool.fault splitter.pool.completed with
  | some failure => some failure
  | none =>
      if splitter.delimiter ∈ buffer then
        splitter.pool.fault (splitter.pool.completed + 1)
      else none

theorem failure?_eq_some_iff {splitter : ParallelSplitter} {buffer : Bytes}
    {failure : Failure} :
    splitter.failure? buffer = some failure ↔
      splitter.pool.fault splitter.pool.completed = some failure ∨
        splitter.pool.fault splitter.pool.completed = none ∧
          splitter.delimiter ∈ buffer ∧
          splitter.pool.fault (splitter.pool.completed + 1) = some failure := by
  rw [failure?]
  cases splitter.pool.fault splitter.pool.completed <;> simp

/-- A pool that keeps its contract fails no call. -/
theorem failure?_of_honest {splitter : ParallelSplitter}
    (honest : splitter.pool.Honest) {buffer : Bytes} :
    splitter.failure? buffer = none := by
  rw [failure?, honest.2, honest.2]
  exact ite_self none

/-- The number of batches that a call submits: the hunt, and the writing if the
hunt has found something. -/
def batches (splitter : ParallelSplitter) (buffer : Bytes) : Nat :=
  if splitter.pool.fault splitter.pool.completed = none ∧
      splitter.delimiter ∈ buffer then 2
  else 1

/-- The splitter when that many more batches have gone by. -/
def after (splitter : ParallelSplitter) (batches : Nat) : ParallelSplitter :=
  { splitter with pool := splitter.pool.after batches }

theorem after_after (splitter : ParallelSplitter) (first second : Nat) :
    (splitter.after first).after second = splitter.after (first + second) := by
  rw [after, after, after, Pool.after_after]

/-- What a call leaves behind, whatever batches the pool fails. -/
theorem split_eq_of_fair {splitter : ParallelSplitter}
    (fair : splitter.pool.FairPlans) (positive : 0 < splitter.tasks)
    (buffer : Bytes) (tokens : Array Token) :
    splitter.split buffer tokens =
      match splitter.failure? buffer with
      | some failure =>
          ⟨splitter.after (splitter.batches buffer), tokens, .error failure⟩
      | none =>
          ⟨splitter.after (splitter.batches buffer),
            ((Splitter.mk splitter.delimiter).split buffer tokens).1,
            .ok ((Splitter.mk splitter.delimiter).split buffer tokens).2⟩ := by
  have found := flatMap_found_shares splitter.delimiter buffer positive
  rcases Pool.pool_runBatch fair (hunting splitter.delimiter buffer.toArray)
      ((shares buffer.length splitter.tasks).map (Hunter.mk · [])).toArray
      fun _ => rfl with ⟨huntPool, huntResult⟩
  rw [Splitter.split_eq, split, failure?, batches]
  dsimp only
  rw [huntResult, huntPool, Pool.verdict, tasks_hunt fair, found]
  cases splitter.pool.fault splitter.pool.completed with
  | some failure => simp [after]
  | none =>
      dsimp only
      cases last : (placesFrom splitter.delimiter 0 buffer).getLast? with
      | none =>
          have nowhere := List.getLast?_eq_none_iff.mp last
          have absent := placesFrom_eq_nil_iff.mp nowhere
          simp [nowhere, absent, after, pairsAt]
      | some place =>
          have present : splitter.delimiter ∈ buffer := by
            by_contra absent
            rw [placesFrom_eq_nil_iff.mpr absent, List.getLast?_nil] at last
            cases last
          have written := flatMap_region_shares (fair.after 1)
            splitter.delimiter buffer positive
          rcases Pool.pool_runBatch (fair.after 1) (writing buffer.toArray)
              (assign 0
                (List.replicate
                  (2 * (placesFrom splitter.delimiter 0 buffer).length)
                  Token.blank)
                ((shares buffer.length splitter.tasks).map
                  (hunted splitter.delimiter buffer))).toArray
              fun _ => rfl with ⟨writePool, writeResult⟩
          -- The writing is the batch behind the hunt.
          have second : (splitter.pool.after 1).fault
              (splitter.pool.after 1).completed =
              splitter.pool.fault (splitter.pool.completed + 1) := rfl
          simp only [present, and_self, if_true]
          rw [writeResult, writePool, written, Pool.verdict, second,
            Pool.after_after, textStartAfter, last]
          cases splitter.pool.fault (splitter.pool.completed + 1) with
          | some failure => rw [take_size_append, after]
          | none => rfl

/-! ## Runs of calls -/

/-- A call in a run: the splitter and the tokens as it finds them, and its
buffer. -/
structure Call where
  splitter : ParallelSplitter
  tokens : Array Token
  buffer : Bytes

namespace Call

/-- What a call leaves behind. -/
def report (call : Call) : Report :=
  call.splitter.split call.buffer call.tokens

/-- Whether a call returns a remainder and no failure. -/
def succeeds (call : Call) : Bool :=
  call.report.result.isOk

/-- The number of batches that the pool has counted during a call. -/
def submitted (call : Call) : Nat :=
  call.report.splitter.pool.submitted - call.splitter.pool.submitted

end Call

/-- The calls that split buffers one after another into the same tokens. Each
finds what the one before it has left, failed or not. -/
def calls (splitter : ParallelSplitter) (tokens : Array Token) :
    List Bytes → List Call
  | [] => []
  | buffer :: buffers =>
      let report := splitter.split buffer tokens
      ⟨splitter, tokens, buffer⟩ ::
        report.splitter.calls report.tokens buffers

/-- The tokens when buffers have been split one after another. -/
def splitAll (splitter : ParallelSplitter) (tokens : Array Token) :
    List Bytes → Array Token
  | [] => tokens
  | buffer :: buffers =>
      let report := splitter.split buffer tokens
      report.splitter.splitAll report.tokens buffers

theorem map_buffer_calls (splitter : ParallelSplitter) (tokens : Array Token)
    (buffers : List Bytes) :
    (splitter.calls tokens buffers).map (·.buffer) = buffers := by
  induction buffers generalizing splitter tokens with
  | nil => rfl
  | cons buffer buffers ih => rw [calls, List.map_cons, ih]

/-- A call only uses up batches of the pool. -/
theorem splitter_split {splitter : ParallelSplitter}
    (fair : splitter.pool.FairPlans) (positive : 0 < splitter.tasks)
    (buffer : Bytes) (tokens : Array Token) :
    (splitter.split buffer tokens).splitter =
      splitter.after (splitter.batches buffer) := by
  rw [split_eq_of_fair fair positive]
  cases splitter.failure? buffer <;> rfl

theorem submitted_eq_batches {call : Call}
    (fair : call.splitter.pool.FairPlans) (positive : 0 < call.splitter.tasks) :
    call.submitted = call.splitter.batches call.buffer := by
  rw [Call.submitted, Call.report, splitter_split fair positive]
  exact Nat.add_sub_cancel_left _ _

/-- Every call finds the splitter with the batches used up that the calls before
it have submitted. -/
theorem splitter_of_mem_calls {splitter : ParallelSplitter}
    {tokens : Array Token} {buffers : List Bytes}
    (fair : splitter.pool.FairPlans) (positive : 0 < splitter.tasks)
    {earlier later : List Call} {call : Call}
    (cut : splitter.calls tokens buffers = earlier ++ call :: later) :
    call.splitter = splitter.after (earlier.map Call.submitted).sum := by
  induction earlier generalizing splitter tokens buffers with
  | nil =>
      cases buffers with
      | nil => exact nomatch cut
      | cons buffer buffers =>
          rw [calls, List.nil_append, List.cons.injEq] at cut
          rw [← cut.1]
          rfl
  | cons first earlier ih =>
      cases buffers with
      | nil => exact nomatch cut
      | cons buffer buffers =>
          rw [calls, List.cons_append, List.cons.injEq] at cut
          have used : first.submitted = splitter.batches buffer := by
            rw [← cut.1]
            exact @submitted_eq_batches ⟨splitter, tokens, buffer⟩ fair positive
          have left := splitter_split fair positive buffer tokens
          rw [left] at cut
          rw [@ih (splitter.after (splitter.batches buffer)) _ _ fair positive
              cut.2,
            after_after, List.map_cons, List.sum_cons, used]

/-- A call fails with a failure of one of its batches and leaves the tokens as
they were, or it adds what splitting its buffer adds. -/
theorem report_cases {call : Call}
    (fair : call.splitter.pool.FairPlans) (positive : 0 < call.splitter.tasks) :
    (∃ failure, call.splitter.failure? call.buffer = some failure ∧
        call.report.result = .error failure ∧
        call.report.tokens = call.tokens) ∨
      (call.splitter.failure? call.buffer = none ∧
        call.report.result =
          .ok ((Splitter.mk call.splitter.delimiter).split call.buffer #[]).2 ∧
        call.report.tokens = call.tokens ++
          ((Splitter.mk call.splitter.delimiter).split call.buffer #[]).1) := by
  rw [Call.report, split_eq_of_fair fair positive, Splitter.split_eq_append]
  cases call.splitter.failure? call.buffer with
  | some failure => exact .inl ⟨failure, rfl, rfl, rfl⟩
  | none => exact .inr ⟨rfl, rfl, rfl⟩

/-- The tokens of a run are those of its successful calls. -/
theorem splitAll_eq {splitter : ParallelSplitter}
    (fair : splitter.pool.FairPlans) (positive : 0 < splitter.tasks)
    (tokens : Array Token) (buffers : List Bytes) :
    splitter.splitAll tokens buffers =
      tokens ++ ((splitter.calls tokens buffers).filter Call.succeeds).flatMap
        fun call =>
          ((Splitter.mk splitter.delimiter).split
            call.buffer #[]).1.toList := by
  induction buffers generalizing splitter tokens with
  | nil => simp [splitAll, calls]
  | cons buffer buffers ih =>
      have left := splitter_split fair positive buffer tokens
      rw [splitAll, calls, left,
        @ih (splitter.after (splitter.batches buffer)) fair positive]
      rcases @report_cases ⟨splitter, tokens, buffer⟩ fair positive with
        ⟨failure, -, failed, same⟩ | ⟨-, succeeded, added⟩
      · have dropped : (Call.mk splitter tokens buffer).succeeds = false := by
          rw [Call.succeeds, failed]
          rfl
        rw [List.filter_cons_of_neg (Bool.eq_false_iff.mp dropped)]
        rw [Call.report] at same
        rw [same]
        rfl
      · have kept : (Call.mk splitter tokens buffer).succeeds = true := by
          rw [Call.succeeds, succeeded]
          rfl
        rw [List.filter_cons_of_pos kept, List.flatMap_cons]
        rw [Call.report] at added
        rw [added]
        apply Array.ext'
        simp [after]

/-- In every run, whichever batches the pool fails: a call fails with the
failure of its hunt, or else, if its buffer has a delimiter, with that of its
writing, and with no other. Its hunt is the batch behind those that the calls
before it have submitted, and it submits a second one only if the hunt is not
failed and there is a delimiter. A failed call leaves the tokens as they were; a successful
one adds the tokens of its buffer and returns the remainder. So in the end the
tokens of the successful calls stand behind those that were there. -/
theorem calls_atomic (splitter : ParallelSplitter) (tokens : Array Token)
    (buffers : List Bytes)
    (fair : splitter.pool.FairPlans) (positive : 0 < splitter.tasks) :
    (splitter.calls tokens buffers).map (·.buffer) = buffers ∧
      (∀ (earlier : List Call) (call : Call) (later : List Call),
        splitter.calls tokens buffers = earlier ++ call :: later →
        let hunt := splitter.pool.completed +
          (earlier.map Call.submitted).sum
        let sequential :=
          (Splitter.mk splitter.delimiter).split call.buffer #[]
        (∀ failure, call.report.result = .error failure ↔
            splitter.pool.fault hunt = some failure ∨
              splitter.pool.fault hunt = none ∧
                splitter.delimiter ∈ call.buffer ∧
                splitter.pool.fault (hunt + 1) = some failure) ∧
          call.submitted =
            (if splitter.pool.fault hunt = none ∧
              splitter.delimiter ∈ call.buffer then 2 else 1) ∧
          (∀ failure, call.report.result = .error failure →
            call.report.tokens = call.tokens) ∧
          ∀ rest, call.report.result = .ok rest →
            rest = sequential.2 ∧
              call.report.tokens = call.tokens ++ sequential.1) ∧
      splitter.splitAll tokens buffers =
        tokens ++
          ((splitter.calls tokens buffers).filter Call.succeeds).flatMap
            fun call =>
              ((Splitter.mk splitter.delimiter).split
                call.buffer #[]).1.toList := by
  refine ⟨map_buffer_calls splitter tokens buffers, ?_,
    splitAll_eq fair positive tokens buffers⟩
  intro earlier call later cut hunt sequential
  have found := splitter_of_mem_calls fair positive cut
  have fairHere : call.splitter.pool.FairPlans := by
    rw [found]
    exact fair
  have positiveHere : 0 < call.splitter.tasks := by
    rw [found]
    exact positive
  have failures := @failure?_eq_some_iff call.splitter call.buffer
  have count := submitted_eq_batches fairHere positiveHere
  have outcome := report_cases fairHere positiveHere
  rw [batches] at count
  rw [found] at failures count outcome
  refine ⟨fun failure => ?_, count, fun failure failed => ?_,
    fun rest succeeded => ?_⟩
  · refine Iff.trans ?_ failures
    rcases outcome with ⟨other, ending, failed, -⟩ | ⟨ending, succeeded, -⟩
    · rw [failed, ending, Except.error.injEq, Option.some.injEq]
    · simp [succeeded, ending]
  · rcases outcome with ⟨_, -, -, same⟩ | ⟨-, succeeded, -⟩
    · exact same
    · rw [succeeded] at failed
      exact nomatch failed
  · rcases outcome with ⟨_, -, failed, -⟩ | ⟨-, result, added⟩
    · rw [failed] at succeeded
      exact nomatch succeeded
    · rw [result] at succeeded
      exact ⟨(Except.ok.inj succeeded).symm, added⟩

/-- Three tasks and a pool that fails the second and the fourth batch. -/
def flaky : ParallelSplitter where
  delimiter := 44
  pool := { Pool.inline with
    fault := fun earlier =>
      if earlier = 1 ∨ earlier = 3 then some (.taskFailed 0 "flaky")
      else none }
  tasks := 3

/-- The second batch writes the tokens of the first buffer. The second buffer
has no delimiter, so the fourth batch hunts in the third buffer. -/
theorem calls_flaky :
    flaky.pool.FairPlans ∧ 0 < flaky.tasks ∧
      flaky.splitAll #[⟨[122], [9]⟩]
        [[97, 44, 98], [120, 121], [99, 44, 100], [101, 44, 102]] =
        #[⟨[122], [9]⟩, ⟨[101], [1]⟩, ⟨[44], [0]⟩] := by
  have fair : flaky.pool.FairPlans := Pool.inline_honest.1
  have run := calls_atomic flaky #[⟨[122], [9]⟩]
    [[97, 44, 98], [120, 121], [99, 44, 100], [101, 44, 102]] fair (by decide)
  exact ⟨fair, by decide, run.2.2.trans (by decide)⟩

end ParallelSplitter

end Munch
