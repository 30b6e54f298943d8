import Munch.Proofs.Pool
import Munch.Proofs.Pool.Size
import Munch.Proofs.Split

/-!
# Splitting by tasks is splitting

Whatever order a pool works in, each hunter ends up with the places in its own
share. The shares lie side by side, so all of them together are the places in
the buffer. Each writer fills its region with the pairs of its places, and the
regions lie side by side as well.
-/

namespace Munch

namespace ParallelSplitter

variable {delimiter : UInt8} {buffer : Bytes}

/-- A pool has at least one task for a buffer. -/
theorem tasks_ofPool_pos (delimiter : UInt8) (pool : Pool) :
    0 < (ofPool delimiter pool).tasks :=
  Nat.lt_of_lt_of_le Nat.one_pos (Nat.le_max_left _ _)

/-! ## The hunt -/

/-- A hunter for a share when its work is done. -/
def hunted (delimiter : UInt8) (buffer : Bytes) (share : Span) : Hunter :=
  ⟨share, placesFrom delimiter share.first (share.slice buffer)⟩

/-- In whatever order a pool hunts, each hunter finds the places in its own
share. -/
theorem tasks_hunt {pool : Pool} (fair : pool.FairPlans) (spans : List Span) :
    (pool.runBatch (hunting delimiter buffer.toArray)
        (spans.map (Hunter.mk · [])).toArray).tasks.toList =
      spans.map (hunted delimiter buffer) := by
  rw [Pool.tasks_runBatch fair]
  simp [hunting, hunted, Function.comp_def]

/-- A stretch cut in two holds what its parts hold. -/
theorem slice_append {first middle stop : Nat} (before : first ≤ middle)
    (behind : middle ≤ stop) (values : Bytes) :
    (Span.mk first stop).slice values =
      (Span.mk first middle).slice values ++
        (Span.mk middle stop).slice values := by
  have whole : stop - first = (middle - first) + (stop - middle) := by omega
  simp only [Span.slice, Span.length]
  rw [whole, List.take_add, List.drop_drop, Nat.add_sub_cancel' before]

/-- Stretches side by side hold all places between their ends. -/
theorem flatMap_found_hunted {spans : List Span} {start stop : Nat}
    (tiles : Tiles start stop spans) (fits : stop ≤ buffer.length) :
    (spans.map (hunted delimiter buffer)).flatMap (·.found) =
      placesFrom delimiter start ((Span.mk start stop).slice buffer) := by
  induction spans generalizing start with
  | nil =>
      have done : start = stop := tiles
      subst done
      simp [Span.slice, Span.length, placesFrom]
  | cons span spans ih =>
      rcases tiles with ⟨first, ordered, rest⟩
      subst first
      have length : span.first + (span.slice buffer).length = span.stop := by
        have := rest.le
        rw [Span.slice, Span.length, List.length_take, List.length_drop]
        omega
      rw [List.map_cons, List.flatMap_cons, ih rest,
        slice_append ordered rest.le, placesFrom_append, length]
      rfl

/-! ## Writing -/

/-- A region of two places for each delimiter is filled by its pairs. -/
theorem fill_eq_pairsAt (buffer : Array UInt8) (textStart : Nat)
    (places : List Nat)
    {region : List Token} (room : region.length = 2 * places.length) :
    fill buffer textStart places region = pairsAt buffer textStart places := by
  induction places generalizing textStart region with
  | nil =>
      have none : region = [] := List.eq_nil_iff_length_eq_zero.mpr room
      subst none
      rfl
  | cons place places ih =>
      match region with
      | [] => simp at room
      | [_] =>
          simp only [List.length_cons, List.length_nil] at room
          omega
      | _ :: _ :: region =>
          rw [fill, pairsAt, ih]
          simp only [List.length_cons] at room
          omega

/-- When all writers have filled their regions, these hold the pairs of all
hunters' places. -/
theorem flatMap_region_assign (buffer : Array UInt8) (hunters : List Hunter)
    (textStart : Nat) {region : List Token}
    (room : region.length = 2 * (hunters.flatMap (·.found)).length) :
    (assign textStart region hunters).flatMap
        (fun writer => fill buffer writer.textStart writer.places
          writer.region) =
      pairsAt buffer textStart (hunters.flatMap (·.found)) := by
  induction hunters generalizing textStart region with
  | nil => rfl
  | cons hunter hunters ih =>
      rw [List.flatMap_cons, List.length_append] at room
      have first : (region.take (2 * hunter.found.length)).length =
          2 * hunter.found.length := by
        rw [List.length_take]
        omega
      have rest : (region.drop (2 * hunter.found.length)).length =
          2 * (hunters.flatMap (·.found)).length := by
        rw [List.length_drop]
        omega
      rw [assign, List.flatMap_cons, List.flatMap_cons,
        pairsAt_append, ih _ rest,
        fill_eq_pairsAt buffer textStart hunter.found first]

theorem tasks_write {pool : Pool} (fair : pool.FairPlans) (buffer : Array UInt8)
    (writers : List Writer) :
    (pool.runBatch (writing buffer) writers.toArray).tasks.toList.flatMap
      (·.region) =
      writers.flatMap fun writer =>
        fill buffer writer.textStart writer.places writer.region := by
  rw [Pool.tasks_runBatch fair]
  simp [writing, List.flatMap_map]

/-! ## Both together -/

/-- All hunters of a buffer together find all places in it. -/
theorem flatMap_found_shares (delimiter : UInt8) (buffer : Bytes) {tasks : Nat}
    (positive : 0 < tasks) :
    ((shares buffer.length tasks).map (hunted delimiter buffer)).flatMap
      (·.found) =
      placesFrom delimiter 0 buffer := by
  have whole : (Span.mk 0 buffer.length).slice buffer = buffer := by
    simp [Span.slice, Span.length]
  rw [flatMap_found_hunted (shares_tiles positive buffer.length)
    (Nat.le_refl _), whole]

/-- All writers of a buffer together write the pairs of all places in it. -/
theorem flatMap_region_shares {pool : Pool} (fair : pool.FairPlans)
    (delimiter : UInt8) (buffer : Bytes) {tasks : Nat} (positive : 0 < tasks) :
    (pool.runBatch (writing buffer.toArray)
        (assign 0
          (List.replicate (2 * (placesFrom delimiter 0 buffer).length)
            Token.blank)
          ((shares buffer.length tasks).map
            (hunted delimiter buffer))).toArray).tasks.toList.flatMap
        (·.region) =
      pairsAt buffer.toArray 0 (placesFrom delimiter 0 buffer) := by
  have found := flatMap_found_shares delimiter buffer positive
  rw [tasks_write fair, flatMap_region_assign, found]
  rw [List.length_replicate, found]

/-- With a pool that keeps its contract, splitting by any number of tasks
succeeds and gives what splitting from the beginning to the end gives: the same
tokens behind those that are there, and the same remainder. -/
theorem split_eq_sequential (splitter : ParallelSplitter) (buffer : Bytes)
    (tokens : Array Token)
    (honest : splitter.pool.Honest) (positive : 0 < splitter.tasks) :
    (splitter.split buffer tokens).result =
        .ok ((Splitter.mk splitter.delimiter).split buffer tokens).2 ∧
      (splitter.split buffer tokens).tokens =
        ((Splitter.mk splitter.delimiter).split buffer tokens).1 ∧
      ∃ added : List Token, (splitter.split buffer tokens).tokens =
        tokens ++ added := by
  have huntDone :=
    honest.result_runBatch (hunting splitter.delimiter buffer.toArray)
      ((shares buffer.length splitter.tasks).map (Hunter.mk · [])).toArray
      fun _ => rfl
  have stillHonest :=
    honest.runBatch (hunting splitter.delimiter buffer.toArray)
      ((shares buffer.length splitter.tasks).map (Hunter.mk · [])).toArray
  rw [Splitter.split_eq, split]
  dsimp only
  rw [huntDone, tasks_hunt honest.1,
    flatMap_found_shares splitter.delimiter buffer positive]
  dsimp only
  cases last : (placesFrom splitter.delimiter 0 buffer).getLast? with
  | none =>
      rw [List.getLast?_eq_none_iff.mp last]
      exact ⟨rfl, by simp [pairsAt], [], by simp⟩
  | some place =>
      dsimp only
      have room :
          (List.replicate (2 * (placesFrom splitter.delimiter 0 buffer).length)
            Token.blank).length =
          2 * (((shares buffer.length splitter.tasks).map
            (hunted splitter.delimiter buffer)).flatMap (·.found)).length := by
        rw [List.length_replicate,
          flatMap_found_shares splitter.delimiter buffer positive]
      have written := flatMap_region_assign buffer.toArray _ 0 room
      rw [flatMap_found_shares splitter.delimiter buffer positive] at written
      rw [stillHonest.result_runBatch _ _ fun _ => rfl]
      dsimp only
      rw [tasks_write stillHonest.1, written, textStartAfter, last]
      exact ⟨rfl, rfl, _, rfl⟩

/-- Four tasks for six bytes, run from the last to the first by a pool of two
threads. -/
theorem split_reversed :
    ((ParallelSplitter.mk 10 (.threaded 2 fun _ size =>
      (List.range size).reverse) 4).split
        [97, 10, 98, 10, 10, 99] #[.blank]).result = .ok [99] ∧
      ((ParallelSplitter.mk 10 (.threaded 2 fun _ size =>
        (List.range size).reverse) 4).split
        [97, 10, 98, 10, 10, 99] #[.blank]).tokens =
        #[⟨[], []⟩, ⟨[97], [1]⟩, ⟨[10], [0]⟩, ⟨[98], [1]⟩, ⟨[10], [0]⟩,
          ⟨[], [1]⟩, ⟨[10], [0]⟩] := by
  have honest :
      (Pool.threaded 2 fun _ size => (List.range size).reverse).Honest :=
    Pool.threaded_honest fun _ size => List.reverse_perm (List.range size)
  have same := split_eq_sequential
    (ParallelSplitter.mk 10 (.threaded 2 fun _ size =>
      (List.range size).reverse) 4)
    [97, 10, 98, 10, 10, 99] #[.blank] honest (by decide)
  exact ⟨same.1, same.2.1⟩

end ParallelSplitter

end Munch
