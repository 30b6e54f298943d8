import Munch.Proofs.Dfa.States
import Munch.Proofs.Rejection

/-!
# The states of a product

The states of the product of compiled patterns are the tuples of component
states that one word leads to, each under one number. Each carries the joint
verdict on its tuple (`Sums`). In the order of the numbers the stretches of the
verdicts lie side by side in the shared table and fill it (`Tiled`).
-/

namespace Munch

namespace PatternSet

variable {patterns : List Pattern}

/-! ## Joint verdicts -/

/-- Whether the component with an index gives a verdict in its own state of a
tuple. -/
def ComponentGives (components : List Regex) (tuple : List Nat) (index : Nat)
    (status : Status) : Prop :=
  ∃ regex state, components[index]? = some regex ∧ tuple[index]? = some state ∧
    regex.dfa.status? state = some status

/-- Whether a verdict and a list of indices are the joint verdict on a tuple: the
indices are those of the components that accept, ascending and as many as the
verdict says. It accepts when there is one, rejects when there are components
and all of them reject, and is open otherwise. -/
structure Sums (components : List Regex) (tuple : List Nat) (verdict : Verdict)
    (types : List Nat) : Prop where
  count : types.length = verdict.count
  ascending : types.Pairwise (· < ·)
  mem_iff : ∀ index, index ∈ types ↔
    ComponentGives components tuple index .accept
  accept_iff : verdict.status = .accept ↔ 0 < verdict.count
  reject_iff : verdict.status = .reject ↔ components ≠ [] ∧
    ∀ index < components.length, ComponentGives components tuple index .reject
  pass_iff : verdict.status = .pass ↔ verdict.count = 0 ∧
    (components = [] ∨
      ∃ index < components.length,
        ¬ComponentGives components tuple index .reject)

/-- After a word each component gives the verdict that stands at its place in
the list of the verdicts. -/
theorem componentGives_tupleAfter {word : Bytes} {index : Nat}
    {status : Status} :
    ComponentGives (patterns.map Pattern.compile)
        (tupleAfter (patterns.map Pattern.compile) word) index status ↔
      (statusesAfter (patterns.map Pattern.compile) word)[index]? =
        some status := by
  have gives : ∀ pattern : Pattern,
      pattern.compile.dfa.status? (pattern.compile.dfa.run Dfa.initial word) =
          some status ↔
        pattern.compile.dfa.verdict id
          (pattern.compile.dfa.run Dfa.initial word) = status := by
    intro pattern
    rw [Pattern.compile, Nfa.verdict_run_toDfa, Nfa.status?_run_toDfa,
      Option.some.injEq]
  simp only [ComponentGives, tupleAfter, statusesAfter, List.getElem?_map,
    Option.map_eq_some_iff, exists_exists_and_eq_and]
  constructor
  · intro given
    rcases given with ⟨_, _, ⟨pattern, found, rfl⟩, ⟨other, again, rfl⟩, given⟩
    rw [found, Option.some.injEq] at again
    subst again
    exact ⟨pattern, found, (gives pattern).mp given⟩
  · intro given
    rcases given with ⟨pattern, found, given⟩
    exact ⟨_, _, ⟨pattern, found, rfl⟩, ⟨pattern, found, rfl⟩,
      (gives pattern).mpr given⟩

theorem length_acceptingIndices_pos {verdicts : List Status} :
    0 < (acceptingIndices verdicts).length ↔ .accept ∈ verdicts := by
  rw [List.length_pos_iff_exists_mem, List.mem_iff_getElem?]
  simp only [mem_acceptingIndices]

theorem forall_mem_reject_iff {verdicts : List Status} :
    (∀ status ∈ verdicts, status = .reject) ↔
      ∀ index < verdicts.length, verdicts[index]? = some .reject := by
  constructor
  · intro all index inside
    rw [List.getElem?_eq_getElem inside, all _ (List.getElem_mem inside)]
  · intro all status listed
    rcases List.getElem?_of_mem listed with ⟨index, found⟩
    have given := all index (List.getElem?_eq_some_iff.mp found).1
    rw [found] at given
    exact Option.some.inj given

/-- The verdict that the product carries after a word is the joint verdict on
the tuple of that word, wherever its indices begin in the table. -/
theorem sums_tupleAfter (patterns : List Pattern) (word : Bytes)
    (start : Nat) :
    Sums (patterns.map Pattern.compile)
      (tupleAfter (patterns.map Pattern.compile) word)
      ⟨jointStatus (statusesAfter (patterns.map Pattern.compile) word), start,
        (acceptingIndices
          (statusesAfter (patterns.map Pattern.compile) word)).length⟩
      (acceptingIndices
        (statusesAfter (patterns.map Pattern.compile) word)) := by
  have length : (statusesAfter (patterns.map Pattern.compile) word).length =
      (patterns.map Pattern.compile).length := by
    rw [statusesAfter, List.length_map]
  have empty : statusesAfter (patterns.map Pattern.compile) word ≠ [] ↔
      patterns.map Pattern.compile ≠ [] := by
    rw [statusesAfter, Ne, Ne, List.map_eq_nil_iff]
  have accepts :
      jointStatus (statusesAfter (patterns.map Pattern.compile) word) =
          .accept ↔
        0 < (acceptingIndices
          (statusesAfter (patterns.map Pattern.compile) word)).length := by
    rw [jointStatus_eq_accept_iff, length_acceptingIndices_pos]
  have rejects :
      jointStatus (statusesAfter (patterns.map Pattern.compile) word) =
          .reject ↔
        patterns.map Pattern.compile ≠ [] ∧
          ∀ index < (patterns.map Pattern.compile).length,
            ComponentGives (patterns.map Pattern.compile)
              (tupleAfter (patterns.map Pattern.compile) word) index
              .reject := by
    rw [jointStatus_eq_reject_iff, empty, forall_mem_reject_iff, length]
    simp only [componentGives_tupleAfter]
  refine ⟨rfl, acceptingIndices_ascending _, ?_, accepts, rejects, ?_⟩
  · intro index
    rw [mem_acceptingIndices, componentGives_tupleAfter]
  · rw [Status.eq_pass_iff, Ne, accepts, Ne, rejects, Nat.not_lt, Nat.le_zero,
      not_and_or, not_not]
    simp only [not_forall, exists_prop]

/-! ## The table -/

/-- What stands in the table in front of the indices of a state. -/
def tableBefore (patterns : List Pattern) (state : Nat) : List Nat :=
  ((reachableTuples (patterns.map Pattern.compile)).keys.toList.take
    state).flatMap (acceptingOf (patterns.map Pattern.compile))

theorem tableBefore_succ {state : Nat} {tuple : List Nat}
    (named : (reachableTuples (patterns.map Pattern.compile)).keys[state]? =
      some tuple) :
    tableBefore patterns (state + 1) =
      tableBefore patterns state ++
        acceptingOf (patterns.map Pattern.compile) tuple := by
  rw [← Array.getElem?_toList] at named
  rw [tableBefore, List.take_add_one, named, List.flatMap_append,
    Option.toList_some, List.flatMap_singleton, tableBefore]

/-- All tuples together fill the table. -/
theorem tableBefore_size :
    tableBefore patterns
        (reachableTuples (patterns.map Pattern.compile)).keys.size =
      (ofPatterns patterns).accepting.toList := by
  rw [tableBefore, ← Array.length_toList, List.take_length]
  exact (layOutVerdicts_eq _ _).1.symm

/-- A state carries the joint verdict on its tuple and the stretch of the table
behind the states before it. -/
theorem status?_ofPatterns {state : Nat} {tuple : List Nat}
    (named : (reachableTuples (patterns.map Pattern.compile)).keys[state]? =
      some tuple) :
    (ofPatterns patterns).dfa.status? state =
      some ⟨jointStatus
          (componentVerdicts (patterns.map Pattern.compile) tuple),
        (tableBefore patterns state).length,
        (acceptingOf (patterns.map Pattern.compile) tuple).length⟩ := by
  have entry := Numbering.status?_toDfa (size_layOutVerdicts patterns) state
  rw [(layOutVerdicts_eq _ _).2.2, Array.getElem?_toList, named] at entry
  exact entry

/-- The stretch that the verdict of a state holds lists the components that
accept in its tuple. -/
theorem acceptingTypes?_ofPatterns {state : Nat} {tuple : List Nat}
    (named : (reachableTuples (patterns.map Pattern.compile)).keys[state]? =
      some tuple) :
    (ofPatterns patterns).acceptingTypes? state =
      some (acceptingOf (patterns.map Pattern.compile) tuple) := by
  have table : (ofPatterns patterns).accepting.toList =
      (reachableTuples (patterns.map Pattern.compile)).keys.toList.flatMap
        (acceptingOf (patterns.map Pattern.compile)) :=
    (layOutVerdicts_eq _ _).1
  rw [acceptingTypes?, status?_ofPatterns named, Option.map_some, indices,
    table]
  rw [← Array.getElem?_toList] at named
  exact congrArg some (drop_take_flatMap _ named)

/-- Whether the stretches of the verdicts, in the order of the states, begin
where the table begins, lie side by side and end where the table ends. -/
structure Tiled (set : PatternSet) : Prop where
  first : ∃ verdict, set.dfa.status? Dfa.initial = some verdict ∧
    verdict.start = 0
  next : ∀ (state : Nat) (verdict following : Verdict),
    set.dfa.status? state = some verdict →
      set.dfa.status? (state + 1) = some following →
        following.start = verdict.start + verdict.count
  last : ∀ (state : Nat) (verdict : Verdict), state + 1 = set.size →
    set.dfa.status? state = some verdict →
      verdict.start + verdict.count = set.accepting.size

theorem size_ofPatterns (patterns : List Pattern) :
    (ofPatterns patterns).size =
      (reachableTuples (patterns.map Pattern.compile)).keys.size :=
  Numbering.size_toDfa (complete_ofPatterns patterns)
    (size_layOutVerdicts patterns)

theorem exists_tuple {state : Nat} (inside : state < (ofPatterns patterns).size) :
    ∃ tuple, (reachableTuples (patterns.map Pattern.compile)).keys[state]? =
      some tuple :=
  Numbering.exists_key (complete_ofPatterns patterns)
    (size_layOutVerdicts patterns) inside

theorem tiled_ofPatterns (patterns : List Pattern) :
    (ofPatterns patterns).Tiled where
  first :=
    ⟨_, status?_ofPatterns (complete_ofPatterns patterns).initial, rfl⟩
  next state verdict following found followingFound := by
    rcases exists_tuple (Dfa.lt_size_of_status? found) with ⟨tuple, named⟩
    rcases exists_tuple (Dfa.lt_size_of_status? followingFound)
      with ⟨other, otherNamed⟩
    rw [status?_ofPatterns named, Option.some.injEq] at found
    rw [status?_ofPatterns otherNamed, Option.some.injEq] at followingFound
    rw [← found, ← followingFound, tableBefore_succ named, List.length_append]
  last state verdict final found := by
    rcases exists_tuple (Dfa.lt_size_of_status? found) with ⟨tuple, named⟩
    rw [status?_ofPatterns named, Option.some.injEq] at found
    rw [← found, ← Array.length_toList, ← tableBefore_size,
      ← size_ofPatterns, ← final, tableBefore_succ named, List.length_append]

/-! ## The states -/

/-- There are no more product states than tuples of component states. -/
theorem size_ofPatterns_le (patterns : List Pattern) :
    (ofPatterns patterns).size ≤
      ((ofPatterns patterns).components.map fun regex => regex.dfa.size).prod := by
  have components : (ofPatterns patterns).components =
    patterns.map Pattern.compile := rfl
  have bounded := bounded_ofPatterns patterns
  have ended := Numbering.explore_sound
    (advance_covers (patterns.map Pattern.compile)) bounded
  rw [size_ofPatterns, List.prod_eq_foldr, List.foldr_map, components]
  exact ended.1.size_le bounded

/-- Multiplying compiled patterns comes to an end with a state for each tuple of
component states that some word leads to, and no other. The tuple of the empty
word is the initial state, a state goes on each byte to the state of the tuple
in which all components have gone on, and it carries the joint verdict on its
tuple. A word leads to every state, there are no more states than tuples of
component states, and their verdicts tile the table. -/
theorem ofPatterns_states (patterns : List Pattern) :
    let set := ofPatterns patterns
    set.components = patterns.map Pattern.compile ∧
    (reachableTuples set.components).pending = [] ∧
      (∃ tupleOf : Fin set.size ≃
          { tuple : List Nat // ∃ word, tuple =
            set.components.map fun regex => regex.dfa.run Dfa.initial word },
        (∃ begin : Fin set.size, begin.val = Dfa.initial ∧
          (tupleOf begin).val = set.components.map fun _ => Dfa.initial) ∧
        ∀ state : Fin set.size,
          (∀ byte, ∃ next : Fin set.size,
            set.dfa.next? state byte = some next.val ∧
            (tupleOf next).val =
              advance set.components (tupleOf state).val byte) ∧
          ∃ verdict types, set.dfa.status? state = some verdict ∧
            set.acceptingTypes? state = some types ∧
            Sums set.components (tupleOf state).val verdict types) ∧
      (∀ state < set.size, ∃ word, set.dfa.run Dfa.initial word = state) ∧
      set.size ≤ (set.components.map fun regex => regex.dfa.size).prod ∧
      set.Tiled := by
  intro set
  have ended := Numbering.explore_sound
    (advance_covers (patterns.map Pattern.compile))
    (bounded_ofPatterns patterns)
  have complete := complete_ofPatterns patterns
  have sizes := size_layOutVerdicts patterns
  refine ⟨rfl, ended.2, ?_, ?_, size_ofPatterns_le patterns,
    tiled_ofPatterns patterns⟩
  · rcases Numbering.exists_states complete sizes
      (fun tuple => ∃ word, tuple =
        tupleAfter (patterns.map Pattern.compile) word)
      (by simp only [follow_eq_tupleAfter, implies_true])
      with ⟨tupleOf, begins, states⟩
    refine ⟨tupleOf, begins, fun state => ⟨(states state).2, ?_⟩⟩
    rcases (tupleOf state).property with ⟨word, reach⟩
    have named := (states state).1
    refine ⟨_, _, status?_ofPatterns named, acceptingTypes?_ofPatterns named, ?_⟩
    have sums := sums_tupleAfter patterns word
      (tableBefore patterns state).length
    rw [← componentVerdicts_tupleAfter, ← reach] at sums
    exact sums
  · intro state inside
    exact Numbering.exists_run_eq complete sizes inside

end PatternSet

end Munch
