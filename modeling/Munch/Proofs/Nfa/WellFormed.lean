import Munch.Proofs.Nfa.Block

/-!
# Well-formed blocks

A block is closed when none of its moves leaves it, free moves never lead to a
state that rejects, and a state that rejects is a sink: every byte leads back to
it and nothing else does. A closed block whose first state is its only initial
one, and which has an accepting state, is well formed. Putting well-formed
blocks together gives well-formed blocks.
-/

namespace Munch

namespace Block

/-- Whether a free move may lead to a place of a block: there is a state, and it
does not reject. -/
def Open (block : Block) (target : Nat) : Prop :=
  ∃ reached, block[target]? = some reached ∧ reached.flags.reject = false

/-- A block that no move leaves and whose rejecting states are sinks. -/
structure Closed (block : Block) : Prop where
  transitions : ∀ (index : Nat) (state : NfaState),
    block[index]? = some state → ∀ byte,
      state.transitions.get byte < block.length
  epsilons : ∀ (index : Nat) (state : NfaState),
    block[index]? = some state → ∀ target ∈ state.epsilons, block.Open target
  sink : ∀ (index : Nat) (state : NfaState), block[index]? = some state →
    state.flags.reject = true → state = ⟨.onlyReject, .const index, []⟩

/-- A closed block that is entered at its first state and accepts somewhere. -/
structure WellFormed (block : Block) : Prop where
  closed : block.Closed
  start : ∀ (index : Nat) (state : NfaState), block[index]? = some state →
    (state.flags.start = true ↔ index = 0)
  accept : ∃ state ∈ block, state.flags.accept = true

variable {first second block changed : Block}

namespace Open

theorem front {target : Nat} (opens : first.Open target) :
    (first ++ second : Block).Open target := by
  rcases opens with ⟨reached, found, passes⟩
  have below := (List.getElem?_eq_some_iff.mp found).1
  exact ⟨reached, (List.getElem?_append_left below).trans found, passes⟩

theorem behind {target : Nat} (opens : second.Open target) :
    (first ++ second.shift first.length : Block).Open
      (first.length + target) := by
  rcases opens with ⟨reached, found, passes⟩
  refine ⟨reached.shift first.length, ?_, ?_⟩
  · rw [getElem?_append_shift, found]
    rfl
  · rwa [NfaState.flags_shift]

theorem lt_length {target : Nat} (opens : block.Open target) :
    target < block.length := by
  rcases opens with ⟨reached, found, _⟩
  exact (List.getElem?_eq_some_iff.mp found).1

end Open

/-! ## Closed blocks -/

/-- What may happen to a state of a closed block: it may lose marks other than
that of rejection and gain free moves to states that do not reject, and if it
rejects it is left alone. -/
structure Eases (block : Block) (before after : NfaState) : Prop where
  transitions : after.transitions = before.transitions
  reject : after.flags.reject = before.flags.reject
  epsilons : ∀ target ∈ after.epsilons,
    target ∈ before.epsilons ∨ block.Open target
  sink : before.flags.reject = true → after = before

namespace Eases

variable {before middle after : NfaState}

theorem refl : Eases block before before where
  transitions := rfl
  reject := rfl
  epsilons _ move := .inl move
  sink _ := rfl

theorem trans (one : Eases block before middle)
    (other : Eases block middle after) : Eases block before after where
  transitions := other.transitions.trans one.transitions
  reject := other.reject.trans one.reject
  epsilons target move := by
    rcases other.epsilons target move with old | new
    · exact one.epsilons target old
    · exact .inr new
  sink rejects := by
    rw [other.sink (one.reject.trans rejects), one.sink rejects]

theorem unmark (quiet : before.flags.reject = true →
    before.flags.start = false) :
    Eases block before (before.unmark .onlyStart) where
  transitions := rfl
  reject := Flags.reject_remove_onlyStart before.flags
  epsilons _ move := .inl move
  sink rejects := NfaState.unmark_onlyStart (quiet rejects)

theorem link {targets : List Nat} (passes : before.flags.reject = false)
    (opens : ∀ target ∈ targets, block.Open target) :
    Eases block before (before.link targets) where
  transitions := rfl
  reject := rfl
  epsilons target move := by
    rw [NfaState.epsilons_link, List.mem_append] at move
    rcases move with old | new
    · exact .inl old
    · exact .inr (opens target new)
  sink rejects := by
    rw [passes] at rejects
    cases rejects

theorem exitTo {door : Nat} (opens : block.Open door)
    (quiet : before.flags.reject = true → before.flags.accept = false) :
    Eases block before (before.exitTo door) := by
  cases accepts : before.flags.accept with
  | false =>
      rw [NfaState.exitTo_of_not_accept door accepts]
      exact refl
  | true =>
      rw [NfaState.exitTo, accepts, if_pos rfl]
      constructor
      · rfl
      · exact Flags.reject_remove_onlyAccept before.flags
      · intro target move
        rw [NfaState.epsilons_link, List.mem_append, List.mem_singleton] at move
        rcases move with old | rfl
        · exact .inl old
        · exact .inr opens
      · intro rejects
        rw [quiet rejects] at accepts
        cases accepts

end Eases

namespace Closed

/-- No free move of a closed block leads to a state that rejects. -/
theorem notMem_epsilons (closed : block.Closed) {index : Nat}
    {sink : NfaState} (lookup : block[index]? = some sink)
    (rejects : sink.flags.reject = true) :
    ∀ state ∈ block, index ∉ state.epsilons := by
  intro state member move
  rcases List.getElem?_of_mem member with ⟨source, found⟩
  rcases closed.epsilons source state found index move
    with ⟨reached, known, passes⟩
  rw [lookup, Option.some.injEq] at known
  rw [← known, rejects] at passes
  cases passes

theorem quiet (closed : block.Closed) {index : Nat} {state : NfaState}
    (lookup : block[index]? = some state)
    (rejects : state.flags.reject = true) :
    state.flags.start = false ∧ state.flags.accept = false := by
  rw [closed.sink index state lookup rejects]
  exact ⟨rfl, rfl⟩

/-- A block in which every state changes as it may stays closed. -/
theorem eased (closed : block.Closed) (length : changed.length = block.length)
    (eases : ∀ (index : Nat) (after : NfaState), changed[index]? = some after →
      ∃ before, block[index]? = some before ∧ Eases block before after) :
    changed.Closed := by
  have opens : ∀ target, block.Open target → changed.Open target := by
    intro target opens
    rcases opens with ⟨before, lookup, passes⟩
    have below := (List.getElem?_eq_some_iff.mp lookup).1
    have still := List.getElem?_eq_getElem (length ▸ below)
    rcases eases target _ still with ⟨same, sameLookup, eased⟩
    rw [lookup, Option.some.injEq] at sameLookup
    subst sameLookup
    exact ⟨_, still, eased.reject.trans passes⟩
  constructor
  · intro index after lookup byte
    rcases eases index after lookup with ⟨before, known, eased⟩
    rw [eased.transitions, length]
    exact closed.transitions index before known byte
  · intro index after lookup target move
    rcases eases index after lookup with ⟨before, known, eased⟩
    apply opens
    rcases eased.epsilons target move with old | new
    · exact closed.epsilons index before known target old
    · exact new
  · intro index after lookup rejects
    rcases eases index after lookup with ⟨before, known, eased⟩
    rw [eased.reject] at rejects
    rw [eased.sink rejects]
    exact closed.sink index before known rejects

/-- Closed blocks side by side are closed. -/
theorem append (one : first.Closed) (other : second.Closed) :
    (first ++ second.shift first.length : Block).Closed := by
  constructor
  · intro index state lookup byte
    rw [List.length_append, length_shift]
    rcases append_shift_cases lookup with inFirst | inSecond
    · have below := one.transitions index state inFirst byte
      omega
    · rcases inSecond with ⟨place, found, rfl, known, rfl⟩
      have below := other.transitions place found known byte
      rw [NfaState.shift, ByteTable.get_map]
      omega
  · intro index state lookup target move
    rcases append_shift_cases lookup with inFirst | inSecond
    · exact (one.epsilons index state inFirst target move).front
    · rcases inSecond with ⟨place, found, rfl, known, rfl⟩
      rcases List.mem_map.mp move with ⟨old, oldMove, rfl⟩
      exact (other.epsilons place found known old oldMove).behind
  · intro index state lookup rejects
    rcases append_shift_cases lookup with inFirst | inSecond
    · exact one.sink index state inFirst rejects
    · rcases inSecond with ⟨place, found, rfl, known, rfl⟩
      rw [NfaState.flags_shift] at rejects
      rw [other.sink place found known rejects, NfaState.shift,
        ByteTable.map_const]
      rfl

theorem nil : Closed [] where
  transitions _ _ lookup := nomatch lookup
  epsilons _ _ lookup := nomatch lookup
  sink _ _ lookup := nomatch lookup

theorem row {blocks : List Block} (each : ∀ block ∈ blocks, block.Closed) :
    (row blocks).Closed := by
  induction blocks with
  | nil => exact nil
  | cons block blocks ih =>
      have behind := ih fun other listed =>
        each other (List.mem_cons_of_mem block listed)
      exact (each block List.mem_cons_self).append behind

/-- A block without free moves is closed as soon as its transitions stay inside
and its rejecting states are sinks. -/
theorem of_bare
    (each : ∀ (index : Nat) (state : NfaState), block[index]? = some state →
      state.epsilons = [] ∧
      (∀ byte, state.transitions.get byte < block.length) ∧
      (state.flags.reject = true →
        state = ⟨.onlyReject, .const index, []⟩)) : block.Closed where
  transitions index state lookup := (each index state lookup).2.1
  epsilons index state lookup target move := by
    rw [(each index state lookup).1] at move
    cases move
  sink index state lookup := (each index state lookup).2.2

theorem gate {flags : Flags} (passes : flags.reject = false) :
    (gate flags []).Closed := by
  apply of_bare
  intro index state lookup
  match index with
  | 0 =>
      cases lookup
      simp [Block.gate, passes]
  | 1 =>
      cases lookup
      simp [Block.gate]
  | index + 2 => cases lookup

theorem literal (bytes : Bytes) : (literal bytes).Closed := by
  apply of_bare
  intro index state lookup
  rw [length_literal]
  rcases literal_cases lookup with ⟨along, rfl⟩ | ⟨rfl, rfl⟩
  · refine ⟨rfl, fun byte => ?_, nofun⟩
    exact Nat.lt_succ_of_le
      (Nfa.get_wire_le (Nat.lt_succ_of_le along) bytes[index]? byte)
  · simp

theorem charset (bytes : Bytes) : (charset bytes).Closed := by
  apply of_bare
  intro index state lookup
  match index with
  | 0 =>
      cases lookup
      refine ⟨rfl, fun byte => ?_, nofun⟩
      rw [ByteTable.get_foldl_set, ByteTable.get_const]
      simp only [Block.charset, List.length_cons, List.length_nil]
      split <;> omega
  | 1 =>
      cases lookup
      simp [Block.charset, Flags.onlyAccept]
  | 2 =>
      cases lookup
      simp [Block.charset]
  | index + 3 => cases lookup

end Closed

/-! ## Well-formed blocks -/

namespace WellFormed

theorem length_pos (formed : block.WellFormed) : 0 < block.length := by
  rcases formed.accept with ⟨state, listed, _⟩
  exact List.length_pos_of_mem listed

theorem opens (formed : block.WellFormed) : block.Open 0 := by
  have lookup := List.getElem?_eq_getElem formed.length_pos
  refine ⟨_, lookup, ?_⟩
  by_contra rejects
  rw [Bool.not_eq_false] at rejects
  have quiet := (formed.closed.quiet lookup rejects).1
  rw [(formed.start 0 _ lookup).mpr rfl] at quiet
  cases quiet

theorem gate : (gate .startAccept []).WellFormed := by
  refine ⟨Closed.gate rfl, ?_, ?_⟩
  · intro index state lookup
    match index with
    | 0 =>
        cases lookup
        simp [Flags.startAccept]
    | 1 =>
        cases lookup
        simp [Flags.onlyReject]
    | index + 2 => cases lookup
  · exact ⟨_, List.mem_cons_self, rfl⟩

theorem literal (bytes : Bytes) : (literal bytes).WellFormed := by
  refine ⟨Closed.literal bytes, ?_, ?_⟩
  · intro index state lookup
    rcases literal_cases lookup with ⟨along, rfl⟩ | ⟨rfl, rfl⟩
    · exact decide_eq_true_iff
    · simp [Flags.onlyReject]
  · refine ⟨_, List.mem_append_left _ (List.mem_map.mpr
      ⟨bytes.length, List.mem_range.mpr (Nat.lt_succ_self _), rfl⟩), ?_⟩
    exact decide_eq_true rfl

theorem charset (bytes : Bytes) : (charset bytes).WellFormed := by
  refine ⟨Closed.charset bytes, ?_, ?_⟩
  · intro index state lookup
    match index with
    | 0 =>
        cases lookup
        simp [Flags.onlyStart]
    | 1 =>
        cases lookup
        simp [Flags.onlyAccept]
    | 2 =>
        cases lookup
        simp [Flags.onlyReject]
    | index + 3 => cases lookup
  · exact ⟨_, List.mem_cons_of_mem _ List.mem_cons_self, rfl⟩

/-- One well-formed block behind another is well formed. -/
theorem follow (one : first.WellFormed) (other : second.WellFormed) :
    (first.follow second).WellFormed := by
  have closed := one.closed.append other.closed
  have door : (first ++ second.shift first.length : Block).Open
      first.length := other.opens.behind
  refine ⟨?_, ?_, ?_⟩
  · apply closed.eased
    · rw [length_follow, List.length_append, length_shift]
    · intro index after lookup
      rw [getElem?_follow, Option.map_eq_some_iff] at lookup
      rcases lookup with ⟨before, known, rfl⟩
      refine ⟨before, known, ?_⟩
      split
      next => exact .exitTo door fun rejects => (closed.quiet known rejects).2
      next => exact .unmark fun rejects => (closed.quiet known rejects).1
  · intro index after lookup
    rw [getElem?_follow, Option.map_eq_some_iff] at lookup
    rcases lookup with ⟨before, known, rfl⟩
    split
    next inFirst =>
        rw [List.getElem?_append_left inFirst] at known
        rw [NfaState.start_exitTo]
        exact one.start index before known
    next behind =>
        have := one.length_pos
        simp only [NfaState.flags_unmark, Flags.start_remove_onlyStart,
          Bool.false_eq_true, false_iff]
        omega
  · rcases other.accept with ⟨state, listed, accepts⟩
    refine ⟨(state.shift first.length).unmark .onlyStart, ?_, ?_⟩
    · exact List.mem_append_right _
        (List.mem_map_of_mem (List.mem_map_of_mem listed))
    · simpa using accepts

theorem foldl_follow {blocks : List Block} (formed : first.WellFormed)
    (each : ∀ block ∈ blocks, block.WellFormed) :
    (blocks.foldl Block.follow first).WellFormed := by
  induction blocks generalizing first with
  | nil => exact formed
  | cons second blocks ih =>
      apply ih (formed.follow (each second List.mem_cons_self))
      intro block listed
      exact each block (List.mem_cons_of_mem second listed)

theorem opens_starts {blocks : List Block}
    (each : ∀ block ∈ blocks, block.WellFormed) :
    ∀ target ∈ starts blocks, (row blocks).Open target := by
  induction blocks with
  | nil =>
      intro target listed
      cases listed
  | cons block blocks ih =>
      intro target listed
      rw [starts, List.mem_cons] at listed
      rcases listed with rfl | listed
      · exact (each block List.mem_cons_self).opens.front
      · rcases List.mem_map.mp listed with ⟨start, known, rfl⟩
        have rest := ih fun other member =>
          each other (List.mem_cons_of_mem block member)
        exact (rest start known).behind

/-- Well-formed blocks side by side behind a gate are well formed. -/
theorem choice {blocks : List Block}
    (each : ∀ other ∈ block :: blocks, other.WellFormed) :
    (choice (block :: blocks)).WellFormed := by
  have closed : (Block.gate .onlyStart [] ++
      (row (block :: blocks)).shift 2 : Block).Closed :=
    Closed.append (Closed.gate rfl)
      (Closed.row fun other listed => (each other listed).closed)
  refine ⟨?_, ?_, ?_⟩
  · apply closed.eased
    · simp [Block.choice, Block.gate]
    · intro index after lookup
      rw [getElem?_choice, Option.map_eq_some_iff] at lookup
      rcases lookup with ⟨before, known, rfl⟩
      refine ⟨before, known, ?_⟩
      split
      next entry =>
          subst entry
          cases known
          apply Eases.link rfl
          intro target listed
          rcases List.mem_map.mp listed with ⟨start, found, rfl⟩
          exact Open.behind (opens_starts each start found)
      next => exact .unmark fun rejects => (closed.quiet known rejects).1
  · intro index after lookup
    rw [getElem?_choice, Option.map_eq_some_iff] at lookup
    rcases lookup with ⟨before, known, rfl⟩
    split
    next entry =>
        subst entry
        cases known
        simp [Flags.onlyStart]
    next behind => simp [behind]
  · rcases (each block List.mem_cons_self).accept with ⟨state, listed, accepts⟩
    refine ⟨(state.shift 2).unmark .onlyStart, ?_, ?_⟩
    · have inRow : state ∈ row (block :: blocks) :=
        List.mem_append_left _ listed
      exact List.mem_append_right _
        (List.mem_map_of_mem (List.mem_map_of_mem inRow))
    · simpa using accepts

/-- A well-formed block looped behind a gate is well formed. -/
theorem loop (formed : block.WellFormed) : (loop block).WellFormed := by
  have closed : (Block.gate .startAccept [] ++ block.shift 2 : Block).Closed :=
    Closed.append (Closed.gate rfl) formed.closed
  have back : (Block.gate .startAccept [] ++ block.shift 2 : Block).Open 0 :=
    Open.front gate.opens
  have door : (Block.gate .startAccept [] ++ block.shift 2 : Block).Open
      (2 + 0) := Open.behind formed.opens
  refine ⟨?_, ?_, ?_⟩
  · apply closed.eased
    · simp [Block.loop, Block.gate]
    · intro index after lookup
      rw [getElem?_loop, Option.map_eq_some_iff] at lookup
      rcases lookup with ⟨before, known, rfl⟩
      refine ⟨before, known, ?_⟩
      split
      next entry =>
          subst entry
          cases known
          apply Eases.link rfl
          intro target listed
          rw [List.mem_singleton] at listed
          subst listed
          exact door
      next =>
          have quiet := fun rejects => closed.quiet known rejects
          apply (Eases.unmark fun rejects => (quiet rejects).1).trans
          apply Eases.exitTo back
          simp only [NfaState.flags_unmark, Flags.reject_remove_onlyStart,
            Flags.accept_remove_onlyStart]
          exact fun rejects => (quiet rejects).2
  · intro index after lookup
    rw [getElem?_loop, Option.map_eq_some_iff] at lookup
    rcases lookup with ⟨before, known, rfl⟩
    split
    next entry =>
        subst entry
        cases known
        simp [Flags.startAccept]
    next behind => simp [behind]
  · exact ⟨⟨.startAccept, .const 1, [2]⟩,
      List.mem_append_left _ List.mem_cons_self, rfl⟩

end WellFormed

end Block

end Munch
