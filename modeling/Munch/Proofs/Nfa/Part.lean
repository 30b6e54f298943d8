import Munch.Proofs.Nfa.Edit

/-!
# Parts of an automaton

A part is a stretch of states that no move leaves. Seen from its first state it
accepts a language of its own, whatever the states outside are like, so parts
can be described one by one and put together: behind one another, side by side
behind a gate, and in a loop.

Joining takes the accepting mark off a state and gives it a free move to a door
instead. A word accepted from there on begins with a word that used to be
accepted, and goes on from the door.
-/

namespace Munch

namespace Nfa

variable {nfa left right : Nfa}

/-! ## Acceptance from a state -/

/-- Whether a path that spells the word leads from a state to an accepting
one. -/
def AcceptsFrom (nfa : Nfa) (state : Nat) (word : Bytes) : Prop :=
  ∃ target, nfa.Path state word target ∧ (nfa.flags target).accept = true

theorem AcceptsFrom.here {state : Nat}
    (accepts : (nfa.flags state).accept = true) :
    nfa.AcceptsFrom state [] :=
  ⟨state, .here, accepts⟩

theorem AcceptsFrom.free {state middle : Nat} {word : Bytes}
    (move : middle ∈ nfa.epsilons state)
    (rest : nfa.AcceptsFrom middle word) : nfa.AcceptsFrom state word := by
  rcases rest with ⟨target, path, accepts⟩
  exact ⟨target, .free move path, accepts⟩

theorem AcceptsFrom.read {state middle : Nat} {byte : UInt8} {word : Bytes}
    (step : nfa.target? state byte = some middle)
    (rest : nfa.AcceptsFrom middle word) :
    nfa.AcceptsFrom state (byte :: word) := by
  rcases rest with ⟨target, path, accepts⟩
  exact ⟨target, .read step path, accepts⟩

theorem AcceptsFrom.after {state middle : Nat} {first rest : Bytes}
    (path : nfa.Path state first middle)
    (accepted : nfa.AcceptsFrom middle rest) :
    nfa.AcceptsFrom state (first ++ rest) := by
  rcases accepted with ⟨target, behind, accepts⟩
  exact ⟨target, path.append behind, accepts⟩

/-- What holds of the empty word at accepting states and is carried back along
every move holds of every accepted word. -/
theorem AcceptsFrom.induction {motive : Nat → Bytes → Prop}
    (here : ∀ state, (nfa.flags state).accept = true → motive state [])
    (free : ∀ state middle word, middle ∈ nfa.epsilons state →
      nfa.AcceptsFrom middle word →
      motive middle word → motive state word)
    (read : ∀ state middle byte word, nfa.target? state byte = some middle →
      nfa.AcceptsFrom middle word → motive middle word →
        motive state (byte :: word))
    {state : Nat} {word : Bytes} (accepted : nfa.AcceptsFrom state word) :
    motive state word := by
  rcases accepted with ⟨target, path, accepts⟩
  induction path with
  | here => exact here _ accepts
  | free move path ih => exact free _ _ _ move ⟨_, path, accepts⟩ (ih accepts)
  | read step path ih => exact read _ _ _ _ step ⟨_, path, accepts⟩ (ih accepts)

theorem acceptsFrom_nil_iff {state : Nat} (bare : nfa.epsilons state = []) :
    nfa.AcceptsFrom state [] ↔ (nfa.flags state).accept = true := by
  constructor
  · intro accepted
    rcases accepted with ⟨target, path, accepts⟩
    cases path with
    | here => exact accepts
    | free move _ =>
        rw [bare] at move
        cases move
  · exact AcceptsFrom.here

theorem acceptsFrom_cons_iff {state middle : Nat} {byte : UInt8} {word : Bytes}
    (bare : nfa.epsilons state = [])
    (step : nfa.target? state byte = some middle) :
    nfa.AcceptsFrom state (byte :: word) ↔ nfa.AcceptsFrom middle word := by
  constructor
  · intro accepted
    rcases accepted with ⟨target, path, accepts⟩
    cases path with
    | free move _ =>
        rw [bare] at move
        cases move
    | read other rest =>
        rw [step, Option.some.injEq] at other
        subst other
        exact ⟨target, rest, accepts⟩
  · exact AcceptsFrom.read step

/-- A state that nothing can be accepted from, because no move leaves it. -/
structure IsSink (nfa : Nfa) (state : Nat) : Prop where
  accept : (nfa.flags state).accept = false
  epsilons : nfa.epsilons state = []
  target : ∀ byte, nfa.target? state byte = some state

theorem IsSink.path {state target : Nat} {word : Bytes}
    (sink : nfa.IsSink state)
    (path : nfa.Path state word target) : target = state := by
  induction path with
  | here => rfl
  | free move _ _ =>
      rw [sink.epsilons] at move
      cases move
  | read step _ ih =>
      rw [sink.target] at step
      cases step
      exact ih sink

theorem IsSink.not_acceptsFrom {state : Nat} {word : Bytes}
    (sink : nfa.IsSink state) :
    ¬nfa.AcceptsFrom state word := by
  intro accepted
  rcases accepted with ⟨target, path, accepts⟩
  rw [sink.path path, sink.accept] at accepts
  cases accepts

/-! ## Stretches that no move leaves -/

/-- A state whose moves stay within a stretch, and stay where they are if it
rejects. -/
structure Tame (nfa : Nfa) (span : Span) (state : Nat) : Prop where
  free : ∀ target ∈ nfa.epsilons state, target ∈ span
  read : ∀ byte, ∃ target ∈ span, nfa.target? state byte = some target
  sink : (nfa.flags state).reject = true → nfa.IsSink state

theorem Tame.mono {inner outer : Span} {state : Nat}
    (tame : nfa.Tame inner state)
    (within : ∀ place ∈ inner, place ∈ outer) : nfa.Tame outer state := by
  constructor
  · intro target move
    exact within target (tame.free target move)
  · intro byte
    rcases tame.read byte with ⟨target, inside, step⟩
    exact ⟨target, within target inside, step⟩
  · exact tame.sink

theorem Tame.of_bare {span : Span} {state : Nat}
    (bare : nfa.epsilons state = [])
    (read : ∀ byte, ∃ target ∈ span, nfa.target? state byte = some target)
    (live : (nfa.flags state).reject = false) : nfa.Tame span state := by
  constructor
  · rw [bare]
    intro target move
    cases move
  · exact read
  · rw [live]
    intro rejects
    cases rejects

theorem IsSink.tame {span : Span} {state : Nat} (sink : nfa.IsSink state)
    (inside : state ∈ span) :
    nfa.Tame span state := by
  constructor
  · rw [sink.epsilons]
    intro target move
    cases move
  · intro byte
    exact ⟨state, inside, sink.target byte⟩
  · intro _
    exact sink

/-- A stretch of states that no move leaves, and the words that it accepts from
its first state. -/
structure Part (nfa : Nfa) (span : Span) (language : Bytes → Prop) : Prop where
  inside : span.first < span.stop
  fits : span.stop ≤ nfa.size
  tame : ∀ state ∈ span, nfa.Tame span state
  accepts : ∀ word, nfa.AcceptsFrom span.first word ↔ language word

theorem Part.first_mem {span : Span} {language : Bytes → Prop}
    (part : nfa.Part span language) :
    span.first ∈ span :=
  ⟨Nat.le_refl _, part.inside⟩

/-- Whether the states of a stretch differ at most in their initial marks. -/
structure Alike (left right : Nfa) (span : Span) : Prop where
  epsilons : ∀ state ∈ span, right.epsilons state = left.epsilons state
  target : ∀ state ∈ span, ∀ byte, right.target? state byte =
    left.target? state byte
  accept : ∀ state ∈ span, (right.flags state).accept =
    (left.flags state).accept
  reject : ∀ state ∈ span, (right.flags state).reject =
    (left.flags state).reject

namespace Alike

variable {span : Span}

theorem symm (alike : left.Alike right span) : right.Alike left span where
  epsilons state inside := (alike.epsilons state inside).symm
  target state inside byte := (alike.target state inside byte).symm
  accept state inside := (alike.accept state inside).symm
  reject state inside := (alike.reject state inside).symm

/-- Stretches of which only initial marks are taken stay alike. -/
theorem of_states
    (same : ∀ state ∈ span, right.states[state]? = left.states[state]? ∨
    right.states[state]? = left.states[state]?.map (·.unmark .onlyStart)) :
    left.Alike right span := by
  constructor
  all_goals intro state inside
  all_goals
    simp only [Nfa.epsilons, target?, Nfa.flags]
    rcases same state inside with equal | equal
    · simp [equal]
    · rw [equal]
      cases left.states[state]? <;> simp [NfaState.unmark]

theorem of_edit {change : Nat → NfaState → NfaState}
    (same : ∀ state ∈ span, ∀ found, change state found = found ∨
      change state found = found.unmark .onlyStart) :
      nfa.Alike (nfa.edit change) span := by
  apply of_states
  intro state inside
  rw [getElem?_edit]
  cases nfa.states[state]? with
  | none => exact .inl rfl
  | some found =>
      simp only [Option.map_some, Option.some.injEq]
      exact same state inside found

theorem isSink (alike : left.Alike right span) {state : Nat}
    (inside : state ∈ span)
    (sink : left.IsSink state) : right.IsSink state where
  accept := (alike.accept state inside).trans sink.accept
  epsilons := (alike.epsilons state inside).trans sink.epsilons
  target byte := (alike.target state inside byte).trans (sink.target byte)

theorem tame (alike : left.Alike right span) {state : Nat}
    (inside : state ∈ span)
    (tame : left.Tame span state) : right.Tame span state := by
  constructor
  · rw [alike.epsilons state inside]
    exact tame.free
  · intro byte
    rw [alike.target state inside]
    exact tame.read byte
  · intro rejects
    rw [alike.reject state inside] at rejects
    exact alike.isSink inside (tame.sink rejects)

theorem acceptsFrom (alike : left.Alike right span)
    (tame : ∀ state ∈ span, left.Tame span state) {state : Nat} {word : Bytes}
    (inside : state ∈ span) (accepted : left.AcceptsFrom state word) :
    right.AcceptsFrom state word := by
  rcases accepted with ⟨target, path, accepts⟩
  induction path with
  | here =>
      rw [← alike.accept _ inside] at accepts
      exact .here accepts
  | free move _ ih =>
      have middle := (tame _ inside).free _ move
      rw [← alike.epsilons _ inside] at move
      exact .free move (ih middle accepts)
  | @read source next target byte word step _ ih =>
      rcases (tame source inside).read byte with ⟨middle, middleInside, equal⟩
      rw [step, Option.some.injEq] at equal
      subst equal
      rw [← alike.target source inside] at step
      exact .read step (ih middleInside accepts)

end Alike

/-- A part stays one as long as its states do not change but for their initial
marks. -/
theorem Part.congr {span : Span} {language : Bytes → Prop}
    (part : left.Part span language)
    (size : right.size = left.size) (alike : left.Alike right span) :
    right.Part span language := by
  have tame : ∀ state ∈ span, right.Tame span state := by
    intro state inside
    exact alike.tame inside (part.tame state inside)
  constructor
  · exact part.inside
  · rw [size]
    exact part.fits
  · exact tame
  · intro word
    rw [← part.accepts word]
    constructor
    · exact alike.symm.acceptsFrom tame part.first_mem
    · exact alike.acceptsFrom part.tame part.first_mem

/-- A part whose first state is its only initial state. -/
structure Placed (nfa : Nfa) (span : Span) (language : Bytes → Prop) :
    Prop where
  part : nfa.Part span language
  start : ∀ state ∈ span, (nfa.flags state).start = true ↔ state = span.first

namespace Placed

variable {span : Span} {language : Bytes → Prop}

theorem entered (placed : nfa.Placed span language) : nfa.Entered span where
  inside := placed.part.inside
  fits := placed.part.fits
  start := placed.start

theorem congr (placed : left.Placed span language)
    (size : right.size = left.size)
    (same : ∀ state ∈ span, right.states[state]? = left.states[state]?) :
    right.Placed span language := by
  constructor
  · apply placed.part.congr size
    apply Alike.of_states
    intro state inside
    exact .inl (same state inside)
  · intro state inside
    have equal : right.flags state = left.flags state := by
      rw [Nfa.flags, Nfa.flags, same state inside]
    rw [equal]
    exact placed.start state inside

end Placed

end Nfa

end Munch
