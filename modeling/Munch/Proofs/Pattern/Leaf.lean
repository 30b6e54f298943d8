import Munch.Proofs.Nfa.Join

/-!
# Leaves laid out

What the nodes without children do to an automaton, as edits of each state by
itself, and the words that the stretches they fill accept: a pair the empty
word, a literal its bytes, a character set each of its bytes.

Free moves are never taken away. So a stretch can become a part only if its
states have none before.
-/

namespace Munch

namespace Nfa

variable {nfa : Nfa} {offset : Nat} {bytes : Bytes}

/-- A stretch whose states have no free moves. -/
def Bare (nfa : Nfa) (span : Span) : Prop :=
  ∀ state ∈ span, nfa.epsilons state = []

section Overwrite

variable {span : Span} {state : Nat} {change : Nat → NfaState → NfaState}

/-- Marks and transitions of a state without free moves that is overwritten by
an edit. -/
theorem Bare.overwrite (bare : nfa.Bare span) (fits : span.stop ≤ nfa.size)
    (inside : state ∈ span)
    {flags : Flags} {table : ByteTable Nat}
    (written : ∀ found, change state found = ⟨flags, table, found.epsilons⟩) :
    (nfa.edit change).flags state = flags ∧
      (nfa.edit change).epsilons state = [] ∧
      ∀ byte, (nfa.edit change).target? state byte = some (table.get byte) := by
  rcases getElem?_of_mem fits inside with ⟨found, lookup⟩
  have noMoves := bare state inside
  rw [epsilons_eq lookup] at noMoves
  rw [flags_edit lookup, epsilons_edit lookup, written]
  refine ⟨rfl, noMoves, ?_⟩
  intro byte
  rw [target?_edit lookup, written]

theorem Bare.overwrite_sink (bare : nfa.Bare span) (fits : span.stop ≤ nfa.size)
    (inside : state ∈ span)
    (written : ∀ found, change state found =
      ⟨.onlyReject, .const state, found.epsilons⟩) :
    (nfa.edit change).IsSink state ∧
      ((nfa.edit change).flags state).start = false := by
  rcases bare.overwrite fits inside written with ⟨marks, noMoves, steps⟩
  refine ⟨⟨?_, noMoves, ?_⟩, ?_⟩
  · rw [marks]
    rfl
  · intro byte
    rw [steps, ByteTable.get_const]
  · rw [marks]
    rfl

end Overwrite

/-! ## Pairs -/

/-- What a pair does to its two states. -/
def pairChange (offset : Nat) (flags : Flags) : Nat → NfaState → NfaState :=
  fun state found =>
    if state = offset then ⟨flags, .const (offset + 1), found.epsilons⟩
    else if state = offset + 1 then ⟨.onlyReject, .const (offset + 1),
      found.epsilons⟩
    else found

theorem layPair?_eq_edit (fits : offset + 2 ≤ nfa.size) (flags : Flags) :
    layPair? offset flags nfa = some (nfa.edit (pairChange offset flags)) := by
  rw [layPair?, setState?, modify?_eq_edit (by omega)]
  simp only [Option.bind_eq_bind, Option.bind_some]
  rw [setState?, modify?_eq_edit (by rw [size_edit]; omega), edit_edit]
  congr 2
  funext state found
  simp only [editAt, pairChange]
  by_cases first : state = offset
  · have notSecond : ¬state = offset + 1 := by omega
    simp [first]
  · simp [first]

/-- A pair that is laid out is a gate without targets. -/
theorem gate_pair (bare : nfa.Bare ⟨offset, offset + 2⟩)
    (fits : offset + 2 ≤ nfa.size) (accept : Bool) :
    (nfa.edit (pairChange offset ⟨true, accept, false⟩)).Gate offset []
      accept := by
  have firstInside : offset ∈ (⟨offset, offset + 2⟩ : Span) := by
    rw [Span.mem_mk]
    omega
  have sinkInside : offset + 1 ∈ (⟨offset, offset + 2⟩ : Span) := by
    rw [Span.mem_mk]
    omega
  have first : ∀ found, pairChange offset ⟨true, accept, false⟩ offset found =
      ⟨⟨true, accept, false⟩, .const (offset + 1), found.epsilons⟩ := by
    intro found
    rw [pairChange, if_pos rfl]
  have second : ∀ found, pairChange offset ⟨true, accept, false⟩
      (offset + 1) found =
      ⟨.onlyReject, .const (offset + 1), found.epsilons⟩ := by
    intro found
    rw [pairChange, if_neg (Nat.succ_ne_self offset), if_pos rfl]
  rcases bare.overwrite fits firstInside first with ⟨marks, noMoves, steps⟩
  rcases bare.overwrite_sink fits sinkInside second with ⟨sink, quiet⟩
  constructor
  · exact marks
  · exact noMoves
  · intro byte
    rw [steps, ByteTable.get_const]
  · exact sink
  · exact quiet

theorem placed_pair (bare : nfa.Bare ⟨offset, offset + 2⟩)
    (fits : offset + 2 ≤ nfa.size) :
    (nfa.edit (pairChange offset .startAccept)).Placed ⟨offset, offset + 2⟩
      (· = []) := by
  apply (gate_pair bare fits true).placed (Nat.le_refl _) (by rwa [size_edit])
  · intro target listed
    cases listed
  · intro state inside
    rw [Span.mem_mk] at inside
    omega
  · intro word
    simp

/-! ## Literals -/

/-- The transitions of a state of a literal: the next byte, if there is one,
leads to the next state, and every other byte to the sink. -/
def wire (sink here : Nat) : Option UInt8 → ByteTable Nat
  | some byte => (ByteTable.const sink).set byte (here + 1)
  | none => .const sink

/-- What the steps along the bytes of a literal do: every state of the chain is
wired, and all but the first lose their marks. -/
def stepsChange (sink here : Nat) (bytes : Bytes) :
    Nat → NfaState → NfaState :=
  fun state found =>
    if state ∈ (⟨here, here + bytes.length + 1⟩ : Span) then
      ⟨if state = here then found.flags else .none,
        wire sink state bytes[state - here]?, found.epsilons⟩
    else found

theorem stepsChange_nil {sink here : Nat} {found : NfaState} {state : Nat}
    (toSink : state = here → found.transitions = .const sink) :
    stepsChange sink here [] state found = found := by
  rw [stepsChange]
  split
  next inside =>
      rw [Span.mem_mk, List.length_nil] at inside
      obtain rfl : state = here := by omega
      rw [if_pos rfl, List.getElem?_nil, wire, ← toSink rfl]
  next => rfl

/-- To wire the first state and overwrite the second comes before the steps
along the rest. -/
theorem stepsChange_cons {sink here : Nat} {byte : UInt8} {bytes : Bytes}
    {found : NfaState} {state : Nat}
    (toSink : state = here → found.transitions = .const sink) :
    stepsChange sink (here + 1) bytes state
        (editAt here (fun old =>
            { old with transitions := old.transitions.set byte (here + 1) })
          state
          (editAt (here + 1) (fun old =>
              { old with flags := .none, transitions := .const sink })
            state found)) =
      stepsChange sink here (byte :: bytes) state found := by
  simp only [stepsChange, editAt, List.length_cons]
  by_cases atHere : state = here
  · subst atHere
    have notBehind :
        state ∉ (⟨state + 1, state + 1 + bytes.length + 1⟩ : Span) := by
      rw [Span.mem_mk]
      omega
    have inside : state ∈ (⟨state, state + (bytes.length + 1) + 1⟩ : Span) := by
      rw [Span.mem_mk]
      omega
    have notNext : state ≠ state + 1 := by omega
    rw [if_neg notBehind, if_pos rfl, if_neg notNext, if_pos inside, if_pos rfl,
      Nat.sub_self, toSink rfl]
    rfl
  · by_cases inside : state ∈ (⟨here + 1, here + 1 + bytes.length + 1⟩ : Span)
    · have outer : state ∈ (⟨here, here + (bytes.length + 1) + 1⟩ : Span) := by
        rw [Span.mem_mk] at inside ⊢
        omega
      have shift : state - here = state - (here + 1) + 1 := by
        rw [Span.mem_mk] at inside
        omega
      rw [if_pos inside, if_pos outer, if_neg atHere, if_neg atHere, shift,
        List.getElem?_cons_succ]
      by_cases atNext : state = here + 1
      · rw [if_pos atNext, if_pos atNext]
      · rw [if_neg atNext, if_neg atNext]
    · have outer : state ∉ (⟨here, here + (bytes.length + 1) + 1⟩ : Span) := by
        rw [Span.mem_mk] at inside ⊢
        omega
      have notNext : state ≠ here + 1 := by
        rw [Span.mem_mk] at inside
        omega
      rw [if_neg inside, if_neg atHere, if_neg notNext, if_neg outer]

theorem laySteps?_eq_edit {sink here : Nat} (bytes : Bytes)
    (fits : here + bytes.length < nfa.size)
    (toSink : ∀ found, nfa.states[here]? = some found →
      found.transitions = .const sink) :
    laySteps? sink here bytes nfa =
      some (nfa.edit (stepsChange sink here bytes)) := by
  induction bytes generalizing nfa here with
  | nil =>
      rw [laySteps?, edit_eq_self]
      intro state found lookup
      apply stepsChange_nil
      intro atHere
      exact toSink found (atHere ▸ lookup)
  | cons byte bytes ih =>
      rw [List.length_cons] at fits
      rw [laySteps?, setState?, modify?_eq_edit (by omega)]
      simp only [Option.bind_eq_bind, Option.bind_some]
      rw [setTransition?, modify?_eq_edit (by rw [size_edit]; omega), edit_edit]
      simp only [Option.bind_some]
      rw [ih, edit_edit]
      · congr 1
        apply edit_congr
        intro state found lookup
        apply stepsChange_cons
        intro atHere
        exact toSink found (atHere ▸ lookup)
      · rw [size_edit]
        omega
      · intro found lookup
        rw [getElem?_edit, Option.map_eq_some_iff] at lookup
        rcases lookup with ⟨old, _, rfl⟩
        simp [editAt]

/-- What a literal does to its states and its sink. -/
def literalChange (offset : Nat) (bytes : Bytes) : Nat → NfaState → NfaState :=
  fun state found =>
    if state ∈ (⟨offset, offset + bytes.length + 1⟩ : Span) then
      ⟨⟨decide (state = offset), decide (state = offset + bytes.length), false⟩,
        wire (offset + bytes.length + 1) state bytes[state - offset]?,
          found.epsilons⟩
    else if state = offset + bytes.length + 1 then
      ⟨.onlyReject, .const (offset + bytes.length + 1), found.epsilons⟩
    else found

theorem layLiteral?_eq_edit (fits : offset + (bytes.length + 2) ≤ nfa.size) :
    layLiteral? offset bytes nfa =
      some (nfa.edit (literalChange offset bytes)) := by
  rw [layLiteral?, setState?, modify?_eq_edit (by omega)]
  simp only [Option.bind_eq_bind, Option.bind_some]
  rw [laySteps?_eq_edit bytes (by rw [size_edit]; omega), edit_edit]
  · simp only [Option.bind_some]
    rw [addFlags?, modify?_eq_edit (by rw [size_edit]; omega), edit_edit]
    simp only [Option.bind_some]
    rw [setState?, modify?_eq_edit (by rw [size_edit]; omega), edit_edit]
    congr 1
    apply edit_congr
    intro state found lookup
    simp only [editAt, literalChange, stepsChange]
    by_cases inside : state ∈ (⟨offset, offset + bytes.length + 1⟩ : Span)
    · have notSink : state ≠ offset + bytes.length + 1 := by
        rw [Span.mem_mk] at inside
        omega
      rw [if_neg notSink, if_pos inside, if_pos inside]
      by_cases atFirst : state = offset
      · by_cases atLast : state = offset + bytes.length
        · simp [eq_true atFirst, eq_true atLast, Flags.union, Flags.onlyStart,
            Flags.onlyAccept]
        · simp [eq_true atFirst, eq_false atLast, Flags.onlyStart]
      · by_cases atLast : state = offset + bytes.length
        · simp [eq_false atFirst, eq_true atLast, Flags.union, Flags.none,
            Flags.onlyAccept]
        · simp [eq_false atFirst, eq_false atLast, Flags.none]
    · have notFirst : state ≠ offset := by
        rw [Span.mem_mk] at inside
        omega
      have notLast : state ≠ offset + bytes.length := by
        rw [Span.mem_mk] at inside
        omega
      rw [if_neg inside, if_neg inside, if_neg notLast, if_neg notFirst]
  · intro found lookup
    rw [getElem?_edit, Option.map_eq_some_iff] at lookup
    rcases lookup with ⟨old, _, rfl⟩
    simp [editAt]

section Literal

variable (bare : nfa.Bare ⟨offset, offset + (bytes.length + 2)⟩)
  (fits : offset + (bytes.length + 2) ≤ nfa.size)
include bare fits

/-- A state along the bytes of a literal. -/
theorem literal_along {state : Nat}
    (inside : state ∈ (⟨offset, offset + bytes.length + 1⟩ : Span)) :
    (nfa.edit (literalChange offset bytes)).flags state =
        ⟨decide (state = offset), decide (state = offset + bytes.length),
          false⟩ ∧
      (nfa.edit (literalChange offset bytes)).epsilons state = [] ∧
      ∀ byte, (nfa.edit (literalChange offset bytes)).target? state byte =
        some (if bytes[state - offset]? = some byte then state + 1
          else offset + bytes.length + 1) := by
  have wide : state ∈ (⟨offset, offset + (bytes.length + 2)⟩ : Span) := by
    rw [Span.mem_mk] at inside ⊢
    omega
  have written : ∀ found, literalChange offset bytes state found =
      ⟨⟨decide (state = offset), decide (state = offset + bytes.length), false⟩,
        wire (offset + bytes.length + 1) state bytes[state - offset]?,
          found.epsilons⟩ := by
    intro found
    rw [literalChange, if_pos inside]
  rcases bare.overwrite fits wide written with ⟨marks, noMoves, steps⟩
  refine ⟨marks, noMoves, ?_⟩
  intro byte
  rw [steps]
  cases next : bytes[state - offset]? with
  | none => simp [wire]
  | some wanted => simp [wire, ByteTable.get_set]

theorem literal_sink :
    (nfa.edit (literalChange offset bytes)).IsSink (offset + bytes.length + 1) ∧
      ((nfa.edit (literalChange offset bytes)).flags
        (offset + bytes.length + 1)).start = false := by
  have wide : offset + bytes.length + 1 ∈
      (⟨offset, offset + (bytes.length + 2)⟩ : Span) := by
    rw [Span.mem_mk]
    omega
  have outside : offset + bytes.length + 1 ∉
      (⟨offset, offset + bytes.length + 1⟩ : Span) := by
    rw [Span.mem_mk]
    omega
  apply bare.overwrite_sink fits wide
  intro found
  rw [literalChange, if_neg outside, if_pos rfl]

/-- From each state along a literal exactly what is left of its bytes is
accepted. -/
theorem acceptsFrom_literal (word : Bytes) (done : Nat)
    (within : done ≤ bytes.length) :
    (nfa.edit (literalChange offset bytes)).AcceptsFrom (offset + done) word ↔
      word = bytes.drop done := by
  induction word generalizing done with
  | nil =>
      have inside : offset + done ∈
          (⟨offset, offset + bytes.length + 1⟩ : Span) := by
        rw [Span.mem_mk]
        omega
      have state := literal_along bare fits inside
      rw [acceptsFrom_nil_iff state.2.1, state.1]
      simp only [decide_eq_true_eq, List.nil_eq, List.drop_eq_nil_iff]
      omega
  | cons byte word ih =>
      have inside : offset + done ∈
          (⟨offset, offset + bytes.length + 1⟩ : Span) := by
        rw [Span.mem_mk]
        omega
      have state := literal_along bare fits inside
      have notSink : ¬(nfa.edit (literalChange offset bytes)).AcceptsFrom
          (offset + bytes.length + 1) word :=
        (literal_sink bare fits).1.not_acceptsFrom
      rw [acceptsFrom_cons_iff state.2.1 (state.2.2 byte),
        Nat.add_sub_cancel_left]
      split
      next next =>
          have below := (List.getElem?_eq_some_iff.mp next).1
          rw [Nat.add_assoc, ih (done + 1) below,
            List.drop_eq_getElem_cons below,
            (List.getElem?_eq_some_iff.mp next).2, List.cons.injEq,
              eq_self, true_and]
      next other =>
          constructor
          · intro accepted
            exact absurd accepted notSink
          · intro equal
            have first : (bytes.drop done)[0]? = some byte := by
              rw [← equal]
              rfl
            rw [List.getElem?_drop, Nat.add_zero] at first
            exact absurd first other

theorem placed_literal :
    (nfa.edit (literalChange offset bytes)).Placed
      ⟨offset, offset + (bytes.length + 2)⟩
      (· = bytes) := by
  have cases_mem : ∀ state ∈ (⟨offset, offset + (bytes.length + 2)⟩ : Span),
      state ∈ (⟨offset, offset + bytes.length + 1⟩ : Span) ∨
        state = offset + bytes.length + 1 := by
    intro state inside
    rw [Span.mem_mk] at inside ⊢
    omega
  have sinkInside : offset + bytes.length + 1 ∈
      (⟨offset, offset + (bytes.length + 2)⟩ : Span) := by
    rw [Span.mem_mk]
    omega
  rcases literal_sink bare fits with ⟨sink, sinkQuiet⟩
  refine ⟨⟨?_, by rwa [size_edit], ?_, ?_⟩, ?_⟩
  · exact show offset < offset + (bytes.length + 2) by omega
  · intro state inside
    rcases cases_mem state inside with along | rfl
    · rcases literal_along bare fits along with ⟨marks, noMoves, steps⟩
      apply Tame.of_bare noMoves
      · intro byte
        refine ⟨_, ?_, steps byte⟩
        split
        next next =>
            have below := (List.getElem?_eq_some_iff.mp next).1
            rw [Span.mem_mk] at along ⊢
            omega
        next => exact sinkInside
      · rw [marks]
    · exact sink.tame sinkInside
  · intro word
    exact acceptsFrom_literal bare fits word 0 (Nat.zero_le _)
  · intro state inside
    rcases cases_mem state inside with along | rfl
    · rw [(literal_along bare fits along).1]
      exact decide_eq_true_iff
    · rw [sinkQuiet]
      simp only [Bool.false_eq_true, false_iff]
      omega

end Literal

/-! ## Character sets -/

theorem layBranches?_eq_edit {source : Nat} (below : source < nfa.size)
    (target : Nat) (bytes : Bytes) :
    layBranches? source target bytes nfa =
      some (nfa.edit (editAt source fun found =>
      { found with
        transitions := bytes.foldl (fun table byte => table.set byte target)
          found.transitions })) := by
  induction bytes generalizing nfa with
  | nil =>
      rw [layBranches?, edit_eq_self]
      intro state found _
      rw [editAt]
      split <;> rfl
  | cons byte bytes ih =>
      rw [layBranches?, setTransition?, modify?_eq_edit below]
      simp only [Option.bind_eq_bind, Option.bind_some]
      rw [ih (by rwa [size_edit]), edit_edit]
      congr 2
      funext state found
      simp only [editAt]
      split <;> rfl

/-- What a character set does to its three states. -/
def charsetChange (offset : Nat) (bytes : Bytes) : Nat → NfaState → NfaState :=
  fun state found =>
    if state = offset then
      ⟨.onlyStart, bytes.foldl (fun table byte => table.set byte (offset + 1))
        (.const (offset + 2)), found.epsilons⟩
    else if state = offset + 1 then ⟨.onlyAccept, .const (offset + 2),
      found.epsilons⟩
    else if state = offset + 2 then ⟨.onlyReject, .const (offset + 2),
      found.epsilons⟩
    else found

theorem layCharset?_eq_edit (fits : offset + 3 ≤ nfa.size) :
    layCharset? offset bytes nfa =
      some (nfa.edit (charsetChange offset bytes)) := by
  rw [layCharset?, setState?, modify?_eq_edit (by omega)]
  simp only [Option.bind_eq_bind, Option.bind_some]
  rw [layBranches?_eq_edit (by rw [size_edit]; omega), edit_edit]
  simp only [Option.bind_some]
  rw [setState?, modify?_eq_edit (by rw [size_edit]; omega), edit_edit]
  simp only [Option.bind_some]
  rw [setState?, modify?_eq_edit (by rw [size_edit]; omega), edit_edit]
  congr 2
  funext state found
  simp only [editAt, charsetChange]
  by_cases first : state = offset
  · subst first
    simp
  · by_cases second : state = offset + 1
    · subst second
      simp
    · simp [first, second]

section Charset

variable (bytes) (bare : nfa.Bare ⟨offset, offset + 3⟩)
    (fits : offset + 3 ≤ nfa.size)
include bare fits

theorem charset_first :
    (nfa.edit (charsetChange offset bytes)).flags offset = .onlyStart ∧
      (nfa.edit (charsetChange offset bytes)).epsilons offset = [] ∧
      ∀ byte, (nfa.edit (charsetChange offset bytes)).target? offset byte =
        some (if byte ∈ bytes then offset + 1 else offset + 2) := by
  have inside : offset ∈ (⟨offset, offset + 3⟩ : Span) := by
    rw [Span.mem_mk]
    omega
  have written : ∀ found, charsetChange offset bytes offset found =
      ⟨.onlyStart, bytes.foldl (fun table byte => table.set byte (offset + 1))
        (.const (offset + 2)), found.epsilons⟩ := by
    intro found
    rw [charsetChange, if_pos rfl]
  rcases bare.overwrite fits inside written with ⟨marks, noMoves, steps⟩
  refine ⟨marks, noMoves, ?_⟩
  intro byte
  rw [steps, ByteTable.get_foldl_set, ByteTable.get_const]

theorem charset_second :
    (nfa.edit (charsetChange offset bytes)).flags (offset + 1) = .onlyAccept ∧
      (nfa.edit (charsetChange offset bytes)).epsilons (offset + 1) = [] ∧
      ∀ byte, (nfa.edit (charsetChange offset bytes)).target?
        (offset + 1) byte =
        some (offset + 2) := by
  have inside : offset + 1 ∈ (⟨offset, offset + 3⟩ : Span) := by
    rw [Span.mem_mk]
    omega
  have written : ∀ found, charsetChange offset bytes (offset + 1) found =
      ⟨.onlyAccept, .const (offset + 2), found.epsilons⟩ := by
    intro found
    simp [charsetChange]
  rcases bare.overwrite fits inside written with ⟨marks, noMoves, steps⟩
  refine ⟨marks, noMoves, ?_⟩
  intro byte
  rw [steps, ByteTable.get_const]

theorem charset_sink :
    (nfa.edit (charsetChange offset bytes)).IsSink (offset + 2) ∧
      ((nfa.edit (charsetChange offset bytes)).flags (offset + 2)).start =
        false := by
  apply bare.overwrite_sink fits
  · rw [Span.mem_mk]
    omega
  · intro found
    simp [charsetChange]

theorem acceptsFrom_charset (word : Bytes) :
    (nfa.edit (charsetChange offset bytes)).AcceptsFrom offset word ↔
      ∃ byte ∈ bytes, word = [byte] := by
  rcases charset_first bytes bare fits with ⟨firstMarks, firstMoves, firstSteps⟩
  rcases charset_second bytes bare fits
    with ⟨secondMarks, secondMoves, secondSteps⟩
  have sink := (charset_sink bytes bare fits).1
  cases word with
  | nil =>
      rw [acceptsFrom_nil_iff firstMoves, firstMarks]
      simp [Flags.onlyStart]
  | cons byte word =>
      rw [acceptsFrom_cons_iff firstMoves (firstSteps byte)]
      split
      next listed =>
          cases word with
          | nil =>
              rw [acceptsFrom_nil_iff secondMoves, secondMarks]
              simp [Flags.onlyAccept, listed]
          | cons other word =>
              rw [acceptsFrom_cons_iff secondMoves (secondSteps other)]
              simp [sink.not_acceptsFrom]
      next unlisted =>
          constructor
          · intro accepted
            exact absurd accepted sink.not_acceptsFrom
          · intro single
            rcases single with ⟨wanted, listed, equal⟩
            cases equal
            exact absurd listed unlisted

theorem placed_charset :
    (nfa.edit (charsetChange offset bytes)).Placed
      ⟨offset, offset + 3⟩ fun word =>
      ∃ byte ∈ bytes, word = [byte] := by
  rcases charset_first bytes bare fits with ⟨firstMarks, firstMoves, firstSteps⟩
  rcases charset_second bytes bare fits
    with ⟨secondMarks, secondMoves, secondSteps⟩
  rcases charset_sink bytes bare fits with ⟨sink, sinkQuiet⟩
  have cases_mem : ∀ state ∈ (⟨offset, offset + 3⟩ : Span),
      state = offset ∨ state = offset + 1 ∨ state = offset + 2 := by
    intro state inside
    rw [Span.mem_mk] at inside
    omega
  refine ⟨⟨?_, by rwa [size_edit], ?_, acceptsFrom_charset bytes bare fits⟩, ?_⟩
  · exact show offset < offset + 3 by omega
  · intro state inside
    rcases cases_mem state inside with rfl | rfl | rfl
    · apply Tame.of_bare firstMoves
      · intro byte
        refine ⟨_, ?_, firstSteps byte⟩
        split <;> rw [Span.mem_mk] <;> omega
      · rw [firstMarks]
        rfl
    · apply Tame.of_bare secondMoves
      · intro byte
        refine ⟨_, ?_, secondSteps byte⟩
        rw [Span.mem_mk]
        omega
      · rw [secondMarks]
        rfl
    · exact sink.tame inside
  · intro state inside
    show _ ↔ state = offset
    rcases cases_mem state inside with rfl | rfl | rfl
    · simp [firstMarks, Flags.onlyStart]
    · simp [secondMarks, Flags.onlyAccept]
    · simp [sinkQuiet]

end Charset

end Nfa

end Munch
