import Munch.Proofs.Nfa.Part

/-!
# Putting parts together

Joining takes the accepting mark off a state and gives it a free move to a door
instead. A word accepted from there on begins with a word that used to be
accepted, and goes on from the door (`Exits`). A gate is a state that moves
freely into parts and by bytes only into the sink beside it (`Gate`). A
concatenation is made of exits alone, an alternation is a gate with parts behind
it, and a star is a gate that is the door of the part behind it.
-/

namespace Munch

namespace Nfa

variable {nfa left right : Nfa}

/-! ## Doors -/

/-- The words that begin with one accepted from a state and go on with one of a
language. -/
def Through (nfa : Nfa) (rest : Bytes → Prop) (state : Nat)
    (word : Bytes) : Prop :=
  ∃ before behind, word = before ++ behind ∧
    nfa.AcceptsFrom state before ∧ rest behind

/-- Whether the states of a stretch move on the right as on the left, except
that those which accept on the left move freely to a door on the right
instead. -/
structure Exits (left right : Nfa) (span : Span) (door : Nat) : Prop where
  mem_epsilons : ∀ state ∈ span, ∀ target, target ∈ right.epsilons state ↔
    target ∈ left.epsilons state ∨ target = door ∧
      (left.flags state).accept = true
  target : ∀ state ∈ span, ∀ byte, right.target? state byte =
    left.target? state byte
  accept : ∀ state ∈ span, (right.flags state).accept = false
  reject : ∀ state ∈ span, (right.flags state).reject =
    (left.flags state).reject

namespace Exits

variable {span : Span} {door : Nat}

theorem of_edit {change : Nat → NfaState → NfaState}
    (fits : span.stop ≤ nfa.size)
    (exit : ∀ state ∈ span, ∀ found, nfa.states[state]? = some found →
      change state found = found.exitTo door ∨
        change state found = (found.unmark .onlyStart).exitTo door) :
    nfa.Exits (nfa.edit change) span door := by
  constructor
  all_goals intro state inside
  all_goals rcases getElem?_of_mem fits inside with ⟨found, lookup⟩
  all_goals
    simp only [flags_edit lookup, epsilons_edit lookup, target?_edit lookup,
      flags_eq lookup, epsilons_eq lookup, target?_eq lookup]
    cases accepts : found.flags.accept <;>
      rcases exit state inside found lookup with equal | equal <;>
      simp [equal, NfaState.exitTo, accepts]

theorem tame {whole : Span} (exits : left.Exits right span door)
    (within : ∀ place ∈ span, place ∈ whole) (doorInside : door ∈ whole)
    {state : Nat} (inside : state ∈ span) (tame : left.Tame span state) :
    right.Tame whole state := by
  constructor
  · intro target move
    rcases (exits.mem_epsilons state inside target).mp move with old | ⟨rfl, _⟩
    · exact within target (tame.free target old)
    · exact doorInside
  · intro byte
    rcases tame.read byte with ⟨target, targetInside, step⟩
    exact ⟨target, within target targetInside,
      (exits.target state inside byte).trans step⟩
  · intro rejects
    rw [exits.reject state inside] at rejects
    have sink := tame.sink rejects
    constructor
    · exact exits.accept state inside
    · rw [List.eq_nil_iff_forall_not_mem]
      intro target move
      rcases (exits.mem_epsilons state inside target).mp move
        with old | ⟨_, accepts⟩
      · rw [sink.epsilons] at old
        cases old
      · rw [sink.accept] at accepts
        cases accepts
    · intro byte
      rw [exits.target state inside]
      exact sink.target byte

/-- Every word that used to be accepted leads to the door. -/
theorem path_door (exits : left.Exits right span door)
    (tame : ∀ state ∈ span, left.Tame span state) {state : Nat} {word : Bytes}
    (inside : state ∈ span) (accepted : left.AcceptsFrom state word) :
    right.Path state word door := by
  rcases accepted with ⟨target, path, accepts⟩
  induction path with
  | here =>
      apply Path.free _ .here
      exact (exits.mem_epsilons _ inside door).mpr (.inr ⟨rfl, accepts⟩)
  | free move _ ih =>
      apply Path.free ((exits.mem_epsilons _ inside _).mpr (.inl move))
      exact ih ((tame _ inside).free _ move) accepts
  | @read source next target byte word step _ ih =>
      rcases (tame source inside).read byte with ⟨middle, middleInside, equal⟩
      rw [step, Option.some.injEq] at equal
      subst equal
      exact .read ((exits.target source inside byte).trans step)
        (ih middleInside accepts)

variable {rest : Bytes → Prop}

/-- A free move of a stretch with a door either stays in it or leaves through
the door. -/
theorem through_free (exits : left.Exits right span door)
    (tame : ∀ state ∈ span, left.Tame span state) {state middle : Nat}
    {word : Bytes}
    (inside : state ∈ span) (move : middle ∈ right.epsilons state)
    (stays : middle ∈ span → left.Through rest middle word)
    (leaves : middle = door → rest word) :
    left.Through rest state word := by
  rcases (exits.mem_epsilons state inside middle).mp move
    with old | ⟨atDoor, accepts⟩
  · rcases stays ((tame state inside).free middle old)
      with ⟨before, behind, equal, accepted, held⟩
    exact ⟨before, behind, equal, accepted.free old, held⟩
  · exact ⟨[], word, rfl, .here accepts, leaves atDoor⟩

/-- A byte that a stretch with a door reads leads to a state of the stretch. -/
theorem through_read (exits : left.Exits right span door)
    (tame : ∀ state ∈ span, left.Tame span state) {state middle : Nat}
    {byte : UInt8} {word : Bytes} (inside : state ∈ span)
    (step : right.target? state byte = some middle)
    (stays : middle ∈ span → left.Through rest middle word) :
    left.Through rest state (byte :: word) := by
  rw [exits.target state inside] at step
  rcases (tame state inside).read byte with ⟨target, targetInside, equal⟩
  rw [step, Option.some.injEq] at equal
  subst equal
  rcases stays targetInside with ⟨before, behind, equal, accepted, held⟩
  exact ⟨byte :: before, behind, by rw [equal, List.cons_append],
    accepted.read step, held⟩

/-- A word accepted with a door begins with a word that was accepted without,
and the rest of it is accepted from the door. -/
theorem acceptsFrom_iff (exits : left.Exits right span door)
    (tame : ∀ state ∈ span, left.Tame span state) {state : Nat} {word : Bytes}
    (inside : state ∈ span) :
    right.AcceptsFrom state word ↔
      left.Through (right.AcceptsFrom door) state word := by
  constructor
  · intro accepted
    revert inside
    apply accepted.induction (motive := fun state word =>
      state ∈ span → left.Through (right.AcceptsFrom door) state word)
    case here =>
      intro state accepts inside
      rw [exits.accept state inside] at accepts
      cases accepts
    case free =>
      intro state middle word move rest ih inside
      apply exits.through_free tame inside move ih
      intro atDoor
      rwa [atDoor] at rest
    case read =>
      intro state middle byte word step _ ih inside
      exact exits.through_read tame inside step ih
  · intro through
    rcases through with ⟨before, behind, rfl, accepted, rest⟩
    exact .after (exits.path_door tame inside accepted) rest

end Exits

/-! ## Concatenation -/

section Follow

variable {first last second : Span} {former latter : Bytes → Prop}

theorem exits_follow (firstPart : nfa.Part first former)
    (adjacent : first.stop = second.first)
    (only : ∀ state ∈ first, (nfa.flags state).accept = true → state ∈ last) :
    nfa.Exits (nfa.edit (followChange last second)) first second.first := by
  apply Exits.of_edit firstPart.fits
  intro state inside found lookup
  left
  have listed := only state inside
  rw [flags_eq lookup] at listed
  have apart : state ∉ second := by
    intro inSecond
    have := inside.2
    have := inSecond.1
    omega
  rw [followChange, if_neg apart]
  split
  next => rfl
  next notLast =>
      rw [NfaState.exitTo, if_neg fun accepts => notLast (listed accepts)]

theorem alike_follow (adjacent : first.stop = second.first)
    (within : ∀ state ∈ last, state ∈ first) :
    nfa.Alike (nfa.edit (followChange last second)) second := by
  apply Alike.of_edit
  intro state inside found
  right
  rw [followChange, if_pos inside]
  apply if_neg
  intro inLast
  have := (within state inLast).2
  have := inside.1
  omega

/-- A part that accepts only in its last stretch, followed by another part, is a
part again. It accepts the words of the one put before words of the other. -/
theorem Placed.follow (firstPlaced : nfa.Placed first former)
    (secondPlaced : nfa.Placed second latter)
    (adjacent : first.stop = second.first)
    (within : ∀ state ∈ last, state ∈ first)
    (only : ∀ state ∈ first, (nfa.flags state).accept = true → state ∈ last) :
    (nfa.edit (followChange last second)).Placed
      ⟨first.first, second.stop⟩ fun word =>
      ∃ before behind, word = before ++ behind ∧ former before ∧
        latter behind := by
  have firstPart := firstPlaced.part
  have secondPart := secondPlaced.part
  have exits := exits_follow firstPart adjacent only
  have alike : nfa.Alike (nfa.edit (followChange last second)) second :=
    alike_follow adjacent within
  have follower := secondPart.congr (size_edit _) alike
  have firstInside := firstPart.inside
  have secondInside := secondPart.inside
  have cases_mem : ∀ state ∈ (⟨first.first, second.stop⟩ : Span),
      state ∈ first ∨ state ∈ second := by
    intro state inside
    rw [Span.mem_mk] at inside
    rw [Span.mem_iff, Span.mem_iff]
    omega
  have ordered : first.stop ≤ second.stop := by omega
  have reversed : first.first ≤ second.first := by omega
  have firstWithin : ∀ state ∈ first,
      state ∈ (⟨first.first, second.stop⟩ : Span) :=
    Span.within (Nat.le_refl _) ordered
  have secondWithin : ∀ state ∈ second,
      state ∈ (⟨first.first, second.stop⟩ : Span) :=
    Span.within reversed (Nat.le_refl _)
  refine ⟨⟨?_, follower.fits, ?_, ?_⟩, ?_⟩
  · exact show first.first < second.stop by omega
  · intro state inside
    rcases cases_mem state inside with inFirst | inSecond
    · exact exits.tame firstWithin (secondWithin _ secondPart.first_mem) inFirst
        (firstPart.tame state inFirst)
    · exact (follower.tame state inSecond).mono secondWithin
  · intro word
    rw [exits.acceptsFrom_iff firstPart.tame firstPart.first_mem, Through]
    simp only [firstPart.accepts, follower.accepts]
  · intro state inside
    rcases getElem?_of_mem (Nfa.size_edit _ ▸ follower.fits) inside
      with ⟨found, lookup⟩
    rw [flags_edit lookup, followChange]
    rcases cases_mem state inside with inFirst | inSecond
    · have notSecond : state ∉ second := by
        rw [Span.mem_iff] at inFirst ⊢
        omega
      rw [if_neg notSecond, ← firstPlaced.start state inFirst, flags_eq lookup]
      split <;> simp
    · have notFirst : state ∉ first := by
        rw [Span.mem_iff] at inSecond ⊢
        omega
      rw [if_neg fun inLast => notFirst (within state inLast), if_pos inSecond]
      simp only [NfaState.flags_unmark, Flags.start_remove_onlyStart,
        Bool.false_eq_true, false_iff]
      intro same
      subst same
      exact notFirst firstPart.first_mem

end Follow

/-! ## Gates -/

/-- A state that may accept, moves freely to some targets, and by every byte
into the sink behind it. -/
structure Gate (nfa : Nfa) (entry : Nat) (targets : List Nat) (accept : Bool) :
    Prop where
  marks : nfa.flags entry = ⟨true, accept, false⟩
  epsilons : nfa.epsilons entry = targets
  target : ∀ byte, nfa.target? entry byte = some (entry + 1)
  sink : nfa.IsSink (entry + 1)
  quiet : (nfa.flags (entry + 1)).start = false

namespace Gate

variable {entry stop : Nat} {targets : List Nat} {accept : Bool}

/-- Past a gate only free moves lead to acceptance. -/
theorem acceptsFrom_iff (gate : nfa.Gate entry targets accept) {word : Bytes} :
    nfa.AcceptsFrom entry word ↔
      accept = true ∧ word = [] ∨ ∃ target ∈ targets,
        nfa.AcceptsFrom target word := by
  constructor
  · intro accepted
    rcases accepted with ⟨target, path, accepts⟩
    cases path with
    | here =>
        rw [gate.marks] at accepts
        exact .inl ⟨accepts, rfl⟩
    | @free _ middle _ _ move rest =>
        rw [gate.epsilons] at move
        exact .inr ⟨middle, move, target, rest, accepts⟩
    | read step rest =>
        rw [gate.target, Option.some.injEq] at step
        subst step
        exact absurd ⟨target, rest, accepts⟩ gate.sink.not_acceptsFrom
  · intro either
    rcases either with ⟨accepts, rfl⟩ | ⟨target, listed, accepted⟩
    · apply AcceptsFrom.here
      rw [gate.marks]
      exact accepts
    · rw [← gate.epsilons] at listed
      exact accepted.free listed

/-- A gate together with what lies behind it is a part, if no move leaves the
two. -/
theorem placed (gate : nfa.Gate entry targets accept) {language : Bytes → Prop}
    (behind : entry + 2 ≤ stop) (fits : stop ≤ nfa.size)
    (targets_mem : ∀ target ∈ targets, target ∈ (⟨entry, stop⟩ : Span))
    (body : ∀ state ∈ (⟨entry + 2, stop⟩ : Span), nfa.Tame ⟨entry, stop⟩ state ∧
      (nfa.flags state).start = false)
    (accepts : ∀ word, (accept = true ∧ word = [] ∨ ∃ target ∈ targets,
      nfa.AcceptsFrom target word) ↔ language word) :
    nfa.Placed ⟨entry, stop⟩ language := by
  have cases_mem : ∀ state ∈ (⟨entry, stop⟩ : Span),
      state = entry ∨ state = entry + 1 ∨
        state ∈ (⟨entry + 2, stop⟩ : Span) := by
    intro state inside
    rw [Span.mem_mk] at inside ⊢
    omega
  have sinkInside : entry + 1 ∈ (⟨entry, stop⟩ : Span) := by
    rw [Span.mem_mk]
    omega
  refine ⟨⟨?_, fits, ?_, ?_⟩, ?_⟩
  · exact show entry < stop by omega
  · intro state inside
    rcases cases_mem state inside with rfl | rfl | inBody
    · constructor
      · rw [gate.epsilons]
        exact targets_mem
      · intro byte
        exact ⟨state + 1, sinkInside, gate.target byte⟩
      · intro rejects
        rw [gate.marks] at rejects
        cases rejects
    · exact gate.sink.tame sinkInside
    · exact (body state inBody).1
  · intro word
    exact gate.acceptsFrom_iff.trans (accepts word)
  · intro state inside
    show _ ↔ state = entry
    rcases cases_mem state inside with rfl | rfl | inBody
    · simp [gate.marks]
    · simp [gate.quiet]
    · rw [(body state inBody).2]
      rw [Span.mem_mk] at inBody
      simp only [Bool.false_eq_true, false_iff]
      omega

/-- A gate stays one when its entry is given more free moves. -/
theorem edit (gate : nfa.Gate entry targets accept)
    (below : entry + 1 < nfa.size)
    {change : Nat → NfaState → NfaState} {more : List Nat}
    (linked : ∀ found, change entry found = found.link more)
    (same : ∀ found, change (entry + 1) found = found) :
    (nfa.edit change).Gate entry (targets ++ more) accept := by
  have entryLookup := Array.getElem?_eq_getElem (show entry < nfa.states.size by
    have := below
    rw [Nfa.size] at this
    omega)
  have sinkSame : (nfa.edit change).states[entry + 1]? =
      nfa.states[entry + 1]? :=
    getElem?_edit_of_same same
  have gateMarks := gate.marks
  have gateEpsilons := gate.epsilons
  have gateTarget := gate.target
  rw [flags_eq entryLookup] at gateMarks
  rw [epsilons_eq entryLookup] at gateEpsilons
  simp only [target?_eq entryLookup] at gateTarget
  constructor
  · rw [flags_edit entryLookup, linked]
    exact gateMarks
  · rw [epsilons_edit entryLookup, linked, NfaState.epsilons_link, gateEpsilons]
  · intro byte
    rw [target?_edit entryLookup, linked]
    exact gateTarget byte
  · have alike : nfa.Alike (nfa.edit change) ⟨entry + 1, entry + 2⟩ := by
      apply Alike.of_edit
      intro state inside found
      rw [Span.mem_mk] at inside
      obtain rfl : state = entry + 1 := by omega
      exact .inl (same found)
    exact alike.isSink (by rw [Span.mem_mk]; omega) gate.sink
  · rw [Nfa.flags, sinkSame]
    exact gate.quiet

end Gate

/-! ## Alternation -/

section Enter

variable {entry stop : Nat} {accept : Bool} {row : List Span}

theorem alike_enter {span : Span} (listed : span ∈ row)
    (outside : ∀ span ∈ row, entry ∉ span) :
    nfa.Alike (nfa.edit (enterChange entry row)) span := by
  apply Alike.of_edit
  intro state inside found
  right
  have notEntry : state ≠ entry := by
    intro same
    subst same
    exact outside span listed inside
  rw [enterChange, if_neg notEntry, if_pos ⟨span, listed, inside⟩]

/-- A gate into each part of a row that fills the rest of a stretch makes the
stretch a part. What it accepts is what one of them accepts, and what the gate
accepts by itself. -/
theorem Gate.enter (gate : nfa.Gate entry [] accept) (behind : entry + 2 ≤ stop)
    (fits : stop ≤ nfa.size)
    (parts : ∀ span ∈ row, nfa.Part span (nfa.AcceptsFrom span.first))
    (within : ∀ span ∈ row, entry + 2 ≤ span.first ∧ span.stop ≤ stop)
    (cover : ∀ state ∈ (⟨entry + 2, stop⟩ : Span), ∃ span ∈ row, state ∈ span) :
    (nfa.edit (enterChange entry row)).Placed ⟨entry, stop⟩ fun word =>
      accept = true ∧ word = [] ∨ ∃ span ∈ row,
        nfa.AcceptsFrom span.first word := by
  have outside : ∀ span ∈ row, entry ∉ span := by
    intro span listed inside
    have := within span listed
    have := inside.1
    omega
  have kept : ∀ span ∈ row,
      (nfa.edit (enterChange entry row)).Part span
        (nfa.AcceptsFrom span.first) := by
    intro span listed
    exact (parts span listed).congr (size_edit _) (alike_enter listed outside)
  have widen : ∀ span ∈ row, ∀ place ∈ span,
      place ∈ (⟨entry, stop⟩ : Span) := by
    intro span listed
    have far : entry ≤ span.first :=
      (Nat.le_add_right entry 2).trans (within span listed).1
    exact Span.within far (within span listed).2
  have edited : (nfa.edit (enterChange entry row)).Gate entry
      ([] ++ row.map (·.first)) accept := by
    apply gate.edit (by omega)
    · intro found
      rw [enterChange, if_pos rfl]
    · intro found
      have notWithin : ¬∃ span ∈ row, entry + 1 ∈ span := by
        intro found
        rcases found with ⟨span, listed, inside⟩
        have := within span listed
        have := inside.1
        omega
      rw [enterChange, if_neg (Nat.succ_ne_self entry), if_neg notWithin]
  apply edited.placed behind (by rwa [size_edit])
  · intro target listed
    rw [List.nil_append, List.mem_map] at listed
    rcases listed with ⟨span, listed, rfl⟩
    exact widen span listed _ (kept span listed).first_mem
  · intro state inside
    rcases cover state inside with ⟨span, listed, inSpan⟩
    constructor
    · exact ((kept span listed).tame state inSpan).mono (widen span listed)
    · rcases getElem?_of_mem fits inside with ⟨found, lookup⟩
      have notEntry : state ≠ entry := by
        have := inside.1
        grind
      rw [flags_edit lookup, enterChange, if_neg notEntry,
        if_pos ⟨span, listed, inSpan⟩]
      simp
  · intro word
    simp only [List.nil_append, List.mem_map, exists_exists_and_eq_and]
    apply or_congr Iff.rfl
    constructor
    · intro accepted
      rcases accepted with ⟨span, listed, accepted⟩
      exact ⟨span, listed, ((kept span listed).accepts word).mp accepted⟩
    · intro accepted
      rcases accepted with ⟨span, listed, accepted⟩
      exact ⟨span, listed, ((kept span listed).accepts word).mpr accepted⟩

end Enter

/-! ## Repetition -/

section Loop

variable {entry stop : Nat} {language : Bytes → Prop}

/-- The words of a language put behind one another, any number of them. -/
def Repeated (language : Bytes → Prop) (word : Bytes) : Prop :=
  ∃ parts : List Bytes, word = parts.flatten ∧ ∀ part ∈ parts, language part

theorem Repeated.nil : Repeated language [] :=
  ⟨[], rfl, by simp⟩

theorem Repeated.append {first rest : Bytes} (belongs : language first)
    (repeats : Repeated language rest) : Repeated language (first ++ rest) := by
  rcases repeats with ⟨parts, rfl, all⟩
  refine ⟨first :: parts, rfl, ?_⟩
  intro part member
  rcases List.mem_cons.mp member with rfl | member
  · exact belongs
  · exact all part member

theorem exits_loop (part : nfa.Part ⟨entry + 2, stop⟩ language) :
    nfa.Exits (nfa.edit (loopChange entry ⟨entry + 2, stop⟩))
      ⟨entry + 2, stop⟩ entry := by
  apply Exits.of_edit part.fits
  intro state inside found _
  right
  have notEntry : state ≠ entry := by
    have := inside.1
    grind
  rw [loopChange, if_neg notEntry, if_pos inside]

/-- A gate that moves freely into a part and is the door of that part accepts
the words of the part put behind one another. -/
theorem Gate.acceptsFrom_loop {left right : Nfa}
    (part : left.Part ⟨entry + 2, stop⟩ language)
    (exits : left.Exits right ⟨entry + 2, stop⟩ entry)
    (gate : right.Gate entry [entry + 2] true)
    {word : Bytes} : right.AcceptsFrom entry word ↔ Repeated language word := by
  constructor
  · intro accepted
    -- Inside the part a word is on its way to the door; only at the gate it is
    -- a row of words.
    have split : (entry = entry → Repeated language word) ∧
        (entry ∈ (⟨entry + 2, stop⟩ : Span) →
          left.Through (Repeated language) entry word) := by
      apply accepted.induction (motive := fun state word =>
        (state = entry → Repeated language word) ∧
          (state ∈ (⟨entry + 2, stop⟩ : Span) →
            left.Through (Repeated language) state word))
      case here =>
        intro state accepts
        constructor
        · intro _
          exact .nil
        · intro inside
          rw [exits.accept state inside] at accepts
          cases accepts
      case free =>
        intro state middle word move _ ih
        constructor
        · intro atEntry
          subst atEntry
          rw [gate.epsilons, List.mem_singleton] at move
          subst move
          rcases ih.2 part.first_mem
            with ⟨before, behind, rfl, belongs, repeats⟩
          exact .append ((part.accepts before).mp belongs) repeats
        · intro inside
          exact exits.through_free part.tame inside move ih.2 ih.1
      case read =>
        intro state middle byte word step rest ih
        constructor
        · intro atEntry
          subst atEntry
          rw [gate.target, Option.some.injEq] at step
          subst step
          exact absurd rest gate.sink.not_acceptsFrom
        · intro inside
          exact exits.through_read part.tame inside step ih.2
    exact split.1 rfl
  · intro repeats
    rcases repeats with ⟨parts, rfl, all⟩
    induction parts with
    | nil => exact gate.acceptsFrom_iff.mpr (.inl ⟨rfl, rfl⟩)
    | cons first parts ih =>
        rw [List.flatten_cons]
        have accepted : left.AcceptsFrom (entry + 2) first :=
          (part.accepts first).mpr (all first List.mem_cons_self)
        have rest :=
          ih fun part member => all part (List.mem_cons_of_mem _ member)
        have around : right.Path entry first entry := by
          apply Path.free _ (exits.path_door part.tame part.first_mem accepted)
          rw [gate.epsilons]
          exact List.mem_singleton_self _
        exact rest.after around

/-- A gate that accepts, looped with the part behind it, is a part that accepts
the words of that part put behind one another. -/
theorem Gate.loop (gate : nfa.Gate entry [] true)
    (part : nfa.Part ⟨entry + 2, stop⟩ language) :
    (nfa.edit (loopChange entry ⟨entry + 2, stop⟩)).Placed ⟨entry, stop⟩
      (Repeated language) := by
  have exits := exits_loop part
  have inside : entry + 2 < stop := part.inside
  have fits : stop ≤ nfa.size := part.fits
  have edited : (nfa.edit (loopChange entry ⟨entry + 2, stop⟩)).Gate entry
      ([] ++ [entry + 2])
      true := by
    apply gate.edit (by omega)
    · intro found
      rw [loopChange, if_pos rfl]
    · intro found
      have notWithin : entry + 1 ∉ (⟨entry + 2, stop⟩ : Span) := by
        rw [Span.mem_mk]
        omega
      rw [loopChange, if_neg (Nat.succ_ne_self entry), if_neg notWithin]
  rw [List.nil_append] at edited
  have widen : ∀ place ∈ (⟨entry + 2, stop⟩ : Span),
      place ∈ (⟨entry, stop⟩ : Span) :=
    Span.within (Nat.le_add_right entry 2) (Nat.le_refl stop)
  have entryInside : entry ∈ (⟨entry, stop⟩ : Span) := by
    rw [Span.mem_mk]
    omega
  apply edited.placed (by omega) (by rwa [size_edit])
  · intro target listed
    rw [List.mem_singleton] at listed
    subst listed
    exact widen _ part.first_mem
  · intro state within
    constructor
    · exact exits.tame widen entryInside within (part.tame state within)
    · rcases getElem?_of_mem fits within with ⟨found, lookup⟩
      have notEntry : state ≠ entry := by
        rw [Span.mem_mk] at within
        omega
      rw [flags_edit lookup, loopChange, if_neg notEntry, if_pos within]
      simp
  · intro word
    exact edited.acceptsFrom_iff.symm.trans
      (Gate.acceptsFrom_loop part exits edited)

end Loop

end Nfa

end Munch
