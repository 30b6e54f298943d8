import Mathlib.Data.List.Nodup
import Munch.Pattern.Layout
import Munch.Proofs.Nfa.Walk

/-!
# Edits that change each state by itself

Marking, redirecting and linking states are loops over stretches and lists. Each
of them comes to the same as changing every state by itself, by a function of
its number and of what it was: that is `edit`. What an edit leaves alone can
then be read off its function.
-/

namespace Munch

/-- A place belongs to a stretch when it lies between its two ends. -/
instance : Membership Nat Span :=
  ⟨fun span place => span.first ≤ place ∧ place < span.stop⟩

namespace Span

theorem mem_iff {span : Span} {place : Nat} :
    place ∈ span ↔ span.first ≤ place ∧ place < span.stop := Iff.rfl

theorem mem_mk {first stop place : Nat} :
    place ∈ (⟨first, stop⟩ : Span) ↔ first ≤ place ∧ place < stop := Iff.rfl

theorem within {inner outer : Span} (first : outer.first ≤ inner.first)
    (stop : inner.stop ≤ outer.stop) : ∀ place ∈ inner, place ∈ outer :=
  fun _ inside => ⟨first.trans inside.1, inside.2.trans_le stop⟩

instance (place : Nat) (span : Span) : Decidable (place ∈ span) :=
  decidable_of_iff _ mem_iff.symm

end Span

namespace Flags

variable (flags : Flags)

@[simp] theorem start_remove_onlyStart :
    (flags.remove .onlyStart).start = false := by
  simp [remove, onlyStart]

@[simp] theorem accept_remove_onlyStart :
    (flags.remove .onlyStart).accept = flags.accept := by
  simp [remove, onlyStart]

@[simp] theorem reject_remove_onlyStart :
    (flags.remove .onlyStart).reject = flags.reject := by
  simp [remove, onlyStart]

@[simp] theorem start_remove_onlyAccept :
    (flags.remove .onlyAccept).start = flags.start := by
  simp [remove, onlyAccept]

@[simp] theorem accept_remove_onlyAccept :
    (flags.remove .onlyAccept).accept = false := by
  simp [remove, onlyAccept]

@[simp] theorem reject_remove_onlyAccept :
    (flags.remove .onlyAccept).reject = flags.reject := by
  simp [remove, onlyAccept]

end Flags

namespace NfaState

/-- The state without some of its marks. -/
def unmark (flags : Flags) (state : NfaState) : NfaState :=
  { state with flags := state.flags.remove flags }

/-- The state with free moves to the targets behind those that it has. -/
def link (targets : List Nat) (state : NfaState) : NfaState :=
  { state with epsilons := state.epsilons ++ targets }

/-- The state as it is if it does not accept; otherwise it moves freely to the
door instead. -/
def exitTo (door : Nat) (state : NfaState) : NfaState :=
  if state.flags.accept then (state.unmark .onlyAccept).link [door] else state

@[simp] theorem flags_unmark (flags : Flags) (state : NfaState) :
    (state.unmark flags).flags = state.flags.remove flags := rfl

@[simp] theorem epsilons_unmark (flags : Flags) (state : NfaState) :
    (state.unmark flags).epsilons = state.epsilons := rfl

@[simp] theorem transitions_unmark (flags : Flags) (state : NfaState) :
    (state.unmark flags).transitions = state.transitions := rfl

@[simp] theorem flags_link (targets : List Nat) (state : NfaState) :
    (state.link targets).flags = state.flags := rfl

@[simp] theorem epsilons_link (targets : List Nat) (state : NfaState) :
    (state.link targets).epsilons = state.epsilons ++ targets := rfl

@[simp] theorem transitions_link (targets : List Nat) (state : NfaState) :
    (state.link targets).transitions = state.transitions := rfl

@[simp] theorem start_exitTo (door : Nat) (state : NfaState) :
    (state.exitTo door).flags.start = state.flags.start := by
  rw [exitTo]
  split <;> simp

theorem unmark_onlyStart {state : NfaState}
    (absent : state.flags.start = false) :
    state.unmark .onlyStart = state := by
  rcases state with ⟨⟨start, accept, reject⟩, transitions, epsilons⟩
  simp_all [unmark, Flags.remove, Flags.onlyStart]

@[simp] theorem link_nil (state : NfaState) : state.link [] = state := by
  rw [link, List.append_nil]

@[simp] theorem link_link (state : NfaState) (first rest : List Nat) :
    (state.link first).link rest = state.link (first ++ rest) := by
  simp only [link, List.append_assoc]

end NfaState

namespace Nfa

variable {nfa : Nfa}

/-- Change every state by a function of its number and of what it was. -/
def edit (nfa : Nfa) (change : Nat → NfaState → NfaState) : Nfa :=
  ⟨nfa.states.mapIdx change⟩

@[simp] theorem size_edit (change : Nat → NfaState → NfaState) :
    (nfa.edit change).size = nfa.size :=
  Array.size_mapIdx

@[simp] theorem getElem?_edit (change : Nat → NfaState → NfaState)
    (state : Nat) :
    (nfa.edit change).states[state]? = nfa.states[state]?.map (change state) :=
  Array.getElem?_mapIdx

/-- Automata with the same states are equal. -/
theorem ext_getElem? {left right : Nfa}
    (agree : ∀ state : Nat, left.states[state]? = right.states[state]?) :
    left = right := by
  cases left with
  | mk leftStates =>
      cases right with
      | mk rightStates =>
          congr 1
          exact Array.ext_getElem? agree

theorem flags_edit {change : Nat → NfaState → NfaState} {state : Nat}
    {found : NfaState} (lookup : nfa.states[state]? = some found) :
    (nfa.edit change).flags state = (change state found).flags := by
  apply flags_eq
  rw [getElem?_edit, lookup]
  rfl

theorem epsilons_edit {change : Nat → NfaState → NfaState} {state : Nat}
    {found : NfaState} (lookup : nfa.states[state]? = some found) :
    (nfa.edit change).epsilons state = (change state found).epsilons := by
  apply epsilons_eq
  rw [getElem?_edit, lookup]
  rfl

theorem target?_edit {change : Nat → NfaState → NfaState} {state : Nat}
    {found : NfaState}
    (lookup : nfa.states[state]? = some found) (byte : UInt8) :
    (nfa.edit change).target? state byte =
      some ((change state found).transitions.get byte) := by
  apply target?_eq
  rw [getElem?_edit, lookup]
  rfl

/-- What an edit leaves alone in a stretch is there afterwards. -/
theorem getElem?_edit_of_same {change : Nat → NfaState → NfaState} {state : Nat}
    (same : ∀ found, change state found = found) :
    (nfa.edit change).states[state]? = nfa.states[state]? := by
  rw [getElem?_edit]
  cases nfa.states[state]? with
  | none => rfl
  | some found => exact congrArg some (same found)

theorem getElem?_of_mem {span : Span} (fits : span.stop ≤ nfa.size)
    {state : Nat}
    (inside : state ∈ span) : ∃ found, nfa.states[state]? = some found :=
  ⟨_, Array.getElem?_eq_getElem (inside.2.trans_le fits)⟩

theorem edit_congr {one other : Nat → NfaState → NfaState}
    (agree : ∀ (state : Nat) (found : NfaState),
      nfa.states[state]? = some found →
      one state found = other state found) : nfa.edit one = nfa.edit other := by
  apply ext_getElem?
  intro state
  rw [getElem?_edit, getElem?_edit]
  cases found : nfa.states[state]? with
  | none => rfl
  | some found' => exact congrArg some (agree state found' found)

theorem edit_eq_self {change : Nat → NfaState → NfaState}
    (same : ∀ (state : Nat) (found : NfaState),
      nfa.states[state]? = some found →
      change state found = found) : nfa.edit change = nfa := by
  apply ext_getElem?
  intro state
  rw [getElem?_edit]
  cases lookup : nfa.states[state]? with
  | none => rfl
  | some found => exact congrArg some (same state found lookup)

@[simp] theorem edit_edit (one other : Nat → NfaState → NfaState) :
    (nfa.edit one).edit other = nfa.edit fun state found =>
      other state (one state found) := by
  apply ext_getElem?
  intro state
  rw [getElem?_edit, getElem?_edit, getElem?_edit, Option.map_map]
  rfl

/-- The edit of a single state. -/
def editAt (target : Nat) (change : NfaState → NfaState) :
    Nat → NfaState → NfaState :=
  fun state found => if state = target then change found else found

theorem modify?_eq_edit {state : Nat} (below : state < nfa.size)
    (change : NfaState → NfaState) :
    nfa.modify? state change = some (nfa.edit (editAt state change)) := by
  rw [modify?, if_pos below]
  congr 1
  apply ext_getElem?
  intro other
  rw [getElem?_edit, Array.getElem?_modify]
  by_cases same : state = other
  · subst same
    rw [if_pos rfl]
    congr 1
    funext found
    rw [editAt, if_pos rfl]
  · rw [if_neg same]
    have unchanged : editAt state change other = id := by
      funext found
      rw [editAt, if_neg (Ne.symm same)]
      rfl
    rw [unchanged, Option.map_id]
    rfl

/-! ## Links -/

theorem linkEach?_eq_edit {source : Nat} (below : source < nfa.size)
    (targets : List Nat) :
    linkEach? source targets nfa =
      some (nfa.edit (editAt source (·.link targets))) := by
  induction targets generalizing nfa with
  | nil =>
      rw [linkEach?, edit_eq_self]
      intro state found _
      rw [editAt]
      split
      next => exact found.link_nil
      next => rfl
  | cons target targets ih =>
      rw [linkEach?, addEpsilon?, modify?_eq_edit below]
      simp only [Option.bind_eq_bind, Option.bind_some]
      rw [ih (by rwa [size_edit]), edit_edit]
      congr 2
      funext state found
      simp only [editAt]
      split
      next => exact NfaState.link_link found [target] targets
      next => rfl

theorem linkAll?_eq_edit {targets : List Nat} (sources : List Nat)
    (below : ∀ source ∈ sources, source < nfa.size) (nodup : sources.Nodup) :
    linkAll? sources targets nfa =
      some (nfa.edit fun state found =>
        if state ∈ sources then found.link targets else found) := by
  induction sources generalizing nfa with
  | nil =>
      rw [linkAll?, edit_eq_self]
      intro state found _
      exact if_neg List.not_mem_nil
  | cons source sources ih =>
      have rest : ∀ other ∈ sources,
          other < (nfa.edit (editAt source (·.link targets))).size := by
        intro other member
        rw [size_edit]
        exact below other (List.mem_cons_of_mem _ member)
      rw [linkAll?, linkEach?_eq_edit (below source List.mem_cons_self)]
      simp only [Option.bind_eq_bind, Option.bind_some]
      rw [ih rest (List.nodup_cons.mp nodup).2, edit_edit]
      congr 2
      funext state found
      have fresh := (List.nodup_cons.mp nodup).1
      simp only [editAt, List.mem_cons]
      by_cases same : state = source
      · subst same
        rw [if_pos rfl, if_neg fresh, if_pos (.inl rfl)]
      · simp [same]

/-! ## Taking marks -/

/-- The states of a stretch that carry all the given marks, in ascending
order. -/
def carriers (nfa : Nfa) (span : Span) (flags : Flags) : List Nat :=
  (List.range' span.first span.length).filter fun state =>
    (nfa.flags state).contains flags

theorem mem_carriers {span : Span} {flags : Flags} {state : Nat} :
    state ∈ nfa.carriers span flags ↔
      state ∈ span ∧ (nfa.flags state).contains flags = true := by
  rw [carriers, List.mem_filter, List.mem_range'_1, Span.mem_iff, Span.length]
  grind

theorem lt_size_of_mem_carriers {span : Span} {flags : Flags} {state : Nat}
    (fits : span.stop ≤ nfa.size) (member : state ∈ nfa.carriers span flags) :
    state < nfa.size :=
  (mem_carriers.mp member).1.2.trans_le fits

theorem carriers_nodup (span : Span) (flags : Flags) :
    (nfa.carriers span flags).Nodup :=
  List.Nodup.filter _ List.nodup_range'

theorem carriers_cons {first stop : Nat} (inside : first < stop)
    (flags : Flags) :
    nfa.carriers ⟨first, stop⟩ flags =
      if (nfa.flags first).contains flags then
        first :: nfa.carriers ⟨first + 1, stop⟩ flags
      else nfa.carriers ⟨first + 1, stop⟩ flags := by
  have length : stop - first = (stop - (first + 1)) + 1 := by omega
  rw [carriers, Span.length, length, List.range'_succ, List.filter_cons]
  rfl

/-- A stretch in which only the first state carries the marks has that state as
its only carrier. -/
theorem carriers_eq_singleton {span : Span} {flags : Flags}
    (inside : span.first ∈ span)
    (only : ∀ state ∈ span, (nfa.flags state).contains flags = true ↔
      state = span.first) :
    nfa.carriers span flags = [span.first] := by
  rw [← List.perm_singleton]
  rw [List.perm_ext_iff_of_nodup (carriers_nodup span flags)
    (List.nodup_singleton _)]
  intro state
  rw [mem_carriers, List.mem_singleton]
  constructor
  · intro carries
    exact (only state carries.1).mp carries.2
  · intro same
    subst same
    exact ⟨inside, (only span.first inside).mpr rfl⟩

/-- Take marks off the carriers within a stretch. -/
def unmarkWithin (span : Span) (flags : Flags) : Nat → NfaState → NfaState :=
  fun state found =>
    if state ∈ span ∧ found.flags.contains flags then found.unmark flags
    else found

/-- An edit before a stretch does not change who in the stretch carries the
marks. -/
theorem carriers_edit {span : Span} {change : Nat → NfaState → NfaState}
    (flags : Flags)
    (outside : ∀ state ∈ span, ∀ found, change state found = found) :
    (nfa.edit change).carriers span flags = nfa.carriers span flags := by
  apply List.filter_congr
  intro state member
  have inside : state ∈ span := by
    rw [List.mem_range'_1] at member
    rw [Span.mem_iff]
    rw [Span.length] at member
    omega
  simp only [Nfa.flags, getElem?_edit]
  cases nfa.states[state]? with
  | none => rfl
  | some found => rw [Option.map_some, outside state inside]

theorem takeFlagsFrom?_eq_edit {flags : Flags} (count : Nat) {first : Nat}
    (fits : first + count ≤ nfa.size) :
    takeFlagsFrom? flags count first nfa =
      some (nfa.carriers ⟨first, first + count⟩ flags,
        nfa.edit (unmarkWithin ⟨first, first + count⟩ flags)) := by
  induction count generalizing first nfa with
  | zero =>
      have none : nfa.carriers ⟨first, first + 0⟩ flags = [] := by
        simp [carriers, Span.length]
      rw [takeFlagsFrom?, none, edit_eq_self]
      intro state found _
      apply if_neg
      rw [Span.mem_mk]
      omega
  | succ count ih =>
      have below : first < nfa.size := by omega
      have stop : first + 1 + count = first + (count + 1) := by omega
      rcases lookup : nfa.states[first]? with _ | found
      · rw [Array.getElem?_eq_getElem below] at lookup
        cases lookup
      rw [takeFlagsFrom?, lookup, carriers_cons (by omega), flags_eq lookup]
      by_cases present : found.flags.contains flags = true
      · have behind : ∀ state ∈ (⟨first + 1, first + (count + 1)⟩ : Span),
            state ≠ first := by
          intro state inside
          rw [Span.mem_mk] at inside
          omega
        simp only [present, if_true, setFlags?, modify?_eq_edit below,
          Option.bind_eq_bind, Option.bind_some]
        rw [ih (by rw [size_edit]; omega), stop, carriers_edit]
        · simp only [Option.bind_some, edit_edit]
          congr 2
          apply edit_congr
          intro state other lookup'
          simp only [unmarkWithin, editAt, Span.mem_mk]
          by_cases same : state = first
          · subst same
            rw [lookup] at lookup'
            cases lookup'
            have past : ¬(state + 1 ≤ state) := by omega
            simp [present, NfaState.unmark, past]
          · grind
        · intro state inside other
          exact if_neg (behind state inside)
      · simp only [present, Bool.false_eq_true, if_false]
        rw [ih (by omega), stop]
        congr 2
        apply edit_congr
        intro state other lookup'
        simp only [unmarkWithin, Span.mem_mk]
        by_cases same : state = first
        · subst same
          rw [lookup] at lookup'
          cases lookup'
          simp [present]
        · grind

theorem takeFlags?_eq_edit {span : Span} (ordered : span.first ≤ span.stop)
    (fits : span.stop ≤ nfa.size) (flags : Flags) :
    nfa.takeFlags? span flags =
      some (nfa.carriers span flags, nfa.edit (unmarkWithin span flags)) := by
  have stop : span.first + span.length = span.stop := by
    rw [Span.length]
    omega
  rw [takeFlags?, takeFlagsFrom?_eq_edit span.length (by omega), stop]

/-! ## Joining parts -/

/-- What following does to a state: where the first part accepted it now moves
freely to the first state of the second part, which is no initial state any
more. -/
def followChange (first second : Span) : Nat → NfaState → NfaState :=
  fun state found =>
    if state ∈ first then
      found.exitTo second.first
    else if state ∈ second then
      found.unmark .onlyStart
    else found

/-- Whether a stretch lies within the automaton and begins with its only initial
state. -/
structure Entered (nfa : Nfa) (span : Span) : Prop where
  inside : span.first < span.stop
  fits : span.stop ≤ nfa.size
  start : ∀ state ∈ span, (nfa.flags state).start = true ↔ state = span.first

theorem Entered.carriers {span : Span} (entered : nfa.Entered span) :
    nfa.carriers span .onlyStart = [span.first] := by
  apply carriers_eq_singleton ⟨Nat.le_refl _, entered.inside⟩
  intro state inside
  rw [contains_onlyStart]
  exact entered.start state inside

theorem Entered.edit {span : Span} (entered : nfa.Entered span)
    {change : Nat → NfaState → NfaState}
    (outside : ∀ state ∈ span, ∀ found, change state found = found) :
    (nfa.edit change).Entered span := by
  constructor
  · exact entered.inside
  · rw [size_edit]
    exact entered.fits
  · intro state inside
    rcases getElem?_of_mem entered.fits inside with ⟨found, lookup⟩
    rw [flags_edit lookup, outside state inside, ← entered.start state inside,
      flags_eq lookup]

theorem follow?_eq_edit {first second : Span}
    (ordered : first.first ≤ first.stop)
    (behind : first.stop ≤ second.first) (entered : nfa.Entered second) :
    follow? first second nfa = some (nfa.edit (followChange first second)) := by
  have inside := entered.inside
  have fits := entered.fits
  have apart : ∀ state ∈ first, state ∉ second := by
    intro state inFirst inSecond
    exact absurd (inFirst.2.trans_le behind) (Nat.not_lt.mpr inSecond.1)
  rw [follow?, takeFlags?_eq_edit (Nat.le_of_lt inside) fits, entered.carriers]
  simp only [Option.bind_eq_bind, Option.bind_some, List.isEmpty_cons,
    Bool.false_eq_true, if_false]
  rw [takeFlags?_eq_edit ordered (by rw [size_edit]; omega), carriers_edit]
  · simp only [Option.bind_some, edit_edit]
    rw [linkAll?_eq_edit _ _ (carriers_nodup _ _), edit_edit]
    · congr 1
      apply edit_congr
      intro state found lookup
      simp only [mem_carriers, unmarkWithin, followChange, contains_onlyAccept,
        contains_onlyStart, flags_eq lookup]
      by_cases inFirst : state ∈ first
      · have notSecond := apart state inFirst
        cases accepts : found.flags.accept <;>
          simp [inFirst, notSecond, accepts, NfaState.exitTo]
      · cases starts : found.flags.start <;>
          simp [inFirst, starts, NfaState.unmark_onlyStart]
    · intro source member
      rw [size_edit]
      exact lt_size_of_mem_carriers (by omega) member
  · intro state inFirst found
    exact if_neg fun both => apart state inFirst both.1

/-- What being entered does to a state: the source moves freely to the first
state of every part, and none of these is an initial state any more. -/
def enterChange (source : Nat) (row : List Span) : Nat → NfaState → NfaState :=
  fun state found =>
    if state = source then found.link (row.map (·.first))
    else if ∃ span ∈ row, state ∈ span then found.unmark .onlyStart
    else found

theorem enterEach?_eq_edit {source : Nat} (below : source < nfa.size)
    (row : List Span) (outside : ∀ span ∈ row, source ∉ span)
    (entered : ∀ span ∈ row, nfa.Entered span)
    (apart : row.Pairwise fun left right => ∀ state ∈ left, state ∉ right) :
    enterEach? source row nfa = some (nfa.edit (enterChange source row)) := by
  induction row generalizing nfa with
  | nil =>
      rw [enterEach?, edit_eq_self]
      intro state found _
      simp [enterChange]
  | cons span row ih =>
      have first := entered span List.mem_cons_self
      have notFirst := outside span List.mem_cons_self
      have far := (List.pairwise_cons.mp apart).1
      rw [enterEach?, takeFlags?_eq_edit (Nat.le_of_lt first.inside) first.fits,
        first.carriers]
      simp only [Option.bind_eq_bind, Option.bind_some]
      rw [linkEach?_eq_edit (by rwa [size_edit]), edit_edit]
      simp only [Option.bind_some]
      rw [ih, edit_edit]
      · congr 1
        apply edit_congr
        intro state found _
        simp only [enterChange, unmarkWithin, editAt, contains_onlyStart,
          List.map_cons, List.exists_mem_cons_iff]
        by_cases same : state = source
        · subst same
          simp [notFirst]
        · by_cases inFirst : state ∈ span
          · have notRest : ¬∃ other ∈ row, state ∈ other := by
              intro found
              rcases found with ⟨other, member, inOther⟩
              exact far other member state inFirst inOther
            cases starts : found.flags.start <;>
              simp [same, inFirst, notRest, starts, NfaState.unmark_onlyStart]
          · simp [same, inFirst]
      · rwa [size_edit]
      · intro other member
        exact outside other (List.mem_cons_of_mem _ member)
      · intro other member
        apply (entered other (List.mem_cons_of_mem _ member)).edit
        intro state inside found
        have notSource : state ≠ source := by
          intro same
          subst same
          exact outside other (List.mem_cons_of_mem _ member) inside
        have notSpan : state ∉ span :=
          fun inSpan => far other member state inSpan inside
        simp [editAt, unmarkWithin, notSource, notSpan]
      · exact (List.pairwise_cons.mp apart).2

/-- What looping does to a state of the part and to the entry: the entry moves
freely into the part, and where the part accepted it now moves freely back. -/
def loopChange (entry : Nat) (span : Span) : Nat → NfaState → NfaState :=
  fun state found =>
    if state = entry then found.link [span.first]
    else if state ∈ span then (found.unmark .onlyStart).exitTo entry
    else found

theorem loop?_eq_edit {entry : Nat} {span : Span} (below : entry < nfa.size)
    (outside : entry ∉ span) (entered : nfa.Entered span) :
    loop? entry span nfa = some (nfa.edit (loopChange entry span)) := by
  have ordered := Nat.le_of_lt entered.inside
  have fits := entered.fits
  rw [loop?, takeFlags?_eq_edit ordered fits, entered.carriers]
  simp only [Option.bind_eq_bind, Option.bind_some]
  rw [linkEach?_eq_edit (by rwa [size_edit]), edit_edit]
  simp only [Option.bind_some]
  rw [takeFlags?_eq_edit ordered (by rwa [size_edit]), edit_edit]
  simp only [Option.bind_some]
  rw [linkAll?_eq_edit _ _ (carriers_nodup _ _), edit_edit]
  · congr 1
    apply edit_congr
    intro state found lookup
    simp only [mem_carriers, flags_edit lookup, contains_onlyAccept,
      contains_onlyStart, editAt, unmarkWithin, loopChange]
    by_cases same : state = entry
    · subst same
      simp [outside]
    · by_cases inside : state ∈ span
      · cases starts : found.flags.start <;>
          cases accepts : found.flags.accept <;>
          simp [same, inside, starts, accepts, NfaState.unmark_onlyStart,
            NfaState.exitTo]
      · simp [same, inside]
  · intro source member
    rw [size_edit]
    have := lt_size_of_mem_carriers (by rwa [size_edit]) member
    rwa [size_edit] at this

end Nfa

end Munch
