import Munch.Pattern.Layout

/-!
# The automaton of a pattern

Laying a pattern out never touches a state beyond those it needs, so it succeeds
wherever they fit (`lay?_keeps`). In particular a pattern fits into exactly as
many blank states as it needs, and that automaton is `Pattern.toNfa`.
-/

namespace Munch

namespace Nfa

/-- An edit that went through and left the number of states as it was. -/
def Keeps (size : Nat) (result : Option Nfa) : Prop :=
  ∃ nfa, result = some nfa ∧ nfa.size = size

/-- A removal of marks that went through, left the number of states as it was
and reported states below `size` only. -/
def Takes (size : Nat) (result : Option (List Nat × Nfa)) : Prop :=
  ∃ taken nfa, result = some (taken, nfa) ∧ nfa.size = size ∧
    ∀ state ∈ taken, state < size

variable {size : Nat}

theorem keeps_some {nfa : Nfa} (kept : nfa.size = size) :
    Keeps size (some nfa) :=
  ⟨nfa, rfl, kept⟩

theorem Keeps.bind {result : Option Nfa} {next : Nfa → Option Nfa}
    (kept : Keeps size result)
    (rest : ∀ nfa, nfa.size = size → Keeps size (next nfa)) :
    Keeps size (result >>= next) := by
  rcases kept with ⟨nfa, rfl, kept⟩
  exact rest nfa kept

theorem Takes.bind {result : Option (List Nat × Nfa)}
    {next : List Nat × Nfa → Option Nfa} (took : Takes size result)
    (rest : ∀ taken nfa, nfa.size = size → (∀ state ∈ taken, state < size) →
      Keeps size (next (taken, nfa))) :
    Keeps size (result >>= next) := by
  rcases took with ⟨taken, nfa, rfl, kept, below⟩
  exact rest taken nfa kept below

theorem modify?_keeps {nfa : Nfa} (kept : nfa.size = size) {state : Nat}
    (below : state < size) (change : NfaState → NfaState) :
    Keeps size (nfa.modify? state change) := by
  subst kept
  rw [modify?, if_pos below]
  exact keeps_some (by simp [Nfa.size])

theorem linkEach?_keeps {source : Nat} (below : source < size)
    (targets : List Nat) (nfa : Nfa) (kept : nfa.size = size) :
    Keeps size (linkEach? source targets nfa) := by
  induction targets generalizing nfa with
  | nil => exact keeps_some kept
  | cons target targets ih =>
      apply (modify?_keeps kept below _).bind
      intro linked linkedSize
      exact ih linked linkedSize

theorem linkAll?_keeps {targets : List Nat} (sources : List Nat)
    (below : ∀ state ∈ sources, state < size) (nfa : Nfa)
    (kept : nfa.size = size) :
    Keeps size (linkAll? sources targets nfa) := by
  induction sources generalizing nfa with
  | nil => exact keeps_some kept
  | cons source sources ih =>
      rw [List.forall_mem_cons] at below
      apply (linkEach?_keeps below.1 targets nfa kept).bind
      intro linked linkedSize
      exact ih below.2 linked linkedSize

theorem takeFlagsFrom?_takes (flags : Flags) (count first : Nat)
    (fits : first + count ≤ size) (nfa : Nfa) (kept : nfa.size = size) :
    Takes size (takeFlagsFrom? flags count first nfa) := by
  induction count generalizing first nfa with
  | zero => exact ⟨[], nfa, rfl, kept, by simp⟩
  | succ count ih =>
      have here : first < size := by omega
      have below : first < nfa.states.size := by
        rw [← kept] at here
        exact here
      rw [takeFlagsFrom?, Array.getElem?_eq_getElem below]
      -- A state that carries the marks loses them before the rest is searched.
      by_cases present : nfa.states[first].flags.contains flags = true
      · simp only [present, if_true]
        rcases modify?_keeps kept here
          (fun old => { old with flags := nfa.states[first].flags.remove flags })
          with ⟨edited, editedEq, editedSize⟩
        rcases ih (first + 1) (by omega) edited editedSize
          with ⟨taken, rest, restEq, restSize, restBelow⟩
        refine ⟨first :: taken, rest, ?_, restSize, ?_⟩
        · simp only [setFlags?, editedEq, restEq, bind, Option.bind]
        · rw [List.forall_mem_cons]
          exact ⟨here, restBelow⟩
      · simp only [present]
        exact ih (first + 1) (by omega) nfa kept

theorem takeFlags?_takes {nfa : Nfa} (kept : nfa.size = size)
    {span : Span} (ordered : span.first ≤ span.stop) (fits : span.stop ≤ size)
    (flags : Flags) :
    Takes size (nfa.takeFlags? span flags) := by
  have inside : span.first + span.length ≤ size := by
    simp only [Span.length]
    omega
  exact takeFlagsFrom?_takes flags _ _ inside nfa kept

theorem follow?_keeps {nfa : Nfa} (kept : nfa.size = size)
    {first second : Span}
    (firstOrdered : first.first ≤ first.stop) (firstFits : first.stop ≤ size)
    (secondOrdered : second.first ≤ second.stop)
    (secondFits : second.stop ≤ size) :
    Keeps size (follow? first second nfa) := by
  apply (takeFlags?_takes kept secondOrdered secondFits _).bind
  intro starts entered enteredSize _
  by_cases vacant : starts.isEmpty = true
  · simp only [vacant, if_true]
    exact keeps_some enteredSize
  · simp only [vacant]
    apply (takeFlags?_takes enteredSize firstOrdered firstFits _).bind
    intro accepts left leftSize acceptsBelow
    exact linkAll?_keeps accepts acceptsBelow left leftSize

theorem chain?_keeps (row : List Span)
    (fits : ∀ span ∈ row, span.first ≤ span.stop ∧ span.stop ≤ size)
    (nfa : Nfa) (kept : nfa.size = size) :
    Keeps size (chain? row nfa) := by
  induction row generalizing nfa with
  | nil => exact keeps_some kept
  | cons first row ih =>
      -- Parts are joined two at a time, so one part alone needs nothing.
      cases row with
      | nil => exact keeps_some kept
      | cons second rest =>
          rw [List.forall_mem_cons] at fits
          have firstFits := fits.1
          have secondFits := fits.2 second List.mem_cons_self
          apply (follow?_keeps kept firstFits.1 firstFits.2
            secondFits.1 secondFits.2).bind
          intro followed followedSize
          exact ih fits.2 followed followedSize

theorem enterEach?_keeps {source : Nat} (below : source < size)
    (row : List Span)
    (fits : ∀ span ∈ row, span.first ≤ span.stop ∧ span.stop ≤ size)
    (nfa : Nfa) (kept : nfa.size = size) :
    Keeps size (enterEach? source row nfa) := by
  induction row generalizing nfa with
  | nil => exact keeps_some kept
  | cons span rest ih =>
      rw [List.forall_mem_cons] at fits
      apply (takeFlags?_takes kept fits.1.1 fits.1.2 _).bind
      intro starts entered enteredSize _
      apply (linkEach?_keeps below starts entered enteredSize).bind
      intro linked linkedSize
      exact ih fits.2 linked linkedSize

theorem loop?_keeps {nfa : Nfa} (kept : nfa.size = size)
    {entry : Nat} (below : entry < size) {span : Span}
    (ordered : span.first ≤ span.stop) (fits : span.stop ≤ size) :
    Keeps size (loop? entry span nfa) := by
  apply (takeFlags?_takes kept ordered fits _).bind
  intro starts entered enteredSize _
  apply (linkEach?_keeps below starts entered enteredSize).bind
  intro linked linkedSize
  apply (takeFlags?_takes linkedSize ordered fits _).bind
  intro accepts left leftSize acceptsBelow
  exact linkAll?_keeps accepts acceptsBelow left leftSize

theorem layPair?_keeps {offset : Nat} (fits : offset + 2 ≤ size)
    (flags : Flags) (nfa : Nfa) (kept : nfa.size = size) :
    Keeps size (layPair? offset flags nfa) := by
  apply (modify?_keeps kept (by omega) _).bind
  intro entered enteredSize
  exact modify?_keeps enteredSize (by omega) _

theorem laySteps?_keeps (sink : Nat) (bytes : Bytes) (here : Nat)
    (fits : here + bytes.length < size) (nfa : Nfa) (kept : nfa.size = size) :
    Keeps size (laySteps? sink here bytes nfa) := by
  induction bytes generalizing here nfa with
  | nil => exact keeps_some kept
  | cons byte bytes ih =>
      rw [List.length_cons] at fits
      apply (modify?_keeps kept (by omega) _).bind
      intro ahead aheadSize
      apply (modify?_keeps aheadSize (by omega) _).bind
      intro joined joinedSize
      exact ih (here + 1) (by omega) joined joinedSize

theorem layLiteral?_keeps {offset : Nat} {bytes : Bytes}
    (fits : offset + (bytes.length + 2) ≤ size) (nfa : Nfa)
    (kept : nfa.size = size) :
    Keeps size (layLiteral? offset bytes nfa) := by
  apply (modify?_keeps kept (by omega) _).bind
  intro entered enteredSize
  apply (laySteps?_keeps _ bytes offset (by omega) entered enteredSize).bind
  intro stepped steppedSize
  apply (modify?_keeps steppedSize (by omega) _).bind
  intro marked markedSize
  exact modify?_keeps markedSize (by omega) _

theorem layBranches?_keeps {source : Nat} (below : source < size)
    (target : Nat) (bytes : Bytes) (nfa : Nfa) (kept : nfa.size = size) :
    Keeps size (layBranches? source target bytes nfa) := by
  induction bytes generalizing nfa with
  | nil => exact keeps_some kept
  | cons byte bytes ih =>
      apply (modify?_keeps kept below _).bind
      intro branched branchedSize
      exact ih branched branchedSize

theorem layCharset?_keeps {offset : Nat} (fits : offset + 3 ≤ size)
    (bytes : Bytes) (nfa : Nfa) (kept : nfa.size = size) :
    Keeps size (layCharset? offset bytes nfa) := by
  have below : offset < size := by omega
  apply (modify?_keeps kept below _).bind
  intro entered enteredSize
  apply (layBranches?_keeps below _ bytes entered enteredSize).bind
  intro branched branchedSize
  apply (modify?_keeps branchedSize (by omega) _).bind
  intro marked markedSize
  exact modify?_keeps markedSize (by omega) _

end Nfa

namespace Pattern

open Nfa

variable {size : Nat}

/-- The stretches of patterns side by side are in order and end where the row
ends. -/
theorem spans_fit (children : List Pattern) (offset : Nat)
    (fits : offset + neededAll children ≤ size) :
    ∀ span ∈ spans offset children,
      span.first ≤ span.stop ∧ span.stop ≤ size := by
  induction children generalizing offset with
  | nil => simp [spans]
  | cons child children ih =>
      simp only [neededAll] at fits
      rw [spans, List.forall_mem_cons]
      have first : offset + child.needed ≤ size := by omega
      exact ⟨⟨Nat.le_add_right _ _, first⟩,
        ih (offset + child.needed) (by omega)⟩

mutual

/-- A pattern can be laid out wherever the states that it needs exist. -/
theorem lay?_keeps :
    (pattern : Pattern) → (offset : Nat) → offset + pattern.needed ≤ size →
      (nfa : Nfa) → nfa.size = size → Keeps size (pattern.lay? offset nfa)
  | .epsilon, _, fits, nfa, kept => layPair?_keeps fits _ nfa kept
  | .literal _, _, fits, nfa, kept => layLiteral?_keeps fits nfa kept
  | .charset bytes, _, fits, nfa, kept => layCharset?_keeps fits bytes nfa kept
  | .concatenate [], _, fits, nfa, kept => layPair?_keeps fits _ nfa kept
  | .concatenate (child :: children), offset, fits, nfa, kept => by
      simp only [needed] at fits
      have row := spans_fit (child :: children) offset fits
      apply (lay?_keeps child offset (by omega) nfa kept).bind
      intro first firstSize
      apply (layAll?_keeps children (offset + child.needed) (by omega)
        first firstSize).bind
      intro laid laidSize
      exact chain?_keeps _ row laid laidSize
  | .alternate [], _, fits, nfa, kept => layPair?_keeps fits _ nfa kept
  | .alternate (child :: children), offset, fits, nfa, kept => by
      simp only [needed] at fits
      have row : ∀ span ∈ spans (offset + 2) (child :: children),
          span.first ≤ span.stop ∧ span.stop ≤ size := by
        apply spans_fit
        simp only [neededAll]
        omega
      apply (lay?_keeps child (offset + 2) (by omega) nfa kept).bind
      intro first firstSize
      apply (layAll?_keeps children (offset + 2 + child.needed) (by omega)
        first firstSize).bind
      intro laid laidSize
      apply (layPair?_keeps (by omega) _ laid laidSize).bind
      intro paired pairedSize
      exact enterEach?_keeps (by omega) _ row paired pairedSize
  | .star inner, offset, fits, nfa, kept => by
      simp only [needed] at fits
      have inside : offset + 2 + inner.needed ≤ size := by omega
      apply (layPair?_keeps (by omega) _ nfa kept).bind
      intro paired pairedSize
      apply (lay?_keeps inner (offset + 2) inside paired pairedSize).bind
      intro laid laidSize
      exact loop?_keeps laidSize (by omega) (Nat.le_add_right _ _) inside

/-- Patterns can be laid out side by side wherever the states that they need
exist. -/
theorem layAll?_keeps :
    (children : List Pattern) → (offset : Nat) →
      offset + neededAll children ≤ size →
      (nfa : Nfa) → nfa.size = size → Keeps size (layAll? children offset nfa)
  | [], _, _, _, kept => keeps_some kept
  | child :: children, offset, fits, nfa, kept => by
      simp only [neededAll] at fits
      apply (lay?_keeps child offset (by omega) nfa kept).bind
      intro laid laidSize
      exact layAll?_keeps children (offset + child.needed) (by omega) laid laidSize

end

@[simp] theorem size_blank (size : Nat) : (Nfa.blank size).size = size := by
  simp [Nfa.blank, Nfa.size]

/-- A pattern fits into exactly as many blank states as it needs. -/
theorem lay?_blank_keeps (pattern : Pattern) :
    Keeps pattern.needed (pattern.lay? 0 (.blank pattern.needed)) :=
  lay?_keeps pattern 0 (by omega) _ (size_blank _)

theorem isSome_lay?_blank (pattern : Pattern) :
    (pattern.lay? 0 (.blank pattern.needed)).isSome = true := by
  rcases lay?_blank_keeps pattern with ⟨nfa, equal, _⟩
  simp [equal]

/-- The automaton of a pattern: the pattern laid out at the beginning of exactly
as many blank states as it needs. -/
def toNfa (pattern : Pattern) : Nfa :=
  (pattern.lay? 0 (.blank pattern.needed)).get (isSome_lay?_blank pattern)

theorem lay?_blank (pattern : Pattern) :
    pattern.lay? 0 (.blank pattern.needed) = some pattern.toNfa := by
  simp [toNfa]

@[simp] theorem size_toNfa (pattern : Pattern) : pattern.toNfa.size = pattern.needed := by
  rcases lay?_blank_keeps pattern with ⟨nfa, equal, kept⟩
  rw [lay?_blank, Option.some.injEq] at equal
  rw [equal, kept]

end Pattern

end Munch
