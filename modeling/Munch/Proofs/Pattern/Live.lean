import Munch.Proofs.Pattern.Automaton

/-!
# Only rejecting states are dead

A character set without bytes matches nothing, and whatever must pass it cannot
match either. Where every character set has a byte, every pattern has a word,
and every state of its automaton that does not reject can still accept
(`live_toNfa`). Taking marks does not spoil that: a state that loses its
accepting mark moves freely to a door, and behind the door something is
accepted. The proof follows the layout of the pattern as that of its language
does, and uses the parts found there.
-/

namespace Munch

namespace Nfa

variable {nfa left right : Nfa}

/-- Whether every state of a stretch that does not reject accepts some word. -/
def Live (nfa : Nfa) (span : Span) : Prop :=
  ∀ state ∈ span, (nfa.flags state).reject = false →
    ∃ word, nfa.AcceptsFrom state word

/-! ## Edits that keep stretches alive -/

theorem Alike.live {span : Span} (alike : left.Alike right span)
    (tame : ∀ state ∈ span, left.Tame span state) (live : left.Live span) :
    right.Live span := by
  intro state inside passes
  rw [alike.reject state inside] at passes
  rcases live state inside passes with ⟨word, accepted⟩
  exact ⟨word, alike.acceptsFrom tame inside accepted⟩

theorem Live.congr {span : Span} {language : Bytes → Prop}
    (live : left.Live span) (part : left.Part span language)
    (same : ∀ state ∈ span, right.states[state]? = left.states[state]?) :
    right.Live span := by
  apply Alike.live (Alike.of_states ?_) part.tame live
  intro state inside
  exact .inl (same state inside)

/-- Where something is accepted behind the door, every state that could accept
before can go on through the door. -/
theorem Exits.live {span : Span} {door : Nat}
    (exits : left.Exits right span door)
    (tame : ∀ state ∈ span, left.Tame span state) (live : left.Live span)
    {rest : Bytes} (beyond : right.AcceptsFrom door rest) :
    right.Live span := by
  intro state inside passes
  rw [exits.reject state inside] at passes
  rcases live state inside passes with ⟨word, accepted⟩
  exact ⟨word ++ rest, .after (exits.path_door tame inside accepted) beyond⟩

theorem Live.join {first stop : Nat} (middle : Nat)
    (before : nfa.Live ⟨first, middle⟩) (behind : nfa.Live ⟨middle, stop⟩) :
    nfa.Live ⟨first, stop⟩ := by
  intro state inside
  rw [Span.mem_mk] at inside
  by_cases early : state < middle
  · exact before state ⟨inside.1, early⟩
  · exact behind state ⟨Nat.not_lt.mp early, inside.2⟩

/-- A pair of a state that accepts something and a state that rejects. -/
theorem live_pair {entry : Nat} {word : Bytes}
    (accepted : nfa.AcceptsFrom entry word)
    (rejects : (nfa.flags (entry + 1)).reject = true) :
    nfa.Live ⟨entry, entry + 2⟩ := by
  intro state inside passes
  rw [Span.mem_mk] at inside
  have either : state = entry ∨ state = entry + 1 := by omega
  rcases either with rfl | rfl
  · exact ⟨word, accepted⟩
  · rw [rejects] at passes
    cases passes

/-- The mark of a state that is overwritten as a sink. -/
theorem reject_edit {state : Nat} {change : Nat → NfaState → NfaState}
    (inside : state < nfa.size)
    (written : ∀ found, (change state found).flags = .onlyReject) :
    ((nfa.edit change).flags state).reject = true := by
  rw [flags_edit (Array.getElem?_eq_getElem inside), written]
  rfl

/-! ## Leaves -/

section Leaves

variable {offset : Nat} {bytes : Bytes}

theorem reject_pairChange (fits : offset + 2 ≤ nfa.size) (flags : Flags) :
    ((nfa.edit (pairChange offset flags)).flags (offset + 1)).reject =
      true := by
  apply reject_edit (by omega)
  intro found
  rw [pairChange, if_neg (Nat.succ_ne_self offset), if_pos rfl]

theorem live_pairChange (bare : nfa.Bare ⟨offset, offset + 2⟩)
    (fits : offset + 2 ≤ nfa.size) :
    (nfa.edit (pairChange offset .startAccept)).Live ⟨offset, offset + 2⟩ := by
  have accepted := (placed_pair bare fits).part.accepts []
  exact live_pair (accepted.mpr rfl) (reject_pairChange fits _)

theorem live_literalChange
    (bare : nfa.Bare ⟨offset, offset + (bytes.length + 2)⟩)
    (fits : offset + (bytes.length + 2) ≤ nfa.size) :
    (nfa.edit (literalChange offset bytes)).Live
      ⟨offset, offset + (bytes.length + 2)⟩ := by
  intro state inside passes
  rw [Span.mem_mk] at inside
  by_cases along : state < offset + bytes.length + 1
  · have place : state = offset + (state - offset) := by omega
    rw [place]
    exact ⟨_, (acceptsFrom_literal bare fits _ (state - offset)
      (by omega)).mpr rfl⟩
  · obtain rfl : state = offset + bytes.length + 1 := by omega
    rw [reject_edit (by omega)] at passes
    · cases passes
    · intro found
      rw [literalChange, if_neg (by rw [Span.mem_mk]; omega), if_pos rfl]

theorem live_charsetChange (bare : nfa.Bare ⟨offset, offset + 3⟩)
    (fits : offset + 3 ≤ nfa.size) {byte : UInt8} (listed : byte ∈ bytes) :
    (nfa.edit (charsetChange offset bytes)).Live ⟨offset, offset + 3⟩ := by
  intro state inside passes
  rw [Span.mem_mk] at inside
  have place : state = offset ∨ state = offset + 1 ∨ state = offset + 2 := by
    omega
  rcases place with rfl | rfl | rfl
  · exact ⟨[byte],
      (acceptsFrom_charset bytes bare fits _).mpr ⟨byte, listed, rfl⟩⟩
  · refine ⟨[], .here ?_⟩
    rw [(charset_second bytes bare fits).1]
    rfl
  · rw [reject_edit (by omega)] at passes
    · cases passes
    · intro found
      simp [charsetChange]

end Leaves

end Nfa

namespace Pattern

open Nfa

variable {nfa : Nfa}

/-! ## Patterns without empty character sets -/

mutual

/-- Whether every character set in the pattern has a byte. -/
def filled : Pattern → Bool
  | .epsilon => true
  | .literal _ => true
  | .charset bytes => !bytes.isEmpty
  | .concatenate children => allFilled children
  | .alternate children => allFilled children
  | .star inner => inner.filled

/-- Whether every character set in the patterns has a byte. -/
def allFilled : List Pattern → Bool
  | [] => true
  | child :: children => child.filled && allFilled children

end

theorem allFilled_eq_true {children : List Pattern} :
    allFilled children = true ↔ ∀ child ∈ children, child.filled = true := by
  induction children with
  | nil => simp [allFilled]
  | cons child children ih => simp [allFilled, ih]

theorem exists_mem_of_filled {bytes : Bytes}
    (full : filled (.charset bytes) = true) : ∃ byte, byte ∈ bytes := by
  rw [filled, Bool.not_eq_true', List.isEmpty_eq_false_iff] at full
  exact List.exists_mem_of_ne_nil bytes full

/-- A pattern without empty character sets has a word. -/
theorem exists_matches (pattern : Pattern) :
    pattern.filled = true → ∃ word, Matches pattern word := by
  induction pattern using Pattern.induction with
  | epsilon => exact fun _ => ⟨[], .epsilon⟩
  | literal bytes => exact fun _ => ⟨bytes, .literal bytes⟩
  | charset bytes =>
      intro full
      rcases exists_mem_of_filled full with ⟨byte, listed⟩
      exact ⟨[byte], .charset listed⟩
  | concatenate children each =>
      intro full
      rw [filled] at full
      induction children with
      | nil => exact ⟨[], .concatenateNil⟩
      | cons child children ih =>
          rw [allFilled, Bool.and_eq_true] at full
          rcases each child List.mem_cons_self full.1 with ⟨first, head⟩
          rcases ih (fun other member =>
            each other (List.mem_cons_of_mem _ member)) full.2
            with ⟨rest, tail⟩
          exact ⟨first ++ rest, .concatenateCons head tail⟩
  | alternate children each =>
      intro full
      cases children with
      | nil => exact ⟨[], .alternateNil⟩
      | cons child children =>
          rw [filled, allFilled, Bool.and_eq_true] at full
          rcases each child List.mem_cons_self full.1 with ⟨word, branch⟩
          exact ⟨word, .alternate List.mem_cons_self branch⟩
  | star inner _ => exact fun _ => ⟨[], .starNil⟩

/-! ## Concatenation -/

/-- One link of a chain keeps both its stretches alive, because the part behind
has a word. -/
theorem live_follow {first : Nat} {last second : Span}
    {former latter : Bytes → Prop}
    (placed : nfa.Placed ⟨first, last.stop⟩ former)
    (follower : nfa.Placed second latter)
    (adjacent : last.stop = second.first) (firstBelow : first ≤ last.first)
    (only : ∀ state ∈ (⟨first, last.stop⟩ : Span),
      (nfa.flags state).accept = true → state ∈ last)
    (live : nfa.Live ⟨first, last.stop⟩) (liveSecond : nfa.Live second)
    {word : Bytes} (belongs : latter word) :
    (nfa.edit (followChange last second)).Live ⟨first, second.stop⟩ := by
  have exits := exits_follow placed.part adjacent only
  have within : ∀ state ∈ last, state ∈ (⟨first, last.stop⟩ : Span) :=
    Span.within firstBelow (Nat.le_refl _)
  have alike : nfa.Alike (nfa.edit (followChange last second)) second :=
    @alike_follow nfa ⟨first, last.stop⟩ last second adjacent within
  have beyond := alike.acceptsFrom follower.part.tame follower.part.first_mem
    ((follower.part.accepts word).mpr belongs)
  apply Live.join last.stop (exits.live placed.part.tame live beyond)
  rw [adjacent]
  exact alike.live follower.part.tame liveSecond

/-- Whether every part of a row is alive. -/
def RowLive (nfa : Nfa) (offset : Nat) (children : List Pattern) : Prop :=
  ∀ span ∈ spans offset children, nfa.Live span

theorem RowLive.congr {left right : Nfa} {offset : Nat}
    {children : List Pattern} (live : RowLive left offset children)
    (row : Row left offset children)
    (same : ∀ state ∈ (⟨offset, offset + neededAll children⟩ : Span),
      right.states[state]? = left.states[state]?) :
    RowLive right offset children := by
  intro span listed
  apply (live span listed).congr (row.parts span listed)
  intro state inside
  have within := within_of_mem_spans listed
  exact same state (Span.within within.1 within.2 state inside)

/-- Chaining the rest of a row behind a part that is alive makes all of them one
stretch that is alive. -/
theorem live_chain (children : List Pattern) {after : Nfa} {first : Nat}
    (last : Span) {former : Bytes → Prop}
    (placed : nfa.Placed ⟨first, last.stop⟩ former)
    (firstBelow : first ≤ last.first) (ordered : last.first ≤ last.stop)
    (only : ∀ state ∈ (⟨first, last.stop⟩ : Span),
      (nfa.flags state).accept = true → state ∈ last)
    (row : Row nfa last.stop children)
    (live : nfa.Live ⟨first, last.stop⟩)
    (rowLive : RowLive nfa last.stop children)
    (full : allFilled children = true)
    (chained : chain? (last :: spans last.stop children) nfa = some after) :
    after.Live ⟨first, last.stop + neededAll children⟩ := by
  induction children generalizing nfa last former with
  | nil =>
      rw [spans, chain?, Option.some.injEq] at chained
      · rwa [← chained, neededAll, Nat.add_zero]
      · intro _ _ _ equal
        cases equal
  | cons child children ih =>
      rcases row with ⟨childPlaced, rest⟩
      rw [allFilled, Bool.and_eq_true] at full
      rcases exists_matches child full.1 with ⟨word, belongs⟩
      rcases follow?_laid placed childPlaced rfl firstBelow ordered only
        with ⟨joined, follows, joinedLaid, joinedOnly⟩
      have joinedEq := follow?_eq_edit ordered (Nat.le_refl _)
        childPlaced.entered
      rw [follows, Option.some.injEq] at joinedEq
      have unchanged : ∀ state ∈ (⟨last.stop + child.needed,
          last.stop + child.needed + neededAll children⟩ : Span),
          joined.states[state]? = nfa.states[state]? := by
        intro state inside
        exact joinedLaid.outside state fun within =>
          Nat.not_lt.mpr inside.1 within.2
      have joinedLive := live_follow placed childPlaced rfl firstBelow only live
        (rowLive _ List.mem_cons_self) belongs
      rw [← joinedEq] at joinedLive
      have restLive : RowLive nfa (last.stop + child.needed) children :=
        fun span listed => rowLive span (List.mem_cons_of_mem _ listed)
      rw [spans, chain?, follows] at chained
      rw [neededAll, ← Nat.add_assoc]
      exact ih ⟨last.stop, last.stop + child.needed⟩ joinedLaid.placed
        (firstBelow.trans ordered) (Nat.le_add_right _ _) joinedOnly
        (rest.congr joinedLaid.size unchanged) joinedLive
        (restLive.congr rest unchanged) full.2 chained

/-! ## Gates -/

/-- A gate into a row that is alive is alive itself if it accepts something. -/
theorem live_enter {offset : Nat} {children : List Pattern}
    (row : Row nfa (offset + 2) children)
    (live : RowLive nfa (offset + 2) children) {word : Bytes}
    (accepted : (nfa.edit (enterChange offset
      (spans (offset + 2) children))).AcceptsFrom offset word)
    (rejects : (nfa.flags (offset + 1)).reject = true) :
    (nfa.edit (enterChange offset (spans (offset + 2) children))).Live
      ⟨offset, offset + 2 + neededAll children⟩ := by
  apply Live.join (offset + 2)
  · apply live_pair accepted
    rwa [Nfa.flags, getElem?_edit_of_same, ← Nfa.flags]
    intro found
    rw [enterChange, if_neg (Nat.succ_ne_self offset), if_neg]
    intro within
    rcases within with ⟨span, listed, inside⟩
    exact notMem_spans_of_lt listed (Nat.lt_succ_self _) inside
  · intro state inside
    rcases exists_mem_spans inside with ⟨span, listed, inSpan⟩
    have outside : ∀ span ∈ spans (offset + 2) children, offset ∉ span :=
      fun span listed => notMem_spans_of_lt listed (by omega)
    exact (alike_enter listed outside).live (row.parts span listed).tame
      (live span listed) state inSpan

/-- A gate looped with a part that is alive is alive itself. -/
theorem live_loop {offset stop : Nat} {language : Bytes → Prop}
    (part : nfa.Part ⟨offset + 2, stop⟩ language)
    (live : nfa.Live ⟨offset + 2, stop⟩) {word : Bytes}
    (accepted : (nfa.edit (loopChange offset
      ⟨offset + 2, stop⟩)).AcceptsFrom offset word)
    (rejects : (nfa.flags (offset + 1)).reject = true) :
    (nfa.edit (loopChange offset ⟨offset + 2, stop⟩)).Live
      ⟨offset, stop⟩ := by
  apply Live.join (offset + 2)
  · apply live_pair accepted
    rwa [Nfa.flags, getElem?_edit_of_same, ← Nfa.flags]
    intro found
    rw [loopChange, if_neg (Nat.succ_ne_self offset), if_neg]
    rw [Span.mem_mk]
    omega
  · exact (exits_loop part).live part.tame live accepted

/-! ## All patterns -/

/-- Whether the stretch of a pattern is alive wherever the pattern is laid
out. -/
def LaysLive (pattern : Pattern) : Prop :=
  ∀ (offset : Nat) (nfa after : Nfa), offset + pattern.needed ≤ nfa.size →
    nfa.Bare ⟨offset, offset + pattern.needed⟩ →
    pattern.lay? offset nfa = some after →
      after.Live ⟨offset, offset + pattern.needed⟩

section Nodes

variable {offset : Nat} {after : Nfa} {child inner : Pattern}
  {children : List Pattern}

/-- Patterns side by side that are laid out alive make a row that is alive. -/
theorem rowLive_layAll (each : ∀ child ∈ children, LaysLive child)
    (fits : offset + neededAll children ≤ nfa.size)
    (bare : nfa.Bare ⟨offset, offset + neededAll children⟩)
    (laidOut : layAll? children offset nfa = some after) :
    RowLive after offset children := by
  induction children generalizing offset nfa with
  | nil =>
      intro span listed
      cases listed
  | cons child children ih =>
      rw [neededAll] at fits bare
      have childBare : nfa.Bare ⟨offset, offset + child.needed⟩ :=
        bare.mono (Nat.le_refl _) (by omega)
      rcases lay?_laid child offset nfa (by omega) childBare
        with ⟨first, firstLaidOut, firstLaid⟩
      have firstLive := each child List.mem_cons_self offset nfa first
        (by omega) childBare firstLaidOut
      have restBare : first.Bare ⟨offset + child.needed,
          offset + child.needed + neededAll children⟩ := by
        apply (bare.mono (Nat.le_add_right _ _) (by omega)).congr
        intro state inside
        exact firstLaid.outside state fun before =>
          Nat.not_lt.mpr inside.1 before.2
      have restFits : offset + child.needed + neededAll children ≤
          first.size := by
        rw [firstLaid.size]
        omega
      rw [layAll?, firstLaidOut] at laidOut
      rcases layAll?_laid children _ first restFits restBare
        with ⟨rest, restLaidOut, restLaid⟩
      have same : rest = after :=
        Option.some.inj (restLaidOut.symm.trans laidOut)
      subst same
      intro span listed
      rw [spans] at listed
      cases listed with
      | head =>
          apply firstLive.congr firstLaid.placed.part
          intro state inside
          exact restLaid.outside state fun behind =>
            Nat.not_lt.mpr behind.1 inside.2
      | tail _ listed =>
          exact ih (fun other member =>
            each other (List.mem_cons_of_mem _ member)) restFits restBare
            laidOut span listed

theorem laysLive_pair (pattern : Pattern) (size : pattern.needed = 2)
    (laysPair : ∀ offset nfa, pattern.lay? offset nfa =
      nfa.layPair? offset .startAccept) : LaysLive pattern := by
  intro offset nfa after fits bare laidOut
  rw [size] at fits bare ⊢
  rw [laysPair, layPair?_eq_edit fits, Option.some.injEq] at laidOut
  subst laidOut
  exact live_pairChange bare fits

theorem laysLive_literal (bytes : Bytes) : LaysLive (.literal bytes) := by
  intro offset nfa after fits bare laidOut
  rw [lay?, layLiteral?_eq_edit fits, Option.some.injEq] at laidOut
  subst laidOut
  exact live_literalChange bare fits

theorem laysLive_charset {bytes : Bytes} {byte : UInt8}
    (listed : byte ∈ bytes) : LaysLive (.charset bytes) := by
  intro offset nfa after fits bare laidOut
  rw [lay?, layCharset?_eq_edit fits, Option.some.injEq] at laidOut
  subst laidOut
  exact live_charsetChange bare fits listed

theorem laysLive_concatenate (each : ∀ child ∈ children, LaysLive child)
    (full : allFilled children = true) :
    LaysLive (.concatenate children) := by
  intro offset nfa after fits bare laidOut
  cases children with
  | nil =>
      exact laysLive_pair (.concatenate []) (by rw [needed])
        (fun _ _ => by rw [lay?]) offset nfa after fits bare laidOut
  | cons child children =>
      rw [needed, ← neededAll] at fits bare ⊢
      rcases layAll?_laid (child :: children) offset nfa fits bare
        with ⟨row, rowLaidOut, rowLaid⟩
      have rowLive := rowLive_layAll each fits bare rowLaidOut
      rcases rowLaid.row with ⟨childPlaced, rest⟩
      rw [lay?_concatenate_cons, rowLaidOut] at laidOut
      rw [allFilled, Bool.and_eq_true] at full
      rw [neededAll, ← Nat.add_assoc]
      exact live_chain children ⟨offset, offset + child.needed⟩ childPlaced
        (Nat.le_refl _) (Nat.le_add_right _ _) (fun _ inside _ => inside) rest
        (rowLive _ List.mem_cons_self)
        (fun span listed => rowLive span (List.mem_cons_of_mem _ listed))
        full.2 laidOut

theorem laysLive_alternate (each : ∀ child ∈ children, LaysLive child)
    (full : allFilled children = true) :
    LaysLive (.alternate children) := by
  intro offset nfa after fits bare laidOut
  cases children with
  | nil =>
      exact laysLive_pair (.alternate []) (by rw [needed])
        (fun _ _ => by rw [lay?]) offset nfa after fits bare laidOut
  | cons child children =>
      rcases lay?_laid _ offset nfa fits bare with ⟨whole, wholeLaidOut, laid⟩
      obtain rfl : whole = after :=
        Option.some.inj (wholeLaidOut.symm.trans laidOut)
      rcases exists_matches (.alternate (child :: children)) full
        with ⟨word, belongs⟩
      have accepted : whole.AcceptsFrom offset word :=
        (laid.placed.part.accepts word).mpr belongs
      rw [needed, ← neededAll, ← Nat.add_assoc] at fits bare ⊢
      have rowBare := bare.mono (Nat.le_add_right offset 2) (Nat.le_refl _)
      rcases layAll?_laid (child :: children) (offset + 2) nfa fits rowBare
        with ⟨row, rowLaidOut, rowLaid⟩
      have rowLive := rowLive_layAll each fits rowBare rowLaidOut
      have rowFits : offset + 2 ≤ row.size := by
        rw [rowLaid.size]
        omega
      rw [lay?_alternate_cons, rowLaidOut] at laidOut
      obtain rfl := Option.some.inj
        ((layPair?_enterEach?_eq_edit rowFits rowLaid.row).symm.trans laidOut)
      exact live_enter rowLaid.row.edit_pairChange
        (rowLive.congr rowLaid.row fun _ => getElem?_edit_pairChange) accepted
        (reject_pairChange rowFits _)

theorem laysLive_star (live : LaysLive inner) : LaysLive (.star inner) := by
  intro offset nfa after fits bare laidOut
  rcases lay?_laid _ offset nfa fits bare with ⟨whole, wholeLaidOut, laid⟩
  obtain rfl : whole = after :=
    Option.some.inj (wholeLaidOut.symm.trans laidOut)
  have accepted : whole.AcceptsFrom offset [] :=
    (laid.placed.part.accepts []).mpr .starNil
  rw [needed, ← Nat.add_assoc] at fits bare ⊢
  have innerFits : offset + 2 + inner.needed ≤
      (nfa.edit (pairChange offset .startAccept)).size := by
    rwa [size_edit]
  rcases lay?_laid inner (offset + 2) _ innerFits (bare_behind_pair bare)
    with ⟨one, oneLaidOut, oneLaid⟩
  have oneLive := live (offset + 2) _ one innerFits (bare_behind_pair bare)
    oneLaidOut
  have rejects : (one.flags (offset + 1)).reject = true := by
    rw [Nfa.flags, oneLaid.outside, ← Nfa.flags]
    · exact reject_pairChange (by omega) _
    · rw [Span.mem_mk]
      omega
  rw [lay?, layPair?_eq_edit (by omega)] at laidOut
  simp only [Option.bind_eq_bind, Option.bind_some] at laidOut
  rw [oneLaidOut, Option.bind_some,
    loop?_eq_edit (by rw [oneLaid.size, size_edit]; omega)
      (by rw [Span.mem_mk]; omega) oneLaid.placed.entered,
    Option.some.injEq] at laidOut
  subst laidOut
  exact live_loop oneLaid.placed.part oneLive accepted rejects

end Nodes

/-- Wherever a pattern without empty character sets is laid out, every state
that does not reject accepts something. -/
theorem laysLive (pattern : Pattern) :
    pattern.filled = true → LaysLive pattern := by
  induction pattern using Pattern.induction with
  | epsilon =>
      exact fun _ => laysLive_pair .epsilon (by rw [needed])
        (fun _ _ => by rw [lay?])
  | literal bytes => exact fun _ => laysLive_literal bytes
  | charset bytes =>
      intro full
      rcases exists_mem_of_filled full with ⟨byte, listed⟩
      exact laysLive_charset listed
  | concatenate children each =>
      intro full
      rw [filled] at full
      exact laysLive_concatenate (fun child listed =>
        each child listed (allFilled_eq_true.mp full child listed)) full
  | alternate children each =>
      intro full
      rw [filled] at full
      exact laysLive_alternate (fun child listed =>
        each child listed (allFilled_eq_true.mp full child listed)) full
  | star inner ih =>
      intro full
      rw [filled] at full
      exact laysLive_star (ih full)

/-- The automaton of a pattern without empty character sets is alive. -/
theorem live_toNfa {pattern : Pattern} (full : pattern.filled = true) :
    pattern.toNfa.Live ⟨0, pattern.needed⟩ := by
  have live := laysLive pattern full 0 _ pattern.toNfa
    (by rw [size_blank]; omega) (bare_blank _ _) (lay?_blank pattern)
  rwa [Nat.zero_add] at live

end Pattern

end Munch
