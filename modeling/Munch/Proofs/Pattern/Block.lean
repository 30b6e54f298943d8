import Munch.Proofs.Nfa.WellFormed
import Munch.Proofs.Pattern.Automaton

/-!
# The block of a pattern

What a pattern is laid out as does not depend on where that happens or on what
was there before: it is a block, which is put together from the blocks of its
children. To lay the pattern out is to place its block (`lay?_eq_place`), and
the automaton of the pattern is the block itself (`getElem?_toNfa`).
-/

namespace Munch

namespace Nfa

open Block

variable {nfa : Nfa} {offset : Nat} {first second block : Block}

/-! ## Marks of a block in its place -/

/-- Whether the states from `offset` on carry the marks of a block. -/
def Marked (nfa : Nfa) (offset : Nat) (block : Block) : Prop :=
  ∀ (index : Nat) (written : NfaState), block[index]? = some written →
    nfa.flags (offset + index) = written.flags

/-- The states of a block that has been placed. -/
theorem getElem?_edit_place (fits : offset + block.length ≤ nfa.size)
    {index : Nat} {written : NfaState} (lookup : block[index]? = some written) :
    ∃ found, nfa.states[offset + index]? = some found ∧
      (nfa.edit (place offset block)).states[offset + index]? =
        some (found.overwrite (written.shift offset)) := by
  have below := (List.getElem?_eq_some_iff.mp lookup).1
  have inside : offset + index < nfa.states.size :=
    (Nat.add_lt_add_left below offset).trans_le fits
  refine ⟨_, Array.getElem?_eq_getElem inside, ?_⟩
  rw [getElem?_edit, Array.getElem?_eq_getElem inside, Option.map_some,
    place_of_getElem? lookup]

/-- Written over states without free moves, a block is found as it is. -/
theorem getElem?_edit_place_of_bare (fits : offset + block.length ≤ nfa.size)
    (bare : nfa.Bare ⟨offset, offset + block.length⟩)
    {index : Nat} {written : NfaState} (lookup : block[index]? = some written) :
    (nfa.edit (place offset block)).states[offset + index]? =
      some (written.shift offset) := by
  rcases getElem?_edit_place fits lookup with ⟨found, known, placed⟩
  have below := (List.getElem?_eq_some_iff.mp lookup).1
  have noMoves := bare (offset + index)
    ⟨Nat.le_add_right offset index, Nat.add_lt_add_left below offset⟩
  rw [epsilons_eq known] at noMoves
  rw [placed, NfaState.overwrite_of_bare (written.shift offset) noMoves]

theorem marked_place (fits : offset + block.length ≤ nfa.size) :
    (nfa.edit (place offset block)).Marked offset block := by
  intro index written lookup
  rcases getElem?_edit_place fits lookup with ⟨found, _, placed⟩
  rw [flags_eq placed, NfaState.flags_overwrite, NfaState.flags_shift]

namespace Marked

theorem front (marked : nfa.Marked offset (first ++ second)) :
    nfa.Marked offset first := by
  intro index written lookup
  have below := (List.getElem?_eq_some_iff.mp lookup).1
  exact marked index written ((List.getElem?_append_left below).trans lookup)

theorem behind
    (marked : nfa.Marked offset (first ++ second.shift first.length)) :
    nfa.Marked (offset + first.length) second := by
  intro index written lookup
  rw [Nat.add_assoc, marked (first.length + index) (written.shift first.length)]
  · exact NfaState.flags_shift first.length written
  · rw [getElem?_append_shift, lookup]
    rfl

/-- A well-formed block is entered at its first state only. -/
theorem entered (marked : nfa.Marked offset block) (formed : block.WellFormed)
    (fits : offset + block.length ≤ nfa.size) :
    nfa.Entered ⟨offset, offset + block.length⟩ where
  inside := Nat.lt_add_of_pos_right formed.length_pos
  fits := fits
  start := by
    intro state inside
    rcases exists_of_mem inside with ⟨index, written, rfl, lookup⟩
    rw [marked index written lookup, formed.start index written lookup]
    exact Nat.add_eq_left.symm

end Marked

/-! ## Joining blocks in their places -/

/-- Blocks side by side are placed one after the other. -/
theorem edit_place_append :
    (nfa.edit (place offset first)).edit
        (place (offset + first.length) second) =
      nfa.edit (place offset (first ++ second.shift first.length)) := by
  rw [edit_edit]
  congr 1
  funext state found
  exact place_append state found

theorem edit_place_append_swap :
    (nfa.edit (place (offset + first.length) second)).edit
        (place offset first) =
      nfa.edit (place offset (first ++ second.shift first.length)) := by
  rw [edit_edit]
  congr 1
  funext state found
  exact place_append_swap state found

/-- Only the last part of a block needs to be known for another one to follow it,
if nothing before that part accepts. -/
theorem followChange_place {last : Span}
    (stop : last.stop = offset + first.length) (begins : offset ≤ last.first)
    (only : ∀ (index : Nat) (state : NfaState), first[index]? = some state →
      state.flags.accept = true → offset + index ∈ last) :
    (fun state found => followChange last
        ⟨offset + first.length, offset + first.length + second.length⟩ state
        (place offset (first ++ second.shift first.length) state found)) =
      place offset (first.follow second) := by
  apply eq_place
  · intro index written lookup found
    rw [getElem?_follow, Option.map_eq_some_iff] at lookup
    rcases lookup with ⟨before, known, rfl⟩
    rw [place_of_getElem? known, followChange]
    by_cases inFirst : index < first.length
    · rw [List.getElem?_append_left inFirst] at known
      have notSecond : offset + index ∉ (⟨offset + first.length,
          offset + first.length + second.length⟩ : Span) := by
        rw [Span.mem_mk]
        omega
      rw [if_neg notSecond, if_pos inFirst, NfaState.overwrite_exitTo,
        NfaState.shift_exitTo]
      split
      next => rfl
      next notLast =>
          -- Only the last part is linked, and nothing before it accepts.
          have closed : before.flags.accept = false :=
            Bool.eq_false_of_not_eq_true fun accepts =>
              notLast (only index before known accepts)
          rw [NfaState.exitTo_of_not_accept]
          rwa [NfaState.flags_shift]
    · have below := (List.getElem?_eq_some_iff.mp known).1
      rw [List.length_append, length_shift] at below
      have notLast : offset + index ∉ last := by
        rw [Span.mem_iff]
        omega
      have inSecond : offset + index ∈ (⟨offset + first.length,
          offset + first.length + second.length⟩ : Span) := by
        rw [Span.mem_mk]
        omega
      rw [if_neg notLast, if_pos inSecond, if_neg inFirst,
        NfaState.overwrite_unmark, NfaState.shift_unmark]
  · intro state outside found
    rw [length_follow, Span.mem_mk] at outside
    rw [place_outside, followChange, if_neg, if_neg]
    · rw [Span.mem_mk]
      omega
    · rw [Span.mem_iff]
      omega
    · rw [List.length_append, length_shift, Span.mem_mk]
      exact outside

/-- To let one block follow another in its place is to place the two of them
behind one another. -/
theorem follow?_place {last : Span} (formed : second.WellFormed)
    (fits : offset + (first.length + second.length) ≤ nfa.size)
    (stop : last.stop = offset + first.length)
    (begins : offset ≤ last.first) (ordered : last.first ≤ last.stop)
    (only : ∀ (index : Nat) (state : NfaState), first[index]? = some state →
      state.flags.accept = true → offset + index ∈ last) :
    follow? last ⟨offset + first.length, offset + first.length + second.length⟩
        (nfa.edit (place offset (first ++ second.shift first.length))) =
      some (nfa.edit (place offset (first.follow second))) := by
  have marked : (nfa.edit (place offset
      (first ++ second.shift first.length))).Marked offset _ :=
    marked_place (by rwa [List.length_append, length_shift])
  have entered := marked.behind.entered formed
    (by rwa [size_edit, Nat.add_assoc])
  rw [follow?_eq_edit ordered (Nat.le_of_eq stop) entered, edit_edit,
    followChange_place stop begins only]

theorem loopChange_place :
    (fun state found => loopChange offset
        ⟨offset + 2, offset + 2 + block.length⟩ state
        (place offset (gate .startAccept [] ++ block.shift 2) state found)) =
      place offset (loop block) := by
  apply eq_place
  · intro index written lookup found
    rw [getElem?_loop, Option.map_eq_some_iff] at lookup
    rcases lookup with ⟨before, known, rfl⟩
    rw [place_of_getElem? known, loopChange]
    cases index with
    | zero =>
        rw [Nat.add_zero, if_pos rfl, if_pos rfl]
        simp
    | succ index =>
        cases index with
        | zero =>
            have outside : offset + 1 ∉
                (⟨offset + 2, offset + 2 + block.length⟩ : Span) := by
              rw [Span.mem_mk]
              omega
            cases known
            rw [if_neg (Nat.succ_ne_self offset), if_neg outside,
              if_neg Nat.one_ne_zero, NfaState.unmark_onlyStart rfl,
              NfaState.exitTo_of_not_accept 0 rfl]
        | succ index =>
            have below := (List.getElem?_eq_some_iff.mp known).1
            rw [List.length_append, length_shift, length_gate] at below
            have inside : offset + (index + 2) ∈
                (⟨offset + 2, offset + 2 + block.length⟩ : Span) := by
              rw [Span.mem_mk]
              omega
            rw [if_neg (by omega), if_pos inside, if_neg (Nat.succ_ne_zero _)]
            simp
  · intro state outside found
    rw [length_loop, Span.mem_mk] at outside
    rw [place_outside, loopChange, if_neg, if_neg]
    · rw [Span.mem_mk]
      omega
    · omega
    · rw [List.length_append, length_shift, length_gate, Span.mem_mk]
      exact outside

/-- To loop a block in its place back to a gate is to place the loop. -/
theorem loop?_place (formed : block.WellFormed)
    (fits : offset + (2 + block.length) ≤ nfa.size) :
    loop? offset ⟨offset + 2, offset + 2 + block.length⟩
        (nfa.edit (place offset (gate .startAccept [] ++ block.shift 2))) =
      some (nfa.edit (place offset (loop block))) := by
  have marked : (nfa.edit (place offset
      (gate .startAccept [] ++ block.shift 2))).Marked offset _ :=
    marked_place (by rwa [List.length_append, length_shift, length_gate])
  have entered := Marked.entered (Marked.behind marked) formed
    (by rwa [size_edit, length_gate, Nat.add_assoc])
  rw [loop?_eq_edit, edit_edit, loopChange_place]
  · rw [size_edit]
    omega
  · rw [Span.mem_mk]
    omega
  · exact entered

end Nfa

namespace Pattern

open Nfa Block

mutual

/-- The states that a pattern is laid out as. -/
def block : Pattern → Block
  | .epsilon => .gate .startAccept []
  | .literal bytes => .literal bytes
  | .charset bytes => .charset bytes
  | .concatenate [] => .gate .startAccept []
  | .concatenate (child :: children) =>
      (blocks children).foldl .follow child.block
  | .alternate [] => .gate .startAccept []
  | .alternate (child :: children) => .choice (child.block :: blocks children)
  | .star inner => .loop inner.block

/-- The blocks of patterns, one by one. -/
def blocks : List Pattern → List Block
  | [] => []
  | child :: children => child.block :: blocks children

end

theorem blocks_eq_map (children : List Pattern) :
    blocks children = children.map block := by
  induction children with
  | nil => rw [blocks, List.map_nil]
  | cons child children ih => rw [blocks, List.map_cons, ih]

mutual

/-- A pattern is laid out as many states as it needs. -/
theorem length_block (pattern : Pattern) :
    pattern.block.length = pattern.needed := by
  cases pattern with
  | epsilon => rw [block, needed, length_gate]
  | literal bytes => rw [block, needed, length_literal]
  | charset bytes => rw [block, needed, length_charset]
  | concatenate children =>
      cases children with
      | nil => rw [block, needed, length_gate]
      | cons child children =>
          rw [block, needed, length_foldl_follow, length_block child,
            length_row children]
  | alternate children =>
      cases children with
      | nil => rw [block, needed, length_gate]
      | cons child children =>
          rw [block, needed, length_choice, row, List.length_append,
            length_shift, length_block child, length_row children]
  | star inner => rw [block, needed, length_loop, length_block inner]
termination_by sizeOf pattern

theorem length_row (children : List Pattern) :
    (row (blocks children)).length = neededAll children := by
  cases children with
  | nil => rw [blocks, neededAll, row, List.length_nil]
  | cons child children =>
      rw [blocks, neededAll, row, List.length_append, length_shift,
        length_block child, length_row children]
termination_by sizeOf children

end

theorem wellFormed_block (pattern : Pattern) : pattern.block.WellFormed := by
  induction pattern using Pattern.induction with
  | epsilon =>
      rw [block]
      exact .gate
  | literal bytes =>
      rw [block]
      exact .literal bytes
  | charset bytes =>
      rw [block]
      exact .charset bytes
  | concatenate children each =>
      cases children with
      | nil =>
          rw [block]
          exact .gate
      | cons child children =>
          rw [block, blocks_eq_map]
          apply WellFormed.foldl_follow (each child List.mem_cons_self)
          intro other listed
          rcases List.mem_map.mp listed with ⟨pattern, member, rfl⟩
          exact each pattern (List.mem_cons_of_mem child member)
  | alternate children each =>
      cases children with
      | nil =>
          rw [block]
          exact .gate
      | cons child children =>
          rw [block, blocks_eq_map]
          apply WellFormed.choice
          intro other listed
          change other ∈ (child :: children).map block at listed
          rcases List.mem_map.mp listed with ⟨pattern, member, rfl⟩
          exact each pattern member
  | star inner formed =>
      rw [block]
      exact formed.loop

/-! ## Laying out is placing -/

section Row

variable {nfa : Nfa} {offset : Nat}

theorem chain?_single (span : Span) (nfa : Nfa) :
    chain? [span] nfa = some nfa := by
  rw [chain?]
  intro _ _ _ equal
  cases equal

/-- To chain a row behind a block in its place is to put the blocks of the row
behind it one by one. -/
theorem chain?_place (children : List Pattern) {before : Block} {last : Span}
    (fits : offset + (before.length + neededAll children) ≤ nfa.size)
    (stop : last.stop = offset + before.length)
    (begins : offset ≤ last.first) (ordered : last.first ≤ last.stop)
    (only : ∀ (index : Nat) (state : NfaState), before[index]? = some state →
      state.flags.accept = true → offset + index ∈ last) :
    chain? (last :: spans (offset + before.length) children)
        (nfa.edit (place offset
          (before ++ (row (blocks children)).shift before.length))) =
      some (nfa.edit (place offset
        ((blocks children).foldl follow before))) := by
  induction children generalizing before last with
  | nil =>
      have whole : before ++ (row (blocks [])).shift before.length = before :=
        List.append_nil before
      rw [whole]
      exact chain?_single last _
  | cons child children ih =>
      rw [neededAll, ← length_block child] at fits
      have length : (before ++ child.block.shift before.length).length =
          (before.follow child.block).length := by
        rw [List.length_append, length_shift, length_follow]
      -- What stands behind the next child is placed first, so that the joint
      -- can be looked at alone.
      obtain ⟨base, behind⟩ : ∃ base, base = nfa.edit
          (place (offset + (before.follow child.block).length)
            (row (blocks children))) := ⟨_, rfl⟩
      have apart : nfa.edit (place offset (before ++
          (row (blocks (child :: children))).shift before.length)) =
          base.edit (place offset
            (before ++ child.block.shift before.length)) := by
        rw [behind, blocks, append_row_cons, ← edit_place_append_swap, length]
      have follows : follow? last ⟨offset + before.length,
          offset + before.length + child.block.length⟩
            (base.edit (place offset
              (before ++ child.block.shift before.length))) =
          some (base.edit (place offset (before.follow child.block))) := by
        apply follow?_place (wellFormed_block child) _ stop begins ordered only
        rw [behind, size_edit]
        omega
      have joined : base.edit (place offset (before.follow child.block)) =
          nfa.edit (place offset (before.follow child.block ++
            (row (blocks children)).shift
              (before.follow child.block).length)) := by
        rw [behind, edit_place_append_swap]
      rw [apart, spans, chain?, ← length_block child, follows]
      simp only [Option.bind_eq_bind, Option.bind_some]
      rw [joined, Nat.add_assoc, ← length_follow, blocks, List.foldl_cons]
      apply ih
      · rw [length_follow]
        omega
      · rw [length_follow]
      · exact Nat.le_add_right offset before.length
      · rw [length_follow]
        exact Nat.add_le_add_left (Nat.le_add_right _ _) offset
      · intro index state lookup accepts
        have behind := length_le_of_accept_follow lookup accepts
        have below := (List.getElem?_eq_some_iff.mp lookup).1
        rw [Span.mem_mk]
        omega

theorem map_first_spans (children : List Pattern) (offset : Nat) :
    (spans offset children).map (·.first) =
      (starts (blocks children)).map (offset + ·) := by
  induction children generalizing offset with
  | nil => rw [spans, blocks, starts, List.map_nil, List.map_nil]
  | cons child children ih =>
      rw [spans, blocks, starts, List.map_cons, List.map_cons, ih,
        List.map_map, length_block]
      congr 1
      apply List.map_congr_left
      intro start _
      exact Nat.add_assoc offset child.needed start

/-- The parts of a row in its place are entered at their first states only. -/
theorem entered_row {children : List Pattern} {offset : Nat}
    (marked : nfa.Marked offset (row (blocks children)))
    (fits : offset + neededAll children ≤ nfa.size) :
    ∀ span ∈ spans offset children, nfa.Entered span := by
  induction children generalizing offset with
  | nil =>
      intro span listed
      cases listed
  | cons child children ih =>
      intro span listed
      rw [neededAll, ← length_block child] at fits
      rw [blocks, row] at marked
      rw [spans, ← length_block child] at listed
      cases listed with
      | head =>
          exact marked.front.entered (wellFormed_block child) (by omega)
      | tail _ listed =>
          exact ih marked.behind (by omega) span listed

theorem enterChange_place (children : List Pattern) :
    (fun state found => enterChange offset (spans (offset + 2) children) state
        (place offset (gate .onlyStart [] ++ (row (blocks children)).shift 2)
          state found)) =
      place offset (choice (blocks children)) := by
  apply eq_place
  · intro index written lookup found
    rw [getElem?_choice, Option.map_eq_some_iff] at lookup
    rcases lookup with ⟨before, known, rfl⟩
    rw [place_of_getElem? known, enterChange]
    cases index with
    | zero =>
        rw [Nat.add_zero, if_pos rfl, if_pos rfl, map_first_spans]
        simp [Function.comp_def, Nat.add_assoc]
    | succ index =>
        cases index with
        | zero =>
            have outside : ¬∃ span ∈ spans (offset + 2) children,
                offset + 1 ∈ span := by
              rintro ⟨span, listed, inside⟩
              exact notMem_spans_of_lt listed (Nat.lt_succ_self _) inside
            cases known
            rw [if_neg (Nat.succ_ne_self offset), if_neg outside,
              if_neg Nat.one_ne_zero, NfaState.unmark_onlyStart rfl]
        | succ index =>
            have below := (List.getElem?_eq_some_iff.mp known).1
            rw [List.length_append, length_shift, length_gate, length_row]
              at below
            have inside : offset + (index + 2) ∈
                (⟨offset + 2, offset + 2 + neededAll children⟩ : Span) := by
              rw [Span.mem_mk]
              omega
            rw [if_neg (by omega), if_pos (exists_mem_spans inside),
              if_neg (Nat.succ_ne_zero _), NfaState.overwrite_unmark,
              NfaState.shift_unmark]
  · intro state outside found
    rw [length_choice, length_row, Span.mem_mk] at outside
    rw [place_outside, enterChange, if_neg, if_neg]
    · rintro ⟨span, listed, inside⟩
      have within := within_of_mem_spans listed
      rw [Span.mem_iff] at inside
      omega
    · omega
    · rw [List.length_append, length_shift, length_gate, length_row,
        Span.mem_mk]
      exact outside

/-- To move from a gate into a row in its place is to place their choice. -/
theorem enterEach?_place (children : List Pattern)
    (fits : offset + (2 + neededAll children) ≤ nfa.size) :
    enterEach? offset (spans (offset + 2) children)
        (nfa.edit (place offset
          (gate .onlyStart [] ++ (row (blocks children)).shift 2))) =
      some (nfa.edit (place offset (choice (blocks children)))) := by
  have marked : (nfa.edit (place offset
      (gate .onlyStart [] ++ (row (blocks children)).shift 2))).Marked
        offset _ :=
    marked_place (by
      rwa [List.length_append, length_shift, length_gate, length_row])
  have entered : ∀ span ∈ spans (offset + 2) children,
      (nfa.edit (place offset
        (gate .onlyStart [] ++ (row (blocks children)).shift 2))).Entered span :=
    entered_row (Marked.behind marked)
      (by rwa [size_edit, Nat.add_assoc])
  rw [enterEach?_eq_edit _ _ _ entered (spans_apart _ _), edit_edit,
    enterChange_place]
  · rw [size_edit]
    omega
  · intro span listed
    exact notMem_spans_of_lt listed (by omega)

end Row

mutual

/-- To lay a pattern out is to place its block. -/
theorem lay?_eq_place (pattern : Pattern) (offset : Nat) (nfa : Nfa)
    (fits : offset + pattern.needed ≤ nfa.size) :
    pattern.lay? offset nfa =
      some (nfa.edit (place offset pattern.block)) := by
  cases pattern with
  | epsilon => rw [lay?, layPair?_eq_edit fits, pairChange_eq_place, block]
  | literal bytes =>
      rw [lay?, layLiteral?_eq_edit fits, literalChange_eq_place, block]
  | charset bytes =>
      rw [lay?, layCharset?_eq_edit fits, charsetChange_eq_place, block]
  | concatenate children =>
      cases children with
      | nil => rw [lay?, layPair?_eq_edit fits, pairChange_eq_place, block]
      | cons child children =>
          rw [lay?_concatenate_cons,
            layAll?_eq_place (child :: children) offset nfa fits]
          rw [needed, ← length_block child] at fits
          simp only [Option.bind_eq_bind, Option.bind_some]
          rw [spans, blocks, row, block, ← length_block child]
          apply chain?_place children fits rfl (Nat.le_refl offset)
            (Nat.le_add_right offset _)
          intro index state lookup _
          have below := (List.getElem?_eq_some_iff.mp lookup).1
          rw [Span.mem_mk]
          omega
  | alternate children =>
      cases children with
      | nil => rw [lay?, layPair?_eq_edit fits, pairChange_eq_place, block]
      | cons child children =>
          rw [needed, ← neededAll] at fits
          rw [lay?_alternate_cons,
            layAll?_eq_place (child :: children) (offset + 2) nfa (by omega)]
          simp only [Option.bind_eq_bind, Option.bind_some]
          rw [layPair?_eq_edit (by rw [size_edit]; omega), pairChange_eq_place,
            Option.bind_some, block, ← blocks]
          have placed : (nfa.edit (place (offset + 2)
              (row (blocks (child :: children))))).edit
                (place offset (gate .onlyStart [])) =
              nfa.edit (place offset (gate .onlyStart [] ++
                (row (blocks (child :: children))).shift 2)) :=
            edit_place_append_swap
          rw [placed]
          exact enterEach?_place (child :: children) fits
  | star inner =>
      rw [needed] at fits
      rw [lay?, layPair?_eq_edit (by omega), pairChange_eq_place]
      simp only [Option.bind_eq_bind, Option.bind_some]
      rw [lay?_eq_place inner (offset + 2) _ (by rw [size_edit]; omega)]
      simp only [Option.bind_some]
      have placed : (nfa.edit (place offset (gate .startAccept []))).edit
          (place (offset + 2) inner.block) =
          nfa.edit (place offset
            (gate .startAccept [] ++ inner.block.shift 2)) :=
        edit_place_append
      rw [placed, ← length_block inner, block]
      rw [← length_block inner] at fits
      exact loop?_place (wellFormed_block inner) fits
termination_by sizeOf pattern

/-- To lay patterns out side by side is to place the row of their blocks. -/
theorem layAll?_eq_place (children : List Pattern) (offset : Nat) (nfa : Nfa)
    (fits : offset + neededAll children ≤ nfa.size) :
    layAll? children offset nfa =
      some (nfa.edit (place offset (row (blocks children)))) := by
  cases children with
  | nil =>
      rw [layAll?, edit_eq_self]
      intro state found _
      exact place_nil state found
  | cons child children =>
      rw [neededAll] at fits
      rw [layAll?, lay?_eq_place child offset nfa (by omega)]
      simp only [Option.bind_eq_bind, Option.bind_some]
      rw [layAll?_eq_place children _ _ (by rw [size_edit]; omega),
        ← length_block child, edit_place_append, blocks, row]
termination_by sizeOf children

end

/-! ## Among blank states -/

/-- Among blank states, a block that has been placed is all there is. -/
theorem place_blank_cases {block : Block} {offset size state : Nat}
    {found : NfaState}
    (fits : offset + block.length ≤ size)
    (lookup : ((Nfa.blank size).edit (place offset block)).states[state]? =
      some found) :
    found = .blank ∨ ∃ index written, state = offset + index ∧
      block[index]? = some written ∧ found = written.shift offset := by
  by_cases inside : state ∈ (⟨offset, offset + block.length⟩ : Span)
  · rcases exists_of_mem inside with ⟨index, written, rfl, known⟩
    rw [getElem?_edit_place_of_bare (by rwa [size_blank])
      (bare_blank size _) known, Option.some.injEq] at lookup
    exact .inr ⟨index, written, rfl, known, lookup.symm⟩
  · rw [getElem?_edit_of_same (place_outside inside)] at lookup
    have listed := Array.mem_of_getElem? lookup
    rw [Nfa.blank, Array.mem_replicate] at listed
    exact .inl listed.2

/-- The automaton of a pattern is its block, placed over blank states. -/
theorem toNfa_eq_place (pattern : Pattern) :
    pattern.toNfa = (Nfa.blank pattern.needed).edit (place 0 pattern.block) := by
  have laid := lay?_eq_place pattern 0 (.blank pattern.needed)
    (by rw [size_blank, Nat.zero_add])
  rwa [lay?_blank, Option.some.injEq] at laid

theorem getElem?_toNfa (pattern : Pattern) (state : Nat) :
    pattern.toNfa.states[state]? = pattern.block[state]? := by
  have fits : 0 + pattern.block.length ≤ (Nfa.blank pattern.needed).size := by
    rw [size_blank, length_block, Nat.zero_add]
  cases lookup : pattern.block[state]? with
  | none =>
      rw [List.getElem?_eq_none_iff, length_block, ← size_toNfa] at lookup
      exact Array.getElem?_eq_none lookup
  | some written =>
      have placed := getElem?_edit_place_of_bare fits (bare_blank _ _) lookup
      rw [Nat.zero_add, NfaState.shift_zero] at placed
      rw [toNfa_eq_place, placed]

theorem mem_toNfa {pattern : Pattern} {state : NfaState} :
    state ∈ pattern.toNfa.states ↔ state ∈ pattern.block := by
  rw [Array.mem_iff_getElem?, List.mem_iff_getElem?]
  simp only [getElem?_toNfa]

end Pattern

end Munch
