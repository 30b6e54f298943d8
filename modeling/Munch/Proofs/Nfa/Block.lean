import Munch.Proofs.Pattern.Leaf

/-!
# Blocks

A block is a row of states whose moves are counted from its own first state, so
it says the same wherever it stands. Placing a block overwrites a stretch of an
automaton, except that free moves which a state already has stay in front of its
new ones.

Blocks are put together as the parts of an automaton are: behind one another,
side by side behind a gate, and in a loop. What is put together is a block
again, and putting three behind one another does not depend on which two come
first (`follow_assoc`).
-/

namespace Munch

namespace ByteTable

variable {α β γ : Type}

/-- The table with a function applied to each entry. -/
def map (change : α → β) (table : ByteTable α) : ByteTable β :=
  .ofFn fun byte => change (table.get byte)

@[simp] theorem get_map (change : α → β) (table : ByteTable α) (byte : UInt8) :
    (table.map change).get byte = change (table.get byte) :=
  get_ofFn _ byte

@[simp] theorem map_const (change : α → β) (value : α) :
    (const value).map change = const (change value) := by
  apply ext
  intro byte
  rw [get_map, get_const, get_const]

theorem map_map (change : α → β) (next : β → γ) (table : ByteTable α) :
    (table.map change).map next = table.map (next ∘ change) := by
  apply ext
  intro byte
  rw [get_map, get_map, get_map]
  rfl

theorem map_set (change : α → β) (table : ByteTable α) (byte : UInt8)
    (value : α) :
    (table.set byte value).map change =
      (table.map change).set byte (change value) := by
  apply ext
  intro other
  rw [get_map, get_set, get_set, get_map]
  exact apply_ite change _ _ _

theorem map_foldl_set (change : α → β) (table : ByteTable α)
    (bytes : List UInt8) (value : α) :
    (bytes.foldl (fun table byte => table.set byte value) table).map change =
      bytes.foldl (fun table byte => table.set byte (change value))
        (table.map change) := by
  apply ext
  intro other
  rw [get_map, get_foldl_set, get_foldl_set, get_map]
  exact apply_ite change _ _ _

end ByteTable

namespace NfaState

/-- The state with all of its moves moved by `distance`. -/
def shift (distance : Nat) (state : NfaState) : NfaState :=
  ⟨state.flags, state.transitions.map (distance + ·),
    state.epsilons.map (distance + ·)⟩

/-- What a state becomes when another one is written over it: its own free moves
stay, in front of the new ones. -/
def overwrite (found written : NfaState) : NfaState :=
  ⟨written.flags, written.transitions, found.epsilons ++ written.epsilons⟩

variable (distance door : Nat) (flags : Flags) (targets : List Nat)
  (found state : NfaState)

@[simp] theorem flags_shift :
    (state.shift distance).flags = state.flags := by
  rw [shift]

@[simp] theorem transitions_shift :
    (state.shift distance).transitions =
      state.transitions.map (distance + ·) := by
  rw [shift]

@[simp] theorem epsilons_shift :
    (state.shift distance).epsilons = state.epsilons.map (distance + ·) := by
  rw [shift]

@[simp] theorem shift_zero : state.shift 0 = state := by
  have table : state.transitions.map (0 + ·) = state.transitions := by
    apply ByteTable.ext
    intro byte
    rw [ByteTable.get_map, Nat.zero_add]
  have moves : state.epsilons.map (0 + ·) = state.epsilons := by
    simp only [Nat.zero_add, List.map_id']
  rw [shift, table, moves]

@[simp] theorem shift_shift (further : Nat) :
    (state.shift distance).shift further = state.shift (further + distance) := by
  have sums : ((further + ·) ∘ (distance + ·) : Nat → Nat) =
      (further + distance + ·) := by
    funext target
    exact (Nat.add_assoc further distance target).symm
  simp only [shift, ByteTable.map_map, List.map_map, sums]

@[simp] theorem shift_unmark :
    (state.unmark flags).shift distance =
      (state.shift distance).unmark flags := by
  simp only [shift, unmark]

@[simp] theorem shift_link :
    (state.link targets).shift distance =
      (state.shift distance).link (targets.map (distance + ·)) := by
  simp only [shift, link, List.map_append]

@[simp] theorem shift_exitTo :
    (state.exitTo door).shift distance =
      (state.shift distance).exitTo (distance + door) := by
  rw [exitTo, exitTo, flags_shift]
  split
  next => exact shift_link distance [door] _
  next => rfl

@[simp] theorem unmark_exitTo :
    (state.exitTo door).unmark .onlyStart =
      (state.unmark .onlyStart).exitTo door := by
  rw [exitTo, exitTo, flags_unmark, Flags.accept_remove_onlyStart]
  split
  next => simp [unmark, link, Flags.remove, Flags.onlyStart, Flags.onlyAccept]
  next => rfl

theorem unmark_unmark :
    (state.unmark flags).unmark flags = state.unmark flags := by
  simp [unmark, Flags.remove]

@[simp] theorem flags_overwrite :
    (found.overwrite state).flags = state.flags := rfl

@[simp] theorem transitions_overwrite :
    (found.overwrite state).transitions = state.transitions := rfl

@[simp] theorem epsilons_overwrite :
    (found.overwrite state).epsilons = found.epsilons ++ state.epsilons := rfl

theorem overwrite_of_bare {found : NfaState} (bare : found.epsilons = []) :
    found.overwrite state = state := by
  rw [overwrite, bare, List.nil_append]

/-- Written over two states, a third one gives the same state twice only if the
two have the same free moves. -/
theorem overwrite_inj {found other : NfaState} :
    found.overwrite state = other.overwrite state ↔
      found.epsilons = other.epsilons := by
  simp [overwrite]

@[simp] theorem overwrite_unmark :
    (found.overwrite state).unmark flags =
      found.overwrite (state.unmark flags) := rfl

@[simp] theorem overwrite_link :
    (found.overwrite state).link targets =
      found.overwrite (state.link targets) := by
  simp only [overwrite, link, List.append_assoc]

@[simp] theorem overwrite_exitTo :
    (found.overwrite state).exitTo door =
      found.overwrite (state.exitTo door) := by
  rw [exitTo, exitTo, flags_overwrite]
  split
  next => exact overwrite_link [door] found (state.unmark .onlyAccept)
  next => rfl

theorem exitTo_of_not_accept {state : NfaState}
    (closed : state.flags.accept = false) : state.exitTo door = state := by
  rw [exitTo, closed]
  rfl

@[simp] theorem accept_exitTo : (state.exitTo door).flags.accept = false := by
  rw [exitTo]
  split
  next => rw [flags_link, flags_unmark, Flags.accept_remove_onlyAccept]
  next closed => exact Bool.eq_false_of_not_eq_true closed

@[simp] theorem exitTo_exitTo (other : Nat) :
    (state.exitTo door).exitTo other = state.exitTo door :=
  exitTo_of_not_accept other (accept_exitTo door state)

end NfaState

/-- A row of states whose moves are counted from the first of them. -/
abbrev Block := List NfaState

namespace Block

/-- The block with all of its moves moved by `distance`. -/
def shift (distance : Nat) (block : Block) : Block :=
  block.map (·.shift distance)

/-- A state with the given marks and free moves, and behind it the sink that all
its transitions go to. -/
def gate (flags : Flags) (targets : List Nat) : Block :=
  [⟨flags, .const 1, targets⟩, ⟨.onlyReject, .const 1, []⟩]

/-- A chain of states along the bytes of a literal, and its sink. -/
def literal (bytes : Bytes) : Block :=
  (List.range (bytes.length + 1)).map (fun here =>
      ⟨⟨decide (here = 0), decide (here = bytes.length), false⟩,
        Nfa.wire (bytes.length + 1) here bytes[here]?, []⟩) ++
    [⟨.onlyReject, .const (bytes.length + 1), []⟩]

/-- An initial state, an accepting state one byte away, and the sink. -/
def charset (bytes : Bytes) : Block :=
  [⟨.onlyStart, bytes.foldl (fun table byte => table.set byte 1) (.const 2), []⟩,
    ⟨.onlyAccept, .const 2, []⟩, ⟨.onlyReject, .const 2, []⟩]

/-- One block behind another: where the first accepted it now moves freely to the
first state of the second, which is no initial state any more. -/
def follow (first second : Block) : Block :=
  first.map (·.exitTo first.length) ++
    (second.shift first.length).map (·.unmark .onlyStart)

/-- Blocks side by side. -/
def row : List Block → Block
  | [] => []
  | block :: blocks => block ++ (row blocks).shift block.length

/-- Where each of the blocks of a row begins. -/
def starts : List Block → List Nat
  | [] => []
  | block :: blocks => 0 :: (starts blocks).map (block.length + ·)

/-- Blocks side by side behind a gate that moves freely into each of them. -/
def choice (blocks : List Block) : Block :=
  gate .onlyStart ((starts blocks).map (2 + ·)) ++
    ((row blocks).shift 2).map (·.unmark .onlyStart)

/-- A block behind a gate that moves freely into it. Where the block accepted it
now moves freely back to the gate. -/
def loop (block : Block) : Block :=
  gate .startAccept [2] ++
    (block.shift 2).map fun state => (state.unmark .onlyStart).exitTo 0

variable (distance : Nat) (first second third block : Block)

@[simp] theorem length_shift : (block.shift distance).length = block.length :=
  List.length_map _

theorem getElem?_shift (index : Nat) :
    (block.shift distance)[index]? = block[index]?.map (·.shift distance) :=
  List.getElem?_map

@[simp] theorem length_gate (flags : Flags) (targets : List Nat) :
    (gate flags targets).length = 2 := rfl

@[simp] theorem length_charset (bytes : Bytes) :
    (charset bytes).length = 3 := rfl

@[simp] theorem length_choice (blocks : List Block) :
    (choice blocks).length = 2 + (row blocks).length := by
  simp only [choice, List.length_append, List.length_map, length_shift,
    length_gate]

@[simp] theorem length_loop : (loop block).length = 2 + block.length := by
  simp only [loop, List.length_append, List.length_map, length_shift,
    length_gate]

@[simp] theorem length_follow :
    (first.follow second).length = first.length + second.length := by
  simp only [follow, List.length_append, List.length_map, length_shift]

@[simp] theorem length_literal (bytes : Bytes) :
    (literal bytes).length = bytes.length + 2 := by
  simp only [literal, List.length_append, List.length_map, List.length_range,
    List.length_singleton]

theorem literal_cases {bytes : Bytes} {index : Nat} {written : NfaState}
    (lookup : (literal bytes)[index]? = some written) :
    (index ≤ bytes.length ∧
      written = ⟨⟨decide (index = 0), decide (index = bytes.length), false⟩,
        Nfa.wire (bytes.length + 1) index bytes[index]?, []⟩) ∨
    (index = bytes.length + 1 ∧
      written = ⟨.onlyReject, .const (bytes.length + 1), []⟩) := by
  rw [literal, List.getElem?_append] at lookup
  split at lookup
  next along =>
      simp only [List.length_map, List.length_range] at along
      simp only [List.getElem?_map, List.getElem?_range along, Option.map_some,
        Option.some.injEq] at lookup
      exact .inl ⟨Nat.le_of_lt_succ along, lookup.symm⟩
  next behind =>
      simp only [List.length_map, List.length_range] at behind lookup
      have only := (List.getElem?_eq_some_iff.mp lookup).1
      rw [List.length_singleton] at only
      have last : index = bytes.length + 1 := by omega
      subst last
      rw [Nat.sub_self] at lookup
      exact .inr ⟨rfl, (Option.some.inj lookup).symm⟩

theorem getElem?_append_shift (index : Nat) :
    (first ++ second.shift first.length)[first.length + index]? =
      second[index]?.map (·.shift first.length) := by
  rw [List.getElem?_append_right (Nat.le_add_right _ _),
    Nat.add_sub_cancel_left, getElem?_shift]

/-- A state of two blocks side by side is one of the first or one of the
second. -/
theorem append_shift_cases {first second : Block} {index : Nat}
    {state : NfaState}
    (lookup : (first ++ second.shift first.length)[index]? = some state) :
    first[index]? = some state ∨
      ∃ place found, index = first.length + place ∧
        second[place]? = some found ∧ state = found.shift first.length := by
  by_cases inside : index < first.length
  · rw [List.getElem?_append_left inside] at lookup
    exact .inl lookup
  · obtain ⟨place, rfl⟩ := Nat.exists_eq_add_of_le (Nat.not_lt.mp inside)
    rw [getElem?_append_shift, Option.map_eq_some_iff] at lookup
    rcases lookup with ⟨found, known, rfl⟩
    exact .inr ⟨place, found, rfl, known, rfl⟩

/-- What following does to each state of two blocks side by side. -/
theorem getElem?_follow (index : Nat) :
    (first.follow second)[index]? =
      (first ++ second.shift first.length)[index]?.map fun state =>
        if index < first.length then state.exitTo first.length
        else state.unmark .onlyStart := by
  rw [follow, List.getElem?_append, List.getElem?_append, List.length_map]
  split
  next => exact List.getElem?_map
  next => exact List.getElem?_map

/-- Of two blocks behind one another only the second accepts. -/
theorem length_le_of_accept_follow {first second : Block} {index : Nat}
    {state : NfaState} (lookup : (first.follow second)[index]? = some state)
    (accepts : state.flags.accept = true) : first.length ≤ index := by
  rw [getElem?_follow, Option.map_eq_some_iff] at lookup
  rcases lookup with ⟨before, _, rfl⟩
  split at accepts
  next =>
      rw [NfaState.accept_exitTo] at accepts
      cases accepts
  next behind => exact Nat.not_lt.mp behind

/-- What moving into a row does to each state of the row and its gate. -/
theorem getElem?_choice (blocks : List Block) (index : Nat) :
    (choice blocks)[index]? =
      (gate .onlyStart [] ++ (row blocks).shift 2)[index]?.map fun state =>
        if index = 0 then state.link ((starts blocks).map (2 + ·))
        else state.unmark .onlyStart := by
  match index with
  | 0 => rfl
  | 1 => rfl
  | index + 2 => exact List.getElem?_map

/-- What looping does to each state of a block and its gate. -/
theorem getElem?_loop (index : Nat) :
    (loop block)[index]? =
      (gate .startAccept [] ++ block.shift 2)[index]?.map fun state =>
        if index = 0 then state.link [2]
        else (state.unmark .onlyStart).exitTo 0 := by
  match index with
  | 0 => rfl
  | 1 => rfl
  | index + 2 => exact List.getElem?_map

theorem length_foldl_follow (blocks : List Block) :
    (blocks.foldl follow first).length =
      first.length + (row blocks).length := by
  induction blocks generalizing first with
  | nil => rfl
  | cons second blocks ih =>
      rw [List.foldl_cons, ih, length_follow, row, List.length_append,
        length_shift, Nat.add_assoc]

theorem shift_append :
    (first ++ second : Block).shift distance =
      first.shift distance ++ second.shift distance :=
  List.map_append

theorem shift_shift (further : Nat) :
    (block.shift distance).shift further = block.shift (further + distance) := by
  simp only [shift, List.map_map]
  apply List.map_congr_left
  intro state _
  exact NfaState.shift_shift distance state further

theorem append_row_cons (blocks : List Block) :
    first ++ (row (second :: blocks)).shift first.length =
      (first ++ second.shift first.length) ++
        (row blocks).shift (first ++ second.shift first.length).length := by
  rw [row, shift_append, shift_shift, List.length_append, length_shift,
    List.append_assoc]

/-- Blocks may be put behind one another in any grouping. -/
theorem follow_assoc :
    (first.follow second).follow third =
      first.follow (second.follow third) := by
  simp only [follow, shift, List.map_append, List.map_map, List.append_assoc,
    List.length_append, List.length_map, Function.comp_def,
    NfaState.exitTo_exitTo, NfaState.shift_exitTo, NfaState.unmark_exitTo,
    NfaState.shift_unmark, NfaState.shift_shift, NfaState.unmark_unmark]

/-! ## Placing a block -/

/-- Write a block over the states from `offset` on. -/
def place (offset : Nat) (block : Block) : Nat → NfaState → NfaState :=
  fun state found =>
    if state < offset then found
    else
      match block[state - offset]? with
      | some written => found.overwrite (written.shift offset)
      | none => found

section Place

variable {offset : Nat} {first second block : Block}

theorem place_of_getElem? {index : Nat} {written : NfaState}
    (lookup : block[index]? = some written) (found : NfaState) :
    place offset block (offset + index) found =
      found.overwrite (written.shift offset) := by
  have notBefore : ¬offset + index < offset := by omega
  rw [place, if_neg notBefore, Nat.add_sub_cancel_left, lookup]

theorem place_outside {state : Nat}
    (outside : state ∉ (⟨offset, offset + block.length⟩ : Span))
    (found : NfaState) : place offset block state found = found := by
  rw [place]
  split
  next => rfl
  next notBefore =>
      rw [List.getElem?_eq_none]
      rw [Span.mem_mk] at outside
      omega

theorem place_nil (state : Nat) (found : NfaState) :
    place offset [] state found = found :=
  place_outside (fun inside => Nat.not_lt.mpr inside.1 inside.2) found

/-- A place in the stretch of a block is that of one of its states. -/
theorem exists_of_mem {state : Nat}
    (inside : state ∈ (⟨offset, offset + block.length⟩ : Span)) :
    ∃ index written, state = offset + index ∧
      block[index]? = some written := by
  rw [Span.mem_mk] at inside
  have below : state - offset < block.length := by omega
  exact ⟨state - offset, _, by omega, List.getElem?_eq_getElem below⟩

/-- What writes every state of a block and changes nothing else places it. -/
theorem eq_place {change : Nat → NfaState → NfaState}
    (writes : ∀ index written, block[index]? = some written → ∀ found,
      change (offset + index) found = found.overwrite (written.shift offset))
    (outside : ∀ state, state ∉ (⟨offset, offset + block.length⟩ : Span) →
      ∀ found, change state found = found) :
    change = place offset block := by
  funext state found
  by_cases inside : state ∈ (⟨offset, offset + block.length⟩ : Span)
  · rcases exists_of_mem inside with ⟨index, written, rfl, lookup⟩
    rw [writes index written lookup, place_of_getElem? lookup]
  · rw [outside state inside, place_outside inside]

theorem place_append_left {state : Nat}
    (inside : state ∈ (⟨offset, offset + first.length⟩ : Span))
    (found : NfaState) :
    place offset (first ++ second) state found =
      place offset first state found := by
  rcases exists_of_mem inside with ⟨index, written, rfl, lookup⟩
  have below := (List.getElem?_eq_some_iff.mp lookup).1
  have whole : (first ++ second)[index]? = some written := by
    rw [List.getElem?_append_left below, lookup]
  rw [place_of_getElem? lookup, place_of_getElem? whole]

theorem place_append_right {state : Nat}
    (outside : state ∉ (⟨offset, offset + first.length⟩ : Span))
    (found : NfaState) :
    place offset (first ++ second.shift first.length) state found =
      place (offset + first.length) second state found := by
  by_cases inSecond : state ∈
      (⟨offset + first.length, offset + first.length + second.length⟩ : Span)
  · rcases exists_of_mem inSecond with ⟨index, written, rfl, lookup⟩
    have whole : (first ++ second.shift first.length)[first.length + index]? =
        some (written.shift first.length) := by
      rw [getElem?_append_shift, lookup]
      rfl
    rw [place_of_getElem? lookup, Nat.add_assoc, place_of_getElem? whole,
      NfaState.shift_shift]
  · rw [place_outside inSecond, place_outside]
    rw [List.length_append, length_shift, Span.mem_mk]
    rw [Span.mem_mk] at outside inSecond
    omega

/-- Blocks that stand side by side are placed one by one, in either order. -/
theorem place_append (state : Nat) (found : NfaState) :
    place (offset + first.length) second state
        (place offset first state found) =
      place offset (first ++ second.shift first.length) state found := by
  by_cases inside : state ∈ (⟨offset, offset + first.length⟩ : Span)
  · have before : state ∉ (⟨offset + first.length,
        offset + first.length + second.length⟩ : Span) :=
      fun behind => Nat.not_lt.mpr behind.1 inside.2
    rw [place_append_left inside, place_outside before]
  · rw [place_append_right inside, place_outside inside]

theorem place_append_swap (state : Nat) (found : NfaState) :
    place offset first state
        (place (offset + first.length) second state found) =
      place offset (first ++ second.shift first.length) state found := by
  by_cases inside : state ∈ (⟨offset, offset + first.length⟩ : Span)
  · have before : state ∉ (⟨offset + first.length,
        offset + first.length + second.length⟩ : Span) :=
      fun behind => Nat.not_lt.mpr behind.1 inside.2
    rw [place_append_left inside, place_outside before]
  · rw [place_append_right inside, place_outside inside]

end Place

end Block

namespace Nfa

open Block

variable {nfa : Nfa} {offset : Nat}

theorem pairChange_eq_place (offset : Nat) (flags : Flags) :
    pairChange offset flags = place offset (gate flags []) := by
  apply eq_place
  · intro index written lookup found
    match index with
    | 0 =>
        cases lookup
        simp [pairChange, NfaState.overwrite, NfaState.shift]
    | 1 =>
        cases lookup
        simp [pairChange, NfaState.overwrite, NfaState.shift]
    | index + 2 => cases lookup
  · intro state outside found
    simp only [Span.mem_mk, gate, List.length_cons, List.length_nil] at outside
    rw [pairChange, if_neg (by omega), if_neg (by omega)]

theorem shift_wire (offset sink here : Nat) (next : Option UInt8) :
    (wire sink here next).map (offset + ·) =
      wire (offset + sink) (offset + here) next := by
  cases next with
  | none => exact ByteTable.map_const _ sink
  | some byte =>
      rw [wire, wire, ByteTable.map_set, ByteTable.map_const]
      rfl

theorem get_wire_le {sink here : Nat} (before : here < sink)
    (next : Option UInt8) (byte : UInt8) :
    (wire sink here next).get byte ≤ sink := by
  cases next with
  | none =>
      rw [wire, ByteTable.get_const]
  | some wanted =>
      rw [wire, ByteTable.get_set, ByteTable.get_const]
      split
      next => exact before
      next => exact Nat.le_refl sink

theorem literalChange_eq_place (offset : Nat) (bytes : Bytes) :
    literalChange offset bytes = place offset (.literal bytes) := by
  apply eq_place
  · intro index written lookup found
    rcases literal_cases lookup with ⟨along, rfl⟩ | ⟨rfl, rfl⟩
    · have inside : offset + index ∈
          (⟨offset, offset + bytes.length + 1⟩ : Span) := by
        rw [Span.mem_mk]
        omega
      rw [literalChange, if_pos inside]
      simp [NfaState.overwrite, NfaState.shift, shift_wire, Nat.add_assoc]
    · have outside : offset + (bytes.length + 1) ∉
          (⟨offset, offset + bytes.length + 1⟩ : Span) := by
        rw [Span.mem_mk]
        omega
      rw [literalChange, if_neg outside, if_pos (Nat.add_assoc _ _ _).symm]
      simp [NfaState.overwrite, NfaState.shift, Nat.add_assoc]
  · intro state outside found
    rw [length_literal, Span.mem_mk] at outside
    rw [literalChange, if_neg (by rw [Span.mem_mk]; omega), if_neg (by omega)]

theorem charsetChange_eq_place (offset : Nat) (bytes : Bytes) :
    charsetChange offset bytes = place offset (.charset bytes) := by
  apply eq_place
  · intro index written lookup found
    match index with
    | 0 =>
        cases lookup
        simp [charsetChange, NfaState.overwrite, NfaState.shift,
          ByteTable.map_foldl_set]
    | 1 =>
        cases lookup
        simp [charsetChange, NfaState.overwrite, NfaState.shift]
    | 2 =>
        cases lookup
        simp [charsetChange, NfaState.overwrite, NfaState.shift]
    | index + 3 => cases lookup
  · intro state outside found
    simp only [Span.mem_mk, charset, List.length_cons, List.length_nil]
      at outside
    rw [charsetChange, if_neg (by omega), if_neg (by omega), if_neg (by omega)]

end Nfa

end Munch
