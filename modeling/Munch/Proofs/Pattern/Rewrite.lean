import Mathlib.Logic.Relation
import Munch.Proofs.Pattern.Block
import Munch.Regex

/-!
# Patterns that are laid out alike

Some patterns differ only in how they are written down: in how concatenations
are nested, in which of several nodes stands for the empty word or for one byte,
and in how the bytes of a set are listed. Such patterns have the same block, and
since the block of a pattern is made from those of its parts, so have patterns
with such parts.
-/

namespace Munch

namespace Block

instance : Std.Associative follow :=
  ⟨follow_assoc⟩

/-- What follows a block may be put together before it follows. -/
theorem foldl_follow_follow (first second : Block) (blocks : List Block) :
    blocks.foldl follow (first.follow second) =
      first.follow (blocks.foldl follow second) :=
  List.foldl_assoc

/-- The order and repetition of the bytes of a set do not show in its block. -/
theorem charset_congr {left right : Bytes}
    (same : ∀ byte, byte ∈ left ↔ byte ∈ right) :
    charset left = charset right := by
  have table : left.foldl (fun table byte => table.set byte 1) (.const 2) =
      right.foldl (fun table byte => table.set byte 1)
        (.const 2 : ByteTable Nat) := by
    apply ByteTable.ext
    intro byte
    rw [ByteTable.get_foldl_set, ByteTable.get_foldl_set]
    simp only [same]
  rw [charset, charset, table]

end Block

namespace Pattern

open Block

/-- A replacement of one node of a pattern that does not show in what the pattern
is laid out as. -/
inductive Rewrites : Pattern → Pattern → Prop
  /-- A concatenation of one part is that part. -/
  | single (child : Pattern) : Rewrites (.concatenate [child]) child
  /-- The parts of a concatenation within a concatenation stand in its place. -/
  | flatten (before inner after : List Pattern) (full : inner ≠ []) :
      Rewrites (.concatenate (before ++ .concatenate inner :: after))
        (.concatenate (before ++ inner ++ after))
  | oneByte (byte : UInt8) : Rewrites (.literal [byte]) (.charset [byte])
  | noBytes : Rewrites (.literal []) .epsilon
  | noParts : Rewrites (.concatenate []) .epsilon
  | noChoices : Rewrites (.alternate []) .epsilon
  /-- A set may list its bytes in any order and any number of times. -/
  | listing {left right : Bytes} (same : ∀ byte, byte ∈ left ↔ byte ∈ right) :
      Rewrites (.charset left) (.charset right)
  | part (before after : List Pattern) {left right : Pattern}
      (inner : Rewrites left right) :
      Rewrites (.concatenate (before ++ left :: after))
        (.concatenate (before ++ right :: after))
  | choice (before after : List Pattern) {left right : Pattern}
      (inner : Rewrites left right) :
      Rewrites (.alternate (before ++ left :: after))
        (.alternate (before ++ right :: after))
  | starred {left right : Pattern} (inner : Rewrites left right) :
      Rewrites (.star left) (.star right)

/-- Whether two patterns are the same but for replacements, any number of them
and each in either direction. -/
def Convertible : Pattern → Pattern → Prop :=
  Relation.EqvGen Rewrites

/-- One replacement does not change the block. -/
theorem Rewrites.block_eq {left right : Pattern}
    (rewrites : Rewrites left right) : left.block = right.block := by
  induction rewrites with
  | single child => rw [block, blocks, List.foldl_nil]
  | flatten before inner after full =>
      obtain ⟨first, rest, rfl⟩ := List.exists_cons_of_ne_nil full
      -- Behind other parts, the inner concatenation is put together first and
      -- then follows; at the beginning nothing changes.
      cases before with
      | nil =>
          simp only [List.nil_append, List.cons_append, block, blocks_eq_map,
            List.map_append, List.foldl_append]
      | cons child before =>
          simp only [List.cons_append, block, blocks_eq_map, List.map_append,
            List.map_cons, List.foldl_append, List.foldl_cons]
          rw [foldl_follow_follow _ first.block]
  | oneByte byte =>
      rw [block, block]
      rfl
  | noBytes =>
      rw [block, block]
      rfl
  | noParts => rw [block, block]
  | noChoices => rw [block, block]
  | listing same => rw [block, block, charset_congr same]
  | part before after _ same =>
      cases before with
      | nil => rw [List.nil_append, List.nil_append, block, block, same]
      | cons child before =>
          simp only [List.cons_append, block, blocks_eq_map, List.map_append,
            List.map_cons, same]
  | choice before after _ same =>
      cases before with
      | nil => rw [List.nil_append, List.nil_append, block, block, same]
      | cons child before =>
          simp only [List.cons_append, block, blocks_eq_map, List.map_append,
            List.map_cons, same]
  | starred _ same => rw [block, block, same]

theorem Convertible.block_eq {left right : Pattern}
    (convertible : Convertible left right) : left.block = right.block := by
  induction convertible with
  | rel left right rewrites => exact rewrites.block_eq
  | refl pattern => rfl
  | symm left right _ same => exact same.symm
  | trans left middle right _ _ first second => exact first.trans second

/-- Patterns with one block have one automaton. -/
theorem toNfa_eq_of_block_eq {left right : Pattern}
    (same : left.block = right.block) : left.toNfa = right.toNfa := by
  apply Nfa.ext_getElem?
  intro state
  rw [getElem?_toNfa, getElem?_toNfa, same]

/-- Patterns that are the same but for replacements have the same automaton,
state for state and free move for free move, and compile to the same one. -/
theorem Convertible.toNfa_eq (left right : Pattern)
    (convertible : Convertible left right) :
    left.toNfa = right.toNfa ∧ left.compile = right.compile := by
  have same := toNfa_eq_of_block_eq convertible.block_eq
  constructor
  · exact same
  · rw [compile, compile, same]

/-- A repeated choice between a concatenation and something else. -/
def framed (parts : List Pattern) (other : Pattern) : Pattern :=
  star (alternate [concatenate parts, other])

/-- Below a star and a choice, a concatenation is flattened, a literal and a set
within it are written in other ways, and the empty literal becomes an empty
concatenation. -/
theorem toNfa_eq_framed :
    Convertible
      (framed [byte 97, concatenate [literal [98], charset [100, 99, 100]]]
        (literal []))
      (framed [byte 97, charset [98], charset [99, 100]] (concatenate [])) ∧
    (framed [byte 97, concatenate [literal [98], charset [100, 99, 100]]]
        (literal [])).toNfa =
      (framed [byte 97, charset [98], charset [99, 100]]
        (concatenate [])).toNfa ∧
    (framed [byte 97, concatenate [literal [98], charset [100, 99, 100]]]
        (literal [])).compile =
      (framed [byte 97, charset [98], charset [99, 100]]
        (concatenate [])).compile := by
  have flattened : Rewrites
      (framed [byte 97, concatenate [literal [98], charset [100, 99, 100]]]
        (literal []))
      (framed [byte 97, literal [98], charset [100, 99, 100]] (literal [])) :=
    .starred (.choice [] [literal []] (.flatten [byte 97]
      [literal [98], charset [100, 99, 100]] [] (List.cons_ne_nil _ _)))
  have asSet : Rewrites
      (framed [byte 97, literal [98], charset [100, 99, 100]] (literal []))
      (framed [byte 97, charset [98], charset [100, 99, 100]] (literal [])) :=
    .starred (.choice [] [literal []]
      (.part [byte 97] [charset [100, 99, 100]] (.oneByte 98)))
  have listed : Rewrites
      (framed [byte 97, charset [98], charset [100, 99, 100]] (literal []))
      (framed [byte 97, charset [98], charset [99, 100]] (literal [])) :=
    .starred (.choice [] [literal []]
      (.part [byte 97, charset [98]] [] (.listing (by simp [or_comm]))))
  have toEpsilon : Rewrites
      (framed [byte 97, charset [98], charset [99, 100]] (literal []))
      (framed [byte 97, charset [98], charset [99, 100]] epsilon) :=
    .starred (.choice [_] [] .noBytes)
  have fromEpsilon : Rewrites
      (framed [byte 97, charset [98], charset [99, 100]] (concatenate []))
      (framed [byte 97, charset [98], charset [99, 100]] epsilon) :=
    .starred (.choice [_] [] .noParts)
  have convertible : Convertible _ _ :=
    .trans _ _ _ (.rel _ _ flattened) (.trans _ _ _ (.rel _ _ asSet)
      (.trans _ _ _ (.rel _ _ listed) (.trans _ _ _ (.rel _ _ toEpsilon)
        (.symm _ _ (.rel _ _ fromEpsilon)))))
  exact ⟨convertible, Convertible.toNfa_eq _ _ convertible⟩

end Pattern

end Munch
