import Munch.Byte.Table

/-!
# Stretches of bytes that are alike

An automaton treats most bytes alike: all its tables have equal entries at them.
`stretches` cuts the alphabet where that changes. What holds for the first byte of
a stretch holds for the others (`get_first`), and the stretches side by side are
the alphabet (`flatMap_bytes_stretches`), so work for every byte can be done once
for every stretch.

`mapRuns` does the same for a list of values: equal neighbours are mapped once.
-/

namespace Munch

/-- Bytes side by side. -/
structure Stretch where
  first : UInt8
  others : List UInt8
  deriving DecidableEq, Repr

namespace Stretch

/-- All bytes of a stretch, in ascending order. -/
def bytes (stretch : Stretch) : List UInt8 :=
  stretch.first :: stretch.others

variable {α : Type} [DecidableEq α]

/-- Whether all tables have equal entries at two bytes. -/
def alike (tables : List (ByteTable α)) (left right : UInt8) : Bool :=
  tables.all fun table => table.get left = table.get right

/-- Cut a row of bytes where two neighbours are not alike. -/
def cut (tables : List (ByteTable α)) : List UInt8 → List Stretch
  | [] => []
  | byte :: bytes =>
      match cut tables bytes with
      | [] => [⟨byte, []⟩]
      | stretch :: stretches =>
          if alike tables byte stretch.first then ⟨byte, stretch.bytes⟩ :: stretches
          else ⟨byte, []⟩ :: stretch :: stretches

/-- The alphabet, cut where two neighbours are not alike. -/
def stretches (tables : List (ByteTable α)) : List Stretch :=
  cut tables allBytes

theorem flatMap_bytes_cut (tables : List (ByteTable α)) :
    (bytes : List UInt8) → (cut tables bytes).flatMap Stretch.bytes = bytes
  | [] => rfl
  | byte :: bytes => by
      have rest := flatMap_bytes_cut tables bytes
      rw [cut]
      split
      · rename_i none
        rw [none] at rest
        simpa [Stretch.bytes] using rest
      · rename_i stretch stretches some
        rw [some] at rest
        split <;> simpa [Stretch.bytes] using rest

/-- The stretches side by side are the alphabet. -/
@[simp] theorem flatMap_bytes_stretches (tables : List (ByteTable α)) :
    (stretches tables).flatMap Stretch.bytes = allBytes :=
  flatMap_bytes_cut tables allBytes

theorem get_first_cut {tables : List (ByteTable α)} {table : ByteTable α}
    (listed : table ∈ tables) :
    (bytes : List UInt8) → ∀ stretch ∈ cut tables bytes, ∀ byte ∈ stretch.bytes,
      table.get stretch.first = table.get byte
  | [] => by simp [cut]
  | head :: bytes => by
      intro stretch member byte inside
      have rest := get_first_cut listed bytes
      rw [cut] at member
      split at member
      · rcases List.mem_singleton.mp member with rfl
        rcases List.mem_singleton.mp inside with rfl
        rfl
      · rename_i next stretches some
        rw [some] at rest
        split at member
        · rename_i agree
          rcases List.mem_cons.mp member with rfl | member
          · have joined : table.get head = table.get next.first :=
              of_decide_eq_true (List.all_eq_true.mp agree table listed)
            rcases List.mem_cons.mp inside with rfl | inside
            · rfl
            · exact joined.trans (rest next (by simp) byte inside)
          · exact rest stretch (by simp [member]) byte inside
        · rcases List.mem_cons.mp member with rfl | member
          · rcases List.mem_singleton.mp inside with rfl
            rfl
          · exact rest stretch member byte inside

/-- Every table has equal entries at all bytes of a stretch. -/
theorem get_first {tables : List (ByteTable α)} {table : ByteTable α}
    (listed : table ∈ tables) {stretch : Stretch} (member : stretch ∈ stretches tables)
    {byte : UInt8} (inside : byte ∈ stretch.bytes) :
    table.get stretch.first = table.get byte :=
  get_first_cut listed allBytes stretch member byte inside

end Stretch

section MapRuns

variable {α β : Type} [DecidableEq α]

/-- Map values that stand behind one that is mapped to `image`. -/
def mapRunsFrom (map : α → β) : (value : α) → (image : β) → List α → List β
  | _, _, [] => []
  | value, image, next :: values =>
      if next = value then image :: mapRunsFrom map value image values
      else
        let image := map next
        image :: mapRunsFrom map next image values

/-- Map values, equal neighbours once. -/
def mapRuns (map : α → β) : List α → List β
  | [] => []
  | value :: values =>
      let image := map value
      image :: mapRunsFrom map value image values

theorem mapRunsFrom_eq_map (map : α → β) :
    (values : List α) → (value : α) →
      mapRunsFrom map value (map value) values = values.map map
  | [], _ => rfl
  | next :: values, value => by
      rw [mapRunsFrom]
      split
      · rename_i equal
        simp [mapRunsFrom_eq_map map values, equal]
      · simp [mapRunsFrom_eq_map map values]

@[simp] theorem mapRuns_eq_map (map : α → β) (values : List α) :
    mapRuns map values = values.map map := by
  cases values with
  | nil => rfl
  | cons value values => simp [mapRuns, mapRunsFrom_eq_map]

end MapRuns

end Munch
