/-!
# Total tables over the byte alphabet

An automaton state answers every byte, so its transitions form a total table
with 256 entries. `ByteTable` is that table. It is read and written by byte,
never by index, and two tables are equal exactly when they agree on every byte.
-/

namespace Munch

/-- A byte string. -/
abbrev Bytes := List UInt8

/-- The number of letters of the byte alphabet. -/
def alphabetSize : Nat := 256

/-- Every byte, in ascending order. -/
def allBytes : List UInt8 :=
  (List.range alphabetSize).map UInt8.ofNat

theorem mem_allBytes (byte : UInt8) : byte ∈ allBytes := by
  simp only [allBytes, List.mem_map, List.mem_range]
  exact ⟨byte.toNat, byte.toNat_lt, UInt8.ofNat_toNat⟩

/-- The position of a byte in a table over the whole alphabet. -/
@[inline] def byteIndex (byte : UInt8) : Fin alphabetSize :=
  ⟨byte.toNat, byte.toNat_lt⟩

theorem byteIndex_inj {left right : UInt8} :
    byteIndex left = byteIndex right ↔ left = right := by
  constructor
  · intro equal
    exact UInt8.toNat_inj.mp (congrArg Fin.val equal)
  · intro equal
    rw [equal]

/-- A total table: one entry for each byte. -/
structure ByteTable (α : Type) where
  entries : Vector α alphabetSize
  deriving DecidableEq

namespace ByteTable

variable {α : Type}

/-- The table that has the same entry everywhere. -/
def const (value : α) : ByteTable α :=
  ⟨Vector.replicate alphabetSize value⟩

/-- The entry of a byte. -/
@[inline] def get (table : ByteTable α) (byte : UInt8) : α :=
  table.entries[byteIndex byte]

/-- Replace the entry of one byte. -/
def set (table : ByteTable α) (byte : UInt8) (value : α) : ByteTable α :=
  ⟨table.entries.set (byteIndex byte) value⟩

/-- The table that has `value byte` at each byte. -/
def ofFn (value : UInt8 → α) : ByteTable α :=
  ⟨Vector.ofFn fun index => value (UInt8.ofNat index.val)⟩

@[simp] theorem get_const (value : α) (byte : UInt8) :
    (const value).get byte = value := by
  simp [const, get, Fin.getElem_fin]

@[simp] theorem get_ofFn (value : UInt8 → α) (byte : UInt8) :
    (ofFn value).get byte = value byte := by
  simp [ofFn, get, byteIndex, Fin.getElem_fin]

theorem get_set (table : ByteTable α) (written byte : UInt8) (value : α) :
    (table.set written value).get byte =
      if written = byte then value else table.get byte := by
  simp only [set, get, Fin.getElem_fin, Vector.getElem_set]
  by_cases equal : written = byte
  · simp [equal]
  · have differ : (byteIndex written).val ≠ (byteIndex byte).val := fun same =>
      equal (byteIndex_inj.mp (Fin.ext same))
    simp [equal, differ]

@[simp] theorem get_set_self (table : ByteTable α) (byte : UInt8) (value : α) :
    (table.set byte value).get byte = value := by
  simp [get_set]

/-- Writing one value for several bytes writes it for each of them. -/
theorem get_foldl_set (table : ByteTable α) (bytes : List UInt8) (byte : UInt8) (value : α) :
    (bytes.foldl (fun table byte => table.set byte value) table).get byte =
      if byte ∈ bytes then value else table.get byte := by
  induction bytes generalizing table with
  | nil => rfl
  | cons head bytes ih =>
    rw [List.foldl_cons, ih, get_set]
    by_cases equal : head = byte <;> by_cases member : byte ∈ bytes <;>
      simp [equal, member, eq_comm (a := byte)]

/-- Tables are determined by their entries. -/
theorem ext {left right : ByteTable α}
    (agree : ∀ byte, left.get byte = right.get byte) : left = right := by
  cases left with
  | mk left =>
    cases right with
    | mk right =>
      congr 1
      apply Vector.ext
      intro index bound
      have entry := agree (UInt8.ofNat index)
      have position : (UInt8.ofNat index).toNat = index :=
        UInt8.toNat_ofNat_of_lt bound
      simpa [get, byteIndex, Fin.getElem_fin, position] using entry

/-- The entries in the ascending order of their bytes. -/
def toList (table : ByteTable α) : List α :=
  table.entries.toList

/-- Whether every entry passes a test. -/
def all (table : ByteTable α) (test : α → Bool) : Bool :=
  table.entries.all test

theorem all_eq_true {table : ByteTable α} {test : α → Bool} :
    table.all test = true ↔ ∀ byte, test (table.get byte) = true := by
  rw [all, Vector.all_eq_true]
  constructor
  · intro every byte
    exact every (byteIndex byte) (byteIndex byte).isLt
  · intro every index inside
    have passes := every (UInt8.ofNat index)
    have position : (UInt8.ofNat index).toNat = index :=
      UInt8.toNat_ofNat_of_lt inside
    simpa [get, byteIndex, Fin.getElem_fin, position] using passes

/-- One stretch of equal entries: its first byte, its last byte and the entry. -/
structure Run (α : Type) where
  first : Nat
  last : Nat
  value : α
  deriving DecidableEq

/-- Extend the latest stretch by the entry of the next byte, or begin a new
stretch when the entry changes. -/
def extendRuns [DecidableEq α] (runs : List (Run α)) (byte : Nat) (value : α) :
    List (Run α) :=
  match runs with
  | [] => [⟨byte, byte, value⟩]
  | run :: earlier =>
      if run.value = value then ⟨run.first, byte, value⟩ :: earlier
      else ⟨byte, byte, value⟩ :: run :: earlier

/-- The table as its maximal stretches of equal entries, in ascending order. -/
def runs [DecidableEq α] (table : ByteTable α) : List (Run α) :=
  (allBytes.foldl (fun runs byte => extendRuns runs byte.toNat (table.get byte)) []).reverse

end ByteTable

end Munch
