import Munch.Delimiter
import Munch.Proofs.Text.Numeral

/-!
# What texts name a delimiter

The names of a byte are an escape, its hexadecimal number behind `0x`, with any
number of leading zeros and in either case, and, if it is an ASCII character, the
character itself. Every name is accepted. One kind of text is accepted that is no
name: the reader of numbers takes a plus sign in front of the digits.
-/

namespace Munch

namespace Delimiter

/-- The characters that make an escape with a backslash in front of them, and the
bytes that they name. -/
def escapes : List (Char × UInt8) :=
  [('n', 10), ('t', 9), ('r', 13), ('0', 0), ('\\', 92)]

/-- Whether a text is the name of a byte. -/
inductive Names : List Char → UInt8 → Prop
  | escape {char : Char} {byte : UInt8} (listed : (char, byte) ∈ escapes) :
      Names ['\\', char] byte
  | hex {digits : List Char} {byte : UInt8} (some : digits ≠ [])
      (written : Numeral.Writes 16 digits byte.toNat) :
      Names ('0' :: 'x' :: digits) byte
  | ascii {char : Char} {byte : UInt8} (small : char.toNat < 128)
      (code : char.toNat = byte.toNat) :
      Names [char] byte

theorem escape?_eq_some_iff {chars : List Char} {byte : UInt8} :
    escape? chars = some byte ↔
      ∃ char, chars = ['\\', char] ∧ (char, byte) ∈ escapes := by
  constructor
  · intro found
    unfold escape? at found
    split at found
    all_goals cases found
    all_goals exact ⟨_, rfl, by decide⟩
  · intro listed
    rcases listed with ⟨char, rfl, listed⟩
    simp only [escapes, List.mem_cons, Prod.mk.injEq, List.not_mem_nil,
      or_false] at listed
    rcases listed with ⟨rfl, rfl⟩ | ⟨rfl, rfl⟩ | ⟨rfl, rfl⟩ | ⟨rfl, rfl⟩ | ⟨rfl, rfl⟩
    all_goals rfl

theorem hexDigits?_eq_some_iff {chars digits : List Char} :
    hexDigits? chars = some digits ↔ chars = '0' :: 'x' :: digits := by
  constructor
  · intro found
    unfold hexDigits? at found
    split at found
    next => rw [Option.some.inj found]
    next => cases found
  · intro same
    rw [same]
    rfl

theorem names_hex_iff {digits : List Char} {byte : UInt8} :
    Names ('0' :: 'x' :: digits) byte ↔
      digits ≠ [] ∧ Numeral.Writes 16 digits byte.toNat := by
  constructor
  · intro named
    cases named with
    | hex some written => exact ⟨some, written⟩
  · exact fun written => .hex written.1 written.2

/-- A number of one byte is read from its digits, and from its digits with a plus
sign in front of them. -/
theorem read_hex_iff {behind : List Char} {byte : UInt8} :
    Numeral.read 16 256 behind = .ok byte.toNat ↔
      Names ('0' :: 'x' :: behind) byte ∨
        ∃ digits, behind = '+' :: digits ∧
          Names ('0' :: 'x' :: digits) byte := by
  rw [Numeral.read_eq_ok_iff (by decide)]
  constructor
  · intro numeral
    rcases numeral with ⟨digits, spelled, some, written, _⟩
    have named := names_hex_iff.mpr ⟨some, written⟩
    cases spelled with
    | inl unsigned => exact .inl (unsigned ▸ named)
    | inr signed => exact .inr ⟨digits, signed, named⟩
  · intro spelled
    cases spelled with
    | inl named =>
        rcases names_hex_iff.mp named with ⟨some, written⟩
        exact ⟨behind, .inl rfl, some, written, byte.toNat_lt⟩
    | inr signed =>
        rcases signed with ⟨digits, same, named⟩
        rcases names_hex_iff.mp named with ⟨some, written⟩
        exact ⟨digits, .inr same, some, written, byte.toNat_lt⟩

/-- What is read behind `0x` is the delimiter. -/
theorem parse_hex {text : String} {behind : List Char} {byte : UInt8}
    (same : text.toList = '0' :: 'x' :: behind)
    (read : Numeral.read 16 256 behind = .ok byte.toNat) :
    parse text = .ok byte := by
  have other : escape? ('0' :: 'x' :: behind) = none := rfl
  have hex : hexDigits? ('0' :: 'x' :: behind) = some behind := rfl
  rw [parse, same, other, hex]
  simp only [read, UInt8.ofNat_toNat]

theorem parse_names {text : String} {byte : UInt8}
    (named : Names text.toList byte) : parse text = .ok byte := by
  generalize chars : text.toList = name at named
  cases named with
  | escape listed =>
      rw [parse, escape?_eq_some_iff.mpr ⟨_, chars, listed⟩]
  | hex some written =>
      exact parse_hex chars (read_hex_iff.mpr (.inl (.hex some written)))
  | @ascii char _ small code =>
      have other : escape? [char] = none := by simp [escape?]
      have none : hexDigits? [char] = none := by simp [hexDigits?]
      rw [parse, chars, other, none]
      simp only [if_pos small]
      rw [code, UInt8.ofNat_toNat]

/-- What is accepted is a name, or one with a plus sign in front of its
digits. -/
theorem names_of_parse {text : String} {byte : UInt8}
    (accepted : parse text = .ok byte) :
    Names text.toList byte ∨
      ∃ digits, text.toList = '0' :: 'x' :: '+' :: digits ∧
        Names ('0' :: 'x' :: digits) byte := by
  unfold parse at accepted
  split at accepted
  next named found =>
    cases accepted
    rcases escape?_eq_some_iff.mp found with ⟨char, same, listed⟩
    rw [same]
    exact .inl (.escape listed)
  next =>
    split at accepted
    next behind found =>
      rw [hexDigits?_eq_some_iff.mp found]
      split at accepted
      next value read =>
        cases accepted
        have small : value < 256 := Numeral.lt_of_read (by decide) read
        rw [← UInt8.toNat_ofNat_of_lt small] at read
        cases read_hex_iff.mp read with
        | inl named => exact .inl named
        | inr signed =>
            rcases signed with ⟨digits, rfl, named⟩
            exact .inr ⟨digits, rfl, named⟩
      next => cases accepted
    next =>
      split at accepted
      next char same =>
        split at accepted
        next small =>
          cases accepted
          have code : (UInt8.ofNat char.toNat).toNat = char.toNat :=
            UInt8.toNat_ofNat_of_lt (Nat.lt_trans small (by decide))
          rw [same]
          exact .inl (.ascii small code.symm)
        next => cases accepted
      next => cases accepted

/-- The texts that are accepted for a byte are its names, and its names behind
`0x` with a plus sign in front of the digits. Every other text is refused. -/
theorem parse_eq_ok_iff (text : String) (byte : UInt8) :
    parse text = .ok byte ↔
      Names text.toList byte ∨
        ∃ digits, text.toList = '0' :: 'x' :: '+' :: digits ∧
          Names ('0' :: 'x' :: digits) byte := by
  constructor
  · exact names_of_parse
  · intro spelled
    cases spelled with
    | inl named => exact parse_names named
    | inr signed =>
        rcases signed with ⟨digits, same, named⟩
        exact parse_hex same (read_hex_iff.mpr (.inr ⟨digits, rfl, named⟩))

/-- The number of the record separator is accepted with a plus sign, although
with that it is no name of any byte. -/
theorem parse_plus_sign :
    parse "0x+1e" = .ok 30 ∧ ∀ byte, ¬Names "0x+1e".toList byte := by
  refine ⟨by decide, ?_⟩
  intro byte named
  exact Numeral.not_writes_plus _ _ (names_hex_iff.mp named).2

end Delimiter

end Munch
