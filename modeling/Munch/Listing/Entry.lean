import Munch.Listing
import Munch.Span

/-!
# Reading listings

A listing is read line by line. A line is cut at its first two tabs into a kind,
a place and a text. The place is a pair of decimal numbers, and the text is read
back into bytes.
-/

namespace Munch

namespace Listing

/-- What one line of a listing says. -/
structure Entry where
  kind : List Char
  place : Span
  text : Bytes
  deriving DecidableEq, Repr

/-- Cut a text at the first occurrence of a mark. The mark is in neither part. -/
def cutAt? (mark : Char) : List Char → Option (List Char × List Char)
  | [] => none
  | char :: rest =>
      if char = mark then some ([], rest)
      else (cutAt? mark rest).map fun (before, behind) => (char :: before, behind)

/-- The lines of a text, each of which ends in a line feed. Refused when the last
one does not. -/
def lines? : List Char → Option (List (List Char))
  | [] => some []
  | '\n' :: rest => (lines? rest).map ([] :: ·)
  | char :: rest =>
      match lines? rest with
      | some (line :: lines) => some ((char :: line) :: lines)
      | _ => none

/-- Read a number in decimal digits. -/
def readDecimal? (digits : List Char) : Option Nat :=
  if digits ≠ [] ∧ digits.all Char.isDigit then some (Nat.ofDigitChars 10 digits 0)
  else none

/-- Read the place of a text: where it begins and where it ends, with two points
between them. -/
def readPlace? (place : List Char) : Option Span := do
  let (first, behind) ← cutAt? '.' place
  let (gap, stop) ← cutAt? '.' behind
  if gap = [] then some ⟨← readDecimal? first, ← readDecimal? stop⟩ else none

/-- Read one line. -/
def readLine? (line : List Char) : Option Entry := do
  let (kind, behind) ← cutAt? '\t' line
  let (place, text) ← cutAt? '\t' behind
  some ⟨kind, ← readPlace? place, ← Escape.decode text⟩

/-- Read a listing. -/
def read? (listing : List Char) : Option (List Entry) := do
  let lines ← lines? listing
  lines.mapM readLine?

/-- What a listing is of: the kinds and the texts of tokens, and a remainder. -/
def contents (entries : List Entry) : List (List Char × Bytes) × Bytes :=
  ((entries.filter (·.kind ≠ restKind)).map fun entry => (entry.kind, entry.text),
    (entries.filter (·.kind = restKind)).flatMap (·.text))

/-- The length of the place in the line of the remainder; 0 when there is no such
line. -/
def restLength (entries : List Entry) : Nat :=
  ((entries.find? (·.kind = restKind)).map (·.place.length)).getD 0

end Listing

end Munch
