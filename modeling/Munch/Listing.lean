import Munch.Text.Escape
import Munch.Token

/-!
# Listing tokens

A listing has one line for each token: what kind it is, where it stands in the
buffer and its text, separated by tabs. A last line tells what was not consumed,
if anything was not.
-/

namespace Munch

namespace Listing

/-- A number in decimal digits. -/
def decimal (value : Nat) : List Char :=
  Nat.toDigits 10 value

/-- One line: a kind, the place of a text that begins at `start`, and the text. -/
def line (kind : List Char) (start : Nat) (text : Bytes) : List Char :=
  kind ++ '\t' :: (decimal start ++ '.' :: '.' :: (decimal (start + text.length) ++
    '\t' :: (Escape.encode text ++ ['\n'])))

/-- The lines of tokens that stand side by side from `start` on, and the place
behind the last of them. -/
def tokenLines (kind : Token → List Char) : (start : Nat) → List Token → List Char × Nat
  | start, [] => ([], start)
  | start, token :: tokens =>
      let (lines, stop) := tokenLines kind (start + token.length) tokens
      (line (kind token) start token.text ++ lines, stop)

/-- The kind of the line for what was not consumed. -/
def restKind : List Char := "REST".toList

/-- The line for what was not consumed; none when everything was. -/
def restLine (start : Nat) (rest : Bytes) : List Char :=
  if rest.isEmpty then [] else line restKind start rest

/-- The listing of tokens that stand side by side from the beginning of a buffer,
and of what is left behind them. -/
def listing (kind : Token → List Char) (tokens : List Token) (rest : Bytes) : List Char :=
  let (lines, stop) := tokenLines kind 0 tokens
  lines ++ restLine stop rest

end Listing

end Munch
