import Munch.Byte.Table

/-!
# Tokens

A token is a piece of a buffer together with the types it has. What a type
number means is up to the tokenizer that made the token.
-/

namespace Munch

/-- A piece of a buffer and its types. -/
structure Token where
  text : Bytes
  types : List Nat
  deriving DecidableEq, Inhabited

namespace Token

/-- The token without text and without types. It holds a place that is to be
written later. -/
def blank : Token := ⟨[], []⟩

/-- The number of bytes. -/
def length (token : Token) : Nat :=
  token.text.length

/-- Whether the text is empty. -/
def isEmpty (token : Token) : Bool :=
  token.text.isEmpty

/-- Whether the token has a type. -/
def hasType (token : Token) (type : Nat) : Bool :=
  token.types.contains type

end Token

end Munch
