import Munch.Nfa
import Munch.Pattern

/-!
# Laying a pattern out in an automaton

A pattern takes `needed` consecutive states of an automaton, beginning at any
offset. Each kind of node fills its own states and wires the parts of its
children together with free moves:

* a node without children of its own has its initial state first and, last, a
  sink that rejects and never leaves;
* a concatenation puts its children side by side. The accepting states of each
  lose that mark and move freely to the initial states of the next;
* an alternation and a star begin with a pair of their own, an initial state and
  a sink, and send the initial state freely into their children.

So a part that is laid out has exactly one initial state, its first one. Marks
and transitions of every state taken are overwritten; free moves that a state
had before stay in front of the new ones.
-/

namespace Munch

namespace Pattern

mutual

/-- The number of states a pattern takes. -/
def needed : Pattern → Nat
  | .epsilon => 2
  | .literal bytes => bytes.length + 2
  | .charset _ => 3
  | .concatenate [] => 2
  | .concatenate (child :: children) => child.needed + neededAll children
  | .alternate [] => 2
  | .alternate (child :: children) => 2 + (child.needed + neededAll children)
  | .star inner => 2 + inner.needed

/-- The number of states that patterns side by side take. -/
def neededAll : List Pattern → Nat
  | [] => 0
  | child :: children => child.needed + neededAll children

end

end Pattern

namespace Nfa

/-- A state with the given marks, and behind it the sink that all its
transitions go to. -/
def layPair? (offset : Nat) (flags : Flags) (nfa : Nfa) : Option Nfa := do
  let nfa ← nfa.setState? offset flags (offset + 1)
  nfa.setState? (offset + 1) .onlyReject (offset + 1)

/-- The steps of a literal: from `here`, each byte leads to the next state and
every other byte to the sink. -/
def laySteps? (sink : Nat) : (here : Nat) → Bytes → Nfa → Option Nfa
  | _, [], nfa => some nfa
  | here, byte :: bytes, nfa => do
      let nfa ← nfa.setState? (here + 1) .none sink
      let nfa ← nfa.setTransition? here byte (here + 1)
      laySteps? sink (here + 1) bytes nfa

/-- A chain of states along the bytes of a literal, and its sink. -/
def layLiteral? (offset : Nat) (bytes : Bytes) (nfa : Nfa) : Option Nfa := do
  let last := offset + bytes.length
  let sink := last + 1
  let nfa ← nfa.setState? offset .onlyStart sink
  let nfa ← laySteps? sink offset bytes nfa
  let nfa ← nfa.addFlags? last .onlyAccept
  nfa.setState? sink .onlyReject sink

/-- The branches of a character set: every byte leads to `target`. -/
def layBranches? (source target : Nat) : Bytes → Nfa → Option Nfa
  | [], nfa => some nfa
  | byte :: bytes, nfa => do
      let nfa ← nfa.setTransition? source byte target
      layBranches? source target bytes nfa

/-- An initial state, an accepting state one byte away, and the sink. -/
def layCharset? (offset : Nat) (bytes : Bytes) (nfa : Nfa) : Option Nfa := do
  let accept := offset + 1
  let sink := offset + 2
  let nfa ← nfa.setState? offset .onlyStart sink
  let nfa ← layBranches? offset accept bytes nfa
  let nfa ← nfa.setState? accept .onlyAccept sink
  nfa.setState? sink .onlyReject sink

/-- Free moves from one state to each of several, in order. -/
def linkEach? (source : Nat) : List Nat → Nfa → Option Nfa
  | [], nfa => some nfa
  | target :: targets, nfa => do
      let nfa ← nfa.addEpsilon? source target
      linkEach? source targets nfa

/-- Free moves from each of several states to each of several others. -/
def linkAll? : (sources targets : List Nat) → Nfa → Option Nfa
  | [], _, nfa => some nfa
  | source :: sources, targets, nfa => do
      let nfa ← linkEach? source targets nfa
      linkAll? sources targets nfa

/-- Let the second of two parts follow the first: the accepting states of the
first move freely to the initial states of the second, and both lose their
marks. A second part without an initial state leaves the first as it is. -/
def follow? (first second : Span) (nfa : Nfa) : Option Nfa := do
  let (starts, nfa) ← nfa.takeFlags? second .onlyStart
  if starts.isEmpty then
    some nfa
  else do
    let (accepts, nfa) ← nfa.takeFlags? first .onlyAccept
    linkAll? accepts starts nfa

/-- Let each part of a row follow the one before it. -/
def chain? : List Span → Nfa → Option Nfa
  | first :: second :: rest, nfa => do
      let nfa ← follow? first second nfa
      chain? (second :: rest) nfa
  | _, nfa => some nfa

/-- Move freely from a state into each part of a row, which lose their initial
marks. -/
def enterEach? (source : Nat) : List Span → Nfa → Option Nfa
  | [], nfa => some nfa
  | span :: rest, nfa => do
      let (starts, nfa) ← nfa.takeFlags? span .onlyStart
      let nfa ← linkEach? source starts nfa
      enterEach? source rest nfa

/-- Loop a part back to a state: that state moves freely into the part, and the
accepting states of the part move freely back. The part loses both marks. -/
def loop? (entry : Nat) (span : Span) (nfa : Nfa) : Option Nfa := do
  let (starts, nfa) ← nfa.takeFlags? span .onlyStart
  let nfa ← linkEach? entry starts nfa
  let (accepts, nfa) ← nfa.takeFlags? span .onlyAccept
  linkAll? accepts [entry] nfa

end Nfa

namespace Pattern

/-- The stretches that patterns side by side take. -/
def spans : (offset : Nat) → List Pattern → List Span
  | _, [] => []
  | offset, child :: children =>
      ⟨offset, offset + child.needed⟩ :: spans (offset + child.needed) children

mutual

/-- Lay a pattern out, beginning at `offset`. Refused when a state that it takes
does not exist. -/
def lay? : Pattern → (offset : Nat) → Nfa → Option Nfa
  | .epsilon, offset, nfa => nfa.layPair? offset .startAccept
  | .literal bytes, offset, nfa => nfa.layLiteral? offset bytes
  | .charset bytes, offset, nfa => nfa.layCharset? offset bytes
  | .concatenate [], offset, nfa => nfa.layPair? offset .startAccept
  | .concatenate (child :: children), offset, nfa => do
      let nfa ← child.lay? offset nfa
      let nfa ← layAll? children (offset + child.needed) nfa
      nfa.chain? (spans offset (child :: children))
  | .alternate [], offset, nfa => nfa.layPair? offset .startAccept
  | .alternate (child :: children), offset, nfa => do
      let nfa ← child.lay? (offset + 2) nfa
      let nfa ← layAll? children (offset + 2 + child.needed) nfa
      let nfa ← nfa.layPair? offset .onlyStart
      nfa.enterEach? offset (spans (offset + 2) (child :: children))
  | .star inner, offset, nfa => do
      let nfa ← nfa.layPair? offset .startAccept
      let nfa ← inner.lay? (offset + 2) nfa
      nfa.loop? offset ⟨offset + 2, offset + 2 + inner.needed⟩

/-- Lay patterns out side by side. -/
def layAll? : List Pattern → (offset : Nat) → Nfa → Option Nfa
  | [], _, nfa => some nfa
  | child :: children, offset, nfa => do
      let nfa ← child.lay? offset nfa
      layAll? children (offset + child.needed) nfa

end

end Pattern

end Munch
