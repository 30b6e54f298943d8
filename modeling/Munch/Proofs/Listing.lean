import Munch.CommandLine.Run
import Munch.Listing.Entry
import Munch.Proofs.Pool.Size
import Munch.Proofs.Text.Escape
import Munch.Proofs.Tokenizer

/-!
# Listings can be read back

A kind that has neither tabs nor line feeds is read back from its line, and so
are the place and the text, whatever bytes the text has. So a listing is read
back line by line, and what is read tells the tokens and the remainder apart as
long as no kind is called like that of the remainder. The commands list what
they have cut their input into, so their listings spell it.
-/

namespace Munch

namespace Listing

/-! ## Fields -/

theorem cutAt?_append {mark : Char} {before : List Char}
    (absent : mark ∉ before) (behind : List Char) :
    cutAt? mark (before ++ mark :: behind) = some (before, behind) := by
  induction before with
  | nil => simp [cutAt?]
  | cons char before ih =>
      rw [List.mem_cons, not_or] at absent
      rw [List.cons_append, cutAt?, if_neg (Ne.symm absent.1), ih absent.2]
      rfl

theorem readDecimal?_decimal (value : Nat) :
    readDecimal? (decimal value) = some value := by
  have digits : (decimal value).all Char.isDigit = true := by
    rw [List.all_eq_true]
    intro char member
    exact Nat.isDigit_of_mem_toDigits (by decide) (by decide) member
  rw [readDecimal?, if_pos ⟨Nat.toDigits_ne_nil, digits⟩, decimal,
    Nat.ofDigitChars_toDigits (by decide) (by decide)]

/-- Numbers have digits only. -/
theorem not_mem_decimal {char : Char} (other : char.isDigit = false)
    (value : Nat) : char ∉ decimal value := by
  intro member
  rw [Nat.isDigit_of_mem_toDigits (by decide) (by decide) member] at other
  cases other

/-- A place as it is written. -/
def writePlace (place : Span) : List Char :=
  decimal place.first ++ '.' :: '.' :: decimal place.stop

theorem readPlace?_writePlace (place : Span) :
    readPlace? (writePlace place) = some place := by
  have absent : '.' ∉ decimal place.first := not_mem_decimal rfl _
  rw [readPlace?, writePlace, cutAt?_append absent]
  simp [cutAt?, readDecimal?_decimal]

theorem not_mem_writePlace {char : Char} (other : char.isDigit = false)
    (point : char ≠ '.') (place : Span) : char ∉ writePlace place := by
  simp [writePlace, not_mem_decimal other, point]

/-! ## Lines -/

/-- Whether a name can stand in the first field of a line. -/
structure IsName (name : List Char) : Prop where
  tab : '\t' ∉ name
  feed : '\n' ∉ name

/-- What is written in a line, without its line feed. -/
def fields (entry : Entry) : List Char :=
  entry.kind ++ '\t' :: (writePlace entry.place ++
    '\t' :: Escape.encode entry.text)

theorem line_eq (kind : List Char) (start : Nat) (text : Bytes) :
    line kind start text =
      fields ⟨kind, ⟨start, start + text.length⟩, text⟩ ++ ['\n'] := by
  simp [line, fields, writePlace]

theorem readLine?_fields {entry : Entry} (name : IsName entry.kind) :
    readLine? (fields entry) = some entry := by
  have tab : '\t' ∉ writePlace entry.place :=
    not_mem_writePlace rfl (by decide) _
  rw [readLine?, fields, cutAt?_append name.tab]
  simp [cutAt?_append tab, readPlace?_writePlace, Escape.decode_encode]

theorem feed_not_mem_fields {entry : Entry} (name : IsName entry.kind) :
    '\n' ∉ fields entry := by
  have place : '\n' ∉ writePlace entry.place :=
    not_mem_writePlace rfl (by decide) _
  simp [fields, name.feed, place, Escape.not_mem_encode (.inr rfl)]

theorem lines?_append {line : List Char} (whole : '\n' ∉ line)
    (rest : List Char) :
    lines? (line ++ '\n' :: rest) = (lines? rest).map (line :: ·) := by
  induction line with
  | nil => rfl
  | cons char line ih =>
      rw [List.mem_cons, not_or] at whole
      rw [List.cons_append, lines?, ih whole.2]
      · cases lines? rest <;> rfl
      · exact fun feed => whole.1 feed.symm

/-- The first line is read, and then the others. -/
theorem read?_line {kind : List Char} (name : IsName kind) (start : Nat)
    (text : Bytes) (rest : List Char) :
    read? (line kind start text ++ rest) =
      (read? rest).map
        (⟨kind, ⟨start, start + text.length⟩, text⟩ :: ·) := by
  let entry : Entry := ⟨kind, ⟨start, start + text.length⟩, text⟩
  have first : readLine? (fields entry) = some entry := readLine?_fields name
  have whole : '\n' ∉ fields entry := feed_not_mem_fields name
  rw [line_eq, List.append_assoc, List.singleton_append, read?,
    lines?_append whole, read?]
  cases lines? rest with
  | none => rfl
  | some lines =>
      simp only [Option.map_some, bind, Option.bind_some, List.mapM_cons,
        first]
      cases lines.mapM readLine? <;> rfl

/-! ## Listings -/

/-- What the lines of tokens say, the first of which begins at `start`. -/
def tokenEntries (kind : Token → List Char) : (start : Nat) → List Token →
    List Entry
  | _, [] => []
  | start, token :: tokens =>
      ⟨kind token, ⟨start, start + token.length⟩, token.text⟩ ::
        tokenEntries kind (start + token.length) tokens

/-- What the line of the remainder says. -/
def restEntries (start : Nat) (rest : Bytes) : List Entry :=
  if rest.isEmpty then []
  else [⟨restKind, ⟨start, start + rest.length⟩, rest⟩]

/-- What a listing says. -/
def entries (kind : Token → List Char) (tokens : List Token) (rest : Bytes) :
    List Entry :=
  tokenEntries kind 0 tokens ++
    restEntries (tokens.map Token.length).sum rest

section

variable {kind : Token → List Char} {tokens : List Token} {rest : Bytes}

theorem tokenLines_stop (kind : Token → List Char) (start : Nat)
    (tokens : List Token) :
    (tokenLines kind start tokens).2 =
      start + (tokens.map Token.length).sum := by
  induction tokens generalizing start with
  | nil => rfl
  | cons token tokens ih =>
      rw [tokenLines, List.map_cons, List.sum_cons, ← Nat.add_assoc, ← ih]

theorem read?_tokenLines (names : ∀ token ∈ tokens, IsName (kind token))
    (start : Nat) (more : List Char) :
    read? ((tokenLines kind start tokens).1 ++ more) =
      (read? more).map (tokenEntries kind start tokens ++ ·) := by
  induction tokens generalizing start with
  | nil => simp [tokenLines, tokenEntries]
  | cons token tokens ih =>
      rw [List.forall_mem_cons] at names
      rw [tokenLines, List.append_assoc, read?_line names.1, ih names.2,
        Option.map_map]
      rfl

theorem read?_restLine (start : Nat) (rest : Bytes) :
    read? (restLine start rest) = some (restEntries start rest) := by
  have name : IsName restKind := ⟨by decide, by decide⟩
  rw [restLine, restEntries]
  split
  next => rfl
  next =>
      have read := read?_line name start rest []
      rw [List.append_nil] at read
      exact read

/-- A listing is read back. -/
theorem read?_listing (names : ∀ token ∈ tokens, IsName (kind token))
    (rest : Bytes) :
    read? (listing kind tokens rest) = some (entries kind tokens rest) := by
  have stop := tokenLines_stop kind 0 tokens
  rw [Nat.zero_add] at stop
  rw [listing]
  dsimp only
  rw [read?_tokenLines names, stop, read?_restLine, Option.map_some, entries]

/-! ## What a listing says -/

theorem map_tokenEntries (kind : Token → List Char) (start : Nat)
    (tokens : List Token) :
    (tokenEntries kind start tokens).map
        (fun entry => (entry.kind, entry.text)) =
      tokens.map fun token => (kind token, token.text) := by
  induction tokens generalizing start with
  | nil => rfl
  | cons token tokens ih => rw [tokenEntries, List.map_cons, ih]; rfl

/-- The kinds and the texts, in order. -/
theorem map_entries (kind : Token → List Char) (tokens : List Token)
    (rest : Bytes) :
    (entries kind tokens rest).map (fun entry => (entry.kind, entry.text)) =
      tokens.map (fun token => (kind token, token.text)) ++
        if rest = [] then [] else [(restKind, rest)] := by
  rw [entries, List.map_append, map_tokenEntries, restEntries]
  cases rest <;> rfl

theorem map_kind_entries (kind : Token → List Char) (tokens : List Token)
    (rest : Bytes) :
    (entries kind tokens rest).map (·.kind) =
      tokens.map kind ++ if rest = [] then [] else [restKind] := by
  have pairs := congrArg (·.map Prod.fst) (map_entries kind tokens rest)
  cases rest <;> simpa [Function.comp_def] using pairs

theorem flatMap_text_entries (kind : Token → List Char) (tokens : List Token)
    (rest : Bytes) :
    (entries kind tokens rest).flatMap (·.text) =
      tokens.flatMap (·.text) ++ rest := by
  have pairs := congrArg (·.flatMap Prod.snd) (map_entries kind tokens rest)
  simp only [List.flatMap_map, List.flatMap_append] at pairs
  rw [pairs]
  cases rest <;> simp

theorem tiles_append {left right : List Span} {start middle stop : Nat}
    (first : Tiles start middle left) (second : Tiles middle stop right) :
    Tiles start stop (left ++ right) := by
  induction left generalizing start with
  | nil =>
      have same : start = middle := first
      rw [same]
      exact second
  | cons span left ih => exact ⟨first.1, first.2.1, ih first.2.2⟩

theorem tokenEntries_tiles (kind : Token → List Char) (start : Nat)
    (tokens : List Token) :
    Tiles start (start + (tokens.map Token.length).sum)
      ((tokenEntries kind start tokens).map (·.place)) := by
  induction tokens generalizing start with
  | nil => rfl
  | cons token tokens ih =>
      have rest := ih (start + token.length)
      rw [Nat.add_assoc] at rest
      exact ⟨rfl, Nat.le_add_right _ _, rest⟩

theorem restEntries_tiles (start : Nat) (rest : Bytes) :
    Tiles start (start + rest.length)
      ((restEntries start rest).map (·.place)) := by
  cases rest with
  | nil => rfl
  | cons byte rest => exact ⟨rfl, Nat.le_add_right _ _, rfl⟩

/-- The places lie side by side from the first byte to the last. -/
theorem entries_tiles (kind : Token → List Char) (tokens : List Token)
    (rest : Bytes) :
    Tiles 0 ((tokens.map Token.length).sum + rest.length)
      ((entries kind tokens rest).map (·.place)) := by
  have first := tokenEntries_tiles kind 0 tokens
  rw [Nat.zero_add] at first
  rw [entries, List.map_append]
  exact tiles_append first (restEntries_tiles _ rest)

theorem length_place_tokenEntries (kind : Token → List Char) (start : Nat)
    (tokens : List Token) :
    ∀ entry ∈ tokenEntries kind start tokens,
      entry.place.length = entry.text.length := by
  induction tokens generalizing start with
  | nil => simp [tokenEntries]
  | cons token tokens ih =>
      rw [tokenEntries, List.forall_mem_cons]
      exact ⟨Nat.add_sub_cancel_left _ _, ih _⟩

/-- A place is as long as its text. -/
theorem length_place_entries (kind : Token → List Char) (tokens : List Token)
    (rest : Bytes) :
    ∀ entry ∈ entries kind tokens rest,
      entry.place.length = entry.text.length := by
  rw [entries, List.forall_mem_append]
  refine ⟨length_place_tokenEntries kind 0 tokens, ?_⟩
  cases rest with
  | nil => simp [restEntries]
  | cons byte rest => simp [restEntries, Span.length]

/-- Lines of tokens say nothing of a remainder when none of them is called like
it. -/
theorem contents_tokenEntries
    (others : ∀ token ∈ tokens, kind token ≠ restKind) (start : Nat) :
    contents (tokenEntries kind start tokens) =
      (tokens.map fun token => (kind token, token.text), []) := by
  induction tokens generalizing start with
  | nil => rfl
  | cons token tokens ih =>
      -- The line of the token passes the first filter and not the second.
      rw [List.forall_mem_cons] at others
      have rest := ih others.2 (start + token.length)
      rw [contents, Prod.mk.injEq] at rest
      rw [contents, tokenEntries, List.filter_cons_of_pos (by simp [others.1]),
        List.filter_cons_of_neg (by simp [others.1]), List.map_cons, rest.1,
        rest.2]
      rfl

theorem contents_restEntries (start : Nat) (rest : Bytes) :
    contents (restEntries start rest) = ([], rest) := by
  cases rest <;> simp [contents, restEntries]

theorem contents_append (front behind : List Entry) :
    contents (front ++ behind) =
      ((contents front).1 ++ (contents behind).1,
        (contents front).2 ++ (contents behind).2) := by
  simp [contents]

/-- When no token is called like the remainder, a listing tells them apart. -/
theorem contents_entries
    (others : ∀ token ∈ tokens, kind token ≠ restKind) (rest : Bytes) :
    contents (entries kind tokens rest) =
      (tokens.map fun token => (kind token, token.text), rest) := by
  rw [entries, contents_append, contents_tokenEntries others,
    contents_restEntries, List.append_nil, List.nil_append]

theorem restLength_entries
    (others : ∀ token ∈ tokens, kind token ≠ restKind) (rest : Bytes) :
    restLength (entries kind tokens rest) = rest.length := by
  have none : (tokenEntries kind 0 tokens).find? (·.kind = restKind) =
      none := by
    rw [List.find?_eq_none]
    intro entry listed
    have pair := List.mem_map_of_mem
      (f := fun entry : Entry => (entry.kind, entry.text)) listed
    rw [map_tokenEntries, List.mem_map] at pair
    rcases pair with ⟨token, member, same⟩
    rw [← (Prod.mk.inj same).1]
    simpa using others token member
  rw [restLength, entries, List.find?_append, none, restEntries]
  cases rest <;> simp [Span.length]

/-- A listing of what a buffer has been cut into spells the buffer. -/
theorem read?_listing_spells (names : ∀ token ∈ tokens, IsName (kind token))
    {buffer : Bytes} (spells : tokens.flatMap (·.text) ++ rest = buffer) :
    ∃ entries, read? (listing kind tokens rest) = some entries ∧
      entries.flatMap (·.text) = buffer :=
  ⟨entries kind tokens rest, read?_listing names rest,
    (flatMap_text_entries kind tokens rest).trans spells⟩

end

/-! ## Names of kinds -/

theorem not_mem_intercalate {char bar : Char} (other : char ≠ bar)
    {parts : List (List Char)} (absent : ∀ part ∈ parts, char ∉ part) :
    char ∉ [bar].intercalate parts := by
  induction parts with
  | nil => exact List.not_mem_nil
  | cons part parts ih =>
      rw [List.forall_mem_cons] at absent
      cases parts with
      | nil => simpa using absent.1
      | cons next parts =>
          rw [List.intercalate_cons_cons, List.mem_append, List.mem_append,
            List.mem_singleton, not_or, not_or]
          exact ⟨⟨absent.1, other⟩, ih absent.2⟩

end Listing

theorem SplitType.isName (type : SplitType) :
    Listing.IsName type.name.toList := by
  cases type <;> exact ⟨by decide, by decide⟩

theorem Lexeme.isName (kind : Lexeme) : Listing.IsName kind.name.toList := by
  cases kind <;> exact ⟨by decide, by decide⟩

theorem CommandLine.isName_splitKind (token : Token) :
    Listing.IsName (splitKind token) := by
  have unknown : Listing.IsName ['?'] := ⟨by decide, by decide⟩
  rw [splitKind]
  split
  next => exact unknown
  next type _ _ =>
      cases SplitType.ofId? type with
      | none => exact unknown
      | some type => exact type.isName

theorem Lexeme.isName_kindName (token : Token) :
    Listing.IsName (kindName token) := by
  have names : ∀ part ∈ token.types.filterMap
      (fun type => all[type]?.map (·.name.toList)), Listing.IsName part := by
    intro part member
    rcases List.mem_filterMap.mp member with ⟨type, _, named⟩
    rcases Option.map_eq_some_iff.mp named with ⟨kind, _, rfl⟩
    exact kind.isName
  constructor
  · refine Listing.not_mem_intercalate (by decide) ?_
    exact fun part member => (names part member).tab
  · refine Listing.not_mem_intercalate (by decide) ?_
    exact fun part member => (names part member).feed

/-! ## Commands -/

theorem Lexeme.tokenizer_sound : tokenizer.Sound :=
  ⟨all.map pattern, rfl⟩

/-- The text that a command makes of an input is a listing, the texts of which
spell the input. -/
theorem CommandLine.product_spells (parsed : Parsed) (machine : Machine)
    (listed : parsed.scope = .split → parsed.behind.summary = false)
    (input : Bytes) :
    ∃ product entries, (parsed.job machine).product input = .ok product ∧
      Listing.read? product.text = some entries ∧
      entries.flatMap (·.text) = input := by
  have ofLex : ∃ product entries, lexProduct input = .ok product ∧
      Listing.read? product.text = some entries ∧
      entries.flatMap (·.text) = input := by
    rcases Tokenizer.tokenizeNew_spells Lexeme.tokenizer_sound trivial input
      with ⟨tokens, rest, read, spells⟩
    rcases Listing.read?_listing_spells
        (fun token _ => Lexeme.isName_kindName token) spells
      with ⟨entries, written, whole⟩
    rw [lexProduct, read]
    exact ⟨_, entries, rfl, written, whole⟩
  rcases parsed with ⟨scope, before, behind⟩
  cases scope with
  | split =>
      rcases behind.splitOptions.tokenizer_fit machine with ⟨sound, honest⟩
      rcases Tokenizer.tokenizeNew_spells sound honest input
        with ⟨tokens, rest, read, spells⟩
      rcases Listing.read?_listing_spells
          (fun token _ => isName_splitKind token) spells
        with ⟨entries, written, whole⟩
      have tokensToo : behind.summary = false := listed rfl
      simp only [Parsed.job, splitProduct, read, tokensToo]
      exact ⟨_, entries, rfl, written, whole⟩
  | lex => exact ofLex
  | top => exact ofLex

namespace Listing

/-- A listing is read back when its kinds have neither tabs nor line feeds and
none of them is that of the remainder: the kind and the text of every token in
order, and the remainder, which has a line of its own unless it is empty. The
places begin at 0, lie side by side, are as long as their texts, and end where
the bytes do. So the listings that commands write, by splitting or with the
lexicon, spell the input. -/
theorem read?_listing_lossless :
    (∀ (kind : Token → List Char) (tokens : List Token) (rest : Bytes),
      (∀ token ∈ tokens, '\t' ∉ kind token ∧ '\n' ∉ kind token ∧
        kind token ≠ restKind) →
      ∃ entries, read? (listing kind tokens rest) = some entries ∧
        contents entries =
          (tokens.map fun token => (kind token, token.text), rest) ∧
        entries.map (fun entry => (entry.kind, entry.text)) =
          tokens.map (fun token => (kind token, token.text)) ++
            (if rest = [] then [] else [(restKind, rest)]) ∧
        Tiles 0 ((tokens.map Token.length).sum + rest.length)
          (entries.map (·.place)) ∧
        ∀ entry ∈ entries, entry.place.length = entry.text.length) ∧
      ∀ (parsed : CommandLine.Parsed) (machine : Machine) (input : Bytes),
        (parsed.scope = .split → parsed.behind.summary = false) →
        ∃ product entries, (parsed.job machine).product input = .ok product ∧
          read? product.text = some entries ∧
          entries.flatMap (·.text) = input := by
  constructor
  · intro kind tokens rest names
    have named : ∀ token ∈ tokens, IsName (kind token) := fun token member =>
      ⟨(names token member).1, (names token member).2.1⟩
    have others : ∀ token ∈ tokens, kind token ≠ restKind :=
      fun token member => (names token member).2.2
    exact ⟨entries kind tokens rest, read?_listing named rest,
      contents_entries others rest, map_entries kind tokens rest,
      entries_tiles kind tokens rest, length_place_entries kind tokens rest⟩
  · intro parsed machine input listed
    exact CommandLine.product_spells parsed machine listed input

/-- Tokens whose texts have a tab, a line feed, a backslash, a quote and no bytes
at all. -/
def awkward : List Token :=
  [⟨[9, 10, 92], [1]⟩, ⟨[0x27, 0xff], [0]⟩, ⟨[], [1]⟩]

theorem read?_awkward :
    (∀ token ∈ awkward, '\t' ∉ CommandLine.splitKind token ∧
        '\n' ∉ CommandLine.splitKind token ∧
        CommandLine.splitKind token ≠ restKind) ∧
      (∃ entries,
        read? (listing CommandLine.splitKind awkward [9, 0]) = some entries ∧
        contents entries =
          ([("TEXT".toList, [9, 10, 92]), ("DELIM".toList, [0x27, 0xff]),
            ("TEXT".toList, [])], [9, 0]) ∧
        Tiles 0 7 (entries.map (·.place))) ∧
      ∃ product entries,
        (CommandLine.Parsed.job ⟨.split, {}, { parallel := true }⟩
          ⟨2, fun _ => none⟩).product [9, 10, 10, 92] = .ok product ∧
        read? product.text = some entries ∧
        entries.flatMap (·.text) = [9, 10, 10, 92] := by
  have names : ∀ token ∈ awkward, '\t' ∉ CommandLine.splitKind token ∧
      '\n' ∉ CommandLine.splitKind token ∧
      CommandLine.splitKind token ≠ restKind := by decide
  refine ⟨names, ?_, ?_⟩
  · rcases read?_listing_lossless.1 CommandLine.splitKind awkward [9, 0] names
      with ⟨entries, read, contents, _, tiles, _⟩
    exact ⟨entries, read, contents, tiles⟩
  · exact read?_listing_lossless.2 _ _ _ fun _ => rfl

end Listing

end Munch
