import CompileFlags.Text.Spelling

/-!
# Quotes that are left open

Whether a quote in a command string opens a quotation depends on what stands before it: a quote in
a comment, behind a backslash or inside the other kind of quotes is text. These are the rules for
that, without reading: the texts after which everything is closed, and the texts that go on from
there with a quotation that does not end.
-/

namespace CompileFlags.Words

/-- What stands between two double quotes: no quote but behind a backslash, which takes the
character after it along. -/
inductive Quotable : List Char → Prop
  | nil : Quotable []
  | plain {cs : List Char} {c : Char} : Quotable cs → c ≠ '"' → c ≠ '\\' → Quotable (cs ++ [c])
  | escaped {cs : List Char} {c : Char} : Quotable cs → Quotable (cs ++ ['\\', c])

/-- Texts that end outside of quotes and comments and behind no single backslash. A text is at rest
when the next character would start a word, so that a comment sign would start a comment. -/
inductive Closed : Bool → List Char → Prop
  | empty : Closed true []
  | blank {rest : Bool} {cs : List Char} {c : Char} : Closed rest cs → isBlank c →
      Closed true (cs ++ [c])
  | comment {cs ds : List Char} : Closed true cs → '\n' ∉ ds →
      Closed true (cs ++ '#' :: ds ++ ['\n'])
  /-- A backslash at the end of a line takes the line's end away. -/
  | joined {rest : Bool} {cs : List Char} : Closed rest cs → Closed rest (cs ++ ['\\', '\n'])
  | bare {rest : Bool} {cs : List Char} {c : Char} : Closed rest cs → Piece.isBare c →
      (rest = true → c ≠ '#') → Closed false (cs ++ [c])
  | escaped {rest : Bool} {cs : List Char} {c : Char} : Closed rest cs → c ≠ '\n' →
      Closed false (cs ++ ['\\', c])
  | single {rest : Bool} {cs ds : List Char} : Closed rest cs → '\x27' ∉ ds →
      Closed false (cs ++ '\x27' :: ds ++ ['\x27'])
  | double {rest : Bool} {cs ds : List Char} : Closed rest cs → Quotable ds →
      Closed false (cs ++ '"' :: ds ++ ['"'])

/-- Texts in which a quote opens a quotation that nothing after it closes. -/
inductive OpenQuote : List Char → Prop
  | single {rest : Bool} {cs ds : List Char} : Closed rest cs → '\x27' ∉ ds →
      OpenQuote (cs ++ '\x27' :: ds)
  | double {rest : Bool} {cs ds : List Char} : Closed rest cs → Quotable ds →
      OpenQuote (cs ++ '"' :: ds)
  /-- The last character is a backslash with nothing to take along. -/
  | escape {rest : Bool} {cs ds : List Char} : Closed rest cs → Quotable ds →
      OpenQuote (cs ++ '"' :: ds ++ ['\\'])

end CompileFlags.Words
