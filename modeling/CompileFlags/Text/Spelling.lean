import CompileFlags.Text.Words

/-!
# Spellings of a list of words

One list of words has many spellings as a command string. A word is spelled by pieces, each of them
bare, in single quotes, in double quotes or after a backslash; blanks stand between words and may
stand around them.
-/

namespace CompileFlags.Words

/-- A character inside double quotes, after a backslash or as it is. -/
structure Quotee where
  char : Char
  escaped : Bool
  deriving DecidableEq, Repr

namespace Quotee

def text (q : Quotee) : List Char :=
  if q.escaped then ['\\', q.char] else [q.char]

/-- A quote and a backslash need the backslash; a dollar sign and a backquote may have it. -/
def Valid (q : Quotee) : Prop :=
  if q.escaped then isDoubleQuoteSpecial q.char else q.char ≠ '"' ∧ q.char ≠ '\\'

instance (q : Quotee) : Decidable q.Valid :=
  inferInstanceAs (Decidable (_ = true))

end Quotee

inductive Piece where
  | bare (cs : List Char)
  | single (cs : List Char)
  | double (qs : List Quotee)
  | escaped (c : Char)
  deriving DecidableEq, Repr

namespace Piece

def text : Piece → List Char
  | bare cs => cs
  | single cs => '\x27' :: cs ++ ['\x27']
  | double qs => '"' :: qs.flatMap Quotee.text ++ ['"']
  | escaped c => ['\\', c]

def value : Piece → List Char
  | bare cs => cs
  | single cs => cs
  | double qs => qs.map Quotee.char
  | escaped c => [c]

/-- The characters that may stand bare inside a word. -/
def isBare (c : Char) : Bool :=
  !isBlank c && c != '\x27' && c != '"' && c != '\\'

def Valid : Piece → Prop
  | bare cs => ∀ c ∈ cs, isBare c
  | single cs => '\x27' ∉ cs
  | double qs => ∀ q ∈ qs, q.Valid
  | escaped c => c ≠ '\n'

instance : (p : Piece) → Decidable p.Valid
  | bare cs => List.decidableBAll _ cs
  | single cs => inferInstanceAs (Decidable ('\x27' ∉ cs))
  | double qs => List.decidableBAll _ qs
  | escaped c => inferInstanceAs (Decidable (c ≠ '\n'))

end Piece

structure Spelling where
  pieces : List Piece
  deriving DecidableEq, Repr

namespace Spelling

def text (w : Spelling) : List Char :=
  w.pieces.flatMap Piece.text

def value (w : Spelling) : String :=
  String.ofList (w.pieces.flatMap Piece.value)

/-- There is something to read, and it does not start a comment. -/
def Valid (w : Spelling) : Prop :=
  (∀ p ∈ w.pieces, p.Valid) ∧ w.text ≠ [] ∧ w.text.head? ≠ some '#'

instance (w : Spelling) : Decidable w.Valid :=
  inferInstanceAs (Decidable (_ ∧ _ ∧ _))

end Spelling

def Blank (cs : List Char) : Prop :=
  ∀ c ∈ cs, isBlank c

instance (cs : List Char) : Decidable (Blank cs) :=
  List.decidableBAll _ cs

/-- The texts that spell a list of words: blanks, a word, and either the end or a blank before the
rest. -/
inductive Spells : List String → List Char → Prop
  | nil {blanks : List Char} : Blank blanks → Spells [] blanks
  | last {blanks tail : List Char} {w : Spelling} : Blank blanks → w.Valid → Blank tail →
      Spells [w.value] (blanks ++ w.text ++ tail)
  | cons {blanks rest : List Char} {b : Char} {w : Spelling} {words : List String} :
      Blank blanks → w.Valid → isBlank b → Spells words rest →
      Spells (w.value :: words) (blanks ++ w.text ++ b :: rest)

end CompileFlags.Words
