import CompileFlags.Json.Skip

/-!
# The form of a document

Which bytes spell a string, a number, a value: said by rules and not by reading. Strings come in
two grades. One that is read spells text, and `Body .read` gives its bytes; one that is skipped is
only required to have escapes of the right form.
-/

namespace CompileFlags.Json.Form

def word (s : String) : Bytes :=
  s.toList.map byte

def Blank (s : Bytes) : Prop :=
  ∀ b ∈ s, isBlank b

instance (s : Bytes) : Decidable (Blank s) :=
  List.decidableBAll _ s

/-- A run of digits that is not empty. -/
def Digits (s : Bytes) : Prop :=
  s ≠ [] ∧ ∀ b ∈ s, isDigit b

instance (s : Bytes) : Decidable (Digits s) :=
  @instDecidableAnd _ _ _ (List.decidableBAll _ s)

/-- The digits before the point: no zero at the front of others. -/
inductive Whole : Bytes → Prop
  | zero : Whole [byte '0']
  | digits {d : UInt8} {ds : Bytes} : isDigit d → d ≠ byte '0' → (∀ b ∈ ds, isDigit b) →
      Whole (d :: ds)

inductive Fraction : Bytes → Prop
  | none : Fraction []
  | digits {ds : Bytes} : Digits ds → Fraction (byte '.' :: ds)

inductive Exponent : Bytes → Prop
  | none : Exponent []
  | plain {mark : UInt8} {ds : Bytes} : Number.isExponentMark mark → Digits ds →
      Exponent (mark :: ds)
  | signed {mark sign : UInt8} {ds : Bytes} : Number.isExponentMark mark →
      sign = byte '+' ∨ sign = byte '-' → Digits ds → Exponent (mark :: sign :: ds)

inductive Numeral : Bytes → Prop
  | plain {w f e : Bytes} : Whole w → Fraction f → Exponent e → Numeral (w ++ f ++ e)
  | minus {w f e : Bytes} : Whole w → Fraction f → Exponent e →
      Numeral (byte '-' :: (w ++ f ++ e))

def HexDigit (b : UInt8) (v : Nat) : Prop :=
  (word "0123456789abcdef")[v]? = some b ∨ (word "0123456789ABCDEF")[v]? = some b

instance (b : UInt8) (v : Nat) : Decidable (HexDigit b v) :=
  inferInstanceAs (Decidable (_ ∨ _))

/-- Four hexadecimal digits and the unit that they stand for. -/
inductive Unit4 : Bytes → Nat → Prop
  | mk {a b c d : UInt8} {i j k l : Nat} : HexDigit a i → HexDigit b j → HexDigit c k →
      HexDigit d l → Unit4 [a, b, c, d] (((i * 16 + j) * 16 + k) * 16 + l)

/-- The letters of escapes, with the byte that each adds to the text. -/
def escapes : List (Char × UInt8) :=
  [('"', 0x22), ('\\', 0x5C), ('/', 0x2F), ('b', 0x08), ('f', 0x0C), ('n', 0x0A), ('r', 0x0D),
    ('t', 0x09)]

def unicode (ds : Bytes) : Bytes :=
  byte '\\' :: byte 'u' :: ds

/-- One character of a string or one escape, with the bytes it adds to the text. A character above
the first plane is escaped as a pair of surrogates. -/
inductive Chunk : Text.Mode → Bytes → Bytes → Prop
  | plain {mode : Text.Mode} {b : UInt8} : 0x20 ≤ b → b ≠ byte '"' → b ≠ byte '\\' →
      Chunk mode [b] [b]
  | letter {mode : Text.Mode} {c : Char} {b : UInt8} : (c, b) ∈ escapes →
      Chunk mode [byte '\\', byte c] [b]
  | unit {ds : Bytes} {c : Char} : Unit4 ds c.toNat →
      Chunk .read (unicode ds) (String.utf8EncodeChar c)
  | pair {ds es : Bytes} {c : Char} : 0x10000 ≤ c.toNat →
      Unit4 ds (0xD800 + (c.toNat - 0x10000) / 0x400) →
      Unit4 es (0xDC00 + (c.toNat - 0x10000) % 0x400) →
      Chunk .read (unicode ds ++ unicode es) (String.utf8EncodeChar c)
  | skipped {ds : Bytes} {u : Nat} : Unit4 ds u → Chunk .skip (unicode ds) []

/-- No byte that needs an escape. -/
def Plain (s : Bytes) : Prop :=
  ∀ b ∈ s, 0x20 ≤ b ∧ b ≠ byte '"' ∧ b ≠ byte '\\'

instance (s : Bytes) : Decidable (Plain s) :=
  List.decidableBAll _ s

/-- What stands between the quotes of a string, with the bytes of its text. -/
inductive Body (mode : Text.Mode) : Bytes → Bytes → Prop
  | nil : Body mode [] []
  | cons {c v rest vs : Bytes} : Chunk mode c v → Body mode rest vs →
      Body mode (c ++ rest) (v ++ vs)

inductive TextForm : String → Bytes → Prop
  | mk {spelled bytes : Bytes} {text : String} : Body .read spelled bytes →
      Text.decode bytes = some text → TextForm text (byte '"' :: spelled ++ [byte '"'])

mutual

inductive Value : Bytes → Prop
  | null : Value (word "null")
  | true : Value (word "true")
  | false : Value (word "false")
  | numeral {s : Bytes} : Numeral s → Value s
  | string {s v : Bytes} : Body .skip s v → Value (byte '"' :: s ++ [byte '"'])
  | emptyList {s : Bytes} : Blank s → Value (byte '[' :: s ++ [byte ']'])
  | list {s : Bytes} : Elements s → Value (byte '[' :: s ++ [byte ']'])
  | emptyObject {s : Bytes} : Blank s → Value (byte '\x7b' :: s ++ [byte '\x7d'])
  | object {s : Bytes} : Members s → Value (byte '\x7b' :: s ++ [byte '\x7d'])

inductive Elements : Bytes → Prop
  | one {a v b : Bytes} : Blank a → Value v → Blank b → Elements (a ++ v ++ b)
  | cons {a v b rest : Bytes} : Blank a → Value v → Blank b → Elements rest →
      Elements (a ++ v ++ b ++ byte ',' :: rest)

inductive Members : Bytes → Prop
  | one {a k kv b c v d : Bytes} : Blank a → Body .skip k kv → Blank b → Blank c → Value v →
      Blank d →
      Members (a ++ byte '"' :: k ++ byte '"' :: b ++ byte ':' :: c ++ v ++ d)
  | cons {a k kv b c v d rest : Bytes} : Blank a → Body .skip k kv → Blank b → Blank c →
      Value v → Blank d → Members rest →
      Members (a ++ byte '"' :: k ++ byte '"' :: b ++ byte ':' :: c ++ v ++ d ++
        byte ',' :: rest)

end

/-- Items of one form, each with blanks around it and commas between them. -/
inductive Separated {α : Type} (form : α → Bytes → Prop) : List α → Bytes → Prop
  | one {x : α} {a m b : Bytes} : Blank a → form x m → Blank b →
      Separated form [x] (a ++ m ++ b)
  | cons {x : α} {xs : List α} {a m b rest : Bytes} : Blank a → form x m → Blank b →
      Separated form xs rest → Separated form (x :: xs) (a ++ m ++ b ++ byte ',' :: rest)

inductive Bracketed {α : Type} (opening closing : Char) (form : α → Bytes → Prop) :
    List α → Bytes → Prop
  | empty {s : Bytes} : Blank s →
      Bracketed opening closing form [] (byte opening :: s ++ [byte closing])
  | items {xs : List α} {s : Bytes} : Separated form xs s →
      Bracketed opening closing form xs (byte opening :: s ++ [byte closing])

/-- A member of an object: its name, a colon and its value. -/
inductive Keyed {α : Type} (form : α → Bytes → Prop) : String × α → Bytes → Prop
  | mk {name : String} {x : α} {k a b v : Bytes} : TextForm name k → Blank a → Blank b →
      form x v → Keyed form (name, x) (k ++ a ++ byte ':' :: b ++ v)

inductive OptionForm {α : Type} (form : α → Bytes → Prop) : Option α → Bytes → Prop
  | none : OptionForm form none (word "null")
  | some {x : α} {s : Bytes} : form x s → OptionForm form (some x) s

end CompileFlags.Json.Form
