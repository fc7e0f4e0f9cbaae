import CompileFlags.Json.Writer
import CompileFlags.Proofs.Json.Punctuation
import CompileFlags.Proofs.Json.Strings
import Mathlib.Data.List.Forall2

/-!
# What is written has the form of a document

The writer works on characters and the forms are about bytes. A written string spells the string,
whatever its characters are, and a written list or object is a bracketed list of what its items
spell.
-/

namespace CompileFlags.Json

open Form

/-! ## Bytes of a text -/

def utf8Bytes (s : String) : Bytes :=
  s.toList.flatMap String.utf8EncodeChar

@[simp] theorem utf8Bytes_append (s t : String) :
    utf8Bytes (s ++ t) = utf8Bytes s ++ utf8Bytes t := by
  simp [utf8Bytes]

/-- Listing the bytes of an array from a position on, behind those already listed. -/
theorem toList_loop (b : ByteArray) {i k : Nat} (hi : i + k = b.size) (r : Bytes) :
    ByteArray.toList.loop b i r = r.reverse ++ b.data.toList.drop i := by
  induction k generalizing i r with
  | zero =>
      have hend : b.data.toList.length ≤ i := Nat.le_of_eq hi.symm
      rw [ByteArray.toList.loop, if_neg (by omega), List.drop_eq_nil_of_le hend,
        List.append_nil]
  | succ k ih =>
      have hlt : i < b.data.toList.length := Nat.lt_of_lt_of_eq (by omega) hi
      have hget : b.get! i = b.data.toList[i] := getElem!_pos b.data i hlt
      rw [ByteArray.toList.loop, if_pos (by omega), ih (by omega),
        List.drop_eq_getElem_cons hlt, hget, List.reverse_cons, List.append_assoc,
        List.singleton_append]

/-- The bytes of a file with this text. -/
theorem toUTF8_toList (s : String) : s.toUTF8.toList = utf8Bytes s := by
  rw [String.toUTF8_eq_toByteArray, ← String.utf8Encode_toList, List.utf8Encode,
    ByteArray.toList, toList_loop _ (Nat.zero_add _), List.toList_data_toByteArray]
  rfl

theorem decode_utf8Bytes (s : String) : Text.decode (utf8Bytes s) = some s := by
  have hbytes : (utf8Bytes s).toByteArray = s.toByteArray := String.utf8Encode_toList
  rw [Text.decode, hbytes, String.fromUTF8?, dif_pos s.isValidUTF8]
  rfl

theorem le_ofNat (v : Nat) {m base : Nat} (hm : 0 < m) (hbase : 0x80 ≤ base)
    (hsum : m + base ≤ 0x100) : 0x80 ≤ UInt8.ofNat (v % m + base) := by
  have hv : v % m < m := Nat.mod_lt v hm
  have hsmall : v % m + base < 2 ^ 8 := by omega
  rw [UInt8.le_iff_toNat_le, UInt8.toNat_ofNat', Nat.mod_eq_of_lt hsmall]
  exact Nat.le_trans hbase (Nat.le_add_left _ _)

/-- No byte of a longer encoding is taken for one of a shorter one. -/
theorem le_of_mem_utf8EncodeChar {c : Char} (hc : 0x80 ≤ c.toNat) {b : UInt8}
    (hb : b ∈ String.utf8EncodeChar c) : 0x80 ≤ b := by
  have hlong : ¬ c.val.toNat ≤ 0x7f := Nat.not_le.mpr hc
  rw [String.utf8EncodeChar, if_neg hlong] at hb
  split at hb
  · simp only [List.mem_cons, List.not_mem_nil, or_false] at hb
    rcases hb with rfl | rfl <;> exact le_ofNat _ (by decide) (by decide) (by decide)
  · split at hb
    · simp only [List.mem_cons, List.not_mem_nil, or_false] at hb
      rcases hb with rfl | rfl | rfl <;> exact le_ofNat _ (by decide) (by decide) (by decide)
    · simp only [List.mem_cons, List.not_mem_nil, or_false] at hb
      rcases hb with rfl | rfl | rfl | rfl <;>
        exact le_ofNat _ (by decide) (by decide) (by decide)

theorem utf8EncodeChar_ascii {c : Char} (hc : c.toNat < 0x80) :
    String.utf8EncodeChar c = [byte c] := by
  have hshort : c.val.toNat ≤ 0x7f := Nat.le_of_lt_succ hc
  rw [String.utf8EncodeChar, if_pos hshort]
  rfl

/-! ## Strings -/

namespace Writer

/-- A character that is written as it is has no byte that needs an escape. -/
theorem plain_utf8EncodeChar {c : Char} (hquote : c ≠ '"') (hslash : c ≠ '\\')
    (hcontrol : 0x20 ≤ c.toNat) : Plain (String.utf8EncodeChar c) := by
  intro b hb
  by_cases hc : c.toNat < 0x80
  · rw [utf8EncodeChar_ascii hc, List.mem_singleton] at hb
    have hnat : b.toNat = c.toNat := by
      rw [hb]
      exact Nat.mod_eq_of_lt (Nat.lt_trans hc (by decide))
    refine ⟨UInt8.le_iff_toNat_le.mpr (hnat ▸ hcontrol), ?_, ?_⟩
    · rintro rfl
      exact hquote (Char.toNat_inj.mp hnat.symm)
    · rintro rfl
      exact hslash (Char.toNat_inj.mp hnat.symm)
  · have hlong := le_of_mem_utf8EncodeChar (Nat.le_of_not_lt hc) hb
    have hge : 0x80 ≤ b.toNat := UInt8.le_iff_toNat_le.mp hlong
    refine ⟨UInt8.le_iff_toNat_le.mpr (Nat.le_trans (by decide) hge), ?_, ?_⟩
    · rintro rfl
      revert hge
      decide
    · rintro rfl
      revert hge
      decide

theorem hexDigit_form {n : Nat} (hn : n < 16) :
    String.utf8EncodeChar (hexDigit n) = [byte (hexDigit n)] ∧
      HexDigit (byte (hexDigit n)) n := by
  have hall : ∀ n < 16, String.utf8EncodeChar (hexDigit n) = [byte (hexDigit n)] ∧
      HexDigit (byte (hexDigit n)) n := by decide
  exact hall n hn

/-- How a character is written: by a letter, by its number, or as it is. -/
inductive Encodes (c : Char) : List Char → Prop
  | letter {d : Char} {b : UInt8} : (d, b) ∈ escapes → String.utf8EncodeChar c = [b] →
      Encodes c ['\\', d]
  | control : c.toNat < 0x20 →
      Encodes c ['\\', 'u', '0', '0', hexDigit (c.toNat / 16), hexDigit (c.toNat % 16)]
  | plain : c ≠ '"' → c ≠ '\\' → 0x20 ≤ c.toNat → Encodes c [c]

theorem encodes_encodeChar (c : Char) : Encodes c (encodeChar c) := by
  unfold encodeChar
  iterate 7
    split
    · subst c
      exact .letter (b := _) (by decide) rfl
  split
  · exact .control ‹_›
  · exact .plain ‹_› ‹_› (Nat.le_of_not_lt ‹_›)

theorem body_encodeChar (c : Char) :
    Body .read ((encodeChar c).flatMap String.utf8EncodeChar) (String.utf8EncodeChar c) := by
  have hcases := encodes_encodeChar c
  generalize encodeChar c = text at hcases
  cases hcases with
  | @letter d b hd hb =>
      have hascii : ∀ p ∈ escapes, String.utf8EncodeChar p.1 = [byte p.1] := by decide
      have htext : ['\\', d].flatMap String.utf8EncodeChar = [byte '\\', byte d] ++ [] := by
        simp +decide [utf8EncodeChar_ascii, hascii (d, b) hd]
      rw [htext, hb]
      exact .cons (.letter hd) .nil
  | control hc =>
      -- The first two of the four digits are zero, so the others give the number.
      obtain ⟨hhigh, hform⟩ := hexDigit_form (show c.toNat / 16 < 16 by omega)
      obtain ⟨hlow, hform'⟩ := hexDigit_form (show c.toNat % 16 < 16 by omega)
      have hunit : Unit4 [byte '0', byte '0', byte (hexDigit (c.toNat / 16)),
          byte (hexDigit (c.toNat % 16))] (((0 * 16 + 0) * 16 + c.toNat / 16) * 16 +
            c.toNat % 16) := .mk (by decide) (by decide) hform hform'
      have hnat : ((0 * 16 + 0) * 16 + c.toNat / 16) * 16 + c.toNat % 16 = c.toNat := by omega
      rw [hnat] at hunit
      have hbody := Body.cons (.unit hunit) .nil
      simpa +decide [utf8EncodeChar_ascii, unicode, hhigh, hlow] using hbody
  | plain hquote hslash hcontrol =>
      have hplain := Text.body_plain .read (plain_utf8EncodeChar hquote hslash hcontrol)
      simpa using hplain

theorem body_append {mode : Text.Mode} {s t v u : Bytes} (hs : Body mode s v)
    (ht : Body mode t u) : Body mode (s ++ t) (v ++ u) := by
  induction hs with
  | nil => exact ht
  | cons hchunk _ ih =>
      rw [List.append_assoc, List.append_assoc]
      exact .cons hchunk ih

theorem body_flatMap (cs : List Char) :
    Body .read ((cs.flatMap encodeChar).flatMap String.utf8EncodeChar)
      (cs.flatMap String.utf8EncodeChar) := by
  induction cs with
  | nil => exact .nil
  | cons c cs ih =>
      rw [List.flatMap_cons, List.flatMap_append, List.flatMap_cons]
      exact body_append (body_encodeChar c) ih

theorem textForm_string (s : String) : TextForm s (utf8Bytes (string s)) := by
  have hform : TextForm s _ := .mk (body_flatMap s.toList) (decode_utf8Bytes s)
  have hquote : String.utf8EncodeChar '"' = [byte '"'] := by decide
  simpa [utf8Bytes, string, hquote] using hform

/-! ## Lists and objects -/

theorem blank_newline (depth : Nat) : Blank (utf8Bytes (newline depth)) := by
  intro b hb
  simp only [utf8Bytes, newline, String.toList_append, String.toList_ofList, List.flatMap_append,
    List.mem_append, List.mem_flatMap, List.mem_replicate] at hb
  rcases hb with ⟨c, hc, hb⟩ | ⟨c, ⟨-, rfl⟩, hb⟩
  · obtain rfl : c = '\n' := by simpa using hc
    obtain rfl : b = byte '\n' := by simpa +decide [utf8EncodeChar_ascii] using hb
    decide
  · obtain rfl : b = byte ' ' := by simpa +decide [utf8EncodeChar_ascii] using hb
    decide

variable {α : Type} {form : α → Bytes → Prop} {xs : List α} {items : List String}

/-- The texts spell the items, one by one. -/
abbrev Spells (form : α → Bytes → Prop) : List α → List String → Prop :=
  List.Forall₂ fun x text ↦ form x (utf8Bytes text)

theorem separated_items (h : Spells form xs items) (hne : xs ≠ []) {gap : String}
    (hgap : Blank (utf8Bytes gap)) {a b : Bytes} (ha : Blank a) (hb : Blank b) :
    Separated form xs (a ++ utf8Bytes (("," ++ gap).intercalate items) ++ b) := by
  induction h generalizing a with
  | nil => exact absurd rfl hne
  | @cons x text xs items hx hrest ih =>
      cases hrest with
      | nil => simpa using Separated.one ha hx hb
      | @cons y next ys items =>
          have htail := ih (List.cons_ne_nil y ys) hgap
          have hcomma : utf8Bytes "," = [byte ','] := by decide
          simpa [String.intercalate_cons_cons, hcomma] using Separated.cons ha hx blank_nil htail

theorem bracketed_block (h : Spells form xs items) {opening closing : Char} {o c : String}
    (ho : utf8Bytes o = [byte opening]) (hc : utf8Bytes c = [byte closing]) (depth : Nat) :
    Bracketed opening closing form xs (utf8Bytes (block o c depth items)) := by
  by_cases hempty : items = []
  · subst hempty
    obtain rfl := List.forall₂_nil_right_iff.mp h
    have hform : Bracketed opening closing form [] _ := .empty blank_nil
    simpa [block, ho, hc] using hform
  · have hne : xs ≠ [] := by
      rintro rfl
      exact hempty (List.forall₂_nil_left_iff.mp h)
    have hitems := separated_items h hne (blank_newline (depth + 1)) (blank_newline (depth + 1))
      (blank_newline depth)
    have hform : Bracketed opening closing form xs _ := .items hitems
    simpa [block, hempty, ho, hc] using hform

theorem bracketed_strings (depth : Nat) (xs : List String) :
    Bracketed '[' ']' TextForm xs (utf8Bytes (strings depth xs)) := by
  have hspells : Spells TextForm xs (xs.map string) := by
    rw [Spells, List.forall₂_map_right_iff, List.forall₂_same]
    exact fun x _ ↦ textForm_string x
  exact bracketed_block hspells (by decide) (by decide) depth

theorem keyed_member {x : α} {value : String} (name : String) (h : form x (utf8Bytes value)) :
    Keyed form (name, x) (utf8Bytes (member name value)) := by
  have hcolon : utf8Bytes ": " = byte ':' :: [byte ' '] := by decide
  have hblank : Blank [byte ' '] := by decide
  simpa [member, hcolon] using Keyed.mk (textForm_string name) blank_nil hblank h

/-- An object spells its members if the values written spell theirs. -/
theorem bracketed_object {members : List (String × α)} {written : List (String × String)}
    (h : List.Forall₂ (fun m v ↦ m.1 = v.1 ∧ form m.2 (utf8Bytes v.2)) members written)
    (depth : Nat) :
    Bracketed '\x7b' '\x7d' (Keyed form) members (utf8Bytes (object depth written)) := by
  refine bracketed_block ?_ (by decide) (by decide) depth
  rw [Spells, List.forall₂_map_right_iff]
  refine h.imp ?_
  rintro ⟨name, x⟩ ⟨_, value⟩ ⟨rfl, hvalue⟩
  exact keyed_member name hvalue

end Writer

end CompileFlags.Json
