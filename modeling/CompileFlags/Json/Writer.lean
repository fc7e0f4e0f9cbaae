/-!
# Writing lists of strings

Strings are written with the short escapes, and `\u00xx` for other control characters; all else
stands as it is. Lists and objects are laid out one item a line, two blanks deeper than their
bracket, and on one line when empty.
-/

namespace CompileFlags.Json.Writer

def hexDigit (n : Nat) : Char :=
  Nat.digitChar n

def encodeChar (c : Char) : List Char :=
  if c = '"' then ['\\', '"']
  else if c = '\\' then ['\\', '\\']
  else if c = '\x08' then ['\\', 'b']
  else if c = '\x0c' then ['\\', 'f']
  else if c = '\n' then ['\\', 'n']
  else if c = '\r' then ['\\', 'r']
  else if c = '\t' then ['\\', 't']
  else if c.toNat < 0x20 then
    ['\\', 'u', '0', '0', hexDigit (c.toNat / 16), hexDigit (c.toNat % 16)]
  else [c]

def string (s : String) : String :=
  String.ofList ('"' :: s.toList.flatMap encodeChar ++ ['"'])

def newline (depth : Nat) : String :=
  "\n" ++ String.ofList (List.replicate (2 * depth) ' ')

/-- Items between brackets, the closing one at the given depth. -/
def block (opening closing : String) (depth : Nat) (items : List String) : String :=
  if items.isEmpty then opening ++ closing
  else
    opening ++ newline (depth + 1) ++ ("," ++ newline (depth + 1)).intercalate items ++
      newline depth ++ closing

def strings (depth : Nat) (xs : List String) : String :=
  block "[" "]" depth (xs.map string)

def member (name value : String) : String :=
  string name ++ ": " ++ value

/-- An object at a depth, its values already written. -/
def object (depth : Nat) (members : List (String × String)) : String :=
  block "\x7b" "\x7d" depth (members.map fun (name, value) ↦ member name value)

end CompileFlags.Json.Writer
