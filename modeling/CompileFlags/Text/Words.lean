/-!
# Words of a command string

A command string is cut into words as a shell would cut it, without expanding anything. `split`
reads it one character at a time; `join` writes words so that they read back.
-/

namespace CompileFlags.Words

def isBlank (c : Char) : Bool :=
  c == ' ' || c == '\t' || c == '\n'

/-- The characters that a backslash inside double quotes makes plain. -/
def isDoubleQuoteSpecial (c : Char) : Bool :=
  c == '$' || c == '\x60' || c == '"' || c == '\\'

/-- Where the reader stands. A partial word lists its characters last first. -/
inductive Place where
  | between
  /-- After a backslash that may start a word. -/
  | escapeBetween
  | comment
  | bare (word : List Char)
  | escapeBare (word : List Char)
  | single (word : List Char)
  | double (word : List Char)
  | escapeDouble (word : List Char)
  deriving DecidableEq, Repr

/-- The words that are complete, last first, and the place reached. -/
structure Scan where
  words : List String
  place : Place
  deriving DecidableEq, Repr

namespace Scan

def start : Scan := ⟨[], .between⟩

def close (words : List String) (word : List Char) : List String :=
  String.ofList word.reverse :: words

/-- What a character outside quotes and comments does to the word it extends. -/
def bareStep (words : List String) (word : List Char) (c : Char) : Scan :=
  if c = '\x27' then ⟨words, .single word⟩
  else if c = '"' then ⟨words, .double word⟩
  else if c = '\\' then ⟨words, .escapeBare word⟩
  else if isBlank c then ⟨close words word, .between⟩
  else ⟨words, .bare (c :: word)⟩

def step (s : Scan) (c : Char) : Scan :=
  match s.place with
  | .between =>
    if isBlank c then s
    else if c = '#' then ⟨s.words, .comment⟩
    else if c = '\\' then ⟨s.words, .escapeBetween⟩
    else bareStep s.words [] c
  | .escapeBetween => if c = '\n' then ⟨s.words, .between⟩ else ⟨s.words, .bare [c]⟩
  | .comment => if c = '\n' then ⟨s.words, .between⟩ else s
  | .bare w => bareStep s.words w c
  | .escapeBare w => ⟨s.words, .bare (if c = '\n' then w else c :: w)⟩
  | .single w => ⟨s.words, if c = '\x27' then .bare w else .single (c :: w)⟩
  | .double w =>
    ⟨s.words,
      if c = '"' then .bare w else if c = '\\' then .escapeDouble w else .double (c :: w)⟩
  | .escapeDouble w =>
    ⟨s.words,
      .double (if c = '\n' then w else if isDoubleQuoteSpecial c then c :: w else c :: '\\' :: w)⟩

/-- The words once the text has ended; none inside an open quote. A backslash at the very end
stands for itself. -/
def finish (s : Scan) : Option (List String) :=
  match s.place with
  | .between | .comment => some s.words.reverse
  | .escapeBetween => some (close s.words ['\\']).reverse
  | .bare w => some (close s.words w).reverse
  | .escapeBare w => some (close s.words ('\\' :: w)).reverse
  | .single _ | .double _ | .escapeDouble _ => none

end Scan

/-- The words of a command string, unless a quote is left open. -/
def split (text : String) : Option (List String) :=
  (text.toList.foldl Scan.step Scan.start).finish

/-- The characters that do not stand in a bare word. -/
def needsQuotes (c : Char) : Bool :=
  ['|', '&', ';', '<', '>', '(', ')', '$', '\x60', '\\', '"', '\x27', ' ', '\t', '\n', '*', '?',
    '[', '#', '~', '=', '%'].contains c

/-- One character inside single quotes; a single quote is written between two quoted texts. -/
def quoteChar (c : Char) : List Char :=
  if c = '\x27' then ['\x27', '\\', '\x27', '\x27'] else [c]

/-- A word as it is read back: bare where that is safe, in single quotes otherwise. -/
def quote (word : String) : String :=
  if word.isEmpty || word.toList.any needsQuotes then
    String.ofList ('\x27' :: word.toList.flatMap quoteChar ++ ['\x27'])
  else word

/-- One line that reads back as the words. -/
def join (words : List String) : String :=
  " ".intercalate (words.map quote)

end CompileFlags.Words
