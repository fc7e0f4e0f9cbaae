import CompileFlags.Command

/-!
# Defines and include directories

The argument list of a command is read from left to right, one or two tokens at a time: defines are
kept verbatim, include directories as `-I` and a resolved path, and all else is dropped. Another way
to see it is that the list is cut into segments, an option with the value that follows it, an option
with its value attached, a token that is neither, or an option left dangling at the end, and that
each segment contributes on its own.
-/

namespace CompileFlags

/-- Read an include directory from the directory in which the compiler ran. A relative
directory is read from the current one; where that is unknown the text stays as it is. -/
def resolveInclude (cwd : Option Path) (directory : Path) (dir : String) : String :=
  if Path.isAbsolute dir then Path.clean dir
  else if directory.isAbsolute then (directory.join dir).clean
  else match cwd with
    | some cwd => ((cwd.join directory).join dir).clean
    | none => dir

/-- Read an argument list. An option alone is read together with the token after it, whatever that
token is, and is dropped where there is none. -/
def readFlags (resolve : String → String) : List String → List String
  | [] => []
  | token :: rest =>
    match token.toList with
    | ['-', 'D'] =>
      match rest with
      | [] => []
      | value :: rest => "-D" :: value :: readFlags resolve rest
    | '-' :: 'D' :: _ => token :: readFlags resolve rest
    | ['-', 'I'] =>
      match rest with
      | [] => []
      | dir :: rest => "-I" :: resolve dir :: readFlags resolve rest
    | '-' :: 'I' :: dir => "-I" :: resolve (String.ofList dir) :: readFlags resolve rest
    | _ => readFlags resolve rest

namespace Command

/-- The defines and include directories of a command, in the order in which they were given. -/
def flags (cwd : Option Path) (c : Command) : List String :=
  readFlags (resolveInclude cwd c.directory) c.arguments

end Command

/-- The two options that survive normalization. -/
inductive Flag where
  | define
  | includeDir
  deriving DecidableEq, Repr

namespace Flag

def letter : Flag → Char
  | define => 'D'
  | includeDir => 'I'

def text (f : Flag) : String :=
  String.ofList ['-', f.letter]

end Flag

/-- A piece of an argument list that is kept or dropped as a whole. -/
inductive Piece where
  /-- An option and the token after it, whatever that token is. -/
  | separate (flag : Flag) (value : String)
  /-- An option with a non-empty value in the same token. -/
  | attached (flag : Flag) (value : String)
  | other (token : String)
  /-- An option at the end of the list, without a value. -/
  | dangling (flag : Flag)
  deriving DecidableEq, Repr

namespace Piece

def tokens : Piece → List String
  | separate f v => [f.text, v]
  | attached f v => [f.text ++ v]
  | other t => [t]
  | dangling f => [f.text]

def flags (resolve : String → String) : Piece → List String
  | separate .define v => [Flag.define.text, v]
  | separate .includeDir v => [Flag.includeDir.text, resolve v]
  | attached .define v => [Flag.define.text ++ v]
  | attached .includeDir v => [Flag.includeDir.text, resolve v]
  | other _ => []
  | dangling _ => []

end Piece

namespace Flag

/-- The option that a token starts with, and the rest of the token. -/
def ofToken (token : String) : Option (Flag × String) :=
  match token.toList with
  | '-' :: 'D' :: v => some (define, String.ofList v)
  | '-' :: 'I' :: v => some (includeDir, String.ofList v)
  | _ => none

end Flag

/-- Cut an argument list into pieces. A token taken as a value is not looked at again. -/
def pieces : List String → List Piece
  | [] => []
  | token :: rest =>
    match Flag.ofToken token with
    | none => .other token :: pieces rest
    | some (f, v) =>
      if v.isEmpty then
        match rest with
        | [] => [.dangling f]
        | value :: rest => .separate f value :: pieces rest
      else .attached f v :: pieces rest

theorem Flag.text_append_of_ofToken {token : String} {f : Flag} {v : String}
    (h : Flag.ofToken token = some (f, v)) : f.text ++ v = token := by
  unfold Flag.ofToken at h
  split at h
  case h_1 v ht =>
    cases h
    exact String.toList_injective (by simp [Flag.text, Flag.letter, ht])
  case h_2 v ht =>
    cases h
    exact String.toList_injective (by simp [Flag.text, Flag.letter, ht])
  case h_3 => cases h

/-- The pieces of an argument list are that list. -/
theorem flatMap_tokens_pieces (args : List String) :
    (pieces args).flatMap Piece.tokens = args := by
  fun_induction pieces args with
  | case1 => rfl
  | case2 token rest hf ih => simp [Piece.tokens, ih]
  | case3 token f v hf hv =>
    have ht := Flag.text_append_of_ofToken hf
    simp_all [Piece.tokens]
  | case4 token f v hf hv value rest ih =>
    have ht := Flag.text_append_of_ofToken hf
    simp_all [Piece.tokens]
  | case5 token rest f v hf hv ih =>
    simp [Piece.tokens, ih, Flag.text_append_of_ofToken hf]

/-- What is read is what the pieces contribute one after the other. -/
theorem readFlags_eq (resolve : String → String) (args : List String) :
    readFlags resolve args = (pieces args).flatMap (Piece.flags resolve) := by
  fun_induction readFlags resolve args with
  | case1 => rfl
  | case2 token halone => simp [pieces, Flag.ofToken, halone, Piece.flags]
  | case3 token halone value rest ih =>
    simp only [pieces, Flag.ofToken, halone, ih]
    rfl
  | case4 token rest v hv htoken ih =>
    have hflag : Flag.ofToken token = some (.define, String.ofList v) := by
      simp [Flag.ofToken, htoken]
    have hpieces : pieces (token :: rest) = .attached .define (String.ofList v) :: pieces rest := by
      simp [pieces, hflag, show v ≠ [] from hv]
    rw [hpieces, List.flatMap_cons, Piece.flags, Flag.text_append_of_ofToken hflag, ih]
    rfl
  | case5 token halone => simp [pieces, Flag.ofToken, halone, Piece.flags]
  | case6 token halone dir rest ih =>
    simp only [pieces, Flag.ofToken, halone, ih]
    rfl
  | case7 token rest dir hdir htoken ih =>
    have hflag : Flag.ofToken token = some (.includeDir, String.ofList dir) := by
      simp [Flag.ofToken, htoken]
    have hpieces : pieces (token :: rest) =
        .attached .includeDir (String.ofList dir) :: pieces rest := by
      simp [pieces, hflag, show dir ≠ [] from hdir]
    rw [hpieces, List.flatMap_cons, ih]
    rfl
  | case8 token rest _ hdefine _ hinclude ih =>
    have hother : Flag.ofToken token = none := by
      unfold Flag.ofToken
      split
      · exact (hdefine _ ‹_›).elim
      · exact (hinclude _ ‹_›).elim
      · rfl
    simp only [pieces, hother, ih]
    rfl

theorem Command.flags_eq (c : Command) (cwd : Option Path) :
    c.flags cwd = (pieces c.arguments).flatMap (Piece.flags (resolveInclude cwd c.directory)) :=
  readFlags_eq _ _

end CompileFlags
