/-!
# Paths as text

A path is kept exactly as it was written. Joining, the segments between separators and the
textual parent are read off the characters; nothing here looks at a file system.
-/

namespace CompileFlags

abbrev Path := String

namespace Path

/-- What stands between two separators; empty where separators touch. -/
abbrev Segment := List Char

def here : Segment := ['.']

def up : Segment := ['.', '.']

/-- A path is absolute when it starts with a separator. -/
def isAbsolute (p : Path) : Bool :=
  p.toList.head? == some '/'

/-- Read `name` from `dir`: an absolute name stands alone, otherwise one separator is put
between the two unless `dir` is empty or already ends in one. -/
def join (dir name : Path) : Path :=
  if name.isAbsolute then name
  else if dir.toList.getLast?.all (· == '/') then dir ++ name
  else dir ++ "/" ++ name

/-- Cut a text at every separator; there is always at least one segment. -/
def segments : List Char → List Segment
  | [] => [[]]
  | c :: cs =>
    if c = '/' then [] :: segments cs
    else match segments cs with
      | [] => [[c]]
      | s :: ss => (c :: s) :: ss

def ofSegments : List Segment → List Char
  | [] => []
  | [s] => s
  | s :: t :: ss => s ++ '/' :: ofSegments (t :: ss)

@[simp] theorem segments_nil : segments [] = [[]] := rfl

@[simp] theorem segments_slash (cs : List Char) : segments ('/' :: cs) = [] :: segments cs := by
  simp [segments]

theorem segments_ne_nil (cs : List Char) : segments cs ≠ [] := by
  induction cs with
  | nil => simp
  | cons c cs ih =>
    by_cases h : c = '/'
    · simp [h]
    · rw [segments, if_neg h]
      split <;> simp

/-- Cutting loses nothing. -/
theorem ofSegments_segments (cs : List Char) : ofSegments (segments cs) = cs := by
  induction cs with
  | nil => rfl
  | cons c cs ih =>
    cases hs : segments cs with
    | nil => exact absurd hs (segments_ne_nil cs)
    | cons s ss =>
      rw [hs] at ih
      by_cases h : c = '/'
      · subst h
        rw [segments_slash, hs, ofSegments, ih]
        rfl
      · rw [segments, if_neg h, hs]
        cases ss <;> simp_all [ofSegments]

theorem slash_notMem_of_mem_segments {cs : List Char} {s : Segment} (h : s ∈ segments cs) :
    '/' ∉ s := by
  induction cs generalizing s with
  | nil => simp_all
  | cons c cs ih =>
    by_cases hc : c = '/'
    · subst hc
      rw [segments_slash] at h
      rcases List.mem_cons.mp h with rfl | h
      · simp
      · exact ih h
    · rw [segments, if_neg hc] at h
      cases hs : segments cs with
      | nil => exact absurd hs (segments_ne_nil cs)
      | cons t ts =>
        rw [hs] at h ih
        rcases List.mem_cons.mp h with rfl | h
        · have ht := ih (List.mem_cons_self (a := t) (l := ts))
          simp [Ne.symm hc, ht]
        · exact ih (List.mem_cons_of_mem t h)

/-- A text without separators, and what follows its first separator. -/
theorem segments_append_slash {s : List Char} (h : '/' ∉ s) (cs : List Char) :
    segments (s ++ '/' :: cs) = s :: segments cs := by
  induction s with
  | nil => simp
  | cons c s ih =>
    rw [List.mem_cons, not_or] at h
    rw [List.cons_append, segments, if_neg (Ne.symm h.1), ih h.2]

/-- An empty segment or `.` stays where it is. -/
def Segment.isIdle (s : Segment) : Bool :=
  s == [] || s == here

/-- The segments without their idle tail. -/
def trimIdle (ss : List Segment) : List Segment :=
  (ss.reverse.dropWhile Segment.isIdle).reverse

/-- The part of a path that is no component of its own: the root separator, or the `.` of a
path that is `.` or starts with `./`. -/
def lead : List Char → List Char × List Char
  | '/' :: cs => (['/'], cs)
  | ['.'] => (['.'], [])
  | '.' :: '/' :: cs => (['.'], '/' :: cs)
  | cs => ([], cs)

/-- The path without its last component, where trailing separators and `.` segments do not
count as components. Neither the root nor the empty path has one. -/
def parent? (p : Path) : Option Path :=
  let (head, body) := lead p.toList
  match trimIdle (segments body) with
  | [] => if head = ['.'] then some "" else none
  | s :: ss => some (String.ofList (head ++ ofSegments (trimIdle (s :: ss).dropLast)))

end Path

end CompileFlags
