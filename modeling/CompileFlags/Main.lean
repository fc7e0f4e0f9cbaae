import CompileFlags.CommandLine.Report

/-!
# The programs

One executable serves as both tools, told apart by the name under which it is called. It looks at
the paths that the command line makes it look at, runs the tool on what it saw, and prints.
-/

namespace CompileFlags.Main

open CommandLine

/-- The number of an operating system's error. -/
def code? : IO.Error → Option UInt32
  | .noFileOrDirectory _ c _ | .inappropriateType _ c _ | .invalidArgument _ c _
  | .noSuchThing _ c _ | .permissionDenied _ c _ | .resourceExhausted _ c _ => some c
  | .otherError c _ => some c
  | _ => none

/-- Some errors carry their number with a minus sign. -/
def magnitude (c : UInt32) : UInt32 :=
  if c < 0x80000000 then c else 0 - c

def fault (e : IO.Error) : ReadFault :=
  match (code? e).map magnitude with
  | some 1 => .notPermitted
  | some 2 => .notFound
  | some 13 => .accessDenied
  | some 20 => .notDirectory
  | some 21 => .isDirectory
  | some 36 => .nameTooLong
  | some 40 => .tooManyLinks
  | _ => .other (toString e)

def inputPath : Path := "/dev/stdin"

structure Sight where
  path : Path
  status : Except ReadFault Unit
  source : Except ReadFault Source

def source (p : Path) : IO (Except ReadFault Source) := do
  if p = inputPath then return .ok .input
  try
    return .ok (.file (← IO.FS.readBinFile p).toList)
  catch e => return .error (fault e)

/-- A path that can be followed to its end leads somewhere, even if nothing can be read there. One
that cannot be followed is refused for the same reason as its bytes are. -/
def status (p : Path) : Except ReadFault Source → IO (Except ReadFault Unit)
  | .ok _ => return .ok ()
  | .error why => do
    try
      let _ ← IO.FS.realPath p
      return .ok ()
    catch _ => return .error why

def look (p : Path) : IO Sight := do
  let source ← source p
  return ⟨p, ← status p source, source⟩

/-- The current directory, if it still exists. -/
def currentDir : IO (Option Path) := do
  try
    return some (← IO.currentDir).toString
  catch _ => return none

/-- The world as far as these paths show it. -/
def observe (cwd : Option Path) (paths : List Path) : IO World := do
  let sights ← paths.mapM look
  let input ← if paths.contains inputPath then
      pure (← (← IO.getStdin).readToEnd).toUTF8.toList
    else pure []
  let sight? (p : Path) := sights.find? (·.path == p)
  return {
    currentDir := cwd
    status := fun p ↦ ((sight? p).map Sight.status).getD (.error .notFound)
    source := fun p ↦ ((sight? p).map Sight.source).getD (.error .notFound)
    input := input }

/-- The paths that a command line makes a tool look at. -/
def paths (cwd : Option Path) (t : Tool) (args : List String) : List Path :=
  match Draft.ofArgs t args with
  | .ok d => d.databaseArgs.paths cwd
  | .error _ => []

def toolOf (program : String) : Tool :=
  if program.endsWith Tool.locate.name then .locate else .flags

def finish (t : Tool) (e : Effect) : IO UInt32 := do
  match e with
  | .outcome o =>
    IO.print o.stdout
    IO.eprint o.stderr
    return o.exit.toUInt32
  | .completions _ =>
    t.longOptions.forM IO.println
    return 0
  | .stop .version => IO.println Tool.versionText
  | .stop .help => IO.println t.usage
  | .stop (.usage why) =>
    IO.eprintln ("error: " ++ why.message)
    IO.eprintln t.usage
  return match e with
    | .stop why => why.exit.toUInt32
    | _ => 0

end CompileFlags.Main

open CompileFlags.Main in
def main (args : List String) : IO UInt32 := do
  let t := toolOf (← IO.appPath).toString
  let cwd ← currentDir
  let w ← observe cwd (paths cwd t args)
  finish t (t.run args w)
