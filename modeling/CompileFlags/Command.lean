import CompileFlags.Path.Location

/-!
# Compile commands

One recorded compiler run: where it ran, for which source file, with which arguments.
-/

namespace CompileFlags

structure Command where
  directory : Path
  filename : String
  arguments : List String
  deriving DecidableEq, Repr

namespace Command

/-- The source file as seen from outside the command's directory. -/
def sourcePath (c : Command) : Path :=
  Path.join c.directory c.filename

end Command

end CompileFlags
