import CompileFlags.Path

/-!
# How a database is searched for
-/

namespace CompileFlags

structure Options where
  /-- The file name that stands in for an empty one. -/
  databaseName : String
  /-- The directory below the root that is searched by default. -/
  buildDir : String
  /-- How long to wait for the search, in milliseconds. -/
  timeout : Nat
  deriving DecidableEq, Repr

namespace Options

def defaultDatabaseName : String := "compile_commands.json"

def defaultBuildDir : String := "build"

def defaultTimeout : Nat := 5000

def default : Options := ⟨defaultDatabaseName, defaultBuildDir, defaultTimeout⟩

end Options

end CompileFlags
