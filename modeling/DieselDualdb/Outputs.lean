import DieselDualdb.Migration
import DieselDualdb.Lib.FileTree
import Mathlib.Data.List.Sort
import Mathlib.Data.String.Basic

/-!
# Reading the migrations directory, writing the outputs

`read_migrations`, `write_outputs` and the `run` of the command line, over a
file tree.  File names are text, on which `to_string_lossy` does nothing; a
name that `read_dir` lists is one path component, so joining it to a path adds
one component.
-/

namespace DualdbOutputs

open DualdbAst DualdbTypeMap DualdbModel DualdbMigration FallibleRun FileTree
open RustStr

abbrev Path := List String

/-- `Path::display` -/
def display (path : Path) : String := join "/" path

def ioText : IoError → String
  | .notFound => "No such file or directory (os error 2)"
  | .alreadyExists => "File exists (os error 17)"
  | .notADirectory => "Not a directory (os error 20)"
  | .isADirectory => "Is a directory (os error 21)"
  | .invalidUtf8 => "stream did not contain valid UTF-8"

/-- An error of the file system, with what was being done. -/
def whileDoing {α : Type} (verb : String) (path : Path)
    (x : Except IoError α) : Except String α :=
  x.mapError fun e => verb ++ " " ++ display path ++ ": " ++ ioText e

/-! ## Reading -/

/-- One directory of the migrations directory; `none` if it has no `up.sql`. -/
def readMigration (d : Disk String) (path : Path) :
    Except String (Option Migration) := do
  let up := path ++ ["up.sql"]
  if (get d up).isNone then pure none
  else
    let upSql ← whileDoing "reading" up (readToString d up)
    let down := path ++ ["down.sql"]
    let downSql ←
      if (get d down).isSome then
        some <$> whileDoing "reading" down (readToString d down)
      else pure none
    pure (some ⟨path.getLast?.getD "", upSql, downSql⟩)

/-- The migrations of a directory, its subdirectories taken in sorted order. -/
def readMigrations (d : Disk String) (dir : Path) :
    Except String (List Migration) := do
  let entries ← whileDoing "reading" dir (readDir d dir)
  let dirs := (entries.filter fun path => get d path = some .dir).insertionSort
    (· ≤ ·)
  let migrations ← dirs.mapM (readMigration d)
  pure migrations.reduceOption

/-! ## Writing -/

def writeFile (d : Disk String) (path : Path) (contents : String) :
    Except String (Disk String) :=
  whileDoing "writing" path (FileTree.write d path contents)

/-- The directory of a backend's tree. -/
def treeName : Backend → String
  | .postgres => "migrations-postgres"
  | .sqlite => "migrations-sqlite"

def writeMigration (outDir : Path) (b : Backend) (d : Disk String)
    (rm : RenderedMigration) : Except String (Disk String) := do
  let dir := outDir ++ [treeName b, rm.dirName]
  let d ← whileDoing "creating" dir (createDirAll d dir)
  let d ← writeFile d (dir ++ ["up.sql"]) (rm.upSql ++ "\n")
  writeFile d (dir ++ ["down.sql"]) (rm.downSql ++ "\n")

def writeOutputs (g : Generated) (outDir : Path) (d : Disk String) :
    Except String (Disk String) := do
  let d ← (g.tree .postgres).foldlM (writeMigration outDir .postgres) d
  let d ← (g.tree .sqlite).foldlM (writeMigration outDir .sqlite) d
  writeFile d (outDir ++ ["schema.rs"]) g.schemaRs

/-- One invocation: the number of migrations, and the disk after it. -/
def run (p : Sqlparser) (migrationsDir outDir : Path) (d : Disk String) :
    Except String (Nat × Disk String) := do
  let migrations ← readMigrations d migrationsDir
  let generated ← generate p migrations
  let d ← writeOutputs generated outDir d
  pure (migrations.length, d)

end DualdbOutputs
