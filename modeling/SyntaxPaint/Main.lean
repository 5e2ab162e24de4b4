import SyntaxPaint.CommandLine.Program
import SyntaxPaint.CommandLine.Reader
import SyntaxPaint.Grammar.Catalogue

/-!
The program itself: it fetches the variables, the files that the program may look at and the
standard input, and prints what the library answers.
-/
namespace SyntaxPaint.Main

def variableNames : List String :=
  ["HIGHLIGHTR_THEME", "HIGHLIGHTR_THEME_DIR", "HIGHLIGHTR_SYNTAX_DIR", "HIGHLIGHTR_DEBOUNCE_MS",
    "HIGHLIGHTR_FONT_FAMILY", "HIGHLIGHTR_FONT_SIZE", "HIGHLIGHTR_TRACE"]

def environment : IO Environment := do
  let mut env := Environment.empty
  for name in variableNames do
    match ← IO.getEnv name with
    | some value => env := env.set name.toList (.text value.toList)
    | none => pure ()
  return env

def fileError : IO.Error → FileError
  | .inappropriateType .. => .notADirectory
  | _ => .missing

partial def fetch (path : String) : IO FileNode := do
  let place ← IO.FS.realPath path
  if ← place.isDir then
    let entries ← place.readDir
    let found ← entries.toList.mapM fun entry => do
      return (entry.fileName.toList, ← fetch entry.path.toString)
    return .directory found
  else
    return .file (← IO.FS.readBinFile path)

def view (path : OsText) : IO (Except FileError FileNode) := do
  match path.text? with
  | none => return .error .missing
  | some path =>
    match ← (fetch (String.ofList path)).toBaseIO with
    | .ok node => return .ok node
    | .error e => return .error (fileError e)

def perform (args : List OsText) : IO UInt32 := do
  let reader := CommandLine.read
  let env ← environment
  let seen ← (CommandLine.paths reader env args).mapM fun path => do return (path, ← view path)
  let files : FileView := fun path => (seen.lookup path).getD (.error .missing)
  let input ←
    if CommandLine.readsInput reader env args then (← IO.getStdin).readBinToEnd
    else pure ByteArray.empty
  let outcome := CommandLine.run Grammar.catalogue reader env files input args
  (← IO.getStdout).putStr (String.ofList outcome.output)
  (← IO.getStderr).putStr (String.ofList outcome.errors)
  return outcome.code.toUInt32

end SyntaxPaint.Main

def main (args : List String) : IO UInt32 :=
  SyntaxPaint.Main.perform (args.map fun arg => .text arg.toList)
