import GribCatalog.CommandLine.Run
import Std.Time.DateTime.Timestamp

/-!
The command line program: it reads the files that its arguments name, runs the command on them, and
prints and writes what comes of it.
-/

namespace GribCatalog.CommandLine

def settingVariables : List String :=
  [configVariable, "INDEXER_DIMENSIONS", "INDEXER_PARAMETER", "INDEXER_CONCURRENCY",
    "COORD_INDEX_DUPLICATE_POLICY", "COORD_INDEX_PARALLEL", "COORD_INDEX_PARALLEL_THRESHOLD",
    "COORD_INDEX_LOG_SKIPPED_LIMIT"]

def readEnvironment (names : List String) : IO Environment := do
  let values ← names.mapM fun name => do
    let value ← IO.getEnv name
    pure (value.map fun value => (name, value))
  pure (values.filterMap id)

def isRealDirectory (path : String) : IO Bool :=
  (System.mkFilePath [path]).isDir

partial def readTree (path : String) : IO FileTree := do
  if ← isRealDirectory path then
    let found ← (System.mkFilePath [path]).readDir
    let entries ← found.toList.mapM fun entry => do
      let t ← readTree (Path.join path entry.fileName)
      pure (entry.fileName, t)
    pure (.directory entries)
  else
    try
      let bytes ← IO.FS.readBinFile path
      pure (.file (some bytes.toList))
    catch _ => pure (.file none)

def addDirectory (fs : FileSystem) (path : String) : FileSystem :=
  if (fs.find? path).isSome then fs else fs.put path (.directory [])

def readWay (fs : FileSystem) (path : String) : IO FileSystem := do
  let pieces := Path.pieces path
  let ways := (List.range pieces.length).map fun n => "/".intercalate (pieces.take (n + 1))
  ways.foldlM (fun fs way => do
    if ← isRealDirectory way then pure (addDirectory fs way) else pure fs) fs

def readPath (fs : FileSystem) (path : String) : IO FileSystem := do
  let fs ← readWay fs path
  if ← (System.mkFilePath [path]).pathExists then
    let t ← readTree path
    pure (fs.put path t)
  else pure fs

def Command.inputs : Command → List String
  | build paths _ _ => paths
  | update index paths => index :: paths
  | inspect index => [index]
  | lookup index _ => [index]

def Command.output? : Command → Option String
  | build _ output _ => some output
  | _ => none

def readFiles (i : Invocation) : IO FileSystem := do
  let here ← IO.currentDir
  let place := (Path.pieces here.toString).filter fun piece => !Path.isIdle piece
  let fs : FileSystem := ⟨FileTree.put (.directory []) place (.directory []), place⟩
  let fs ← i.command.output?.toList.foldlM readWay fs
  (i.config.toList ++ i.command.inputs).foldlM readPath fs

def currentInstant : IO Instant := do
  let now ← Std.Time.Timestamp.now
  let nanos := now.toNanosecondsSinceUnixEpoch.val
  pure ⟨nanos.fdiv 1000000000, (nanos.fmod 1000000000).toNat⟩

def report (o : Outcome) : IO UInt32 := do
  let stderr ← IO.getStderr
  if let some text := o.complaint then stderr.putStrLn s!"Error: {text}"
  let stdout ← IO.getStdout
  stdout.putStr o.output
  match o.saved with
  | none => pure o.status
  | some (path, text) =>
    try
      IO.FS.writeFile path text
      pure o.status
    catch e =>
      stderr.putStrLn s!"Error: {e}"
      pure 1

def start (args : List String) : IO UInt32 := do
  let env ← readEnvironment settingVariables
  match Invocation.ofArguments env args with
  | .error stop => report (.ofStop stop)
  | .ok invocation => do
    let fs ← readFiles invocation
    let names := ((invocation.config.bind fs.text?).map Expansion.variableNames).getD []
    let extra ← readEnvironment names
    let now ← currentInstant
    report (run now (env ++ extra) fs args)

end GribCatalog.CommandLine

def main (args : List String) : IO UInt32 :=
  GribCatalog.CommandLine.start args
