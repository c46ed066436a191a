import ScriptDoc.Command.Run
import Std.Time

/-! The command line program. It notes what stands at the paths that the words name, lets the run
work on that, and then writes what the run changed. -/
namespace ScriptDoc.Command

/-- A text as it is printed: halves of surrogate pairs are shown by their numbers. -/
def printed (t : Text) : String :=
  String.join (t.map fun c =>
    match c with
    | .char c => String.singleton c
    | .half _ => (Text.toString? (Text.pointEscape c)).getD "")

def diskName (place : FileTree.Place) : String :=
  "/" ++ String.intercalate "/" (place.map printed)

/-- The places that a path passes, its end last. -/
def trail (place : FileTree.Place) : List Text → List FileTree.Place
  | [] => [place]
  | part :: rest => place :: trail (FileTree.stepFrom place part) rest

/-- Notes what stands at places and, on demand, at all places below them. -/
def survey (t : FileTree) (deep : Bool) (places : List FileTree.Place) : IO FileTree := do
  let here ← IO.currentDir
  let mut tree := t
  let mut waiting := places
  repeat
    match waiting with
    | [] => break
    | place :: rest =>
      waiting := rest
      let disk := here / diskName place
      if ← disk.isDir then
        if (tree.node? place).isNone then
          tree := tree.put place (.directory [])
        if deep then
          for entry in ← disk.readDir do
            waiting := (place ++ [Text.ofString entry.fileName]) :: waiting
      else if ← disk.pathExists then
        let bytes ← IO.FS.readBinFile disk
        tree := tree.put place (.file (.ofBytes bytes.toList))
  return tree

/-- Notes what stands along a path, and below its end on demand. -/
def surveyPath (t : FileTree) (deep : Bool) (p : Path) : IO FileTree := do
  let passed := trail (t.origin p) p.parts
  let t ← survey t false passed
  if deep then survey t true [passed.getLastD []] else return t

/-- Writes what a run changed, after it has removed what the run moved away. -/
def store (old new : FileTree) : IO Unit := do
  let here ← IO.currentDir
  for place in old.placesGone new do
    let disk := here / diskName place
    if ← disk.isDir then IO.FS.removeDirAll disk
    else if ← disk.pathExists then IO.FS.removeFile disk
  for (place, content) in old.placesSince new do
    match content with
    | none => IO.FS.createDirAll (here / diskName place)
    | some (.text s) => IO.FS.writeFile (here / diskName place) s
    | some (.binary bytes) => IO.FS.writeBinFile (here / diskName place) ⟨bytes.toArray⟩

/-- Notes everything that a run with these arguments looks at. -/
def surveyArguments (stamps : Stamps) (t : FileTree) (a : Arguments) : IO FileTree := do
  let mut tree := t
  for source in a.sources do
    tree ← surveyPath tree true (Path.ofText source)
  for p in a.config.toList do
    tree ← surveyPath tree false p
  match gatherOptions tree a with
  | .ok o =>
    for p in o.directory :: o.logDir.toList do
      tree ← surveyPath tree false p
      tree ← surveyPath tree true (p.child logName)
      tree ← surveyPath tree true (p.child (rotatedName stamps))
  | .error _ => pure ()
  return tree

/-- Runs the command and returns its exit code. -/
def execute (words : List Text) : IO UInt32 := do
  let now ← Std.Time.PlainDateTime.now
  let stamps : Stamps :=
    ⟨now.format "uuuuMMdd_HHmmss", now.format "uuuu-MM-dd HH:mm:ss", fun _ => "scriptdoc"⟩
  let here := (← IO.currentDir).components.filter fun part => part != "" && part != "/"
  let here := here.map Text.ofString
  let noted ← survey { working := here } false (trail [] here)
  let tree ← match parseArguments words with
    | .ok a => surveyArguments stamps noted a
    | .error _ => pure noted
  match parseArguments words with
  | .error .help => IO.print usage
  | .error .usage => IO.eprint usage
  | .ok _ => pure ()
  let outcome := run stamps tree words
  IO.eprint (printed (Log.console outcome.messages))
  store tree outcome.tree
  match outcome.result with
  | .ok code => return code.toUInt32
  | .error failure =>
    IO.eprintln (printed failure.message)
    return 1

end ScriptDoc.Command

/-- Documents the sources that the command line names. -/
def main (words : List String) : IO UInt32 :=
  ScriptDoc.Command.execute (words.map ScriptDoc.Text.ofString)
