import FluentFixtures.Command.Run
import FluentFixtures.Command.Standard
import FluentFixtures.Files.Change

/-!
# The program

The files that a command line is about are taken into a file system, the command
runs on that, and the files it has changed are written back.
-/

namespace FluentFixtures.Program

open Files (FileSystem Location)

def stringOf (t : Text) : String := String.ofList (t.map fun c => Char.ofNat c.val)

def pathOf (place : Location) : String :=
  "/" ++ "/".intercalate (place.reverse.map stringOf)

/-- The changed file system, or the same if the change is refused. -/
def orSame (fs : FileSystem) (changed : Except Files.AccessError FileSystem) : FileSystem :=
  match changed with
  | .ok changed => changed
  | .error _ => fs

/-- Takes in a file, or a directory with what is in it if `deep` is set. -/
partial def takeIn (deep : Bool) (fs : FileSystem) (name : String) : IO FileSystem := do
  let path := (← IO.currentDir) / name
  if ← path.isDir then
    let mut fs := orSame fs (fs.makeDirectory name)
    if deep then
      for entry in ← path.readDir do
        let link := (← entry.path.symlinkMetadata).type == .symlink
        fs ← takeIn (!link) fs (name ++ "/" ++ entry.fileName)
    return fs
  else if ← path.pathExists then
    let content ← IO.FS.readBinFile path
    return orSame fs (fs.writeFile name content.toList)
  else return fs

def takeInPath (fs : FileSystem) (name : String) : IO FileSystem := do
  let mut fs := fs
  let mut way := ""
  for part in (name.splitOn "/").filter (· ≠ "") do
    way := way ++ "/" ++ part
    fs ← takeIn false fs way
  takeIn true fs way

def filesFor (args : List Text) : IO FileSystem := do
  let here := toString (← IO.currentDir)
  let start ← takeIn false .empty here
  let mut fs := orSame start (start.changeDirectory here)
  if let .ok request := Command.Request.ofArguments args then
    for path in request.paths do
      let name := stringOf path
      fs ← takeInPath fs (if name.startsWith "/" then name else here ++ "/" ++ name)
  return fs

def bytesOf (t : Text) : ByteArray :=
  ⟨((Utf8.encode? (Surrogate.escape t)).getD []).toArray⟩

def writeBack (before after : FileSystem) : IO Unit := do
  for entry in after.entries do
    if let .file content := entry.node then
      if before.node? entry.place ≠ some entry.node then
        IO.FS.writeBinFile (pathOf entry.place) ⟨content.toArray⟩

/-- The cells of a line on a console of which nothing is known. -/
def consoleWidth : Nat := 80

/-- What is said of a run that was refused or broke off. -/
def complaint? : Command.Ending → Option Text
  | .exit _ => none
  | .refused complaint => some (("Error: " : Text) ++ complaint ++ ("\n" : Text))
  | .fault fault => some (("Error: " : Text) ++ fault.message?.getD [] ++ ("\n" : Text))

end FluentFixtures.Program

open FluentFixtures Program in
def main (args : List String) : IO UInt32 := do
  let words := args.map Text.ofString
  let files ← filesFor words
  let report := Command.run (.standard consoleWidth) files words
  writeBack files report.files
  (← IO.getStdout).write (bytesOf report.output)
  if let some text := complaint? report.ending then
    (← IO.getStderr).write (bytesOf text)
  return UInt32.ofNat report.ending.code
