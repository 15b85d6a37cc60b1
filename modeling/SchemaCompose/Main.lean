import SchemaCompose.Program.Shell

/-!
# The program

The tree of the working directory is read, the arguments are carried out on it, and
whatever they changed is written back.
-/

namespace SchemaCompose.Program

/-- The text of a place on the disk. -/
def textAt (location : Location) : String :=
  String.ofList (Path.text { anchor := .root, parts := location })

/-- Everything that a listed entry of a directory leads to. -/
partial def read (directory : Location) (found : IO.FS.DirEntry) :
    IO (List (Location × Entry)) := do
  let place := directory ++ [found.fileName.toList]
  if ← found.path.isDir then
    let below ← (← found.path.readDir).toList.mapM (read place)
    return (place, .directory) :: below.flatten
  else
    let octets ← IO.FS.readBinFile found.path
    return [(place, .file octets.toList)]

/-- The disk with the tree of the working directory. -/
def currentDisk : IO Disk := do
  let here ← IO.currentDir
  let workingDirectory := (Path.ofText here.toString.toList).parts
  let above := (List.range workingDirectory.length).map fun count =>
    (workingDirectory.take (count + 1), Entry.directory)
  let below ← (← here.readDir).toList.mapM (read workingDirectory)
  return { entries := above ++ below.flatten, workingDirectory }

/-- Write what is new or different on a disk. -/
def writeBack (before after : Disk) : IO Unit :=
  for (location, content) in after.entries do
    if before.entryAt location ≠ some content then
      match content with
      | .directory => IO.FS.createDirAll (textAt location)
      | .file octets => IO.FS.writeBinFile (textAt location) octets.toByteArray

end SchemaCompose.Program

open SchemaCompose in
/-- Carry out the arguments, print the report and exit with its code. -/
def main (arguments : List String) : IO UInt32 := do
  let before ← Program.currentDisk
  let (after, result) := runCommandLine Program.shell before (arguments.map String.toList)
  Program.writeBack before after
  match result with
  | .ok report =>
    for line in report.output do IO.println (String.ofList line)
    for line in report.errors do IO.eprintln (String.ofList line)
    return report.exitCode.toUInt32
  | .error failure =>
    IO.eprintln (String.ofList failure.message)
    return 1
