import MeshNode.Daemon

/-!
# The program

The daemon as a program. A node that runs is on a loopback network of its own; each line of
the standard input is then a command line of the control tool, and what that prints comes
back. The program ends with its input.
-/

namespace MeshNode.Program

open MeshNode.Text

/-- The variables in a block of `name=value` entries, each of which ends in a zero octet. -/
def readBlock : (block : List UInt8) → (entry : List UInt8) → Environment
  | [], _ => []
  | b :: rest, entry =>
    if b ≠ 0 then readBlock rest (entry ++ [b])
    else
      let text := (ofUtf8? entry).getD ""
      match text.toList.span (· != '=') with
      | (name, _ :: value) => (String.ofList name, String.ofList value) :: readBlock rest []
      | (_, []) => readBlock rest []

/-- The words of a line. -/
def wordsOf (line : String) : List String :=
  ((splitAt ' ' (trim isBlank line.toList)).map String.ofList).filter (· ≠ "")

/-- A network on which nothing answers. -/
def emptyNetwork : Loopback.Network := ⟨[], none, []⟩

/-- The variables of the process. -/
def environment : IO Environment := do
  return readBlock (← IO.FS.readBinFile "/proc/self/environ").toList []

/-- The files, as far as the daemon looks at any: the settings file. -/
def settingsFile (path : String) : IO FileTree := do
  try
    let content ← IO.FS.readBinFile path
    return (⟨[]⟩ : FileTree).putBelow [] path (.file content.toList)
  catch _ => return ⟨[]⟩

/-- Writes the settings file, and the directories on the way to it, if it is new. -/
def keepSettingsFile (path : String) (before after : FileTree) : IO Unit := do
  if before.pathExists path then return
  match after.readText path with
  | .error _ => return
  | .ok text =>
    try
      if let some (directory, _) := splitLast? '/' path.toList then
        IO.FS.createDirAll (String.ofList directory)
      IO.FS.writeFile path text
    catch _ => return

/-- Prints an outcome. -/
def report (o : CommandLine.Outcome) : IO Unit := do
  IO.print o.stdout
  IO.eprint o.stderr

/-- Answers the lines of the input. -/
partial def console (node : Daemon.Node) (input : IO.FS.Stream) : IO Unit := do
  let line ← input.getLine
  if line.isEmpty then return
  report (Control.run node.servers (wordsOf line))
  console node input

/-- Runs the daemon with some words as its command line. -/
def run (words : List String) : IO UInt32 := do
  let env ← environment
  let path := Settings.filePath env
  let files ← settingsFile path
  let key := Octets.padded 32 (← IO.getRandomBytes 32).toList
  let machine : Daemon.Machine := ⟨env, files, emptyNetwork, Interfaces.empty⟩
  match Daemon.run Log.plain Peering.firstPositions Daemon.publicSearch machine key words with
  | .ended m outcome =>
    keepSettingsFile path files m.files
    report outcome
    return UInt32.ofNat outcome.exit
  | .running m node =>
    keepSettingsFile path files m.files
    console node (← IO.getStdin)
    return 0

end MeshNode.Program

/-- The daemon. -/
def main (words : List String) : IO UInt32 := MeshNode.Program.run words
