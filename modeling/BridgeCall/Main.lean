/-
  BridgeCall/Main.lean
  ====================
  **The program.**  It takes the files that a command line can speak of into a tree
  of files, carries the command line out there, and then prints and writes what came
  of it.
-/
import BridgeCall.Command.Run

namespace BridgeCall.Command

def shown (b : Bytes) : String := (Bytes.toString? b).getD ""

/-- Takes a file, or a directory with everything in it, into a tree of files. What cannot be read is
    left out. -/
partial def take (f : Files) (path : Bytes) : IO Files := do
  let place := Path.absolute f.cwd path
  try
    let real ← IO.FS.realPath (shown path)
    if ← real.isDir then
      let mut f := f.create place .directory
      for e in ← real.readDir do
        f ← take f (Path.join path (Bytes.ofString e.fileName))
      return f
    else
      let content ← IO.FS.readBinFile (shown path)
      return f.create place (.file content.data.toList)
  catch _ => return f

/-- Takes the settings files above a directory into a tree of files. -/
def takeSettings (f : Files) : IO Files := do
  let mut f := f
  for n in List.range f.cwd.length do
    f ← take f (Path.ofElements (f.cwd.take n ++ [Settings.fileName]))
  return f

/-- Takes everything that a command line can speak of into a tree of files. -/
def takeAll (words : List Bytes) (history : Bytes) : IO Files := do
  let cwd := Path.absolute [] (Bytes.ofString (← IO.currentDir).toString)
  let mut f ← take { cwd } "."
  f ← takeSettings f
  for w in words do
    if !cwd.isPrefixOf (Path.absolute cwd w) then f ← take f w
  take f history

def giveBack (old new : Files) : IO Unit := do
  for (place, e) in new.entries do
    match e with
    | .file content =>
      if old.at? place ≠ some e then
        IO.FS.writeBinFile (shown (Path.ofElements place)) ⟨content.toArray⟩
    | .directory => pure ()

end BridgeCall.Command

open BridgeCall Command in
def main (args : List String) : IO UInt32 := do
  let words := args.map Bytes.ofString
  let home := Bytes.ofString ((← IO.getEnv "HOME").getD "")
  let files ← takeAll words (Path.join home historyName)
  let reads := match Order.ofWords words with
    | .ok (.act _ a) => a.readsInput
    | _ => false
  let input ← if reads then (← IO.getStdin).readBinToEnd else pure .empty
  let (ok, c) := run words { files, home, input := input.data.toList }
  (← IO.getStdout).write ⟨c.out.toArray⟩
  (← IO.getStderr).write ⟨c.err.toArray⟩
  giveBack files c.files
  return if ok then 0 else 1
