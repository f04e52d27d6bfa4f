import LiveStreamer.StreamerServer.SrvrJson

/-! # The sweep of the records (`main.c`)

Every half minute `SIGALRM` sets the status of every record to `off`. -/

namespace LiveStreamer.StreamerServer.Main

open LiveStreamer.Lib.CString LiveStreamer.Lib.PathName LiveStreamer.Lib.Program
open LiveStreamer.Lib.Program.Prog LiveStreamer.Lib.Tokener
open LiveStreamer.StreamerServer.SrvrJson

/-- The name under which the sweep opens an entry of the directory. -/
def entryAddr (dName : Bytes) : Bytes := snprintf 64 (lit "status/" ++ dName)

/-- What the sweep does with a file. -/
def triggerFile (dName : Bytes) : FileProg Unit := do
  let fn := entryAddr dName
  let tempObj ← objectFromFile fn
  let newEntry ← newString (some (lit "off"))
  let tempObj ← objectAdd tempObj (lit "status") newEntry
  objectToFile fn tempObj

/-- The loop over the entries of the directory, which leaves out directories. -/
def triggerEntries : List (Bytes × Bool) → FileProg Unit
  | [] => ret ()
  | (_, true) :: es => triggerEntries es
  | (dName, false) :: es => do
    triggerFile dName
    triggerEntries es

def trigger : FileProg Unit := do
  match ← op (FileOp.listDir (lit "status/")) with
  | none => ret ()
  | some es => triggerEntries es

end LiveStreamer.StreamerServer.Main
