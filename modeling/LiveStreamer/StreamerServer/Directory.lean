import LiveStreamer.StreamerServer.SrvrJson

/-! # The files of the records (`srvrJson.c`)

The file of a stream is found by following the first 56 bytes of `s.json` from inside `status/`
(`entryPath`), whatever is in the name. A name without a slash leads to an entry of the directory
(`entryPath_of_notMem`), and two such names of at most 51 bytes lead to two (`entryPath_inj`). -/

namespace LiveStreamer.StreamerServer.Directory

open LiveStreamer.Lib.CString LiveStreamer.Lib.PathName LiveStreamer.Lib.Program
open LiveStreamer.Lib.Program.Prog LiveStreamer.Lib.Tokener LiveStreamer.StreamerServer.SrvrJson

section Directory
variable (cwd : Path)

/-- The directory of the records. -/
def statusDir : Path := cwd ++ [lit "status"]

/-- Where the first 56 bytes of `s.json` lead from inside the directory. -/
def entryPath (s : Bytes) : Path :=
  walk (statusDir cwd) (split ((s ++ lit ".json").take 56))

theorem jsonFileWithAddr_eq (s : Bytes) : jsonFileWithAddr (some s) =
    lit "status" ++ slash :: (s ++ lit ".json").take 56 := by
  have h7 : (lit "status/").length = 7 := rfl
  rw [jsonFileWithAddr, snprintf, percentS, Option.getD_some, List.append_assoc, List.take_append,
    h7, List.take_of_length_le (by rw [h7]; omega)]
  rfl

theorem recordPath_eq (s : Bytes) : recordPath cwd s = entryPath cwd s := by
  rw [recordPath, jsonFileWithAddr_eq,
    resolve_under cwd _ (by decide) (by decide) (by decide) (by decide)]
  rfl

/-- A name without a slash is one component. -/
theorem split_fileName {s : Bytes} (h : slash ∉ s) :
    split ((s ++ lit ".json").take 56) = [(s ++ lit ".json").take 56] := by
  refine split_of_notMem fun hm => ?_
  rcases List.mem_append.mp (List.mem_of_mem_take hm) with hm | hm
  · exact h hm
  · exact absurd hm (by decide)

/-- The name of a file has at least five bytes. -/
theorem fileName_ne (s : Bytes) {b : Bytes} (hb : b.length < 5) :
    (s ++ lit ".json").take 56 ≠ b := by
  rintro rfl
  have h5 : (lit ".json").length = 5 := rfl
  rw [List.length_take, List.length_append, h5] at hb
  omega

theorem entryPath_of_notMem {s : Bytes} (h : slash ∉ s) :
    entryPath cwd s = statusDir cwd ++ [(s ++ lit ".json").take 56] := by
  rw [entryPath, split_fileName h]
  exact walk_single (fileName_ne s (by decide)) (fileName_ne s (by decide))
    (fileName_ne s (by decide))

/-- Short names without a slash have files of their own. -/
theorem entryPath_inj {s t : Bytes} (hs : slash ∉ s) (ht : slash ∉ t) (hls : s.length ≤ 51)
    (hlt : t.length ≤ 51) (h : entryPath cwd s = entryPath cwd t) : s = t := by
  have h5 : (lit ".json").length = 5 := rfl
  rw [entryPath_of_notMem cwd hs, entryPath_of_notMem cwd ht] at h
  have he := List.append_cancel_left h
  rw [List.take_of_length_le (by rw [List.length_append, h5]; omega),
    List.take_of_length_le (by rw [List.length_append, h5]; omega)] at he
  exact List.append_cancel_right (List.cons.inj he).1

/-- What `getJsonValueFromFile` returns. -/
def got (fs : Fs) (jKey s : Bytes) : Option (Option Bytes) :=
  (exec (fileSem cwd) (getJsonValueFromFile jKey (some s)) fs).1

variable {cwd}

theorem got_eq {fs : Fs} {s k : Bytes} {j : Json} (h : getEx (record cwd fs s) k = some j) :
    got cwd fs k s = some (getString j) := by
  rw [got, exec_getJsonValueFromFile cwd h]

end Directory

end LiveStreamer.StreamerServer.Directory
