import LiveStreamer.Lib.CString

/-! # Path names

A path name is split at its slashes (`split`) and walked from a directory (`walk`): an empty
component and `.` stay, `..` goes up, any other component goes down. A directory or file is the
list of the names that lead to it from the root, and no component is a symbolic link.

`locate` is the file that a path name opens, or makes: every component but the last has to lead to
a directory, and the last has to be a name in it that is not a directory's. `resolve` is where the
path name leads when the directories on the way are there (`resolve_of_locate`). -/

namespace LiveStreamer.Lib.PathName

open LiveStreamer.Lib.CString

abbrev Path := List Bytes

abbrev slash : UInt8 := 0x2f

/-- The components of a path name. -/
def split : Bytes → List Bytes
  | [] => [[]]
  | c :: t =>
    if c = slash then [] :: split t
    else
      match split t with
      | [] => [[c]]
      | w :: ws => (c :: w) :: ws

/-- Follow components from a directory. -/
def walk (dir : Path) : List Bytes → Path
  | [] => dir
  | w :: ws =>
    if w = [] ∨ w = lit "." then walk dir ws
    else if w = lit ".." then walk dir.dropLast ws
    else walk (dir ++ [w]) ws

/-- Where a path name leads from the working directory `cwd`. -/
def resolve (cwd : Path) (path : Bytes) : Path :=
  if path.head? = some slash then walk [] (split path) else walk cwd (split path)

section Locate
variable (isDir : Path → Bool)

/-- Follow components to a file, through directories that are there. -/
def find (dir : Path) : List Bytes → Option Path
  | [] => none
  | [w] =>
    if w = [] ∨ w = lit "." ∨ w = lit ".." ∨ isDir (dir ++ [w]) = true then none
    else some (dir ++ [w])
  | w :: w' :: ws =>
    if w = [] ∨ w = lit "." then find dir (w' :: ws)
    else if w = lit ".." then find dir.dropLast (w' :: ws)
    else if isDir (dir ++ [w]) then find (dir ++ [w]) (w' :: ws)
    else none

/-- The file that a path name opens from the working directory `cwd`. -/
def locate (cwd : Path) (path : Bytes) : Option Path :=
  if path.head? = some slash then find isDir [] (split path) else find isDir cwd (split path)

end Locate

theorem split_of_notMem {t : Bytes} (h : slash ∉ t) : split t = [t] := by
  induction t with
  | nil => rfl
  | cons c t ih =>
    simp only [List.mem_cons, not_or] at h
    rw [split, if_neg (Ne.symm h.1), ih h.2]

theorem split_append_slash {a : Bytes} (h : slash ∉ a) (b : Bytes) :
    split (a ++ slash :: b) = a :: split b := by
  induction a with
  | nil => simp [split]
  | cons c a ih =>
    simp only [List.mem_cons, not_or] at h
    rw [List.cons_append, split, if_neg (Ne.symm h.1), ih h.2]

/-- A proper name leads to the entry of that name. -/
theorem walk_single {dir : Path} {w : Bytes} (h0 : w ≠ []) (h1 : w ≠ lit ".")
    (h2 : w ≠ lit "..") : walk dir [w] = dir ++ [w] := by
  rw [walk, if_neg (by simp [h0, h1]), if_neg h2]
  rfl

/-- A path name that starts with a name is a relative one. -/
theorem head_ne_slash {a : Bytes} (b : Bytes) (hs : slash ∉ a) (h0 : a ≠ []) :
    (a ++ slash :: b).head? ≠ some slash := by
  obtain ⟨c, a', rfl⟩ := List.exists_cons_of_ne_nil h0
  simp only [List.cons_append, List.head?_cons, ne_eq, Option.some.injEq]
  rintro rfl
  exact hs (by simp)

/-- A path name that starts with the name of a directory goes on from that directory. -/
theorem resolve_under (cwd : Path) {a : Bytes} (b : Bytes) (hs : slash ∉ a) (h0 : a ≠ [])
    (h1 : a ≠ lit ".") (h2 : a ≠ lit "..") :
    resolve cwd (a ++ slash :: b) = walk (cwd ++ [a]) (split b) := by
  rw [resolve, if_neg (head_ne_slash b hs h0), split_append_slash hs, walk,
    if_neg (by simp [h0, h1]), if_neg h2]

section Locate
variable {isDir : Path → Bool}

theorem split_ne_nil (b : Bytes) : split b ≠ [] := by
  cases b with
  | nil => simp [split]
  | cons c t =>
    unfold split
    split_ifs
    · simp
    · split <;> simp

/-- A file is found where the components lead. -/
theorem walk_of_find {dir p : Path} {ws : List Bytes} (h : find isDir dir ws = some p) :
    walk dir ws = p := by
  induction ws generalizing dir with
  | nil => cases h
  | cons w ws ih =>
    cases ws with
    | nil =>
      unfold find at h
      split_ifs at h with hw
      simp only [not_or] at hw
      cases h
      exact walk_single hw.1 hw.2.1 hw.2.2.1
    | cons w' ws =>
      unfold find at h
      unfold walk
      split_ifs at h ⊢
      · exact ih h
      · exact ih h
      · exact ih h

theorem resolve_of_locate {cwd p : Path} {path : Bytes} (h : locate isDir cwd path = some p) :
    resolve cwd path = p := by
  unfold locate at h
  unfold resolve
  split_ifs at h ⊢
  · exact walk_of_find h
  · exact walk_of_find h

/-- A path name that starts with the name of a directory that is there. -/
theorem locate_under {cwd : Path} {a : Bytes} (b : Bytes) (hs : slash ∉ a) (h0 : a ≠ [])
    (h1 : a ≠ lit ".") (h2 : a ≠ lit "..") (hd : isDir (cwd ++ [a]) = true) :
    locate isDir cwd (a ++ slash :: b) = find isDir (cwd ++ [a]) (split b) := by
  obtain ⟨w, ws, hb⟩ := List.exists_cons_of_ne_nil (split_ne_nil b)
  rw [locate, if_neg (head_ne_slash b hs h0), split_append_slash hs, hb, find,
    if_neg (by simp [h0, h1]), if_neg h2, if_pos hd]

/-- A name that is no directory's is found. -/
theorem find_single {dir : Path} {w : Bytes} (h0 : w ≠ []) (h1 : w ≠ lit ".") (h2 : w ≠ lit "..")
    (hd : isDir (dir ++ [w]) = false) : find isDir dir [w] = some (dir ++ [w]) := by
  rw [find, if_neg (by simp [h0, h1, h2, hd])]

end Locate

end LiveStreamer.Lib.PathName
