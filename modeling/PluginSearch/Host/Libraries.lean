import PluginSearch.Basis.Logged
import PluginSearch.Host.Copies

namespace PluginSearch

/-- The test both scans make on an entry. -/
def isLibEntry (folder : CString) (entry : Dirent) : Bool :=
  entry.dType = .reg ∧ isLib (joinPath folder entry.dName)

def countEntries (folder : CString) : List Dirent → Nat → Nat
  | [], countLib => countLib
  | entry :: rest, countLib => countEntries folder rest (if isLibEntry folder entry then countLib + 1 else countLib)

/-- `count_so`; a folder that cannot be opened adds nothing. -/
def countSo (folder : CString) : Option (List Dirent) → Nat
  | none => 0
  | some entries => countEntries folder entries 0

/-- The paths that `count_so` joins: those of all regular entries. -/
def countCopies (folder : CString) (listing : Option (List Dirent)) : List Copy :=
  ((listing.getD []).filter (fun entry => entry.dType = .reg)).map
    fun entry => ⟨.countSo, joinPath folder entry.dName⟩

/-- `get_lib` so far: the handles in the array, null where none was written,
and those that `dlopen` returned. -/
structure Handles where
  dl : List (Option Nat)
  opened : List Nat
  deriving DecidableEq, Repr

/-- The loop of `get_lib`, with its return value and the paths it joins. A
library without a place in the array, as when the array is null, is a write
outside of it. -/
def openEntries (dlopen : CString → Option Nat) (folder : CString) :
    List Dirent → Nat → Handles → Logged Copy (Int × Handles)
  | [], _, handles => pure (0, handles)
  | entry :: rest, i, handles =>
    if entry.dType = .reg then do
      let fileName0 := joinPath folder entry.dName
      Logged.note ⟨.getLib, fileName0⟩
      if isLib fileName0 then
        if i < handles.dl.length then
          match dlopen fileName0 with
          | none => pure (-1, { handles with dl := handles.dl.set i none })
          | some handle =>
            openEntries dlopen folder rest (i + 1) ⟨handles.dl.set i (some handle), handles.opened ++ [handle]⟩
        else .silent none
      else openEntries dlopen folder rest i handles
    else openEntries dlopen folder rest i handles

def getLib (dlopen : CString → Option Nat) (folder : CString) (dl : List (Option Nat)) :
    Option (List Dirent) → Logged Copy (Int × Handles)
  | none => pure (-1, ⟨dl, []⟩)
  | some entries => openEntries dlopen folder entries 0 ⟨dl, []⟩

def libPaths (folder : CString) (entries : List Dirent) : List CString :=
  (entries.filter (isLibEntry folder)).map (fun entry => joinPath folder entry.dName)

theorem countEntries_eq (folder : CString) (entries : List Dirent) (countLib : Nat) :
    countEntries folder entries countLib = countLib + (libPaths folder entries).length := by
  induction entries generalizing countLib with
  | nil => simp [countEntries, libPaths]
  | cons entry rest ih =>
    rw [countEntries, ih]
    cases accepted : isLibEntry folder entry with
    | false => simp [libPaths, accepted]
    | true => simp [libPaths, accepted]; omega

def openable (dlopen : CString → Option Nat) : List CString → List Nat
  | [] => []
  | path :: rest => match dlopen path with
    | none => []
    | some handle => handle :: openable dlopen rest

theorem openable_length_le (dlopen : CString → Option Nat) (paths : List CString) :
    (openable dlopen paths).length ≤ paths.length := by
  induction paths with
  | nil => simp [openable]
  | cons path rest ih =>
    cases opened : dlopen path with
    | none => simp [openable, opened]
    | some handle => simpa [openable, opened] using ih

theorem openable_length_eq_iff (dlopen : CString → Option Nat) (paths : List CString) :
    (openable dlopen paths).length = paths.length ↔ ∀ path ∈ paths, dlopen path ≠ none := by
  induction paths with
  | nil => simp [openable]
  | cons path rest ih =>
    cases opened : dlopen path with
    | none => simp [openable, opened]
    | some handle => simpa [openable, opened] using ih

/-- The number of libraries that the opening loop tries: those that open, and
the first that does not. -/
def tried (dlopen : CString → Option Nat) (paths : List CString) : Nat :=
  min paths.length ((openable dlopen paths).length + 1)

theorem openEntries_cons (dlopen : CString → Option Nat) (folder : CString) (entry : Dirent) (rest : List Dirent)
    (i : Nat) (handles : Handles) :
    (openEntries dlopen folder (entry :: rest) i handles).result =
      if isLibEntry folder entry then
        if i < handles.dl.length then
          match dlopen (joinPath folder entry.dName) with
          | none => some (-1, { handles with dl := handles.dl.set i none })
          | some handle => (openEntries dlopen folder rest (i + 1)
              ⟨handles.dl.set i (some handle), handles.opened ++ [handle]⟩).result
        else none
      else (openEntries dlopen folder rest i handles).result := by
  by_cases regular : entry.dType = .reg
  · by_cases lib : isLib (joinPath folder entry.dName) = true
    · by_cases room : i < handles.dl.length
      · cases opened : dlopen (joinPath folder entry.dName) with
        | none => simp [openEntries, isLibEntry, regular, lib, room, opened]
        | some handle => simp [openEntries, isLibEntry, regular, lib, room, opened]
      · simp [openEntries, isLibEntry, regular, lib, room]
    · simp [openEntries, isLibEntry, regular, lib]
  · simp [openEntries, isLibEntry, regular]

/-- The opening loop in an array with some places left: it fills the places in
order, up to the first failure, if there is a place for each library it tries. -/
private theorem openEntries_eq (dlopen : CString → Option Nat) (folder : CString) (entries : List Dirent)
    (done : List Nat) (places : Nat) :
    (openEntries dlopen folder entries done.length ⟨done.map some ++ List.replicate places none, done⟩).result =
      if tried dlopen (libPaths folder entries) ≤ places then
        some (if ∀ path ∈ libPaths folder entries, dlopen path ≠ none then 0 else -1,
          ⟨(done ++ openable dlopen (libPaths folder entries)).map some ++
            List.replicate (places - (openable dlopen (libPaths folder entries)).length) none,
            done ++ openable dlopen (libPaths folder entries)⟩)
      else none := by
  induction entries generalizing done places with
  | nil => simp [openEntries, libPaths, openable, tried]
  | cons entry rest ih =>
    rw [openEntries_cons]
    cases accepted : isLibEntry folder entry with
    | false =>
      have same : libPaths folder (entry :: rest) = libPaths folder rest := by simp [libPaths, accepted]
      rw [same]
      exact ih done places
    | true =>
      have more : libPaths folder (entry :: rest) = joinPath folder entry.dName :: libPaths folder rest := by
        simp [libPaths, accepted]
      rw [more]
      cases places with
      | zero =>
        have needed : ¬ tried dlopen (joinPath folder entry.dName :: libPaths folder rest) ≤ 0 := by simp [tried]
        simp [needed]
      | succ places =>
        cases opened : dlopen (joinPath folder entry.dName) with
        | none => simp [opened, openable, tried]
        | some handle =>
          have fewer : tried dlopen (joinPath folder entry.dName :: libPaths folder rest) ≤ places + 1 ↔
              tried dlopen (libPaths folder rest) ≤ places := by
            simp [tried, openable, opened]
          simp only [fewer]
          simpa [openable, opened, List.replicate_succ] using ih (done ++ [handle]) places

theorem getLib_sized (dlopen : CString → Option Nat) (folder : CString) (entries : List Dirent) (size : Nat) :
    (getLib dlopen folder (List.replicate size none) (some entries)).result =
      if tried dlopen (libPaths folder entries) ≤ size then
        some (if ∀ path ∈ libPaths folder entries, dlopen path ≠ none then 0 else -1,
          ⟨(openable dlopen (libPaths folder entries)).map some ++
            List.replicate (size - (openable dlopen (libPaths folder entries)).length) none,
            openable dlopen (libPaths folder entries)⟩)
      else none := by
  simpa [getLib] using openEntries_eq dlopen folder entries [] size

theorem getLib_eq (dlopen : CString → Option Nat) (folder : CString) (entries : List Dirent) :
    (getLib dlopen folder (List.replicate (libPaths folder entries).length none) (some entries)).result =
      some (if ∀ path ∈ libPaths folder entries, dlopen path ≠ none then 0 else -1,
        ⟨(openable dlopen (libPaths folder entries)).map some ++
          List.replicate ((libPaths folder entries).length - (openable dlopen (libPaths folder entries)).length) none,
          openable dlopen (libPaths folder entries)⟩) := by
  have enough : tried dlopen (libPaths folder entries) ≤ (libPaths folder entries).length := Nat.min_le_left _ _
  rw [getLib_sized, if_pos enough]

theorem openable_eq_take (dlopen : CString → Option Nat) (paths : List CString) :
    (openable dlopen paths).map some = (paths.take (openable dlopen paths).length).map dlopen := by
  induction paths with
  | nil => simp [openable]
  | cons path rest ih =>
    cases opened : dlopen path with
    | none => simp [openable, opened]
    | some handle => simpa [openable, opened] using ih

end PluginSearch
