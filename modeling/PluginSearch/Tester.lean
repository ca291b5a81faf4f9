import PluginSearch.Basis.Ledger
import PluginSearch.Caller

/-! `lab1test`, which tries libraries for formal conformance: what it prints
about them, and that its clean report is what the search program needs. -/

namespace PluginSearch

open Ledger (Entry)

/-- What the tool does to the outside. -/
inductive TestEvent where
  | opened (dl : Nat)
  | closed (dl : Nat)
  | out (text : CString)
  | err (text : CString)
  deriving DecidableEq, Repr

def testUsage : CString := "Usage: lab1test /path/to/lib1.so ... libN.so\n".toList

def tryOpened (dlerror : CString) (texts : Texts) (env : Env) (dl : Nat) : List TestEvent :=
  match env.dlsymInfo (some dl) with
  | none => [.err ("ERROR: dlsym() failed: ".toList ++ dlerror ++ "\n".toList)]
  | some pgiInfo =>
    if pgiInfo.ret < 0 then [.err "ERROR: plugin_get_info() failed\n".toList]
    else (aboutLines texts pgiInfo.supOpts).map .out ++
      if (env.dlsymProcess (some dl)).isNone then
        [.err "WARNING: no plugin_process_file() function found\n".toList]
      else []

def tryLibrary (dlerror : CString) (texts : CString → Texts) (env : Env) (path : CString) : List TestEvent :=
  .out ("Trying ".toList ++ path ++ ":\n".toList) :: match env.dlopen path with
    | none => [.err ("ERROR: dlopen() failed: ".toList ++ dlerror ++ "\n".toList)]
    | some dl => .opened dl :: tryOpened dlerror (texts path) env dl ++ [.closed dl]

/-- `main` of `lab1test`, given the words behind its name. -/
def testMain (dlerror : CString) (texts : CString → Texts) (env : Env) (args : List CString) : List TestEvent :=
  if args.length = 0 then [.out testUsage] else args.flatMap (tryLibrary dlerror texts env)

/-- Neither an error nor a warning, nor a library without options. -/
def TestEvent.Clean : TestEvent → Prop
  | .err _ => False
  | .out text => text ≠ noneText
  | _ => True

/-- A library that has both functions and reports some option. -/
def Conforms (env : Env) (dl : Nat) : Prop :=
  ∃ pgiInfo ppfFunc, env.dlsymInfo (some dl) = some pgiInfo ∧ 0 ≤ pgiInfo.ret ∧ pgiInfo.supOpts ≠ [] ∧
    env.dlsymProcess (some dl) = some ppfFunc

theorem line_ne_noneText {start : CString} (begins : start.head? ≠ some 'n') (filled : start ≠ []) (rest : CString) :
    start ++ rest ≠ noneText := by
  intro same
  have first : noneText.head? = some 'n' := by decide
  rw [← same, List.head?_append_of_ne_nil _ filled] at first
  exact begins first

theorem aboutLines_clean_iff (texts : Texts) (table : List Opt) :
    (∀ line ∈ aboutLines texts table, line ≠ noneText) ↔ table ≠ [] := by
  constructor
  · intro clean empty
    subst empty
    exact clean noneText (by simp [aboutLines]) rfl
  · intro listed line member
    have filled : table.length > 0 := List.length_pos_of_ne_nil listed
    simp only [aboutLines, filled, ↓reduceIte, List.mem_append, List.mem_cons, List.not_mem_nil, or_false] at member
    rcases member with (rfl | rfl | rfl) | rfl | option
    · rw [List.append_assoc]
      exact line_ne_noneText (by decide) (by decide) _
    · rw [List.append_assoc]
      exact line_ne_noneText (by decide) (by decide) _
    · decide
    · decide
    · obtain ⟨i, inside, rfl⟩ := List.mem_mapIdx.mp option
      rw [List.append_assoc, List.append_assoc, List.append_assoc]
      exact line_ne_noneText (by decide) (by decide) _

theorem tryOpened_clean_iff (dlerror : CString) (texts : Texts) (env : Env) (dl : Nat) :
    (∀ event ∈ tryOpened dlerror texts env dl, event.Clean) ↔ Conforms env dl := by
  unfold tryOpened Conforms
  cases env.dlsymInfo (some dl) with
  | none => simp [TestEvent.Clean]
  | some pgiInfo =>
    by_cases failed : pgiInfo.ret < 0
    · simp [failed, TestEvent.Clean]
    · have lines : (∀ event ∈ (aboutLines texts pgiInfo.supOpts).map TestEvent.out, event.Clean) ↔
          pgiInfo.supOpts ≠ [] := by
        rw [← aboutLines_clean_iff texts]
        simp [TestEvent.Clean]
      simp only [failed, ↓reduceIte, List.forall_mem_append, lines]
      cases env.dlsymProcess (some dl) with
      | none => simp [TestEvent.Clean]
      | some ppfFunc => simp [not_lt.mp failed]

theorem tryLibrary_clean_iff (dlerror : CString) (texts : CString → Texts) (env : Env) (path : CString) :
    (∀ event ∈ tryLibrary dlerror texts env path, event.Clean) ↔
      ∃ dl, env.dlopen path = some dl ∧ Conforms env dl := by
  have trying : (TestEvent.out ("Trying ".toList ++ path ++ ":\n".toList)).Clean := by
    rw [List.append_assoc]
    exact line_ne_noneText (by decide) (by decide) _
  rw [tryLibrary, List.forall_mem_cons, and_iff_right trying]
  cases env.dlopen path with
  | none => simp [TestEvent.Clean]
  | some dl =>
    simp only [List.cons_append, List.forall_mem_cons, List.forall_mem_append, tryOpened_clean_iff]
    simp [TestEvent.Clean]

/-- Libraries that all open are those up to the first that does not. -/
theorem forall_openable_iff (dlopen : CString → Option Nat) (holds : Nat → Prop) (paths : List CString) :
    (∀ path ∈ paths, ∃ dl, dlopen path = some dl ∧ holds dl) ↔
      (∀ path ∈ paths, dlopen path ≠ none) ∧ ∀ dl ∈ openable dlopen paths, holds dl := by
  induction paths with
  | nil => simp [openable]
  | cons path rest ih =>
    rw [List.forall_mem_cons, List.forall_mem_cons, ih]
    cases opened : dlopen path with
    | none => simp
    | some dl =>
      simp only [openable, opened, List.forall_mem_cons]
      constructor
      · rintro ⟨⟨_, same, here⟩, opens, later⟩
        cases same
        exact ⟨⟨Option.some_ne_none _, opens⟩, here, later⟩
      · rintro ⟨⟨_, opens⟩, here, later⟩
        exact ⟨⟨dl, rfl, here⟩, opens, later⟩

/-- With enough memory the search program can use a library that conforms. -/
theorem usable_iff_conforms (memory : env.Allocates) (i dl : Nat) : Usable env i (some dl) ↔ Conforms env dl := by
  obtain ⟨pi, blocks⟩ := memory
  simp [Usable, Conforms, pi, blocks i]

def TestEvent.entry : TestEvent → Option (Entry Nat)
  | .opened dl => some (.acquire dl)
  | .closed dl => some (.release dl)
  | _ => none

theorem tryOpened_entries (dlerror : CString) (texts : Texts) (env : Env) (dl : Nat) :
    (tryOpened dlerror texts env dl).filterMap TestEvent.entry = [] := by
  rw [List.filterMap_eq_nil_iff]
  intro event member
  unfold tryOpened at member
  split at member
  · rw [List.mem_singleton.mp member]
    rfl
  · split at member
    · rw [List.mem_singleton.mp member]
      rfl
    · rcases List.mem_append.mp member with about | warning
      · obtain ⟨line, _, rfl⟩ := List.mem_map.mp about
        rfl
      · split at warning
        · rw [List.mem_singleton.mp warning]
          rfl
        · cases warning

theorem tryLibrary_entries (dlerror : CString) (texts : CString → Texts) (env : Env) (path : CString) :
    (tryLibrary dlerror texts env path).filterMap TestEvent.entry =
      (env.dlopen path).elim [] fun dl => [.acquire dl, .release dl] := by
  rw [tryLibrary, List.filterMap_cons_none rfl]
  cases env.dlopen path with
  | none => rfl
  | some dl =>
    have silent := tryOpened_entries dlerror (texts path) env dl
    simp [silent, TestEvent.entry]

/-- Every library is closed before the next one is opened. -/
theorem libraries_entries (dlerror : CString) (texts : CString → Texts) (env : Env) (paths : List CString) :
    (paths.flatMap (tryLibrary dlerror texts env)).filterMap TestEvent.entry =
      (paths.filterMap env.dlopen).flatMap fun dl => [.acquire dl, .release dl] := by
  induction paths with
  | nil => rfl
  | cons path rest ih =>
    rw [List.flatMap_cons, List.filterMap_append, tryLibrary_entries, ih]
    cases opened : env.dlopen path with
    | none => rw [List.filterMap_cons_none opened, Option.elim_none, List.nil_append]
    | some dl => rw [List.filterMap_cons_some opened, List.flatMap_cons, Option.elim_some]

/-- The tester on the libraries of a plugin folder: it reports no error, no
warning and no library without options exactly if the search program, given
enough memory, opens and loads them all. On any names, what it opens and closes
is the libraries that open, in their order, each one closed at once. -/
theorem report_foretells_loading (dlerror : CString) (texts : CString → Texts) (env : Env) (folderLib : CString)
    (memory : env.Allocates) :
    ((∀ event ∈ testMain dlerror texts env (env.libraries folderLib), event.Clean) ↔
      (∀ path ∈ env.libraries folderLib, env.dlopen path ≠ none) ∧
        (loadPlugins env ((env.opened folderLib).map some) 0 []).1 = .going) ∧
    ∀ args, (testMain dlerror texts env args).filterMap TestEvent.entry =
      (args.filterMap env.dlopen).flatMap fun dl => [.acquire dl, .release dl] := by
  refine ⟨?_, ?_⟩
  · have loads : (loadPlugins env ((env.opened folderLib).map some) 0 []).1 = .going ↔
        ∀ dl ∈ env.opened folderLib, Conforms env dl := by
      rw [(loadPlugins_spec env _ 0 [] (by simp)).2.1]
      constructor
      · intro usable dl member
        obtain ⟨k, found⟩ := List.mem_iff_getElem?.mp member
        exact (usable_iff_conforms memory (0 + k) dl).mp (usable k (some dl) (by simp [found]))
      · intro conforms k handle found
        rw [List.getElem?_map, Option.map_eq_some_iff] at found
        obtain ⟨dl, present, rfl⟩ := found
        exact (usable_iff_conforms memory (0 + k) dl).mpr (conforms dl (List.mem_of_getElem? present))
    rw [loads, Env.opened, ← forall_openable_iff]
    generalize env.libraries folderLib = paths
    unfold testMain
    split
    · rename_i empty
      rw [List.length_eq_zero_iff.mp empty]
      refine iff_of_true ?_ (by simp)
      rw [List.forall_mem_singleton]
      show testUsage ≠ noneText
      decide
    · simp only [List.mem_flatMap, forall_exists_index, and_imp]
      constructor
      · intro clean path member
        exact (tryLibrary_clean_iff dlerror texts env path).mp fun event present => clean event path member present
      · intro conforms event path member present
        exact (tryLibrary_clean_iff dlerror texts env path).mpr (conforms path member) event present
  · intro args
    unfold testMain
    split
    · rename_i empty
      rw [List.length_eq_zero_iff.mp empty]
      rfl
    · exact libraries_entries dlerror texts env args

theorem report_foretells_loading_both :
    (loadPlugins (sampleEnv twoLibraries (some 8) anyTable) [some 7, some 8] 0 []).1 = .going ∧
    ∀ event ∈ testMain [] (fun _ => noTexts) (sampleEnv twoLibraries (some 8) anyTable)
      ["w/a.so".toList, "w/b.so".toList], event.Clean := by
  have loads : (loadPlugins (sampleEnv twoLibraries (some 8) anyTable) [some 7, some 8] 0 []).1 = .going := rfl
  obtain ⟨report, _⟩ := report_foretells_loading [] (fun _ => noTexts) (sampleEnv twoLibraries (some 8) anyTable)
    "w".toList ⟨rfl, fun _ => ⟨rfl, rfl⟩⟩
  exact ⟨loads, report.mpr ⟨by decide, loads⟩⟩

end PluginSearch
