import PluginSearch.Host.MainInvariant
import PluginSearch.Host.Verdict

namespace PluginSearch

/-- `END` closes the handles that were opened, each once and through no null
pointer, and frees the copies of arguments and nothing else. -/
def Vars.Releases (vars : Vars) : Prop :=
  vars.closes = vars.opened.map (fun handle => .entry (some handle)) ∧ vars.frees = vars.copies.map copied

instance (vars : Vars) : Decidable vars.Releases := inferInstanceAs (Decidable (_ ∧ _))

def Env.libraries (env : Env) (folderLib : CString) : List CString :=
  (env.listed folderLib).elim [] (libPaths folderLib)

def Env.opened (env : Env) (folderLib : CString) : List Nat := openable env.dlopen (env.libraries folderLib)

/-- Not a single library while two are needed, every library opens, and if the
options get read, none that is handed over without an argument brings along a
pointer of its table. -/
structure Env.Releasable (env : Env) (opts : ShortOpts) (folderLib : CString) : Prop where
  enough : ¬ (opts.needLib2 = true ∧ (env.libraries folderLib).length = 1)
  opens : ∀ path ∈ env.libraries folderLib, env.dlopen path ≠ none
  plain : opts.vflag = false → opts.hflag = false →
    (∀ i handle, (env.opened folderLib)[i]? = some handle → Usable env i (some handle)) →
    PlainTables env ((env.opened folderLib).map (fun handle => env.supOpts (some handle))) 0

variable {env : Env} {opts : ShortOpts} {vars : Vars}

theorem countSo_eq (same : SameListings env.counted env.listed) (folderLib : CString) :
    countSo folderLib (env.counted folderLib) = (env.libraries folderLib).length := by
  cases counted : env.counted folderLib with
  | none => simp [countSo, Env.libraries, same.refused counted]
  | some entries =>
    obtain ⟨others, listed, perm⟩ := same.opened counted
    simp [countSo, countEntries_eq, Env.libraries, listed, libPaths, (perm.filter _).length_eq]

/-- The handle array after `get_lib`; behind a failure it is still null. -/
def Env.handles (env : Env) (folderLib : CString) : List (Option Nat) :=
  (env.opened folderLib).map some ++
    List.replicate ((env.libraries folderLib).length - (env.opened folderLib).length) none

theorem handles_of_opens (opens : ∀ path ∈ env.libraries folderLib, env.dlopen path ≠ none) :
    env.handles folderLib = (env.opened folderLib).map some := by
  have full := (openable_length_eq_iff env.dlopen _).mpr opens
  simp [Env.handles, Env.opened, full]

theorem getLib_handles (env : Env) (folderLib : CString) :
    ∃ ret, (getLib env.dlopen folderLib (List.replicate (env.libraries folderLib).length none)
      (env.listed folderLib)).result = some (ret, ⟨env.handles folderLib, env.opened folderLib⟩) := by
  unfold Env.handles Env.opened Env.libraries
  cases env.listed folderLib with
  | none => exact ⟨-1, by simp [getLib, openable]⟩
  | some entries => exact ⟨_, getLib_eq env.dlopen folderLib entries⟩

/-- The array is closed as it was opened exactly when every library opens;
without libraries it may be null. -/
theorem closes_iff (size : vars.numIter = (env.libraries folderLib).length)
    (filled : env.libraries folderLib = [] ∨ vars.dl = some (env.handles folderLib))
    (opened : vars.opened = env.opened folderLib) :
    vars.closes = vars.opened.map (fun handle => .entry (some handle)) ↔
      ∀ path ∈ env.libraries folderLib, env.dlopen path ≠ none := by
  rcases filled with empty | filled
  · simp [Vars.closes, size, opened, Env.opened, openable, empty]
  · have bound : (env.opened folderLib).length ≤ (env.libraries folderLib).length := openable_length_le _ _
    have entries : vars.closes = (env.handles folderLib).map Close.entry := by
      apply List.ext_getElem (by simp [Vars.closes, Env.handles, size]; omega)
      intro i inside inside'
      simp only [Vars.closes, filled, List.getElem_map, List.getElem_range]
      rw [List.getElem?_eq_getElem (by simpa using inside')]
      simp
    constructor
    · intro same
      have lengths := congrArg List.length (entries.symm.trans same)
      rw [← openable_length_eq_iff]
      simp only [Env.handles, opened, List.length_map, List.length_append, List.length_replicate] at lengths
      simp only [Env.opened] at lengths bound
      omega
    · intro opens
      rw [entries, handles_of_opens opens, opened, List.map_map]
      rfl

/-- The plugin array that `END` sees: the entries filled, or a null pointer
when there is no entry to fill. -/
def Holds (vars : Vars) (plugin : List Lib) : Prop :=
  vars.plugin = some plugin ∨ (vars.plugin = none ∧ plugin = [])

theorem frees_of_holds (holds : Holds vars plugin) : vars.frees = plugin.flatMap Lib.frees := by
  rcases holds with held | ⟨null, rfl⟩
  · simp [Vars.frees, held]
  · simp [Vars.frees, null]

theorem Holds.update (holds : Holds vars plugin) (size : plugin'.length = plugin.length)
    (updated : after.plugin = vars.plugin.map (fun _ => plugin')) : Holds after plugin' := by
  rcases holds with held | ⟨null, rfl⟩
  · exact .inl (by rw [updated, held]; rfl)
  · exact .inr ⟨by rw [updated, null]; rfl, List.eq_nil_of_length_eq_zero size⟩

theorem runSearch_spec (holds : Holds vars before) (size : plugin.length = before.length)
    (reached : (runSearch env opts fuel folderWorking vars plugin).exit = .atEnd after) :
    after.numIter = vars.numIter ∧ after.dl = vars.dl ∧ after.opened = vars.opened ∧ after.copies = vars.copies ∧
      after.frees = plugin.flatMap Lib.frees := by
  simp only [runSearch, Run.behind_exit] at reached
  split at reached
  · rename_i stopped searched
    cases cause : stopped.cause <;> simp [cause, Cause.exit] at reached
  · rename_i host searched
    have kept : host.plugin.map Lib.pointers = plugin.map Lib.pointers := searchDir_pointers searched
    have same : host.plugin.length = plugin.length := by simpa using congrArg List.length kept
    cases reached
    refine ⟨rfl, rfl, rfl, rfl, ?_⟩
    rw [frees_of_holds (holds.update (same.trans size) rfl), frees_of_pointers kept]

theorem passAll_length (env : Env) (plugin : List Lib) (i : Nat) (copies : List Nat) :
    (passAll env plugin i copies).2.1.length = plugin.length := by
  induction plugin generalizing i copies with
  | nil => rfl
  | cons lib rest ih =>
    simp only [passAll]
    split
    · simp [ih]
    · simp

/-- From the loaded plugins on, the handles stay as they are, and the pointers
freed in the end are the copies exactly when the options read were plain. -/
theorem runOptions_spec (fresh : ∀ lib ∈ plugin, lib.optsToPass = []) (holds : Holds vars plugin)
    (uncopied : vars.copies = [])
    (reached : (runOptions env opts fuel folderWorking vars plugin).exit = .atEnd after) :
    after.numIter = vars.numIter ∧ after.dl = vars.dl ∧ after.opened = vars.opened ∧
      (after.frees = after.copies.map copied ↔
        (opts.vflag = false → opts.hflag = false → PlainTables env (plugin.map Lib.longopts) 0)) := by
  have nothing : vars.frees = vars.copies.map copied := by simp [frees_of_holds holds, frees_fresh fresh, uncopied]
  unfold runOptions at reached
  split at reached
  · rename_i printing
    cases reached
    exact ⟨rfl, rfl, rfl, by simp [nothing, printing]⟩
  · rename_i silent
    split at reached
    · rename_i helping
      simp only at reached
      split at reached
      · cases reached
        exact ⟨rfl, rfl, rfl, by simp [nothing, helping]⟩
      · cases reached
    · rename_i working
      simp only [silent, working, forall_const]
      have size := passAll_length env plugin 0 []
      split at reached
      · cases reached
      · rename_i plugin' copies passed
        rw [passed] at size
        cases reached
        obtain ⟨new, same, _, plain⟩ := passAll_spec env plugin 0 [] fresh passed (by decide)
        refine ⟨rfl, rfl, rfl, ?_⟩
        rw [← plain, frees_of_holds (holds.update size rfl), eq_comm, same]
        rfl
      · rename_i plugin' copies passed
        rw [passed] at size
        obtain ⟨new, same, _, plain⟩ := passAll_spec env plugin 0 [] fresh passed (by decide)
        have copying : Holds { vars with copies := copies } plugin := holds
        obtain ⟨numIter, dl, opened, copies', frees⟩ := runSearch_spec copying size reached
        refine ⟨numIter, dl, opened, ?_⟩
        rw [← plain, frees, copies', same, eq_comm]
        rfl

theorem callocDl_array (env : Env) (numIter : Nat) (allocated : numIter ≠ 0 → env.callocDl = true) :
    (if env.callocDl = true then some (List.replicate numIter none) else none).getD ([] : List (Option Nat)) =
      List.replicate numIter none := by
  by_cases empty : numIter = 0
  · cases env.callocDl <;> simp [empty]
  · simp [allocated empty]

/-- Where `END` can be reached from the arrays on: with a library that is not
usable, or behind the options. -/
theorem runPlugins_cases (reached : (runPlugins env opts fuel folderWorking folderLib
      (env.libraries folderLib).length).exit = .atEnd vars) :
    ∃ start : Vars, start.numIter = (env.libraries folderLib).length ∧
      (env.libraries folderLib = [] ∨ start.dl = some (env.handles folderLib)) ∧
      start.opened = env.opened folderLib ∧ start.copies = [] ∧
      Holds start (loadPlugins env (env.handles folderLib) 0 []).2 ∧
      (((loadPlugins env (env.handles folderLib) 0 []).1 = .failed ∧ vars = start) ∨
        ((loadPlugins env (env.handles folderLib) 0 []).1 = .going ∧
          (runOptions env opts fuel folderWorking start (loadPlugins env (env.handles folderLib) 0 []).2).exit =
            .atEnd vars)) := by
  have arrays : env.libraries folderLib = [] ∨ (env.callocDl = true ∧ env.callocPlugin = true) := by
    by_contra missing
    rw [not_or, ← List.length_eq_zero_iff] at missing
    simp only [runPlugins, Run.behind_exit, ne_eq, missing, not_false_eq_true, and_self, ↓reduceIte] at reached
    generalize (getLib env.dlopen folderLib _ (env.listed folderLib)).result = listed at reached
    cases listed <;> cases reached
  have allocated : ¬ ((env.libraries folderLib).length ≠ 0 ∧ ¬ (env.callocDl = true ∧ env.callocPlugin = true)) := by
    intro holds
    obtain ⟨nonempty, missing⟩ := holds
    exact missing (arrays.resolve_left (by simpa using nonempty))
  have array := callocDl_array env (env.libraries folderLib).length fun nonempty =>
    (arrays.resolve_left (by simpa using nonempty)).1
  obtain ⟨ret, listed⟩ := getLib_handles env folderLib
  simp only [runPlugins, Run.behind_exit, array, listed, allocated, ↓reduceIte] at reached
  let start : Vars := ⟨(env.libraries folderLib).length,
    (if env.callocDl = true then some (List.replicate (env.libraries folderLib).length none) else none).map
      (fun _ : List (Option Nat) => env.handles folderLib),
    if env.callocPlugin = true then some (loadPlugins env (env.handles folderLib) 0 []).2 else none,
    env.opened folderLib, []⟩
  refine ⟨start, rfl, ?_, rfl, rfl, ?_, ?_⟩
  · exact arrays.imp_right fun both => by simp [start, both.1]
  · rcases arrays with empty | ⟨_, plugin⟩
    · have unopened : env.handles folderLib = [] := by simp [Env.handles, Env.opened, empty, openable]
      cases plugin : env.callocPlugin with
      | true => exact .inl (by simp [start, plugin])
      | false => exact .inr ⟨by simp [start, plugin], by simp [unopened, loadPlugins]⟩
    · exact .inl (by simp [start, plugin])
  · split at reached
    · cases reached
    · rename_i failed
      cases reached
      exact .inl ⟨failed, rfl⟩
    · rename_i going
      exact .inr ⟨going, reached⟩

/-- From the arrays on: the handles are right exactly when every library opens,
and then the pointers are right exactly when the options read were plain. -/
theorem runPlugins_spec (reached : (runPlugins env opts fuel folderWorking folderLib
      (env.libraries folderLib).length).exit = .atEnd vars) :
    vars.Releases ↔ (∀ path ∈ env.libraries folderLib, env.dlopen path ≠ none) ∧
      (opts.vflag = false → opts.hflag = false →
        (∀ i handle, (env.opened folderLib)[i]? = some handle → Usable env i (some handle)) →
        PlainTables env ((env.opened folderLib).map (fun handle => env.supOpts (some handle))) 0) := by
  obtain ⟨start, size, filled, opened, uncopied, holds, way⟩ := runPlugins_cases reached
  obtain ⟨fresh, through, tables⟩ := loadPlugins_spec env (env.handles folderLib) 0 [] (by simp)
  have usable_iff (opens : ∀ path ∈ env.libraries folderLib, env.dlopen path ≠ none) :
      (loadPlugins env (env.handles folderLib) 0 []).1 = .going ↔
        ∀ i handle, (env.opened folderLib)[i]? = some handle → Usable env i (some handle) := by
    rw [through, handles_of_opens opens]
    simp
  rcases way with ⟨failed, rfl⟩ | ⟨going, reached⟩
  · have frees : vars.frees = vars.copies.map copied := by simp [frees_of_holds holds, frees_fresh fresh, uncopied]
    rw [Vars.Releases, closes_iff size filled opened]
    constructor
    · intro holds
      obtain ⟨opens, _⟩ := holds
      refine ⟨opens, fun _ _ usable => ?_⟩
      exact nomatch failed.symm.trans ((usable_iff opens).mpr usable)
    · intro holds
      obtain ⟨opens, _⟩ := holds
      exact ⟨opens, frees⟩
  · obtain ⟨size', dl', opened', frees⟩ := runOptions_spec fresh holds uncopied reached
    rw [Vars.Releases, closes_iff (size'.trans size) (dl' ▸ filled) (opened'.trans opened), frees, tables going]
    constructor
    · intro holds
      obtain ⟨opens, plain⟩ := holds
      refine ⟨opens, fun silent working _ => ?_⟩
      simpa [handles_of_opens opens, Function.comp_def] using plain silent working
    · intro holds
      obtain ⟨opens, plain⟩ := holds
      refine ⟨opens, fun silent working => ?_⟩
      simpa [handles_of_opens opens, Function.comp_def] using plain silent working ((usable_iff opens).mp going)

/-- On every way to `END`, what is released is exactly what was acquired if and
only if `getcwd` failed or the plugin folder is releasable. -/
theorem main_releases_iff (env : Env) (same : SameListings env.counted env.listed) (opts : ShortOpts) (fuel : Nat)
    (vars : Vars) (reached : (mainFrom env opts fuel).exit = .atEnd vars) :
    vars.Releases ↔ ∀ folderWorking, env.getcwd = some folderWorking →
      env.Releasable opts (opts.pvalue.getD folderWorking) := by
  unfold mainFrom at reached
  cases cwd : env.getcwd with
  | none =>
    simp only [cwd] at reached
    cases reached
    simp [Vars.Releases, Vars.closes, Vars.frees]
  | some folderWorking =>
    simp only [cwd, countSo_eq same] at reached
    simp only [Option.some.injEq, forall_eq']
    generalize opts.pvalue.getD folderWorking = folderLib at reached
    split at reached
    · rename_i few
      cases reached
      constructor
      · intro releases
        have empty : env.libraries folderLib = [] := by simpa [Vars.closes] using releases.1
        exact ⟨by simp [empty], by simp [empty], by simp [Env.opened, empty, openable, PlainTables]⟩
      · intro releasable
        have empty : env.libraries folderLib = [] := by
          have single := releasable.enough
          apply List.eq_nil_of_length_eq_zero
          by_contra nonempty
          exact single ⟨few.2, by omega⟩
        simp [Vars.Releases, Vars.closes, Vars.frees, empty]
    · rename_i enough
      rw [runPlugins_spec reached]
      constructor
      · intro holds
        obtain ⟨opens, plain⟩ := holds
        exact ⟨fun single => enough ⟨by omega, single.1⟩, opens, plain⟩
      · intro releasable
        exact ⟨releasable.opens, releasable.plain⟩

/-- A plugin folder with these files, of which `a.so` always opens; each plugin
is given the first option of its table, and the folder to search is empty. -/
def sampleEnv (entries : List Dirent) (second : Option Nat) (table : List Opt) : Env where
  getcwd := some "w".toList
  counted := fun _ => some entries
  listed := fun _ => some entries
  dlopen := fun path => if path = "w/a.so".toList then some 7 else second
  dlsymInfo := fun handle => handle.map (fun _ => ⟨-1, 0, table⟩)
  dlsymProcess := fun handle => handle.map (fun _ => (Plugin.constant 1).lib.ppfFunc)
  callocDl := true
  callocPlugin := true
  callocPi := true
  callocLongopts := fun _ => true
  callocOptsToPass := fun _ => true
  longResults := fun _ => [.recognised 0 (some "1".toList)]
  lastArg := ".".toList
  opendir := fun _ => some []
  info := fun _ => noTexts

def twoLibraries : List Dirent := [⟨.reg, "a.so".toList⟩, ⟨.reg, "b.so".toList⟩]

theorem main_releases_two_libraries :
    ∃ vars, (mainFrom (sampleEnv twoLibraries (some 8) [⟨"n".toList, 1, .null, 0⟩]) .unset 1).exit = .atEnd vars ∧
      vars.opened = [7, 8] ∧ vars.copies = [0, 1] ∧ vars.Releases := by
  have same : SameListings (sampleEnv twoLibraries (some 8) [⟨"n".toList, 1, .null, 0⟩]).counted
      (sampleEnv twoLibraries (some 8) [⟨"n".toList, 1, .null, 0⟩]).listed := fun _ => .some (List.Perm.refl _)
  refine ⟨_, rfl, rfl, rfl, (main_releases_iff _ same .unset 1 _ rfl).mpr ?_⟩
  intro folderWorking cwd
  cases cwd
  refine ⟨by decide, by decide, fun _ _ _ => plainTables_of_null ?_ 0⟩
  intro table member opt listed unargued
  obtain ⟨handle, _, rfl⟩ := List.mem_map.mp member
  rw [List.mem_singleton.mp listed]

/-- With `-A` and one library the handles are closed through a null array; a
library that does not open leaves a null entry to be closed; and a pointer in
an option table is freed as if it were a copy. -/
theorem main_releases_wrongly :
    (∃ vars, (mainFrom (sampleEnv [⟨.reg, "a.so".toList⟩] none []) { ShortOpts.unset with
          aflag := true, needLib2 := true } 1).exit = .atEnd vars ∧
        vars.opened = [] ∧ vars.closes = [.throughNull] ∧ ¬ vars.Releases) ∧
    (∃ vars, (mainFrom (sampleEnv twoLibraries none [⟨"n".toList, 1, .null, 0⟩]) .unset 1).exit = .atEnd vars ∧
        vars.opened = [7] ∧ vars.closes = [.entry (some 7), .entry none] ∧ ¬ vars.Releases) ∧
    (∃ vars, (mainFrom (sampleEnv twoLibraries (some 8) [⟨"n".toList, 0, .static 5, 0⟩]) .unset 1).exit = .atEnd vars ∧
        vars.copies = [] ∧ vars.frees = [.static 5, .static 5] ∧ ¬ vars.Releases) :=
  ⟨⟨_, rfl, rfl, by decide, by decide⟩, ⟨_, rfl, rfl, by decide, by decide⟩, ⟨_, rfl, rfl, by decide, by decide⟩⟩

end PluginSearch
