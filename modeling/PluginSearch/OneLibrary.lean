import PluginSearch.Program

namespace PluginSearch

open Forest (reported)
open LongOption (Dashes)

/-- An option for a plugin, in one of its spellings. -/
structure Ask where
  dashes : Dashes
  name : CString
  form : Form

def Ask.part (ask : Ask) : Part := .option ask.dashes ask.name ask.form

/-- A command line for the search program: perhaps a plugin folder, then options
for the plugin, then the folder to search. -/
def searchLine (dir : Option CString) (asks : List Ask) (folder : CString) : List Part :=
  (dir.map fun dir => Part.host (.p dir)).toList ++ asks.map Ask.part ++ [.plain folder]

section Line

variable {table : List Opt} {asks : List Ask}

theorem requested_searchLine (dir : Option CString) (folder : CString) :
    requested table (searchLine dir asks folder) = requested table (asks.map Ask.part) := by
  cases dir <;> simp [searchLine, requested, List.filterMap_append, List.filterMap_cons, Part.asks]

theorem hostOptions_searchLine (dir : Option CString) (asks : List Ask) (folder : CString) :
    hostOptions (searchLine dir asks folder) = { ShortOpts.unset with pvalue := dir } := by
  have own : (asks.map Ask.part).filterMap Part.hostWord = [] := by
    simp [List.filterMap_map, List.filterMap_eq_nil_iff, Ask.part, Part.hostWord]
  cases dir <;> simp [hostOptions, searchLine, own, List.filterMap_append, List.filterMap_cons, Part.hostWord,
    HostWord.set, setShort, ShortOpts.unset]

end Line

/-- The only library in the plugin folder, and that it can be used. -/
structure Env.Alone (env : Env) (folderLib : CString) (pgiInfo : InfoFunc) (ppfFunc : PpfFunc) : Prop where
  counted : env.size folderLib = 1
  library : ∃ path handle, env.libraries folderLib = [path] ∧ env.dlopen path = some handle ∧
    env.dlsymInfo (some handle) = some pgiInfo ∧ env.dlsymProcess (some handle) = some ppfFunc
  memory : env.callocDl = true ∧ env.callocPlugin = true ∧ env.callocPi = true ∧ env.callocLongopts 0 = true ∧
    env.callocOptsToPass 0 = true
  valid : 0 ≤ pgiInfo.ret
  options : pgiInfo.supOpts ≠ []

section Alone

variable {env : Env} {folderLib : CString} {pgiInfo : InfoFunc} {ppfFunc : PpfFunc} {asks : List Ask} {plugin : Plugin}

theorem Env.Alone.array (alone : env.Alone folderLib pgiInfo ppfFunc) :
    ∃ handle, env.array folderLib = [some handle] ∧ env.dlsymInfo (some handle) = some pgiInfo ∧
      env.dlsymProcess (some handle) = some ppfFunc := by
  obtain ⟨path, handle, only, opens, info, process⟩ := alone.library
  refine ⟨handle, ?_, info, process⟩
  simp [Env.array, Env.opened, only, openable, opens, alone.counted]

theorem Env.Alone.loaded (alone : env.Alone folderLib pgiInfo ppfFunc) :
    env.loaded folderLib = [⟨[], pgiInfo.supOpts, ppfFunc⟩] := by
  obtain ⟨handle, array, info, process⟩ := alone.array
  obtain ⟨_, _, pi, longopts, opts⟩ := alone.memory
  have fine : ¬ pgiInfo.ret < 0 := not_lt.mpr alone.valid
  simp [Env.loaded, array, loadPlugins, loadPlugin, info, process, pi, longopts, opts, fine, alone.options]

theorem Env.Alone.starts (alone : env.Alone folderLib pgiInfo ppfFunc) (opts : ShortOpts)
    (single : opts.needLib2 = false) (silent : opts.vflag = false) (working : opts.hflag = false)
    (handed : Handable pgiInfo.supOpts (env.longResults 0)) : env.Starts opts folderLib := by
  obtain ⟨handle, array, info, process⟩ := alone.array
  obtain ⟨dl, plugin, pi, longopts, blocks⟩ := alone.memory
  refine ⟨by simp [single], fun _ => ⟨dl, plugin⟩, ?_, ?_, silent, working, ?_⟩
  · obtain ⟨path, _, only, _⟩ := alone.library
    simp [tried, only, alone.counted]
  · intro i other found
    rw [array] at found
    obtain ⟨rfl, rfl⟩ : i = 0 ∧ other = some handle := by
      cases i <;> simp_all
    exact ⟨pgiInfo, ppfFunc, info, pi, alone.valid, alone.options, process, longopts, blocks⟩
  · intro i other found
    rw [array] at found
    obtain ⟨rfl, rfl⟩ : i = 0 ∧ other = some handle := by
      cases i <;> simp_all
    simpa [Env.supOpts, info] using handed

/-- These options, handed over to the library, make this plugin of it. -/
def Handing (table : List Opt) (ppfFunc : PpfFunc) (asks : List Ask) (plugin : Plugin) : Prop :=
  ∃ copies, passResults ((requested table (asks.map Ask.part)).map fun option => .recognised option.1 option.2)
    ⟨[], table, ppfFunc⟩ [] = (.going, plugin.lib, copies)

theorem Handing.results {results : List LongResult} (handing : Handing table ppfFunc asks plugin)
    (read : recognisedOptions results = requested table (asks.map Ask.part)) :
    ∃ copies, passResults results ⟨[], table, ppfFunc⟩ [] = (.going, plugin.lib, copies) := by
  obtain ⟨copies, passed⟩ := handing
  rw [← read, ← passResults_recognised] at passed
  exact ⟨copies, passed⟩

theorem Handing.nonempty (handing : Handing table ppfFunc asks plugin) (active : plugin.active = true) :
    asks ≠ [] := by
  rintro rfl
  obtain ⟨copies, passed⟩ := handing
  cases empty : plugin.lib with
  | mk optsToPass longopts func =>
    rw [empty] at passed
    cases passed
    simp [Plugin.active, Lib.optsToPassLen, empty] at active

theorem judge_one (active : plugin.active = true) (path : CString) :
    judge ⟨false, false, false⟩ [plugin] path =
      if plugin.verdict path < 0 then none else some (decide (plugin.verdict path = 1)) := by
  have verdicts : activeVerdicts [plugin] path = [plugin.verdict path] := by
    simp [activeVerdicts, active]
  by_cases negative : plugin.verdict path < 0
  · simp [judge, verdicts, negative]
  · by_cases matching : plugin.verdict path = 1
    · simp [judge, verdicts, matching, reports, Tally.add]
    · simp [judge, verdicts, negative, matching, reports, Tally.add]

theorem judge_alone (active : plugin.active = true) (path : CString) :
    judge ⟨false, false, false⟩ [plugin] path = some true ↔ plugin.verdict path = 1 := by
  rw [judge_one active]
  split
  · rename_i negative
    have other : plugin.verdict path ≠ 1 := by omega
    simp [other]
  · simp

/-- With one library and options that make a plugin of it, the program ends on
every file system with limited paths and prints the files that the plugin
answers 1 for. -/
theorem Env.Alone.prints (alone : env.Alone (dir.getD folderWorking) pgiInfo ppfFunc)
    (cwd : env.getcwd = some folderWorking) (quiet : ∀ part ∈ searchLine dir asks folder, part.Quiet)
    (legible : ∀ part ∈ searchLine dir asks folder, Legible pgiInfo.supOpts part)
    (handing : Handing pgiInfo.supOpts ppfFunc asks plugin) (active : plugin.active = true)
    (commanded : env.Commanded (dir.getD folderWorking) (searchLine dir asks folder))
    (limited : Limited env.opendir) :
    ∃ forest, ShowsRoot env.opendir (env.root folderWorking) forest ∧ ∀ fuel, pathMax < fuel →
      (main env ((searchLine dir asks folder).flatMap Part.words) fuel).Finds
        (reported joinPath (judge ⟨false, false, false⟩ [plugin]) (env.root folderWorking) forest) := by
  have given := handing.nonempty active
  have opts := hostOptions_searchLine dir asks folder
  have read := shortOptions_parts _ quiet
  rw [opts] at read
  obtain ⟨handle, array, pgi, _⟩ := alone.array
  have results : recognisedOptions (env.longResults 0) = requested pgiInfo.supOpts (asks.map Ask.part) := by
    rw [commanded.results 0 (some handle) (by simp [array]), ← requested_searchLine dir folder]
    simpa [Env.supOpts, pgi] using recognisedOptions_parts _ legible
  obtain ⟨copies, passed⟩ := handing.results results
  have handable : Handable pgiInfo.supOpts (env.longResults 0) := by
    have goes := (passResults_going_iff (env.longResults 0) ⟨[], pgiInfo.supOpts, ppfFunc⟩ [] (Nat.zero_le _)).mp
      (by rw [passed])
    rw [Lib.optsToPassLen, List.length_nil, Nat.zero_add] at goes
    exact goes
  have starts := alone.starts { ShortOpts.unset with pvalue := dir } rfl rfl rfl handable
  have equips : env.Equips (dir.getD folderWorking) [plugin] := by
    refine ⟨[plugin.lib], copies, ?_, loaded_map [plugin]⟩
    simp [alone.loaded, passAll, passed]
  have words := length_le_words (searchLine dir asks folder)
  have nonempty := List.length_pos_of_ne_nil given
  have many : 2 ≤ ((searchLine dir asks folder).flatMap Part.words).length := by
    simp only [searchLine, List.length_append, List.length_map, List.length_singleton] at words ⊢
    omega
  obtain ⟨forest, shows, prints⟩ := main_reports many read cwd starts equips limited
  simp only [ShortOpts.flags, ShortOpts.unset] at prints
  exact ⟨forest, shows, prints⟩

end Alone

end PluginSearch
