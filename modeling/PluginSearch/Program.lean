import PluginSearch.Host.CommandLine
import PluginSearch.Host.Depth
import PluginSearch.Host.Output
import PluginSearch.Shipped

/-! The whole program, from the words of the command line to the lines on the
standard output: first with any plugins, then with the two of this repository. -/

namespace PluginSearch

open Forest (checked files reported)

section Any

variable {env : Env} {opts : ShortOpts} {folderWorking : CString} {args : List CString} {plugins : List Plugin}

/-- The option loop leaves the host with these plugins. -/
def Env.Equips (env : Env) (folderLib : CString) (plugins : List Plugin) : Prop :=
  ∃ after copies, passAll env (env.loaded folderLib) 0 [] = (.going, after, copies) ∧ Loaded after plugins

/-- A program that gets as far as its search ends on every file system with
limited paths, and prints what is judged so in the finite tree that is shown. -/
theorem main_reports (many : 2 ≤ args.length) (read : shortOptions args = some (some opts))
    (cwd : env.getcwd = some folderWorking) (starts : env.Starts opts (opts.pvalue.getD folderWorking))
    (equips : env.Equips (opts.pvalue.getD folderWorking) plugins) (limited : Limited env.opendir) :
    ∃ forest, ShowsRoot env.opendir (env.root folderWorking) forest ∧ ∀ fuel, pathMax < fuel →
      (main env args fuel).Finds
        (reported joinPath (judge opts.flags plugins) (env.root folderWorking) forest) := by
  obtain ⟨after, copies, passed, loaded⟩ := equips
  have holds := FolderHeld.root (env.root folderWorking) after
  obtain ⟨forest, last, shows, ran, _, lines, _⟩ := searchDir_everywhere env.opendir limited
    (env.root folderWorking) plugins opts.flags _ 1 ⟨holds.held, holds.allocated, holds.nonnull, loaded⟩
  refine ⟨forest, shows, ?_⟩
  intro fuel enough
  obtain ⟨before, vars, after', copies', passed', search⟩ := mainFrom_starts fuel cwd starts
  cases passed.symm.trans passed'
  have found := runSearch_shows env opts fuel folderWorking vars after
  rw [ran fuel enough] at found
  have same : last.lines = reported joinPath (judge opts.flags plugins) (env.root folderWorking) forest := lines
  have behind : main env args fuel = mainFrom env opts fuel := by simp [main, not_lt.mpr many, read]
  rw [behind, search, ← same]
  exact found.1

end Any

section Shipped

inductive Library where
  | bitSeq
  | typeFile
  deriving DecidableEq, Repr

def Library.table : Library → List Opt
  | .bitSeq => [⟨BitSeq.optBitSeq, 1, .null, 0⟩]
  | .typeFile => [TypeFile.txtOption]

/-- `plugin_get_info`, which refuses a null pointer. -/
def Library.pluginGetInfo (library : Library) : InfoFunc := ⟨-1, 0, library.table⟩

/-- `plugin_process_file`, over a state of the file system. -/
def Library.pluginProcessFile (access : CString → FileAccess) : Library → PpfFunc
  | .bitSeq => BitSeq.ppfFunc access
  | .typeFile => TypeFile.ppfFunc access

/-- The plugin with the options of a search. -/
def Library.plugin (access : CString → FileAccess) (arg : CString) : Library → Plugin
  | .bitSeq => BitSeq.plugin access 0 arg
  | .typeFile => TypeFile.plugin access

/-- The library as the host has loaded it. -/
def Library.lib (access : CString → FileAccess) (library : Library) : Lib :=
  ⟨[], library.table, library.pluginProcessFile access⟩

def Library.asked (arg : CString) : Library → List (Nat × Option CString)
  | .bitSeq => [(0, some arg)]
  | .typeFile => [(0, none)]

/-- The plugin folder holds these libraries, in this order of `readdir`, and
nothing the host needs for them is refused. -/
structure Env.Ships (env : Env) (access : CString → FileAccess) (folderLib : CString) (order : List Library) :
    Prop where
  both : order.Perm [.bitSeq, .typeFile]
  counted : env.size folderLib = order.length
  opens : List.Forall₂ (fun path library => ∃ handle, env.dlopen path = some handle ∧
    env.dlsymInfo (some handle) = some library.pluginGetInfo ∧
    env.dlsymProcess (some handle) = some (library.pluginProcessFile access)) (env.libraries folderLib) order
  memory : env.callocDl = true ∧ env.callocPlugin = true ∧ env.callocPi = true ∧
    ∀ i, env.callocLongopts i = true ∧ env.callocOptsToPass i = true

variable {env : Env} {access : CString → FileAccess} {folderLib : CString} {order : List Library}

theorem openable_ships {dlopen : CString → Option Nat} {paths : List CString} {property : Nat → Library → Prop}
    (opens : List.Forall₂ (fun path library => ∃ handle, dlopen path = some handle ∧ property handle library)
      paths order) : List.Forall₂ property (openable dlopen paths) order := by
  induction opens with
  | nil => exact .nil
  | cons first _ ih =>
    obtain ⟨handle, opened, holds⟩ := first
    rw [openable, opened]
    exact .cons holds ih

theorem Env.Ships.opened (ships : env.Ships access folderLib order) :
    List.Forall₂ (fun handle library => env.dlsymInfo (some handle) = some library.pluginGetInfo ∧
      env.dlsymProcess (some handle) = some (library.pluginProcessFile access)) (env.opened folderLib) order :=
  openable_ships ships.opens

theorem Env.Ships.array (ships : env.Ships access folderLib order) :
    env.array folderLib = (env.opened folderLib).map some := by
  simp [Env.array, ships.counted, ships.opened.length_eq]

theorem Env.Ships.usable (ships : env.Ships access folderLib order) (i : Nat) (handle : Option Nat)
    (found : (env.array folderLib)[i]? = some handle) : Usable env i handle := by
  obtain ⟨_, _, pi, blocks⟩ := ships.memory
  rw [ships.array, List.getElem?_map, Option.map_eq_some_iff] at found
  obtain ⟨opened, present, rfl⟩ := found
  obtain ⟨inside, rfl⟩ := List.getElem?_eq_some_iff.mp present
  have paired := ships.opened.get inside (ships.opened.length_eq ▸ inside)
  refine ⟨_, _, paired.1, pi, by simp [Library.pluginGetInfo], ?_, paired.2, (blocks i).1, (blocks i).2⟩
  cases order.get _ <;> simp [Library.pluginGetInfo, Library.table]

theorem loadPlugin_ships (memory : env.Allocates)
    (library : Library) (info : env.dlsymInfo handle = some library.pluginGetInfo)
    (process : env.dlsymProcess handle = some (library.pluginProcessFile access)) (i : Nat) :
    loadPlugin env i handle = .ok (library.lib access) := by
  obtain ⟨pi, blocks⟩ := memory
  cases library <;>
    simp [loadPlugin, info, process, pi, blocks i, Library.pluginGetInfo, Library.table, Library.lib]

theorem loadPlugins_ships (memory : env.Allocates)
    (handles : List Nat) (order : List Library)
    (opened : List.Forall₂ (fun handle library => env.dlsymInfo (some handle) = some library.pluginGetInfo ∧
      env.dlsymProcess (some handle) = some (library.pluginProcessFile access)) handles order)
    (i : Nat) (plugin : List Lib) :
    loadPlugins env (handles.map some) i plugin = (.going, plugin ++ order.map (Library.lib access)) := by
  induction opened generalizing i plugin with
  | nil => simp [loadPlugins]
  | @cons handle library handles order first _ ih =>
    rw [List.map_cons, loadPlugins, loadPlugin_ships memory library first.1 first.2 i]
    simp [ih]

theorem Env.Ships.loaded (ships : env.Ships access folderLib order) :
    env.loaded folderLib = order.map (Library.lib access) := by
  obtain ⟨_, _, memory⟩ := ships.memory
  rw [Env.loaded, ships.array, loadPlugins_ships memory _ order ships.opened, List.nil_append]

/-- The option loop of a plugin sees nothing but the recognised options. -/
theorem passResults_recognised (results : List LongResult) (lib : Lib) (copies : List Nat) :
    passResults results lib copies =
      passResults ((recognisedOptions results).map fun option => .recognised option.1 option.2) lib copies := by
  induction results generalizing lib copies with
  | nil => rfl
  | cons result rest ih =>
    cases result with
    | other => exact ih lib copies
    | recognised optInd optarg =>
      have options : recognisedOptions (.recognised optInd optarg :: rest) =
          (optInd, optarg) :: recognisedOptions rest := rfl
      rw [options, List.map_cons, passResults, passResults]
      cases passOption lib copies optInd optarg with
      | error status => rfl
      | ok passed => exact ih passed.1 passed.2

theorem passResults_bitSeq (asked : recognisedOptions results = Library.bitSeq.asked arg) :
    passResults results (Library.bitSeq.lib access) [] = (.going, (Library.bitSeq.plugin access arg).lib, [0]) := by
  rw [passResults_recognised, asked]
  rfl

theorem passResults_typeFile (asked : recognisedOptions results = Library.typeFile.asked arg) (copies : List Nat) :
    passResults results (Library.typeFile.lib access) copies =
      (.going, (Library.typeFile.plugin access arg).lib, copies) := by
  rw [passResults_recognised, asked]
  rfl

theorem order_cases (both : order.Perm [.bitSeq, .typeFile]) :
    order = [.bitSeq, .typeFile] ∨ order = [.typeFile, .bitSeq] := by
  obtain ⟨first, second, rfl⟩ := List.length_eq_two.mp both.length_eq
  cases first <;> cases second <;> revert both <;> decide

/-- In either order each library is left with the options of its plugin. -/
theorem passAll_asked (both : order.Perm [.bitSeq, .typeFile]) (arg : CString)
    (asked : ∀ i library, order[i]? = some library → recognisedOptions (env.longResults i) = library.asked arg) :
    passAll env (order.map (Library.lib access)) 0 [] =
      (.going, (order.map (Library.plugin access arg)).map Plugin.lib, [0]) := by
  rcases order_cases both with rfl | rfl
  · have first := @passResults_bitSeq access _ arg (asked 0 .bitSeq rfl)
    have second := @passResults_typeFile access _ arg (asked 1 .typeFile rfl)
    simp [passAll, first, second]
  · have first := @passResults_typeFile access _ arg (asked 0 .typeFile rfl)
    have second := @passResults_bitSeq access _ arg (asked 1 .bitSeq rfl)
    simp [passAll, first, second]

theorem Library.handable (library : Library) (arg : CString) (results : List LongResult)
    (asked : recognisedOptions results = library.asked arg) : Handable library.table results := by
  rw [Handable, asked]
  cases library <;> simp [Library.asked, Library.table, TypeFile.txtOption]

/-- The decision about a file that can be read, with the libraries in any order. -/
theorem reported_shipped (both : order.Perm [.bitSeq, .typeFile]) (read : BitSeq.readArgument arg = some reading)
    (flags : Flags) (either : flags.aflag ≠ flags.oflag) (plain : flags.nflag = false) (root : CString)
    (forest : Forest CString)
    (usable : ∀ path ∈ files joinPath root forest, (access path).Readable ∧ (access path).content ≠ []) :
    reported joinPath (judge flags (order.map (Library.plugin access arg))) root forest =
      (files joinPath root forest).filter (wanted flags.aflag reading access) := by
  have same : judge flags (order.map (Library.plugin access arg)) =
      judge flags [BitSeq.plugin access 0 arg, TypeFile.plugin access] := judge_perm (both.map _) flags
  have judged (path : CString) (member : path ∈ files joinPath root forest) :=
    judge_shipped 0 read (usable path member).1 (usable path member).2 flags either plain
  have all : checked joinPath (judge flags [BitSeq.plugin access 0 arg, TypeFile.plugin access]) root forest =
      files joinPath root forest :=
    Forest.checked_of_judged root forest (fun path member => judged path member ▸ Option.some_ne_none _)
  rw [same, reported, all]
  apply List.filter_congr
  intro path member
  rw [judged path member]
  cases wanted flags.aflag reading access path <;> rfl

theorem Part.words_nonempty (part : Part) : 1 ≤ part.words.length := by
  cases part with
  | host word => cases word <;> simp [Part.words, HostWord.words]
  | plain text => simp [Part.words]
  | option dashes name form => cases form <;> simp [Part.words]

theorem length_le_words (parts : List Part) : parts.length ≤ (parts.flatMap Part.words).length := by
  induction parts with
  | nil => simp
  | cons part parts ih =>
    have first := part.words_nonempty
    simp only [List.flatMap_cons, List.length_append, List.length_cons]
    omega

theorem two_words (asks : ∀ library : Library, requested library.table parts = library.asked arg) :
    2 ≤ (parts.flatMap Part.words).length := by
  obtain ⟨bits, inBits, first⟩ : ∃ part ∈ parts, Part.asks Library.bitSeq.table part = some (0, some arg) := by
    apply List.mem_filterMap.mp
    rw [← requested, asks .bitSeq]
    exact List.mem_singleton_self _
  obtain ⟨text, inText, second⟩ : ∃ part ∈ parts, Part.asks Library.typeFile.table part = some (0, none) := by
    apply List.mem_filterMap.mp
    rw [← requested, asks .typeFile]
    exact List.mem_singleton_self _
  have apart : bits ≠ text := by
    rintro rfl
    cases bits with
    | host word => cases first
    | plain text => cases first
    | option dashes name form =>
      simp only [Part.asks, Option.map_eq_some_iff, Prod.mk.injEq] at first second
      obtain ⟨_, _, _, given⟩ := first
      obtain ⟨_, _, _, bare⟩ := second
      cases given.symm.trans bare
  have pair : 2 ≤ parts.length := by
    have sub : [bits, text].Subperm parts :=
      List.subperm_of_subset (by simpa using apart) (by simp [inBits, inText])
    exact sub.length_le
  exact pair.trans (length_le_words parts)

/-- What the option loops and the search are given comes from this command line.
The loops move words behind the options, but a last word of that kind stays last. -/
structure Env.Commanded (env : Env) (folderLib : CString) (parts : List Part) : Prop where
  results : ∀ i handle, (env.array folderLib)[i]? = some handle →
    env.longResults i = scanResults (env.supOpts handle) (parts.flatMap Part.words)
  last : ∀ text, parts.getLast? = some (.plain text) → env.lastArg = text

theorem Env.Ships.supOpts (ships : env.Ships access folderLib order) (i : Nat) (library : Library)
    (found : order[i]? = some library) :
    ∃ handle, (env.array folderLib)[i]? = some handle ∧ env.supOpts handle = library.table := by
  obtain ⟨inside, rfl⟩ := List.getElem?_eq_some_iff.mp found
  have place : i < (env.opened folderLib).length := ships.opened.length_eq ▸ inside
  have paired := ships.opened.get place inside
  refine ⟨some (env.opened folderLib)[i], by simp [ships.array, place], ?_⟩
  simp only [List.get_eq_getElem] at paired
  simp [Env.supOpts, paired.1, Library.pluginGetInfo]

theorem Env.Ships.starts (ships : env.Ships access folderLib order) (opts : ShortOpts)
    (silent : opts.vflag = false) (working : opts.hflag = false)
    (handed : ∀ i library, order[i]? = some library → Handable library.table (env.longResults i)) :
    env.Starts opts folderLib := by
  have counted : env.size folderLib = 2 := ships.counted.trans ships.both.length_eq
  refine ⟨fun _ => counted.ge, fun _ => ⟨ships.memory.1, ships.memory.2.1⟩, ?_, ships.usable, silent, working, ?_⟩
  · rw [ships.counted, ← ships.opens.length_eq]
    exact Nat.min_le_left _ _
  · intro i handle found
    have inside : i < order.length := by
      have filled := (List.getElem?_eq_some_iff.mp found).1
      simpa [ships.array, ships.opened.length_eq] using filled
    obtain ⟨other, present, table⟩ := ships.supOpts i order[i] (List.getElem?_eq_getElem inside)
    cases present.symm.trans found
    rw [table]
    exact handed i order[i] (List.getElem?_eq_getElem inside)

def askBoth : List Part :=
  [.host .o, .option .two "bit-seq".toList (.separate "0x41".toList), .option .one "txt".toList .bare,
    .plain "r".toList]

def sampleFile : FileAccess := ⟨none, none, none, [0x41], by decide, fun _ => 0⟩

/-- The folder `w` with both libraries, the text one first, and a small tree. -/
def shippedEnv : Env :=
  { sampleEnv twoLibraries (some 8) [] with
    dlsymInfo := fun handle => some (if handle = some 7 then Library.typeFile else .bitSeq).pluginGetInfo
    dlsymProcess := fun handle =>
      some ((if handle = some 7 then Library.typeFile else .bitSeq).pluginProcessFile fun _ => sampleFile)
    longResults := fun i =>
      scanResults (if i = 0 then Library.typeFile else .bitSeq).table (askBoth.flatMap Part.words)
    lastArg := "r".toList
    opendir := smallTree }

end Shipped

end PluginSearch
