import PluginSearch.Host.Copies
import PluginSearch.Host.Frame
import PluginSearch.Host.HandOver
import PluginSearch.Host.Walk

namespace PluginSearch

open Stopping

/-- `opendir` accepts only paths shorter than `PATH_MAX`, and the names it then
shows are not longer than a name can be. -/
def Limited (opendir : CString → Option (List Dirent)) : Prop :=
  ∀ path entries, opendir path = some entries →
    path.length < pathMax ∧ ∀ entry ∈ entries, entry.dName.length ≤ nameMax

theorem joinPath_length (folder name : CString) :
    (joinPath folder name).length = folder.length + name.length + 1 := by
  simp [joinPath]
  omega

theorem fits_joinPath (short : folder.length < pathMax) (named : name.length ≤ nameMax) {buffer : Buffer}
    (large : buffer.capacity = pathMax * 2) : Copy.Fits ⟨buffer, joinPath folder name⟩ := by
  simp only [Copy.Fits, joinPath_length, large, pathMax, nameMax] at *
  omega

def Host.CopiesFit (host : Host) : Prop := ∀ copy ∈ host.copies, copy.Fits

theorem Host.CopiesFit.of_copies {before after : Host} (fits : before.CopiesFit)
    (same : after.copies = before.copies) : after.CopiesFit := by
  rw [CopiesFit, same]
  exact fits

theorem Host.CopiesFit.emit {host : Host} (fits : host.CopiesFit) (other : event.copy = none) :
    (host.emit event).CopiesFit :=
  fits.of_copies (by simp [Host.copies, Host.emit, other])

theorem Host.CopiesFit.write {host : Host} (fits : host.CopiesFit) (room : Copy.Fits ⟨.searchDir, text⟩) :
    (host.write buffer text).CopiesFit := by
  have copies : (host.write buffer text).copies = host.copies ++ [⟨.searchDir, text⟩] := by
    simp [Host.copies, Host.write, Host.store, Host.emit, Event.copy]
  rw [CopiesFit, copies, List.forall_mem_append, List.forall_mem_singleton]
  exact ⟨fits, room⟩

theorem checkFile_fits (fits : host.CopiesFit) : Ends (fun stopped => stopped.host.CopiesFit)
    (fun scan => scan.host.CopiesFit) (checkFile flags fileName0 host) := by
  refine checkFile_ends fits (fun _ => fits.emit rfl) fun scan checked => ?_
  cases checked with
  | failed => exact fits.emit rfl
  | @printed path =>
    have looking : (host.emit (.checking path)).CopiesFit := fits.emit rfl
    exact looking.emit rfl
  | passedOver => exact fits.emit rfl

/-- Every path that the search joins, at every level, has room in its buffer,
in searches that stop on the way too: the path of the level above was accepted
by `opendir`. -/
theorem searchDir_fits (limited : Limited opendir) (flags : Flags) (fuel folder : Nat) (host : Host)
    (allocated : folder < host.fresh) (fits : host.CopiesFit) :
    Ends (fun stopped => stopped.host.CopiesFit) Host.CopiesFit (searchDir opendir flags fuel folder host) := by
  induction fuel generalizing folder host with
  | zero => exact fits
  | succ fuel ih =>
    rw [searchDir]
    split
    · exact fits
    · rename_i nonnull
      refine (Host.expect_ends fits _).bind fun path _ held => ?_
      cases listed : opendir path with
      | none => exact fits.emit rfl
      | some entries =>
        obtain ⟨short, named⟩ := limited path entries listed
        have holds : FolderHeld host folder path := ⟨held, allocated, nonnull⟩
        have started : (host.openStream path).2.malloc.2.CopiesFit :=
          fits.of_copies (by simp [Host.copies, Host.openStream, Host.malloc, Host.emit, Event.copy])
        have entered : Ends (fun stopped => stopped.host.CopiesFit) (fun scan => scan.host.CopiesFit)
            (readEntries (searchDir opendir flags fuel) flags folder (host.fresh + 1) entries
              (host.openStream path).2.malloc.2) := by
          refine readEntries_ends Host.CopiesFit ?_ (fun _ => checkFile_fits) ?_ (fun _ _ _ => searchDir_keeps) ?_
            (Nat.succ_ne_zero _) started (holds.start path) ?_
          · intro host entry member fits
            exact fits.write (fits_joinPath short (named entry member) rfl)
          · intro host name fits inner
            exact ih _ host inner.allocated fits
          · show folder ≠ host.fresh + 1
            omega
          · show host.fresh + 1 < host.fresh + 2
            omega
        refine entered.bind fun scan _ fits => ?_
        cases scan with
        | returned last => exact fits
        | exhausted last =>
          exact fits.of_copies (by simp [Host.copies, Host.free, Host.closedir, Host.emit, Event.copy])

theorem getLib_fits (limited : Limited opendir) (dlopen : CString → Option Nat) (folder : CString)
    (dl : List (Option Nat)) : (getLib dlopen folder dl (opendir folder)).All Copy.Fits := by
  cases listed : opendir folder with
  | none => exact Logged.all_pure _
  | some entries =>
    obtain ⟨short, named⟩ := limited folder entries listed
    have loop (entries : List Dirent) (named : ∀ entry ∈ entries, entry.dName.length ≤ nameMax) (i : Nat)
        (handles : Handles) : (openEntries dlopen folder entries i handles).All Copy.Fits := by
      induction entries generalizing i handles with
      | nil => exact Logged.all_pure _
      | cons entry rest ih =>
        have later := ih fun other member => named other (List.mem_cons_of_mem _ member)
        rw [openEntries]
        split
        · refine (Logged.all_note (fits_joinPath short (named entry List.mem_cons_self) rfl)).bind fun _ _ => ?_
          split
          · split
            · split
              · exact Logged.all_pure _
              · exact later _ _
            · exact Logged.all_silent none
          · exact later i handles
        · exact later i handles
    exact loop entries named 0 ⟨dl, []⟩

/-- The copies of `count_so` fit exactly if every regular entry has a name that
is short enough for the folder. -/
theorem countCopies_fit_iff (folder : CString) (listing : Option (List Dirent)) :
    (∀ copy ∈ countCopies folder listing, copy.Fits) ↔ ∀ entries, listing = some entries →
      ∀ entry ∈ entries, entry.dType = .reg → folder.length + entry.dName.length + 2 ≤ 255 := by
  have joined (name : CString) : Copy.Fits ⟨.countSo, joinPath folder name⟩ ↔
      folder.length + name.length + 2 ≤ 255 := by
    simp only [Copy.Fits, joinPath_length, Buffer.capacity]
  cases listing with
  | none => simp [countCopies]
  | some entries =>
    simp only [countCopies, Option.getD_some, List.forall_mem_map, List.mem_filter, decide_eq_true_eq, and_imp, joined,
      Option.some.injEq, forall_eq']

def Handable (table : List Opt) (results : List LongResult) : Prop :=
  (recognisedOptions results).length ≤ table.length ∧ ∀ result ∈ recognisedOptions results,
    ∃ entry, table[result.1]? = some entry ∧ (entry.hasArg ≠ 0 → result.2 ≠ none)

def Lib.Takes (lib : Lib) (optInd : Nat) (optarg : Option CString) : Prop :=
  lib.optsToPassLen ≠ lib.longopts.length ∧
    ∃ entry, lib.longopts[optInd]? = some entry ∧ (entry.hasArg ≠ 0 → optarg ≠ none)

theorem passOption_takes (lib : Lib) (copies : List Nat) (optInd : Nat) (optarg : Option CString) :
    (lib.Takes optInd optarg ∧ ∃ last copies', passOption lib copies optInd optarg =
      .ok ({ lib with optsToPass := lib.optsToPass ++ [last] }, copies')) ∨
    (¬ lib.Takes optInd optarg ∧
      ∃ status, status ≠ .going ∧ passOption lib copies optInd optarg = .error status) := by
  have passing := passOption_passing lib copies optInd optarg
  generalize passOption lib copies optInd optarg = passed at passing ⊢
  cases passing with
  | full full => exact .inr ⟨fun takes => takes.1 full, .failed, by decide, rfl⟩
  | missing free missing => exact .inr ⟨by simp [Lib.Takes, missing], .crashed, by decide, rfl⟩
  | bare free entry takes bare => exact .inr ⟨by simp [Lib.Takes, entry, takes, bare], .crashed, by decide, rfl⟩
  | plain free entry plain => exact .inl ⟨⟨free, _, entry, fun takes => absurd plain takes⟩, _, _, rfl⟩
  | argument free entry takes given => exact .inl ⟨⟨free, _, entry, by simp [given]⟩, _, _, rfl⟩

theorem passResults_going_iff (results : List LongResult) (lib : Lib) (copies : List Nat)
    (room : lib.optsToPassLen ≤ lib.longopts.length) :
    (passResults results lib copies).1 = .going ↔
      lib.optsToPassLen + (recognisedOptions results).length ≤ lib.longopts.length ∧
        ∀ result ∈ recognisedOptions results,
          ∃ entry, lib.longopts[result.1]? = some entry ∧ (entry.hasArg ≠ 0 → result.2 ≠ none) := by
  induction results generalizing lib copies with
  | nil => simpa [passResults, recognisedOptions] using room
  | cons result rest ih =>
    cases result with
    | other => exact ih lib copies room
    | recognised optInd optarg =>
      have options : recognisedOptions (.recognised optInd optarg :: rest) =
          (optInd, optarg) :: recognisedOptions rest := rfl
      rw [options, List.length_cons, List.forall_mem_cons]
      rcases passOption_takes lib copies optInd optarg with ⟨takes, last, more, passed⟩ | ⟨not, status, stops, passed⟩
      · have next := ih { lib with optsToPass := lib.optsToPass ++ [last] } more (by
          rw [Lib.optsToPassLen_append]
          exact lt_of_le_of_ne room takes.1)
        rw [Lib.optsToPassLen_append] at next
        simp only [passResults, passed, next, takes.2, true_and]
        rw [Nat.add_assoc, Nat.add_comm 1]
      · simp only [passResults, passed, stops, false_iff]
        rintro ⟨fits, entry, _⟩
        refine not ⟨?_, entry⟩
        omega

/-- The option loop gets through if every plugin can be handed its options. -/
theorem passAll_going_iff (env : Env) (plugin : List Lib) (i : Nat) (copies : List Nat)
    (fresh : ∀ lib ∈ plugin, lib.optsToPass = []) :
    (passAll env plugin i copies).1 = .going ↔
      ∀ k table, (plugin.map Lib.longopts)[k]? = some table → Handable table (env.longResults (i + k)) := by
  induction plugin generalizing i copies with
  | nil => simp [passAll]
  | cons lib rest ih =>
    have unused : lib.optsToPassLen = 0 := by simp [Lib.optsToPassLen, fresh lib List.mem_cons_self]
    have own := passResults_going_iff (env.longResults i) lib copies (by omega)
    rw [unused, Nat.zero_add] at own
    have later (copies : List Nat) := ih (i + 1) copies
      fun other member => fresh other (List.mem_cons_of_mem _ member)
    rw [List.map_cons, Loop.forall_place_cons (fun place table => Handable table (env.longResults place)), Handable,
      ← own, passAll]
    obtain ⟨status, lib', copies'⟩ := passResults (env.longResults i) lib copies
    cases status with
    | going => simp [later]
    | failed => simp
    | crashed => simp

def Env.size (env : Env) (folderLib : CString) : Nat := countSo folderLib (env.counted folderLib)

/-- The handle array behind `get_lib`; from the first failure on it is null. -/
def Env.array (env : Env) (folderLib : CString) : List (Option Nat) :=
  (env.opened folderLib).map some ++ List.replicate (env.size folderLib - (env.opened folderLib).length) none

/-- The program gets as far as its search: it has as many libraries as it needs,
has its arrays with a place for each library it tries to open, finds each of
them usable, was asked for neither version nor help, and can hand over every
option. -/
structure Env.Starts (env : Env) (opts : ShortOpts) (folderLib : CString) : Prop where
  enough : opts.needLib2 = true → 2 ≤ env.size folderLib
  arrays : env.size folderLib ≠ 0 → env.callocDl = true ∧ env.callocPlugin = true
  places : tried env.dlopen (env.libraries folderLib) ≤ env.size folderLib
  usable : ∀ i handle, (env.array folderLib)[i]? = some handle → Usable env i handle
  silent : opts.vflag = false
  working : opts.hflag = false
  handed : ∀ i handle, (env.array folderLib)[i]? = some handle →
    Handable (env.supOpts handle) (env.longResults i)

def Env.WordFits (env : Env) : Prop :=
  env.lastArg = "./".toList ∨ env.lastArg = ".".toList ∨ env.lastArg.length < pathMax

instance (env : Env) : Decidable env.WordFits := inferInstanceAs (Decidable (_ ∨ _ ∨ _))

/-- The limits of the system: `getcwd` is given the size of its buffer, and a
folder is opened only if its path is short and its entries have short names. -/
structure Env.Limits (env : Env) : Prop where
  cwd : ∀ path, env.getcwd = some path → path.length < pathMax
  counted : Limited env.counted
  listed : Limited env.listed
  opendir : Limited env.opendir

section Fits

variable {env : Env} {opts : ShortOpts} {folderLib : CString}

theorem runSearch_fits_iff (limits : env.Limits) (opts : ShortOpts) (fuel : Nat) (folderWorking : CString)
    (vars : Vars) (plugin : List Lib) :
    (∀ copy ∈ (runSearch env opts fuel folderWorking vars plugin).copies, copy.Fits) ↔ env.WordFits := by
  have inside := searchDir_fits limits.opendir opts.flags fuel 1 (.start (env.root folderWorking) plugin)
    (Nat.lt_succ_self 1) (by simp [Host.CopiesFit, Host.copies, Host.start])
  have word : (∀ copy ∈ if env.Dotted then [] else [Copy.mk .folderWorking env.lastArg], copy.Fits) ↔
      env.WordFits := by
    by_cases dotted : env.Dotted
    · have fits : env.WordFits := dotted.elim .inl fun dot => .inr (.inl dot)
      simp [dotted, fits]
    · rw [if_neg dotted, List.forall_mem_singleton]
      rw [Env.Dotted, not_or] at dotted
      simp only [Env.WordFits, dotted.1, dotted.2, false_or]
      exact Iff.rfl
  simp only [runSearch, Run.behind_copies, List.forall_mem_append, word]
  generalize searchDir env.opendir opts.flags fuel 1 (.start (env.root folderWorking) plugin) = searched at inside
  cases searched with
  | error stopped => exact and_iff_left inside
  | ok host => exact and_iff_left inside

theorem runOptions_fits_iff (limits : env.Limits) (opts : ShortOpts) (fuel : Nat) (folderWorking : CString)
    (vars : Vars) (plugin : List Lib) (fresh : ∀ lib ∈ plugin, lib.optsToPass = []) :
    (∀ copy ∈ (runOptions env opts fuel folderWorking vars plugin).copies, copy.Fits) ↔
      (opts.vflag = false → opts.hflag = false →
        (∀ k table, (plugin.map Lib.longopts)[k]? = some table → Handable table (env.longResults k)) →
        env.WordFits) := by
  have passes := passAll_going_iff env plugin 0 [] fresh
  simp only [Nat.zero_add] at passes
  rw [← passes]
  unfold runOptions
  split
  · rename_i printing
    simp [printing]
  · rename_i silent
    split
    · rename_i helping
      simp [helping]
    · rename_i working
      simp only [silent, working, forall_const]
      obtain ⟨status, passed, copies⟩ := passAll env plugin 0 []
      cases status with
      | going => simpa using runSearch_fits_iff limits opts fuel folderWorking _ passed
      | failed => simp
      | crashed => simp

theorem getLib_array (env : Env) (folderLib : CString) :
    ∃ ret, (getLib env.dlopen folderLib (List.replicate (env.size folderLib) none) (env.listed folderLib)).result =
      if tried env.dlopen (env.libraries folderLib) ≤ env.size folderLib then
        some (ret, ⟨env.array folderLib, env.opened folderLib⟩)
      else none := by
  unfold Env.array Env.opened Env.libraries
  cases env.listed folderLib with
  | none => exact ⟨-1, by simp [getLib, openable, tried]⟩
  | some entries => exact ⟨_, getLib_sized env.dlopen folderLib entries (env.size folderLib)⟩

theorem Env.Limits.listing_fits (limits : env.Limits) (folderLib : CString) (dl : List (Option Nat)) :
    ∀ copy ∈ (getLib env.dlopen folderLib dl (env.listed folderLib)).log, copy.Fits :=
  getLib_fits limits.listed env.dlopen folderLib dl

/-- The arrays are there: the libraries are listed, and what is copied further
on is up to the options. -/
theorem runPlugins_loaded_fits_iff (limits : env.Limits) (opts : ShortOpts) (fuel : Nat)
    (folderWorking : CString) (arrays : env.size folderLib ≠ 0 → env.callocDl = true ∧ env.callocPlugin = true)
    (places : tried env.dlopen (env.libraries folderLib) ≤ env.size folderLib) :
    (∀ copy ∈ (runPlugins env opts fuel folderWorking folderLib (env.size folderLib)).copies, copy.Fits) ↔
      ((∀ i handle, (env.array folderLib)[i]? = some handle → Usable env i handle) →
        opts.vflag = false → opts.hflag = false →
        (∀ i handle, (env.array folderLib)[i]? = some handle → Handable (env.supOpts handle) (env.longResults i)) →
        env.WordFits) := by
  have array := callocDl_array env (env.size folderLib) fun nonempty => (arrays nonempty).1
  have allocated : ¬ (env.size folderLib ≠ 0 ∧ ¬ (env.callocDl = true ∧ env.callocPlugin = true)) :=
    fun missing => missing.2 (arrays missing.1)
  obtain ⟨ret, listed⟩ := getLib_array env folderLib
  obtain ⟨fresh, through, tables⟩ := loadPlugins_spec env (env.array folderLib) 0 [] (by simp)
  simp only [Nat.zero_add] at through
  simp only [runPlugins, Run.behind_copies, List.forall_mem_append, array, listed, places, ↓reduceIte, allocated]
  rw [and_iff_right (limits.listing_fits folderLib _), ← through,
    ← Loop.forall_place_map (fun i table => Handable table (env.longResults i)) env.supOpts]
  generalize loadPlugins env (env.array folderLib) 0 [] = loaded at fresh tables ⊢
  obtain ⟨status, plugin⟩ := loaded
  cases status with
  | failed => exact iff_of_true (by simp) (by simp)
  | crashed => exact iff_of_true (by simp) (by simp)
  | going =>
    have same : plugin.map Lib.longopts = (env.array folderLib).map env.supOpts := tables rfl
    simp only [true_implies]
    rw [runOptions_fits_iff limits opts fuel folderWorking _ plugin fresh, same]

theorem runPlugins_fits_iff (limits : env.Limits) (opts : ShortOpts) (fuel : Nat)
    (folderWorking folderLib : CString) :
    (∀ copy ∈ (runPlugins env opts fuel folderWorking folderLib (env.size folderLib)).copies, copy.Fits) ↔
      ((env.size folderLib ≠ 0 → env.callocDl = true ∧ env.callocPlugin = true) →
        tried env.dlopen (env.libraries folderLib) ≤ env.size folderLib →
        (∀ i handle, (env.array folderLib)[i]? = some handle → Usable env i handle) →
        opts.vflag = false → opts.hflag = false →
        (∀ i handle, (env.array folderLib)[i]? = some handle → Handable (env.supOpts handle) (env.longResults i)) →
        env.WordFits) := by
  by_cases arrays : env.size folderLib ≠ 0 → env.callocDl = true ∧ env.callocPlugin = true
  · rw [forall_prop_of_true arrays]
    by_cases places : tried env.dlopen (env.libraries folderLib) ≤ env.size folderLib
    · rw [forall_prop_of_true places]
      exact runPlugins_loaded_fits_iff limits opts fuel folderWorking arrays places
    · have array := callocDl_array env (env.size folderLib) fun nonempty => (arrays nonempty).1
      obtain ⟨ret, listed⟩ := getLib_array env folderLib
      simp only [runPlugins, Run.behind_copies, List.forall_mem_append, array, listed, places, ↓reduceIte,
        false_implies, iff_true]
      exact ⟨limits.listing_fits folderLib _, by simp⟩
  · have missing : env.size folderLib ≠ 0 ∧ ¬ (env.callocDl = true ∧ env.callocPlugin = true) :=
      Classical.not_imp.mp arrays
    simp only [arrays, false_implies, iff_true]
    simp only [runPlugins, Run.behind_copies, List.forall_mem_append, missing, ne_eq, not_false_eq_true, and_self,
      ↓reduceIte]
    refine ⟨limits.listing_fits folderLib _, ?_⟩
    split <;> simp

end Fits

/-- What has to be short: the value of `-P`, the path of every regular entry of
the plugin folder, and the last word if the search starts. -/
structure Env.Roomy (env : Env) (opts : ShortOpts) (folderWorking : CString) : Prop where
  value : ∀ value, opts.pvalue = some value → value.length < pathMax
  names : ∀ entries, env.counted (opts.pvalue.getD folderWorking) = some entries → ∀ entry ∈ entries,
    entry.dType = .reg → (opts.pvalue.getD folderWorking).length + entry.dName.length + 2 ≤ 255
  word : env.Starts opts (opts.pvalue.getD folderWorking) → env.WordFits

theorem folderLib_fits_iff (folderWorking : CString) (short : folderWorking.length < pathMax)
    (pvalue : Option CString) :
    Copy.Fits ⟨.folderLib, pvalue.getD folderWorking⟩ ↔ ∀ value, pvalue = some value → value.length < pathMax := by
  cases pvalue with
  | none => simpa [Copy.Fits, Buffer.capacity] using short
  | some value =>
    simp only [Copy.Fits, Buffer.capacity, Option.getD_some, Option.some.injEq, forall_eq']
    exact Iff.rfl

theorem mainFrom_fits_iff (limits : Env.Limits env) (cwd : env.getcwd = some folderWorking) (opts : ShortOpts)
    (fuel : Nat) :
    (∀ copy ∈ (mainFrom env opts fuel).copies, copy.Fits) ↔ env.Roomy opts folderWorking := by
  have short := limits.cwd folderWorking cwd
  have working : Copy.Fits ⟨.folderWorking, folderWorking⟩ := short
  have value := folderLib_fits_iff folderWorking short opts.pvalue
  have names := countCopies_fit_iff (opts.pvalue.getD folderWorking) (env.counted (opts.pvalue.getD folderWorking))
  have later := runPlugins_fits_iff limits opts fuel folderWorking (opts.pvalue.getD folderWorking)
  simp only [mainFrom, cwd, Run.behind_copies, List.cons_append, List.forall_mem_cons, List.forall_mem_append, working,
    true_and, value, names]
  split
  · rename_i few
    have stops : ¬ env.Starts opts (opts.pvalue.getD folderWorking) :=
      fun starts => absurd (starts.enough few.2) (not_le.mpr few.1)
    simp only [Run.quiet_copies, List.not_mem_nil, false_implies, implies_true, and_true]
    constructor
    · exact fun fits => ⟨fits.1, fits.2, fun starts => absurd starts stops⟩
    · exact fun roomy => ⟨roomy.value, roomy.names⟩
  · rename_i enough
    constructor
    · rintro ⟨first, second, third⟩
      refine ⟨first, second, fun starts => ?_⟩
      exact later.mp third starts.arrays starts.places starts.usable starts.silent starts.working starts.handed
    · intro roomy
      refine ⟨roomy.value, roomy.names, later.mpr fun arrays places usable silent working handed => roomy.word ?_⟩
      refine ⟨fun needed => ?_, arrays, places, usable, silent, working, handed⟩
      by_contra few
      exact enough ⟨not_le.mp few, needed⟩

/-- Every string that the program copies into a path buffer has room there,
exactly if the value of `-P` and the last word are shorter than `PATH_MAX`, as
far as they are copied, and the regular entries of the plugin folder have paths
that fit the 255 bytes of `count_so`. -/
theorem path_copies_fit_iff (env : Env) (limits : env.Limits) (args : List CString) (fuel : Nat) :
    (∀ copy ∈ (main env args fuel).copies, copy.Fits) ↔
      ∀ opts folderWorking, 2 ≤ args.length → shortOptions args = some (some opts) →
        env.getcwd = some folderWorking → env.Roomy opts folderWorking := by
  unfold main
  split
  · rename_i few
    simp [not_le.mpr few]
  · rename_i many
    cases read : shortOptions args with
    | none => simp
    | some result =>
      cases result with
      | none => simp
      | some opts =>
        cases cwd : env.getcwd with
        | none => simp [mainFrom, cwd]
        | some folderWorking =>
          simp only [mainFrom_fits_iff limits cwd, Option.some.injEq]
          constructor
          · rintro roomy _ _ _ rfl rfl
            exact roomy
          · exact fun roomy => roomy opts folderWorking (not_lt.mp many) rfl rfl

/-- A working folder with two libraries, and a small tree to search. -/
def folderEnv (folder : CString) : Env :=
  { sampleEnv twoLibraries (some 8) [⟨"n".toList, 1, .null, 0⟩] with
    getcwd := some folder
    counted := fun path => if path = folder then some twoLibraries else none
    listed := fun path => if path = folder then some twoLibraries else none
    lastArg := "r".toList
    opendir := smallTree }

theorem smallTree_limited : Limited smallTree := by
  intro path entries opened
  unfold smallTree at opened
  split at opened
  · rename_i root
    cases opened
    exact ⟨root ▸ by decide, by decide⟩
  · split at opened
    · rename_i folder
      cases opened
      exact ⟨folder ▸ by decide, by decide⟩
    · cases opened

theorem folderEnv_limits (short : folder.length < pathMax) : (folderEnv folder).Limits := by
  have limited : Limited (fun path => if path = folder then some twoLibraries else none) := by
    intro path entries listed
    change (if path = folder then some twoLibraries else none) = some entries at listed
    by_cases here : path = folder
    · rw [if_pos here] at listed
      cases listed
      exact ⟨here ▸ short, by decide⟩
    · rw [if_neg here] at listed
      cases listed
  refine ⟨?_, limited, limited, smallTree_limited⟩
  intro path cwd
  cases cwd
  exact short

theorem path_copies_fit_short :
    (folderEnv "w".toList).Limits ∧
      (∀ copy ∈ (main (folderEnv "w".toList) ["--n=1".toList, "r".toList] 3).copies, copy.Fits) ∧
      ⟨.searchDir, "r/d/b".toList⟩ ∈ (main (folderEnv "w".toList) ["--n=1".toList, "r".toList] 3).copies := by
  have limits : (folderEnv "w".toList).Limits := folderEnv_limits (by decide)
  refine ⟨limits, (path_copies_fit_iff _ limits _ 3).mpr ?_, by decide +kernel⟩
  intro opts folderWorking _ read cwd
  have options : shortOptions ["--n=1".toList, "r".toList] = some (some .unset) := rfl
  cases options.symm.trans read
  cases cwd
  refine ⟨(fun value given => nomatch given), ?_, fun _ => .inr (.inr (by decide))⟩
  intro entries listed
  cases listed
  decide

/-- A plugin folder with a path of 250 bytes: with the name of a library it
takes 256 bytes in the 255 of `count_so`. -/
theorem path_copies_overflow :
    (folderEnv (List.replicate 250 'd')).Limits ∧
    ∃ copy ∈ (main (folderEnv (List.replicate 250 'd')) ["-v".toList, ".".toList] 1).copies,
      copy.buffer = .countSo ∧ copy.text.length + 1 = 256 ∧ ¬ copy.Fits := by
  have short : (List.replicate 250 'd').length < pathMax := by
    rw [List.length_replicate]
    decide
  refine ⟨folderEnv_limits short, ⟨.countSo, joinPath (List.replicate 250 'd') "a.so".toList⟩, ?_⟩
  decide +kernel

end PluginSearch
