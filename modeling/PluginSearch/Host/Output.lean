import PluginSearch.Host.CopiesInvariant

namespace PluginSearch

section Count

/-- A stretch of the search that counts each line it prints. -/
def Counts (before after : Host) : Prop :=
  ∃ new, after.lines = before.lines ++ new ∧ after.count = before.count + new.length

theorem Counts.of_silent (lines : after.lines = before.lines) (count : after.count = before.count) :
    Counts before after := ⟨[], by simp [lines], by simp [count]⟩

theorem Counts.trans (first : Counts before middle) (second : Counts middle after) : Counts before after := by
  obtain ⟨early, lines, count⟩ := first
  obtain ⟨late, lines', count'⟩ := second
  refine ⟨early ++ late, ?_, ?_⟩
  · rw [lines', lines, List.append_assoc]
  · rw [count', count, List.length_append, Nat.add_assoc]

theorem checkFile_counts (ran : checkFile flags fileName0 host = .ok scan) : Counts host scan.host := by
  cases checkFile_checked ran with
  | failed => exact .of_silent (by simp [Host.lines, Host.emit]) rfl
  | passedOver => exact .of_silent (by simp [Host.lines, Host.emit]) rfl
  | @printed path => exact ⟨[path], by simp [Host.lines, Host.emit, Host.report], rfl⟩

theorem getAbsPath_counts {host : Host} (joined : host.getAbsPath fileName0 folder name = .ok after) :
    Counts host after := by
  rw [getAbsPath_eq, Host.expect_eq_ok_iff, Option.map_eq_some_iff] at joined
  obtain ⟨path, _, rfl⟩ := joined
  exact .of_silent (by simp [Host.lines, Host.write, Host.emit, Host.store]) rfl

theorem readEntries_counts {search : Nat → Host → Except Stopped Host}
    (counts : ∀ folder host after, search folder host = .ok after → Counts host after)
    (entries : List Dirent) (ran : readEntries search flags folder fileName0 entries host = .ok scan) :
    Counts host scan.host := by
  refine readEntries_relates Counts (fun host => .of_silent rfl rfl) (fun _ _ _ => Counts.trans) ?_ entries ran
  intro entry host scan entered
  cases entered with
  | file joined checked => exact (getAbsPath_counts joined).trans (checkFile_counts checked)
  | directory joined searched => exact (getAbsPath_counts joined).trans (counts _ _ _ searched)
  | skipped => exact .of_silent rfl rfl

/-- Every search counts what it prints, with any plugins and on any file system. -/
theorem searchDir_counts (ran : searchDir opendir flags fuel folder host = .ok after) : Counts host after := by
  induction fuel generalizing folder host after with
  | zero => simp [searchDir] at ran
  | succ fuel ih =>
    have opening (path : CString) : Counts host (host.openStream path).2.malloc.2 :=
      .of_silent (by simp [Host.lines, Host.openStream, Host.malloc, Host.emit]) rfl
    cases searchDir_level ran with
    | null => exact .of_silent rfl rfl
    | refused => exact .of_silent (by simp [Host.lines, Host.emit]) rfl
    | abandoned held opened entered => exact (opening _).trans (readEntries_counts (fun _ _ _ => ih) _ entered)
    | finished held opened entered =>
      have inside := (opening _).trans (readEntries_counts (fun _ _ _ => ih) _ entered)
      exact inside.trans (.of_silent (by simp [Host.lines, Host.emit, Host.free, Host.closedir]) rfl)

theorem searchDir_count (ran : searchDir opendir flags fuel 1 (.start root plugin) = .ok host) :
    host.count = host.lines.length := by
  obtain ⟨new, lines, count⟩ := searchDir_counts ran
  rw [count, lines]
  simp [Host.start, Host.lines]

end Count

section Starts

variable {env : Env} {opts : ShortOpts} {folderWorking : CString}

def Env.loaded (env : Env) (folderLib : CString) : List Lib := (loadPlugins env (env.array folderLib) 0 []).2

theorem loadPlugins_usable (env : Env) (folderLib : CString) :
    (loadPlugins env (env.array folderLib) 0 []).1 = .going ↔
      ∀ i handle, (env.array folderLib)[i]? = some handle → Usable env i handle := by
  obtain ⟨_, through, _⟩ := loadPlugins_spec env (env.array folderLib) 0 [] (by simp)
  simpa only [Nat.zero_add] using through

theorem passAll_handable (env : Env) (folderLib : CString)
    (going : (loadPlugins env (env.array folderLib) 0 []).1 = .going) :
    (passAll env (env.loaded folderLib) 0 []).1 = .going ↔
      ∀ i handle, (env.array folderLib)[i]? = some handle → Handable (env.supOpts handle) (env.longResults i) := by
  obtain ⟨fresh, _, tables⟩ := loadPlugins_spec env (env.array folderLib) 0 [] (by simp)
  have passes := passAll_going_iff env (env.loaded folderLib) 0 [] fresh
  simp only [Nat.zero_add] at passes
  rw [passes, Env.loaded, tables going, List.map_nil, List.nil_append,
    Loop.forall_place_map (fun i table => Handable table (env.longResults i)) env.supOpts]

theorem listed_array (allocated : env.size folderLib ≠ 0 → env.callocDl = true)
    (listed : (getLib env.dlopen folderLib
      ((if env.callocDl = true then some (List.replicate (env.size folderLib) none) else none).getD [])
      (env.listed folderLib)).result = some (ret, handles)) :
    tried env.dlopen (env.libraries folderLib) ≤ env.size folderLib ∧ handles.dl = env.array folderLib := by
  obtain ⟨other, filled⟩ := getLib_array env folderLib
  rw [callocDl_array env _ allocated, filled] at listed
  split at listed
  · rename_i places
    cases listed
    exact ⟨places, rfl⟩
  · cases listed

/-- A program that gets as far as its search runs it with the plugins as the
option loop leaves them. -/
theorem mainFrom_starts (fuel : Nat) (cwd : env.getcwd = some folderWorking)
    (starts : env.Starts opts (opts.pvalue.getD folderWorking)) :
    ∃ before vars after copies, passAll env (env.loaded (opts.pvalue.getD folderWorking)) 0 [] =
        (.going, after, copies) ∧
      mainFrom env opts fuel = Run.behind before (runSearch env opts fuel folderWorking vars after) := by
  generalize folder : opts.pvalue.getD folderWorking = folderLib at starts
  have enough : ¬ (env.size folderLib < 2 ∧ opts.needLib2 = true) :=
    fun few => absurd (starts.enough few.2) (not_le.mpr few.1)
  have array := callocDl_array env (env.size folderLib) fun nonempty => (starts.arrays nonempty).1
  have allocated : ¬ (env.size folderLib ≠ 0 ∧ ¬ (env.callocDl = true ∧ env.callocPlugin = true)) :=
    fun missing => missing.2 (starts.arrays missing.1)
  obtain ⟨ret, listed⟩ := getLib_array env folderLib
  rw [if_pos starts.places] at listed
  have going := (loadPlugins_usable env folderLib).mpr starts.usable
  have passes := (passAll_handable env folderLib going).mpr starts.handed
  generalize passed : passAll env (env.loaded folderLib) 0 [] = reached at passes
  obtain ⟨status, after, copies⟩ := reached
  cases passes
  have loads : loadPlugins env (env.array folderLib) 0 [] = (.going, env.loaded folderLib) := Prod.ext going rfl
  let start : Vars := ⟨env.size folderLib,
    (if env.callocDl = true then some (List.replicate (env.size folderLib) none) else none).map
      (fun _ : List (Option Nat) => env.array folderLib),
    if env.callocPlugin = true then some (env.loaded folderLib) else none, env.opened folderLib, copies⟩
  rw [Env.size] at enough array allocated listed
  simp only [mainFrom, cwd, folder, enough, ↓reduceIte, runPlugins, array, listed, allocated, loads, runOptions,
    starts.silent, starts.working, Bool.false_eq_true, passed, Run.behind_behind]
  exact ⟨_, start, after, copies, rfl, rfl⟩

/-- Without `-v` and `-h`, a program that prints got as far as its search. -/
theorem starts_of_output (fuel : Nat) (cwd : env.getcwd = some folderWorking)
    (silent : opts.vflag = false) (working : opts.hflag = false)
    (printed : (mainFrom env opts fuel).lines ≠ []) :
    env.Starts opts (opts.pvalue.getD folderWorking) := by
  generalize folder : opts.pvalue.getD folderWorking = folderLib
  simp only [mainFrom, cwd, folder, runPlugins, Run.behind_lines] at printed
  rw [← Env.size] at printed
  split at printed
  · exact absurd rfl printed
  · rename_i enough
    rw [Run.behind_lines] at printed
    split at printed
    · exact absurd rfl printed
    · rename_i ret handles listed
      split at printed
      · exact absurd rfl printed
      · rename_i allocated
        have arrays : env.size folderLib ≠ 0 → env.callocDl = true ∧ env.callocPlugin = true :=
          fun nonempty => not_not.mp fun missing => allocated ⟨nonempty, missing⟩
        obtain ⟨places, same⟩ := listed_array (fun nonempty => (arrays nonempty).1) listed
        have usable := loadPlugins_usable env folderLib
        have handed := passAll_handable env folderLib
        rw [Env.loaded] at handed
        rw [same] at printed
        generalize loadPlugins env (env.array folderLib) 0 [] = loaded at printed usable handed
        obtain ⟨status, plugin⟩ := loaded
        cases status with
        | failed => exact absurd rfl printed
        | crashed => exact absurd rfl printed
        | going =>
          have passes := handed rfl
          simp only [runOptions, silent, working, Bool.false_eq_true, ↓reduceIte] at printed
          generalize passAll env plugin 0 [] = passed at printed passes
          obtain ⟨status, after, copies⟩ := passed
          cases status with
          | failed => exact absurd rfl printed
          | crashed => exact absurd rfl printed
          | going =>
            refine ⟨fun needed => ?_, arrays, places, usable.mp rfl, silent, working, passes.mp rfl⟩
            exact not_lt.mp fun few => enough ⟨few, needed⟩

end Starts

section Returns

theorem loadPlugins_nonempty (handles : List (Option Nat)) (env : Env)
    (going : (loadPlugins env handles 0 []).1 = .going) :
    (loadPlugins env handles 0 []).2.all (fun lib => lib.longopts.length > 0) = true := by
  obtain ⟨_, through, tables⟩ := loadPlugins_spec env handles 0 [] (by simp)
  have same := tables going
  rw [List.map_nil, List.nil_append] at same
  rw [List.all_eq_true]
  intro lib member
  have listed : lib.longopts ∈ handles.map env.supOpts := same ▸ List.mem_map_of_mem member
  obtain ⟨handle, present, table⟩ := List.mem_map.mp listed
  obtain ⟨k, found⟩ := List.mem_iff_getElem?.mp present
  obtain ⟨pgiInfo, _, info, _, _, offers, _⟩ := through.mp going k handle found
  have filled : lib.longopts ≠ [] := by
    rw [← table]
    simpa [Env.supOpts, info] using offers
  simpa using List.length_pos_of_ne_nil filled

theorem runSearch_not_returned (env : Env) (opts : ShortOpts) (fuel : Nat) (folderWorking : CString) (vars : Vars)
    (plugin : List Lib) (code : Int) :
    (runSearch env opts fuel folderWorking vars plugin).exit ≠ .returned code := by
  simp only [runSearch, Run.behind_exit]
  generalize searchDir env.opendir opts.flags fuel 1 _ = searched
  cases searched with
  | ok host => exact Exit.noConfusion
  | error stopped =>
    obtain ⟨cause, host⟩ := stopped
    cases cause <;> exact Exit.noConfusion

theorem runOptions_not_returned (env : Env) (opts : ShortOpts) (fuel : Nat) (folderWorking : CString) (vars : Vars)
    (plugin : List Lib) (filled : plugin.all (fun lib => lib.longopts.length > 0) = true) (code : Int) :
    (runOptions env opts fuel folderWorking vars plugin).exit ≠ .returned code := by
  simp only [runOptions, helpPlugins_snd, filled, ↓reduceIte]
  split
  · exact Exit.noConfusion
  · split
    · exact Exit.noConfusion
    · obtain ⟨status, after, copies⟩ := passAll env plugin 0 []
      cases status with
      | failed => exact Exit.noConfusion
      | crashed => exact Exit.noConfusion
      | going => exact runSearch_not_returned env opts fuel folderWorking _ after code

/-- Behind the short options `main` does not return before `END`: a plugin
without options was refused before the help could meet it. -/
theorem mainFrom_not_returned (env : Env) (opts : ShortOpts) (fuel : Nat) (code : Int) :
    (mainFrom env opts fuel).exit ≠ .returned code := by
  unfold mainFrom
  split
  · exact Exit.noConfusion
  · simp only [Run.behind_exit, runPlugins]
    split
    · exact Exit.noConfusion
    · rw [Run.behind_exit]
      split
      · exact Exit.noConfusion
      · split
        · exact Exit.noConfusion
        · rename_i handles _ _
          have filled := loadPlugins_nonempty handles.dl env
          generalize loadPlugins env handles.dl 0 [] = loaded at filled
          obtain ⟨status, plugin⟩ := loaded
          cases status with
          | failed => exact Exit.noConfusion
          | crashed => exact Exit.noConfusion
          | going => exact runOptions_not_returned env opts fuel _ _ plugin (filled rfl) code

theorem shortOptions_ends (args : List CString) : shortOptions args ≠ none := by
  obtain ⟨result, reached, _⟩ : ∃ result, shortOptions args = some result ∧ True :=
    (shortTurn_variant (fun _ => True) (fun _ _ _ _ _ => trivial)).total
      (fun _ => True) (fun _ _ _ _ => trivial) trivial (Nat.lt_succ_self _)
  simp [reached]

/-- `main` returns early only for a short command line, with 0, and for a `-P`
without its argument, with -1. -/
theorem main_returned_iff (env : Env) (args : List CString) (fuel : Nat) (code : Int) :
    (main env args fuel).exit = .returned code ↔
      (args.length < 2 ∧ code = 0) ∨ (2 ≤ args.length ∧ shortOptions args = some none ∧ code = -1) := by
  unfold main
  split
  · rename_i few
    simp [few, not_le.mpr few, eq_comm]
  · rename_i many
    have ends := shortOptions_ends args
    rcases read : shortOptions args with _ | _ | opts
    · exact absurd read ends
    · simp [many, not_lt.mp many, eq_comm]
    · simp [many, mainFrom_not_returned]

end Returns

/-- A run comes to `END` and has printed these paths, each in a line of its own,
and behind them their exact number. -/
def Run.Finds (run : Run) (paths : List CString) : Prop :=
  (∃ vars, run.exit = .atEnd vars) ∧ run.lines = foundText paths paths.length

/-- A run shows what a search found; of a search that stops, what it found before. -/
def Run.Shows (run : Run) : Except Stopped Host → Prop
  | .ok host => run.Finds host.lines ∧ host.count = host.lines.length
  | .error stopped => run.exit = stopped.cause.exit ∧ run.lines = pathLines stopped.host.lines

theorem runSearch_shows (env : Env) (opts : ShortOpts) (fuel : Nat) (folderWorking : CString) (vars : Vars)
    (plugin : List Lib) : (runSearch env opts fuel folderWorking vars plugin).Shows
      (searchDir env.opendir opts.flags fuel 1 (.start (env.root folderWorking) plugin)) := by
  unfold runSearch
  cases ran : searchDir env.opendir opts.flags fuel 1 (.start (env.root folderWorking) plugin) with
  | error stopped => exact ⟨rfl, rfl⟩
  | ok host =>
    have number := searchDir_count ran
    exact ⟨⟨⟨_, rfl⟩, congrArg (foundText host.lines) number⟩, number⟩

theorem folderEnv_starts :
    (folderEnv "w".toList).Starts { ShortOpts.unset with oflag := true, needLib2 := true } "w".toList := by
  have handles (i : Nat) (handle : Option Nat) (found : ((folderEnv "w".toList).array "w".toList)[i]? = some handle) :
      handle = some 7 ∨ handle = some 8 := by
    have member : handle ∈ [some 7, some 8] := List.mem_of_getElem? found
    simpa using member
  refine ⟨by decide, fun _ => ⟨rfl, rfl⟩, by decide, ?_, rfl, rfl, ?_⟩
  · intro i handle found
    rcases handles i handle found with rfl | rfl <;>
      exact ⟨_, _, rfl, rfl, by decide, by decide, rfl, rfl, rfl⟩
  · intro i handle found
    have given : ∀ result ∈ recognisedOptions [.recognised 0 (some "1".toList)],
        ∃ entry, [(⟨"n".toList, 1, .null, 0⟩ : Opt)][result.1]? = some entry ∧
          (entry.hasArg ≠ 0 → result.2 ≠ none) := by
      intro result member
      cases List.mem_singleton.mp member
      exact ⟨_, rfl, by decide⟩
    rcases handles i handle found with rfl | rfl <;> exact ⟨Nat.le_refl 1, given⟩

end PluginSearch
