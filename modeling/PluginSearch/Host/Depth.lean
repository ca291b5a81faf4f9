import PluginSearch.Host.CopiesInvariant
import PluginSearch.Host.Walk

namespace PluginSearch

open Stopping
open Forest (checked reported)

theorem joinPath_longer (long : pathMax ≤ path.length + (n + 1)) (name : CString) :
    pathMax ≤ (joinPath path name).length + n := by
  rw [joinPath_length]
  omega

theorem Limited.refuses (limited : Limited opendir) (long : pathMax ≤ path.length) : opendir path = none := by
  cases opened : opendir path with
  | none => rfl
  | some entries =>
    obtain ⟨short, _⟩ := limited path entries opened
    exact absurd long (not_le.mpr short)

/-- A listing whose subfolders are finite trees is one itself. -/
theorem exists_shows_entries (child : ∀ name inside, opendir (joinPath path name) = some inside →
      ∃ below, Shows opendir (joinPath path name) inside below ∧ below.depth ≤ n) (entries : List Dirent) :
    ∃ forest, Shows opendir path entries forest ∧ forest.depth ≤ n + 1 := by
  induction entries with
  | nil => exact ⟨.nil, .nil, Nat.zero_le _⟩
  | cons entry rest ih =>
    obtain ⟨forest, shows, shallow⟩ := ih
    obtain ⟨dType, name⟩ := entry
    cases dType with
    | reg => exact ⟨_, .file shows, shallow⟩
    | other => exact ⟨_, .other shows, shallow⟩
    | dir =>
      by_cases followed : name ≠ ".".toList ∧ name ≠ "..".toList
      · cases opened : opendir (joinPath path name) with
        | none =>
          refine ⟨_, .locked followed opened shows, ?_⟩
          exact max_le (Nat.le_add_left 1 n) shallow
        | some inside =>
          obtain ⟨below, inner, less⟩ := child name inside opened
          refine ⟨_, .folder followed opened inner shows, ?_⟩
          exact max_le (Nat.succ_le_succ less) shallow
      · exact ⟨_, .dots followed shows, shallow⟩

/-- Below a path there is a finite tree, as deep as the path can still grow. -/
theorem exists_shows (limited : Limited opendir) (n : Nat) (path : CString) (long : pathMax ≤ path.length + n)
    (entries : List Dirent) : ∃ forest, Shows opendir path entries forest ∧ forest.depth ≤ n + 1 := by
  induction n generalizing path entries with
  | zero =>
    apply exists_shows_entries
    intro name inside opened
    obtain ⟨short, _⟩ := limited _ _ opened
    rw [joinPath_length] at short
    omega
  | succ n ih =>
    apply exists_shows_entries
    intro name inside _
    exact ih (joinPath path name) (joinPath_longer long name) inside

theorem exists_showsRoot (limited : Limited opendir) (root : CString) :
    ∃ forest, ShowsRoot opendir root forest ∧ forest.depth ≤ pathMax + 1 := by
  cases opened : opendir root with
  | none => exact ⟨.nil, .refused opened, Nat.zero_le _⟩
  | some entries =>
    obtain ⟨forest, shows, shallow⟩ := exists_shows limited pathMax root (Nat.le_add_left _ _) entries
    exact ⟨forest, .opened opened shows, shallow⟩

/-- Two ways to search subfolders that agree on the paths of this folder make
the entry loop run alike. -/
theorem readEntries_congr (search deeper : Nat → Host → Except Stopped Host) (nonnull : fileName0 ≠ 0)
    (agree : ∀ name host, FolderHeld host fileName0 (joinPath path name) →
      search fileName0 host = deeper fileName0 host)
    (keeps : ∀ buffer host after, search buffer host = .ok after → Keeps (fun _ => False) host after)
    (flags : Flags) (apart : folder ≠ fileName0) (entries : List Dirent) (host : Host)
    (holds : FolderHeld host folder path) (allocated : fileName0 < host.fresh) :
    readEntries search flags folder fileName0 entries host =
      readEntries deeper flags folder fileName0 entries host := by
  induction entries generalizing host with
  | nil => rfl
  | cons entry rest ih =>
    obtain ⟨dType, name⟩ := entry
    cases dType with
    | reg =>
      simp only [readEntries]
      refine bind_congr fun named joined => ?_
      refine bind_congr fun scan ran => ?_
      have kept := (getAbsPath_keeps joined).1.trans (checkFile_keeps ran).weaken
      cases scan with
      | returned last => rfl
      | exhausted last => exact ih last (holds.advance kept apart) (lt_of_lt_of_le allocated kept.grows)
    | dir =>
      simp only [readEntries]
      split
      · refine bind_congr fun named joined => ?_
        obtain ⟨naming, fresh, text, held, written⟩ := getAbsPath_keeps joined
        cases held.symm.trans holds.held
        rw [← agree name named ⟨written, by omega, nonnull⟩]
        refine bind_congr fun child searched => ?_
        have kept := naming.trans (keeps _ _ _ searched).weaken
        exact ih child (holds.advance kept apart) (lt_of_lt_of_le allocated kept.grows)
      · exact ih host holds allocated
    | other => exact ih host holds allocated

def Scan.leave (stream buffer : Nat) : Scan → Host
  | .returned host => host
  | .exhausted host => (host.free buffer).closedir stream

theorem searchDir_opens (holds : FolderHeld host folder path) (opened : opendir path = some entries) :
    searchDir opendir flags (fuel + 1) folder host =
      readEntries (searchDir opendir flags fuel) flags folder (host.fresh + 1) entries
        (host.openStream path).2.malloc.2 >>= fun scan => .ok (scan.leave host.fresh (host.fresh + 1)) := by
  simp only [searchDir, if_neg holds.nonnull, holds.held, opened, Host.expect_some, ok_bind]
  refine bind_congr fun scan _ => ?_
  cases scan <;> rfl

theorem searchDir_refuses (holds : FolderHeld host folder path) (refused : opendir path = none) :
    searchDir opendir flags (fuel + 1) folder host = .ok (host.emit (.refusedDir path)) := by
  simp [searchDir, holds.nonnull, holds.held, refused]

/-- A bound on the recursion that a path cannot outgrow is never what ends a
search, whatever the plugins do. -/
theorem searchDir_deepEnough (limited : Limited opendir) (flags : Flags) (n : Nat) (path : CString)
    (long : pathMax ≤ path.length + n) (host : Host) (folder : Nat) (holds : FolderHeld host folder path)
    (enough : n < fuel) :
    Ends (fun stopped => stopped.cause ≠ .tooDeep) (fun _ => True) (searchDir opendir flags fuel folder host) := by
  induction n generalizing path host folder fuel with
  | zero =>
    obtain ⟨less, rfl⟩ : ∃ less, fuel = less + 1 := ⟨fuel - 1, by omega⟩
    rw [searchDir_refuses holds (limited.refuses long)]
    trivial
  | succ n ih =>
    obtain ⟨less, rfl⟩ : ∃ less, fuel = less + 1 := ⟨fuel - 1, by omega⟩
    cases opened : opendir path with
    | none =>
      rw [searchDir_refuses holds opened]
      trivial
    | some entries =>
      have allocated := holds.allocated
      have entered : Ends (fun stopped => stopped.cause ≠ .tooDeep) (fun _ => True)
          (readEntries (searchDir opendir flags less) flags folder (host.fresh + 1) entries
            (host.openStream path).2.malloc.2) := by
        refine readEntries_ends (fun _ => True) (fun _ _ _ _ => trivial) ?_ ?_ (fun _ _ _ => searchDir_keeps) ?_
          (Nat.succ_ne_zero host.fresh) trivial (holds.start path) ?_
        · intro host _
          exact checkFile_ends Cause.noConfusion (fun _ => Cause.noConfusion) fun _ _ => trivial
        · intro host name _ inner
          exact ih (joinPath path name) (joinPath_longer long name) host _ inner (by omega)
        · omega
        · show host.fresh + 1 < host.fresh + 2
          omega
      rw [searchDir_opens holds opened]
      exact entered.bind fun _ _ _ => trivial

theorem searchDir_bounded (limited : Limited opendir) (flags : Flags) (n : Nat) (path : CString)
    (long : pathMax ≤ path.length + n) (host : Host) (folder : Nat) (holds : FolderHeld host folder path)
    (enough : n < fuel) : searchDir opendir flags fuel folder host = searchDir opendir flags (n + 1) folder host := by
  induction n generalizing path host folder fuel with
  | zero =>
    obtain ⟨less, rfl⟩ : ∃ less, fuel = less + 1 := ⟨fuel - 1, by omega⟩
    rw [searchDir_refuses holds (limited.refuses long), searchDir_refuses holds (limited.refuses long)]
  | succ n ih =>
    obtain ⟨less, rfl⟩ : ∃ less, fuel = less + 1 := ⟨fuel - 1, by omega⟩
    cases opened : opendir path with
    | none => rw [searchDir_refuses holds opened, searchDir_refuses holds opened]
    | some entries =>
      have apart : folder ≠ host.fresh + 1 := by
        have allocated := holds.allocated
        omega
      have same := readEntries_congr (searchDir opendir flags less) (searchDir opendir flags (n + 1))
        (Nat.succ_ne_zero host.fresh)
        (fun name below held => ih (joinPath path name) (joinPath_longer long name) below _ held (by omega))
        (fun _ _ _ => searchDir_keeps) flags apart entries _ (holds.start path)
        (by show host.fresh + 1 < host.fresh + 2; omega)
      rw [searchDir_opens holds opened, searchDir_opens holds opened, same]

section Main

theorem runSearch_bounded (limited : Limited env.opendir) (opts : ShortOpts) (enough : pathMax < fuel)
    (folderWorking : CString) (vars : Vars) (plugin : List Lib) :
    runSearch env opts fuel folderWorking vars plugin =
      runSearch env opts (pathMax + 1) folderWorking vars plugin := by
  have same := searchDir_bounded limited opts.flags pathMax (env.root folderWorking) (Nat.le_add_left _ _) _ 1
    (.root _ plugin) enough
  simp only [runSearch, same]

theorem runSearch_deepEnough (limited : Limited env.opendir) (opts : ShortOpts) (enough : pathMax < fuel)
    (folderWorking : CString) (vars : Vars) (plugin : List Lib) :
    (runSearch env opts fuel folderWorking vars plugin).exit ≠ .tooDeep := by
  have ends := searchDir_deepEnough limited opts.flags pathMax (env.root folderWorking) (Nat.le_add_left _ _) _ 1
    (.root _ plugin) enough
  simp only [runSearch, Run.behind_exit]
  generalize searchDir env.opendir opts.flags fuel 1 _ = searched at ends
  cases searched with
  | ok host => exact Exit.noConfusion
  | error stopped =>
    obtain ⟨cause, host⟩ := stopped
    cases cause with
    | undefined => exact Exit.noConfusion
    | tooDeep => exact absurd rfl ends

theorem runOptions_bounded (limited : Limited env.opendir) (opts : ShortOpts) (enough : pathMax < fuel)
    (folderWorking : CString) (vars : Vars) (plugin : List Lib) :
    (runOptions env opts fuel folderWorking vars plugin).exit ≠ .tooDeep ∧
      runOptions env opts fuel folderWorking vars plugin =
        runOptions env opts (pathMax + 1) folderWorking vars plugin := by
  refine ⟨?_, by simp only [runOptions, runSearch_bounded limited opts enough]⟩
  unfold runOptions
  split
  · exact Exit.noConfusion
  · split
    · dsimp only
      split <;> exact Exit.noConfusion
    · obtain ⟨status, after, copies⟩ := passAll env plugin 0 []
      cases status with
      | failed => exact Exit.noConfusion
      | crashed => exact Exit.noConfusion
      | going => exact runSearch_deepEnough limited opts enough folderWorking _ after

theorem mainFrom_bounded (limited : Limited env.opendir) (opts : ShortOpts) (enough : pathMax < fuel) :
    (mainFrom env opts fuel).exit ≠ .tooDeep ∧ mainFrom env opts fuel = mainFrom env opts (pathMax + 1) := by
  have bounded (folderWorking : CString) (vars : Vars) (plugin : List Lib) :=
    runOptions_bounded limited opts enough folderWorking vars plugin
  unfold mainFrom
  cases env.getcwd with
  | none => exact ⟨Exit.noConfusion, rfl⟩
  | some folderWorking =>
    refine ⟨?_, by simp only [runPlugins, (bounded _ _ _).2]⟩
    simp only [Run.behind_exit, runPlugins]
    split
    · exact Exit.noConfusion
    · simp only [Run.behind_exit]
      split
      · exact Exit.noConfusion
      · split
        · exact Exit.noConfusion
        · rename_i handles _ _
          obtain ⟨status, plugin⟩ := loadPlugins env handles.dl 0 []
          cases status with
          | failed => exact Exit.noConfusion
          | crashed => exact Exit.noConfusion
          | going => exact (bounded _ _ plugin).1

end Main

/-- A search ends on every file system whose paths are limited, and is the
depth-first scan of some finite tree that the file system shows: nothing needs
to be assumed about cycles or depth. -/
theorem searchDir_everywhere (opendir : CString → Option (List Dirent)) (limited : Limited opendir) (root : CString)
    (plugins : List Plugin) (flags : Flags) (host : Host) (folder : Nat) (ready : Ready host folder root plugins) :
    ∃ forest after, ShowsRoot opendir root forest ∧
      (∀ fuel, pathMax < fuel → searchDir opendir flags fuel folder host = .ok after) ∧
      after.looked = host.looked ++ checked joinPath (judge flags plugins) root forest ∧
      after.lines = host.lines ++ reported joinPath (judge flags plugins) root forest ∧
      after.count = host.count + (reported joinPath (judge flags plugins) root forest).length := by
  obtain ⟨forest, shows, shallow⟩ := exists_showsRoot limited root
  obtain ⟨after, ran, looked, lines, count⟩ := searchDir_run shows ready flags
  have bounded (fuel : Nat) (enough : pathMax < fuel) := searchDir_bounded limited flags pathMax root
    (Nat.le_add_left _ _) host folder ⟨ready.held, ready.allocated, ready.nonnull⟩ enough
  refine ⟨forest, after, shows, ?_, looked, lines, count⟩
  intro fuel enough
  rw [bounded fuel enough, ← bounded (pathMax + 2) (by omega)]
  exact ran (pathMax + 2) (by omega)

/-- On every file system, whatever its folders contain, themselves included, no
recursion of `main` is deeper than the longest path, whatever the plugins do;
and a search with plugins that answer is the scan of some finite tree. -/
theorem main_recursion_bounded (env : Env) (limited : Limited env.opendir) (args : List CString) (fuel : Nat)
    (enough : pathMax < fuel) :
    (main env args fuel).exit ≠ .tooDeep ∧ main env args fuel = main env args (pathMax + 1) ∧
    ∀ (root : CString) (plugins : List Plugin) (flags : Flags) (host : Host) (folder : Nat),
      Ready host folder root plugins →
      ∃ forest after, ShowsRoot env.opendir root forest ∧ searchDir env.opendir flags fuel folder host = .ok after ∧
        after.looked = host.looked ++ checked joinPath (judge flags plugins) root forest ∧
        after.lines = host.lines ++ reported joinPath (judge flags plugins) root forest ∧
        after.count = host.count + (reported joinPath (judge flags plugins) root forest).length := by
  rw [← and_assoc]
  constructor
  · unfold main
    split
    · exact ⟨Exit.noConfusion, rfl⟩
    · rcases shortOptions args with _ | _ | opts
      · exact ⟨Exit.noConfusion, rfl⟩
      · exact ⟨Exit.noConfusion, rfl⟩
      · exact mainFrom_bounded limited opts enough
  · intro root plugins flags host folder ready
    obtain ⟨forest, after, shows, ran, results⟩ := searchDir_everywhere env.opendir limited root plugins flags host
      folder ready
    exact ⟨forest, after, shows, ran fuel enough, results⟩

/-- A folder that contains itself, under a name of its own, next to a file. -/
def selfContaining (path : CString) : Option (List Dirent) :=
  if path.length < pathMax then some [⟨.dir, "d".toList⟩, ⟨.reg, "f".toList⟩] else none

theorem selfContaining_limited : Limited selfContaining := by
  intro path entries opened
  unfold selfContaining at opened
  split at opened
  · rename_i short
    cases opened
    exact ⟨short, by decide⟩
  · cases opened

def handedPlugins : List Plugin :=
  [.ofVerdict [⟨"n".toList, 1, .null, 0⟩] [⟨"n".toList, 1, .heap 0 "1".toList, 0⟩] (fun _ _ => 1),
    .ofVerdict [⟨"n".toList, 1, .null, 0⟩] [⟨"n".toList, 1, .heap 1 "1".toList, 0⟩] (fun _ _ => 1)]

def cyclicEnv : Env := { folderEnv "w".toList with opendir := selfContaining }

theorem cyclicEnv_lines (searched : searchDir selfContaining ⟨false, true, false⟩ fuel 1
      (.holding "r".toList handedPlugins) = .ok after) :
    (main cyclicEnv ["-O".toList, "--n=1".toList, "r".toList] fuel).lines = foundText after.lines after.count := by
  have starts : (main cyclicEnv ["-O".toList, "--n=1".toList, "r".toList] fuel).lines =
      (runSearch cyclicEnv { ShortOpts.unset with oflag := true, needLib2 := true } fuel "w".toList
        ⟨2, some [some 7, some 8], some (loadPlugins cyclicEnv [some 7, some 8] 0 []).2, [7, 8], [0, 1]⟩
        (handedPlugins.map Plugin.lib)).lines := rfl
  have ran : searchDir cyclicEnv.opendir { ShortOpts.unset with oflag := true, needLib2 := true }.flags fuel 1
      (.start (cyclicEnv.root "w".toList) (handedPlugins.map Plugin.lib)) = .ok after := searched
  simp only [starts, runSearch, Run.behind_lines, ran]

theorem selfContaining_reported (shows : ShowsRoot selfContaining "r".toList forest) :
    "r/f".toList ∈ reported joinPath (judge ⟨false, true, false⟩ handedPlugins) "r".toList forest := by
  have matching (path : CString) : judge ⟨false, true, false⟩ handedPlugins path = some true := rfl
  cases shows with
  | refused refused => exact nomatch refused
  | opened opened shows =>
    cases opened
    cases shows with
    | folder _ _ inner rest =>
      cases rest with
      | file rest =>
        cases rest
        simp [reported, checked, matching, joinPath]
    | locked _ _ rest =>
      cases rest with
      | file rest =>
        cases rest
        simp [reported, checked, matching, joinPath]
    | dots dots _ => exact absurd (by decide) dots

/-- The folder that contains itself is searched to its end. -/
theorem main_recursion_bounded_cyclic :
    (main cyclicEnv ["-O".toList, "--n=1".toList, "r".toList] (2 * pathMax)).exit ≠ .tooDeep ∧
    ∃ after, searchDir selfContaining ⟨false, true, false⟩ (2 * pathMax) 1 (.holding "r".toList handedPlugins) =
        .ok after ∧ "r/f".toList ∈ after.lines ∧
      (main cyclicEnv ["-O".toList, "--n=1".toList, "r".toList] (2 * pathMax)).lines =
        foundText after.lines after.count := by
  obtain ⟨ends, _, searches⟩ := main_recursion_bounded cyclicEnv selfContaining_limited
    ["-O".toList, "--n=1".toList, "r".toList] (2 * pathMax) (by decide)
  obtain ⟨forest, after, shows, ran, _, lines, _⟩ := searches "r".toList handedPlugins ⟨false, true, false⟩ _ 1
    (.holding "r".toList handedPlugins)
  refine ⟨ends, after, ran, ?_, cyclicEnv_lines ran⟩
  rw [lines]
  exact List.mem_append_right _ (selfContaining_reported shows)

end PluginSearch
