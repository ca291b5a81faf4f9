import PluginSearch.Basis.ForestChange
import PluginSearch.Host.Walk

/-! What a file that a plugin rejects with an error does to the rest of the
search: the early return drops the entries behind it in its own listing. -/

namespace PluginSearch

open Forest (checked deserving files reported Calm Clear Fails Quiet Reordered Silent)

def Failing (plugins : List Plugin) (path : CString) : Prop :=
  ∃ verdict ∈ activeVerdicts plugins path, verdict < 0

theorem judge_eq_none_iff : judge flags plugins path = none ↔ Failing plugins path := by
  simp [judge, Failing]

/-- Every deep enough run ends, having looked at these files and printed these lines. -/
def Runs (opendir : CString → Option (List Dirent)) (flags : Flags) (folder : Nat) (host : Host)
    (looked lines : List CString) : Prop :=
  ∃ after depth, (∀ fuel, depth < fuel → searchDir opendir flags fuel folder host = .ok after) ∧
    after.looked = host.looked ++ looked ∧ after.lines = host.lines ++ lines

theorem runs_of_shows (shows : ShowsRoot opendir root forest) (ready : Ready host folder root plugins)
    (flags : Flags) : Runs opendir flags folder host (checked joinPath (judge flags plugins) root forest)
      (reported joinPath (judge flags plugins) root forest) := by
  obtain ⟨after, ran, looked, lines, _⟩ := searchDir_run shows ready flags
  exact ⟨after, forest.depth, ran, looked, lines⟩

theorem Runs.lines_unique (runs : Runs opendir flags folder host looked lines)
    (also : Runs opendir flags folder host looked' lines') : lines = lines' := by
  obtain ⟨after, depth, ran, _, same⟩ := runs
  obtain ⟨after', depth', ran', _, same'⟩ := also
  have ends := (ran (max depth depth' + 1) (by omega)).symm.trans (ran' (max depth depth' + 1) (by omega))
  cases ends
  exact List.append_cancel_left (same.symm.trans same')

/-- The first entry of a listing stands for the first entry of the tree, and
fits before any other listing of the same folder. -/
theorem Shows.uncons (shows : Shows opendir path (entry :: entries) forest) :
    ∃ first rest, forest = Forest.cons first rest ∧ Shows opendir path entries rest ∧
      ∀ others tree, Shows opendir path others tree →
        Shows opendir path (entry :: others) (Forest.cons first tree) := by
  cases shows with
  | @file _ _ rest name behind => exact ⟨.file name, rest, rfl, behind, fun _ _ => .file⟩
  | @folder name _ _ below _ rest followed opened inner behind =>
    exact ⟨.folder name below, rest, rfl, behind, fun _ _ => .folder followed opened inner⟩
  | @locked name _ _ rest followed refused behind =>
    exact ⟨.locked name, rest, rfl, behind, fun _ _ => .locked followed refused⟩
  | @dots name _ _ rest dots behind => exact ⟨.skipped name, rest, rfl, behind, fun _ _ => .dots dots⟩
  | @other _ _ rest name behind => exact ⟨.skipped name, rest, rfl, behind, fun _ _ => .other⟩

theorem Shows.permute (shows : Shows opendir path entries forest) (perm : entries.Perm others) :
    ∃ tree, Shows opendir path others tree ∧ Reordered forest tree := by
  induction perm generalizing forest with
  | nil => exact ⟨forest, shows, .refl forest⟩
  | cons entry perm ih =>
    obtain ⟨first, rest, rfl, behind, fits⟩ := shows.uncons
    obtain ⟨tree, shown, reordered⟩ := ih behind
    exact ⟨.cons first tree, fits _ _ shown, .entry first reordered⟩
  | swap entry second entries =>
    obtain ⟨first, rest, rfl, behind, fitsFirst⟩ := shows.uncons
    obtain ⟨next, rest, rfl, behind, fitsNext⟩ := behind.uncons
    exact ⟨.cons next (.cons first rest), fitsNext _ _ (fitsFirst _ _ behind), .swap first next rest⟩
  | trans before after ihBefore ihAfter =>
    obtain ⟨middle, shown, reordered⟩ := ihBefore shows
    obtain ⟨tree, shownAfter, reorderedAfter⟩ := ihAfter shown
    exact ⟨tree, shownAfter, .trans reordered reorderedAfter⟩

/-- Where `readdir` yields other orders, the tree is shown with its listings
reordered. -/
theorem Shows.reorder (shows : Shows opendir path entries forest) (same : SameListings opendir shuffled) :
    ∃ tree, Shows shuffled path entries tree ∧ Reordered forest tree := by
  induction shows with
  | nil => exact ⟨.nil, .nil, .refl _⟩
  | @file path entries forest name rest ih =>
    obtain ⟨tree, shown, reordered⟩ := ih
    exact ⟨.file name tree, .file shown, .entry (.file name) reordered⟩
  | @folder name path inside below entries forest followed opened inner rest ihInner ih =>
    obtain ⟨tree, shown, reordered⟩ := ih
    obtain ⟨within, shownInside, reorderedInside⟩ := ihInner
    obtain ⟨others, relisted, perm⟩ := same.opened opened
    obtain ⟨within', shownInside', permuted⟩ := shownInside.permute perm
    exact ⟨.folder name within' tree, .folder followed relisted shownInside' shown,
      .trans (.inside (.trans reorderedInside permuted)) (.entry (.folder name within') reordered)⟩
  | @locked name path entries forest followed refused rest ih =>
    obtain ⟨tree, shown, reordered⟩ := ih
    exact ⟨.locked name tree, .locked followed (same.refused refused) shown, .entry (.locked name) reordered⟩
  | @dots name path entries forest dots rest ih =>
    obtain ⟨tree, shown, reordered⟩ := ih
    exact ⟨.skipped name tree, .dots dots shown, .entry (.skipped name) reordered⟩
  | @other path entries forest name rest ih =>
    obtain ⟨tree, shown, reordered⟩ := ih
    exact ⟨.skipped name tree, .other shown, .entry (.skipped name) reordered⟩

theorem ShowsRoot.reorder (shows : ShowsRoot opendir root forest) (same : SameListings opendir shuffled) :
    ∃ tree, ShowsRoot shuffled root tree ∧ Reordered forest tree := by
  cases shows with
  | refused refused => exact ⟨.nil, .refused (same.refused refused), .refl _⟩
  | opened opened shows =>
    obtain ⟨others, relisted, perm⟩ := same.opened opened
    obtain ⟨tree, shown, reordered⟩ := shows.reorder same
    obtain ⟨tree', shown', permuted⟩ := shown.permute perm
    exact ⟨tree', .opened relisted shown', .trans reordered permuted⟩

section Worst

variable (plugins : List Plugin)

instance (path : CString) : Decidable (Failing plugins path) := inferInstanceAs (Decidable (∃ _ ∈ _, _))

def failingEntry (path : CString) (entry : Dirent) : Bool :=
  entry.dType = .reg ∧ Failing plugins (joinPath path entry.dName)

/-- The order of a listing that hurts most: the files that fail come first. -/
def failingFirst (path : CString) (entries : List Dirent) : List Dirent :=
  entries.filter (failingEntry plugins path) ++ entries.filter (fun entry => !failingEntry plugins path entry)

/-- The same directories, each in the order that hurts most. -/
def worst (opendir : CString → Option (List Dirent)) (path : CString) : Option (List Dirent) :=
  (opendir path).map (failingFirst plugins path)

theorem worst_sameListings (opendir : CString → Option (List Dirent)) :
    SameListings opendir (worst plugins opendir) := by
  intro path
  unfold worst
  cases opendir path with
  | none => exact .none
  | some entries => exact .some (List.filter_append_perm _ entries).symm

variable {plugins}

theorem Shows.fails_iff (shows : Shows opendir path entries forest) (flags : Flags) :
    Fails joinPath (judge flags plugins) path forest ↔ ∃ entry ∈ entries, failingEntry plugins path entry := by
  induction shows with
  | nil => simp [Fails]
  | file rest ih => simp [Fails, ih, failingEntry, judge_eq_none_iff]
  | folder followed opened inner rest ihInner ih => simp [Fails, ih, failingEntry]
  | locked followed refused rest ih => simp [Fails, ih, failingEntry]
  | dots dots rest ih => simp [Fails, ih, failingEntry]
  | other rest ih => simp [Fails, ih, failingEntry]

theorem reported_failingFirst (shows : Shows opendir path (failingFirst plugins path entries) forest)
    (fails : Fails joinPath (judge flags plugins) path forest) :
    reported joinPath (judge flags plugins) path forest = [] := by
  obtain ⟨entry, member, failing⟩ := (shows.fails_iff flags).mp fails
  have listed : entry ∈ entries.filter (failingEntry plugins path) := by
    rcases List.mem_append.mp member with front | back
    · exact front
    · simp [failing] at back
  cases front : entries.filter (failingEntry plugins path) with
  | nil => simp [front] at listed
  | cons first others =>
    have failed : failingEntry plugins path first := by
      have first_mem : first ∈ entries.filter (failingEntry plugins path) := by simp [front]
      exact (List.mem_filter.mp first_mem).2
    obtain ⟨dType, name⟩ := first
    obtain ⟨rfl, negative⟩ : dType = .reg ∧ Failing plugins (joinPath path name) := by
      simpa [failingEntry] using failed
    rw [failingFirst, front, List.cons_append] at shows
    cases shows with
    | file rest => simp [reported, checked, judge_eq_none_iff.mpr negative]

/-- One folder in its worst order: if nothing below it is lost, it is calm. -/
private theorem calm_of_listing (shows : Shows opendir path (failingFirst plugins path entries) forest)
    (deeper : ¬ Fails joinPath (judge flags plugins) path forest →
      reported joinPath (judge flags plugins) path forest = deserving joinPath (judge flags plugins) path forest →
      Quiet joinPath (judge flags plugins) path forest)
    (full : reported joinPath (judge flags plugins) path forest =
      deserving joinPath (judge flags plugins) path forest) :
    Calm joinPath (judge flags plugins) path forest := by
  by_cases fails : Fails joinPath (judge flags plugins) path forest
  · have silent : Silent joinPath (judge flags plugins) path forest :=
      (Forest.silent_iff path forest).mpr (full.symm.trans (reported_failingFirst shows fails))
    exact ⟨fun _ => silent, Forest.quiet_of_silent path forest silent⟩
  · exact ⟨fun failed => absurd failed fails, deeper fails full⟩

private theorem quiet_of_worst (shows : Shows (worst plugins opendir) path entries forest)
    (works : ¬ Fails joinPath (judge flags plugins) path forest)
    (full : reported joinPath (judge flags plugins) path forest =
      deserving joinPath (judge flags plugins) path forest) :
    Quiet joinPath (judge flags plugins) path forest := by
  induction shows with
  | nil => trivial
  | @file path entries forest name rest ih =>
    simp only [Fails, not_or] at works
    apply ih works.2
    simp only [reported, checked, deserving, files, Option.isNone_iff_eq_none, works.1, ↓reduceIte,
      List.filter_cons] at full
    split at full
    · exact (List.cons.inj full).2
    · exact full
  | @folder name path inside below entries forest followed opened inner rest ihInner ih =>
    have parts := (append_eq_iff_of_sublist (Forest.reported_sublist (joinPath path name) below)
      (Forest.reported_sublist path forest)).mp (by
        simpa only [reported, checked, deserving, files, List.filter_append] using full)
    refine ⟨?_, ih works parts.2⟩
    obtain ⟨original, _, rfl⟩ := Option.map_eq_some_iff.mp opened
    exact calm_of_listing inner ihInner parts.1
  | locked followed refused rest ih => exact ih works full
  | dots dots rest ih => exact ih works full
  | other rest ih => exact ih works full

theorem calm_of_worst (shows : ShowsRoot (worst plugins opendir) root forest)
    (full : reported joinPath (judge flags plugins) root forest =
      deserving joinPath (judge flags plugins) root forest) :
    Calm joinPath (judge flags plugins) root forest := by
  cases shows with
  | refused refused => exact ⟨fun fails => fails.elim, trivial⟩
  | opened opened shows =>
    obtain ⟨original, _, rfl⟩ := Option.map_eq_some_iff.mp opened
    exact calm_of_listing shows (quiet_of_worst shows) full

end Worst

/-- A run that keeps errors to themselves: it looks at every reachable file, it
prints what it would print without a file that fails, and in whatever order
the entries come, the same files are printed. -/
structure Isolates (opendir : CString → Option (List Dirent)) (flags : Flags) (plugins : List Plugin)
    (root : CString) (forest : Forest CString) (folder : Nat) (host : Host) (looked lines : List CString) :
    Prop where
  examines : ∀ path, Forest.Reaches joinPath root forest path → path ∈ looked
  withholds : ∀ target without opendir', Failing plugins target →
    Forest.Removed joinPath target root forest without → ShowsRoot opendir' root without →
    ∃ looked', Runs opendir' flags folder host looked' lines
  reorders : ∀ shuffled, SameListings opendir shuffled →
    ∃ looked' lines', Runs shuffled flags folder host looked' lines' ∧ lines'.Perm lines

/-- The search isolates errors exactly where no file that fails has another
reachable file behind it in its own listing, and no folder with a file that
fails leads to a file that deserves to be printed. -/
theorem searchDir_isolates_iff (opendir : CString → Option (List Dirent)) (root : CString)
    (forest : Forest CString) (shows : ShowsRoot opendir root forest) (named : forest.WellNamed SlashFree)
    (plugins : List Plugin) (flags : Flags) (host : Host) (folder : Nat)
    (ready : Ready host folder root plugins) :
    ∃ looked lines, Runs opendir flags folder host looked lines ∧
      (Isolates opendir flags plugins root forest folder host looked lines ↔
        Clear joinPath (judge flags plugins) root forest ∧ Calm joinPath (judge flags plugins) root forest) := by
  refine ⟨_, _, runs_of_shows shows ready flags, ?_, ?_⟩
  · intro isolates
    have all : checked joinPath (judge flags plugins) root forest = files joinPath root forest := by
      have nodup := Forest.files_nodup joinPath_separated forest root named
      have subset : files joinPath root forest ⊆ checked joinPath (judge flags plugins) root forest :=
        fun path member => isolates.examines path ((Forest.mem_files_iff root path forest).mp member)
      exact (Forest.checked_sublist root forest).eq_of_length_le (List.subperm_of_subset nodup subset).length_le
    refine ⟨(Forest.checked_eq_files_iff root forest).mp all, ?_⟩
    obtain ⟨tree, shown, reordered⟩ := shows.reorder (worst_sameListings plugins opendir)
    obtain ⟨_, lines', ran, perm⟩ := isolates.reorders _ (worst_sameListings plugins opendir)
    rw [ran.lines_unique (runs_of_shows shown ready flags)] at perm
    refine (reordered.calm_iff root).mpr (calm_of_worst shown ?_)
    apply (Forest.reported_sublist root tree).eq_of_length_le
    have sameFiles : (deserving joinPath (judge flags plugins) root forest).length =
        (deserving joinPath (judge flags plugins) root tree).length :=
      ((reordered.files_perm root).filter _).length_eq
    rw [perm.length_eq, ← sameFiles, reported, all, deserving]
  · intro holds
    obtain ⟨clear, calm⟩ := holds
    refine ⟨?_, ?_, ?_⟩
    · intro path reaches
      rw [(Forest.checked_eq_files_iff root forest).mpr clear]
      exact (Forest.mem_files_iff root path forest).mpr reaches
    · intro target without opendir' failing removed shows'
      rw [← removed.reported_eq (judge_eq_none_iff.mpr failing) clear]
      exact ⟨_, runs_of_shows shows' ready flags⟩
    · intro shuffled same
      obtain ⟨tree, shown, reordered⟩ := shows.reorder same
      refine ⟨_, _, runs_of_shows shown ready flags, ?_⟩
      rw [calm.reported_eq, ((reordered.calm_iff root).mp calm).reported_eq]
      exact ((reordered.files_perm root).filter _).symm

def Plugin.failingOn (path : CString) : Plugin :=
  .ofVerdict [⟨"any".toList, 0, .null, 0⟩] [⟨"any".toList, 0, .null, 0⟩]
    (fun fname _ => if fname = path then -1 else 1)

def apartTree (path : CString) : Option (List Dirent) :=
  if path = "r".toList then some [⟨.dir, "e".toList⟩, ⟨.reg, "m".toList⟩]
  else if path = "r/e".toList then some [⟨.reg, "empty".toList⟩]
  else none

def apartForest : Forest CString :=
  .folder "e".toList (.file "empty".toList .nil) (.file "m".toList .nil)

theorem searchDir_isolates_apart :
    ∃ looked lines, Runs apartTree ⟨false, false, false⟩ 1 (.holding "r".toList [.failingOn "r/e/empty".toList])
        looked lines ∧
      Isolates apartTree ⟨false, false, false⟩ [.failingOn "r/e/empty".toList] "r".toList apartForest 1
        (.holding "r".toList [.failingOn "r/e/empty".toList]) looked lines := by
  have shows : ShowsRoot apartTree "r".toList apartForest :=
    .opened rfl (.folder (by decide) rfl (.file .nil) (.file .nil))
  have named : apartForest.WellNamed SlashFree := by
    simp [apartForest, Forest.WellNamed, Forest.names, SlashFree]
  have printed : judge ⟨false, false, false⟩ [.failingOn "r/e/empty".toList] "r/m".toList = some true := by decide
  have failed : judge ⟨false, false, false⟩ [.failingOn "r/e/empty".toList] "r/e/empty".toList = none := by decide
  obtain ⟨looked, lines, ran, isolates⟩ := searchDir_isolates_iff apartTree "r".toList apartForest shows named
    [.failingOn "r/e/empty".toList] ⟨false, false, false⟩ _ 1 (.holding "r".toList _)
  refine ⟨looked, lines, ran, isolates.mpr ⟨?_, ?_⟩⟩
  · simp [apartForest, Clear, files]
  · simp_all [apartForest, Calm, Fails, Silent, Quiet, files, joinPath]

def besideTree (path : CString) : Option (List Dirent) :=
  if path = "r".toList then some [⟨.reg, "empty".toList⟩, ⟨.reg, "m".toList⟩] else none

/-- The file that fails comes first: the file behind it is never looked at,
although it is printed when the other one is not there. -/
theorem searchDir_drops_beside :
    Failing [.failingOn "r/empty".toList] "r/empty".toList ∧
    Forest.Reaches joinPath "r".toList (.file "empty".toList (.file "m".toList .nil)) "r/m".toList ∧
    ShowsRoot besideTree "r".toList (.file "empty".toList (.file "m".toList .nil)) ∧
    Runs besideTree ⟨false, false, false⟩ 1 (.holding "r".toList [.failingOn "r/empty".toList])
      ["r/empty".toList] [] ∧
    Runs (fun path => if path = "r".toList then some [⟨.reg, "m".toList⟩] else none) ⟨false, false, false⟩ 1
      (.holding "r".toList [.failingOn "r/empty".toList]) ["r/m".toList] ["r/m".toList] ∧
    ¬ Isolates besideTree ⟨false, false, false⟩ [.failingOn "r/empty".toList] "r".toList
      (.file "empty".toList (.file "m".toList .nil)) 1 (.holding "r".toList [.failingOn "r/empty".toList])
      ["r/empty".toList] [] := by
  have shows : ShowsRoot besideTree "r".toList (.file "empty".toList (.file "m".toList .nil)) :=
    .opened rfl (.file (.file .nil))
  have reaches : Forest.Reaches joinPath "r".toList (.file "empty".toList (.file "m".toList .nil))
      "r/m".toList := .later (.file "empty".toList) .here
  refine ⟨by decide, reaches, shows, runs_of_shows shows (.holding _ _) _, ?_, ?_⟩
  · have alone : ShowsRoot (fun path => if path = "r".toList then some [⟨.reg, "m".toList⟩] else none)
        "r".toList (.file "m".toList .nil) := .opened rfl (.file .nil)
    exact runs_of_shows alone (.holding _ _) _
  · intro isolates
    exact absurd (isolates.examines _ reaches) (by decide)

end PluginSearch
