import PluginSearch.Host.WalkInvariant

namespace PluginSearch

open Stopping
open Forest (checked files reported)

private theorem readEntries_stable {search deeper : Nat → Host → Except Stopped Host}
    (stable : ∀ folder host after, search folder host = .ok after → deeper folder host = .ok after)
    (flags : Flags) (folder fileName0 : Nat) (entries : List Dirent) (host : Host)
    (reached : readEntries search flags folder fileName0 entries host = .ok scan) :
    readEntries deeper flags folder fileName0 entries host = .ok scan := by
  induction entries generalizing host with
  | nil => exact reached
  | cons entry rest ih =>
    obtain ⟨dType, dName⟩ := entry
    cases dType with
    | reg =>
      simp only [readEntries, bind_eq_ok_iff] at reached ⊢
      obtain ⟨named, joined, outcome, checked, reached⟩ := reached
      refine ⟨named, joined, outcome, checked, ?_⟩
      cases outcome with
      | returned last => exact reached
      | exhausted last => exact ih last reached
    | dir =>
      simp only [readEntries] at reached ⊢
      split at reached
      · rename_i followed
        rw [if_pos followed]
        simp only [bind_eq_ok_iff] at reached ⊢
        obtain ⟨named, joined, child, searched, reached⟩ := reached
        exact ⟨named, joined, child, stable _ _ _ searched, ih child reached⟩
      · rename_i dots
        rw [if_neg dots]
        exact ih host reached
    | other => exact ih host reached

theorem searchDir_stable (reached : searchDir opendir flags fuel folder host = .ok after)
    (more : fuel ≤ larger) : searchDir opendir flags larger folder host = .ok after := by
  induction fuel generalizing larger folder host after with
  | zero => simp [searchDir] at reached
  | succ fuel ih =>
    obtain ⟨spare, rfl⟩ := Nat.exists_eq_add_of_le' more
    rw [Nat.add_succ]
    simp only [searchDir] at reached ⊢
    split at reached
    · rename_i null
      rw [if_pos null]
      exact reached
    · rename_i nonnull
      rw [if_neg nonnull]
      simp only [bind_eq_ok_iff, Host.expect_eq_ok_iff] at reached ⊢
      obtain ⟨path, held, reached⟩ := reached
      refine ⟨path, held, ?_⟩
      cases listed : opendir path with
      | none => simpa only [listed] using reached
      | some entries =>
        simp only [listed, bind_eq_ok_iff] at reached ⊢
        obtain ⟨scan, entered, reached⟩ := reached
        exact ⟨scan, readEntries_stable (fun _ _ _ done => ih done (Nat.le_add_left fuel spare)) _ _ _ _ _ entered,
          reached⟩

/-- Names as `readdir` gives them. -/
def SlashFree (name : CString) : Prop := '/' ∉ name

private theorem below_tail (below : Forest.Below joinPath SlashFree path target) :
    ∃ tail, target = path ++ tail ∧ (tail = [] ∨ ∃ more, tail = '/' :: more) := by
  induction below with
  | self => exact ⟨[], by simp, .inl rfl⟩
  | @step name path target named deeper ih =>
    obtain ⟨tail, same, _⟩ := ih
    exact ⟨'/' :: (name ++ tail), by simp [same, joinPath], .inr ⟨_, rfl⟩⟩

private theorem component_eq (plain : SlashFree name) (ending : tail = [] ∨ ∃ more, tail = '/' :: more) :
    (name ++ tail).takeWhile (· ≠ '/') = name := by
  have all : ∀ c ∈ name, decide (c ≠ '/') = true := by
    intro c member
    simp only [ne_eq, decide_eq_true_eq]
    rintro rfl
    exact plain member
  rw [List.takeWhile_append_of_pos all]
  rcases ending with rfl | ⟨more, rfl⟩ <;> simp

/-- Two entries of a folder never share a path, nor do files below them. -/
theorem joinPath_separated : Forest.Separated joinPath SlashFree := by
  intro path one two target plainOne plainTwo belowOne belowTwo
  obtain ⟨tailOne, sameOne, endOne⟩ := below_tail belowOne
  obtain ⟨tailTwo, sameTwo, endTwo⟩ := below_tail belowTwo
  have same : one ++ tailOne = two ++ tailTwo := by
    have paths := sameOne.symm.trans sameTwo
    simpa [joinPath] using paths
  rw [← component_eq plainOne endOne, same, component_eq plainTwo endTwo]

/-- Nothing but the tree, the plugins and the flags decides what a search looks
at, prints and counts; any sufficient recursion depth gives the same run. -/
theorem searchDir_run (shows : ShowsRoot opendir root forest) (ready : Ready host folder root plugins)
    (flags : Flags) :
    ∃ after, (∀ fuel, forest.depth < fuel → searchDir opendir flags fuel folder host = .ok after) ∧
      after.looked = host.looked ++ checked joinPath (judge flags plugins) root forest ∧
      after.lines = host.lines ++ reported joinPath (judge flags plugins) root forest ∧
      after.count = host.count + (reported joinPath (judge flags plugins) root forest).length := by
  obtain ⟨after, ran, searched⟩ := searchDir_refines shows ready flags (Nat.lt_succ_self _)
  exact ⟨after, fun fuel enough => searchDir_stable ran enough, searched.looked, searched.lines, searched.count⟩

/-- With verdicts that are never negative the search of a finite tree ends,
looks at every reachable file once and in depth-first order, and prints and
counts those the guards accept; folders that cannot be opened change nothing. -/
theorem searchDir_complete (opendir : CString → Option (List Dirent)) (root : CString)
    (forest : Forest CString) (shows : ShowsRoot opendir root forest) (plugins : List Plugin)
    (judged : ∀ plugin ∈ plugins, ∀ fname, 0 ≤ plugin.verdict fname) (flags : Flags) (host : Host)
    (folder : Nat) (ready : Ready host folder root plugins) :
    ∃ after, (∀ fuel, forest.depth < fuel → searchDir opendir flags fuel folder host = .ok after) ∧
      after.looked = host.looked ++ files joinPath root forest ∧
      (∀ path, path ∈ files joinPath root forest ↔ Forest.Reaches joinPath root forest path) ∧
      (forest.WellNamed SlashFree → (files joinPath root forest).Nodup) ∧
      after.lines = host.lines ++ (files joinPath root forest).filter
        (fun path => reports flags (Tally.add ⟨0, 0⟩ (activeVerdicts plugins path))) ∧
      after.count = host.count + ((files joinPath root forest).filter
        (fun path => reports flags (Tally.add ⟨0, 0⟩ (activeVerdicts plugins path)))).length ∧
      ∀ openable, ShowsRoot openable root forest.unlocked →
        ∃ same, (∀ fuel, forest.unlocked.depth < fuel → searchDir openable flags fuel folder host = .ok same) ∧
          same.looked = after.looked ∧ same.lines = after.lines ∧ same.count = after.count := by
  have nonneg (path : CString) : ∀ verdict ∈ activeVerdicts plugins path, 0 ≤ verdict := by
    intro verdict member
    obtain ⟨plugin, active, rfl⟩ := List.mem_map.mp member
    exact judged plugin (List.mem_of_mem_filter active) path
  have decided (path : CString) : judge flags plugins path =
      some (reports flags (Tally.add ⟨0, 0⟩ (activeVerdicts plugins path))) := judge_of_nonneg (nonneg path) flags
  have all (tree : Forest CString) : checked joinPath (judge flags plugins) root tree = files joinPath root tree :=
    Forest.checked_of_judged root tree (fun path _ => by simp [decided])
  have filtered (tree : Forest CString) : reported joinPath (judge flags plugins) root tree =
      (files joinPath root tree).filter
        (fun path => reports flags (Tally.add ⟨0, 0⟩ (activeVerdicts plugins path))) := by
    simp [reported, all, decided]
  obtain ⟨after, ran, looked, lines, count⟩ := searchDir_run shows ready flags
  refine ⟨after, ran, all forest ▸ looked, fun path => Forest.mem_files_iff root path forest,
    Forest.files_nodup joinPath_separated forest root, filtered forest ▸ lines, filtered forest ▸ count, ?_⟩
  intro openable open_
  obtain ⟨same, again, looked', lines', count'⟩ := searchDir_run open_ ready flags
  refine ⟨same, again, ?_, ?_, ?_⟩
  · rw [looked', looked, all, all, Forest.files_unlocked]
  · rw [lines', lines, filtered, filtered, Forest.files_unlocked]
  · rw [count', count, filtered, filtered, Forest.files_unlocked]

def smallTree (path : CString) : Option (List Dirent) :=
  if path = "r".toList then some [⟨.dir, ".".toList⟩, ⟨.reg, "a".toList⟩, ⟨.dir, "d".toList⟩,
    ⟨.dir, "e".toList⟩, ⟨.other, "x".toList⟩]
  else if path = "r/d".toList then some [⟨.reg, "b".toList⟩]
  else none

def smallForest : Forest CString :=
  .skipped ".".toList (.file "a".toList (.folder "d".toList (.file "b".toList .nil)
    (.locked "e".toList (.skipped "x".toList .nil))))

theorem smallTree_shows : ShowsRoot smallTree "r".toList smallForest :=
  .opened rfl (.dots (by decide) (.file (.folder (by decide) rfl (.file .nil)
    (.locked (by decide) rfl (.other .nil)))))

theorem Ready.holding (root : CString) (plugins : List Plugin) : Ready (.holding root plugins) 1 root plugins :=
  ⟨by simp [Host.holding, Host.start], Nat.lt_succ_self 1, by decide, loaded_map plugins⟩

theorem searchDir_complete_small :
    ∃ after, (∀ fuel, smallForest.depth < fuel →
        searchDir smallTree ⟨false, false, false⟩ fuel 1 (.holding "r".toList [.constant 1]) = .ok after) ∧
      after.lines = ["r/a".toList, "r/d/b".toList] ∧ after.count = 2 := by
  obtain ⟨after, ran, _, _, _, lines, count, _⟩ := searchDir_complete smallTree "r".toList smallForest
    smallTree_shows [.constant 1] (by simp [Plugin.constant, Plugin.ofVerdict]) ⟨false, false, false⟩ _ 1
    (.holding "r".toList [.constant 1])
  exact ⟨after, ran, lines.trans (by decide), count.trans (by decide)⟩

theorem activeVerdicts_perm (perm : plugins.Perm others) (fname : CString) :
    (activeVerdicts plugins fname).Perm (activeVerdicts others fname) :=
  (perm.filter _).map _

/-- The decision about a file does not depend on the order of the plugins: the
counters are sums, and a negative verdict ends the loop wherever it stands. -/
theorem judge_perm (perm : plugins.Perm others) (flags : Flags) : judge flags plugins = judge flags others := by
  funext fname
  have verdicts := activeVerdicts_perm perm fname
  have negative : (activeVerdicts plugins fname).any (· < 0) = (activeVerdicts others fname).any (· < 0) := by
    rw [Bool.eq_iff_iff]
    simp only [List.any_eq_true]
    constructor
    · intro found
      obtain ⟨verdict, member, below⟩ := found
      exact ⟨verdict, verdicts.mem_iff.mp member, below⟩
    · intro found
      obtain ⟨verdict, member, below⟩ := found
      exact ⟨verdict, verdicts.mem_iff.mpr member, below⟩
  simp only [judge, Tally.add, negative, verdicts.length_eq, verdicts.count_eq]

/-- Loading the plugins in another order changes neither the printed lines,
nor their order, nor the count, negative verdicts included. -/
theorem searchDir_perm (opendir : CString → Option (List Dirent)) (root : CString) (forest : Forest CString)
    (shows : ShowsRoot opendir root forest) (plugins others : List Plugin) (perm : plugins.Perm others)
    (flags : Flags) (host : Host) (folder : Nat) (ready : Ready host folder root plugins) (libs : List Lib)
    (loaded : Loaded libs others) :
    ∃ after reordered,
      (∀ fuel, forest.depth < fuel → searchDir opendir flags fuel folder host = .ok after) ∧
      (∀ fuel, forest.depth < fuel →
        searchDir opendir flags fuel folder { host with plugin := libs } = .ok reordered) ∧
      reordered.looked = after.looked ∧ reordered.lines = after.lines ∧ reordered.count = after.count := by
  have readyOther : Ready { host with plugin := libs } folder root others :=
    ⟨ready.held, ready.allocated, ready.nonnull, loaded⟩
  obtain ⟨after, ran, looked, lines, count⟩ := searchDir_run shows ready flags
  obtain ⟨reordered, again, looked', lines', count'⟩ := searchDir_run shows readyOther flags
  rw [← judge_perm perm] at looked' lines' count'
  exact ⟨after, reordered, ran, again, looked'.trans looked.symm, lines'.trans lines.symm, count'.trans count.symm⟩

theorem searchDir_perm_small :
    ∃ after reordered,
      (∀ fuel, smallForest.depth < fuel → searchDir smallTree ⟨false, true, false⟩ fuel 1
        (.holding "r".toList [.constant 1, .constant (-1)]) = .ok after) ∧
      (∀ fuel, smallForest.depth < fuel → searchDir smallTree ⟨false, true, false⟩ fuel 1
        (.holding "r".toList [.constant (-1), .constant 1]) = .ok reordered) ∧
      reordered.looked = after.looked ∧ reordered.lines = after.lines ∧ reordered.count = after.count :=
  searchDir_perm smallTree "r".toList smallForest smallTree_shows [.constant 1, .constant (-1)]
    [.constant (-1), .constant 1] (.swap _ _ _) ⟨false, true, false⟩ _ 1 (.holding _ _) _ (loaded_map _)

end PluginSearch
