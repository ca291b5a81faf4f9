import PluginSearch.Host.Frame
import PluginSearch.Host.Streams
import PluginSearch.Host.WalkInvariant

namespace PluginSearch

open Ledger Stopping
open Forest (files)

/-- The files looked at are all of these, unless a call fails on either. -/
def Covers (paths all : List CString) (libs : List Lib) : Prop :=
  Undisturbed paths libs ∨ Undisturbed all libs → paths = all

theorem Covers.undisturbed_iff (covers : Covers paths all libs) : Undisturbed paths libs ↔ Undisturbed all libs := by
  constructor
  · intro undisturbed
    exact covers (.inl undisturbed) ▸ undisturbed
  · intro undisturbed
    exact (covers (.inr undisturbed)).symm ▸ undisturbed

theorem Covers.append (first : Covers paths all libs) (second : Covers more others (pluginsBehind paths libs)) :
    Covers (paths ++ more) (all ++ others) libs := by
  rw [Covers, undisturbed_append, undisturbed_append]
  rintro (⟨early, late⟩ | ⟨early, late⟩)
  · rw [first (.inl early), second (.inl late)]
  · have same := first (.inr early)
    subst same
    rw [second (.inr late)]

/-- A stretch of the search that looked at these files. -/
structure Visited (before after : Host) (paths : List CString) : Prop where
  looked : after.looked = before.looked ++ paths
  plugin : after.plugin = pluginsBehind paths before.plugin

theorem Visited.trans (first : Visited before middle one) (second : Visited middle after two) :
    Visited before after (one ++ two) where
  looked := by rw [second.looked, first.looked, List.append_assoc]
  plugin := by rw [second.plugin, first.plugin, pluginsBehind, pluginsBehind, pluginsBehind, List.foldl_append]

theorem getAbsPath_visited {host : Host} (joined : host.getAbsPath fileName0 folder name = .ok after) :
    Visited host after [] := by
  rw [getAbsPath_eq, Host.expect_eq_ok_iff, Option.map_eq_some_iff] at joined
  obtain ⟨path, _, rfl⟩ := joined
  exact ⟨by simp [Host.looked, Host.write, Host.emit, Host.store], rfl⟩

theorem checkFile_visited (held : host.heap fileName0 = some path)
    (ran : checkFile flags fileName0 host = .ok scan) :
    Visited host scan.host [path] ∧
      ((scan = .returned scan.host ∧ ∀ rest, ¬ Undisturbed (path :: rest) host.plugin) ∨
        scan = .exhausted scan.host) := by
  cases checkFile_checked ran with
  | failed found called =>
    cases found.symm.trans held
    refine ⟨⟨by simp [Host.looked, Host.emit], by simp [pluginsBehind, pluginsAfter, called]⟩, .inl ⟨rfl, ?_⟩⟩
    intro rest undisturbed
    simp [Undisturbed, called] at undisturbed
  | printed found called line =>
    cases found.symm.trans held
    refine ⟨⟨?_, ?_⟩, .inr rfl⟩
    · simp [Host.looked, Host.emit, Host.report]
    · simp [pluginsBehind, pluginsAfter, called, Host.emit, Host.report]
  | passedOver found called line =>
    cases found.symm.trans held
    refine ⟨⟨?_, ?_⟩, .inr rfl⟩
    · simp [Host.looked, Host.emit]
    · simp [pluginsBehind, pluginsAfter, called]

/-- What the entry loop does to a listing, if it ends. -/
def EntriesVisit (opendir : CString → Option (List Dirent)) (path : CString) (entries : List Dirent)
    (forest : Forest CString) : Prop :=
  ∀ flags fuel host folder fileName0 scan, FolderHeld host folder path → fileName0 < host.fresh → folder ≠ fileName0 →
    fileName0 ≠ 0 →
    readEntries (searchDir opendir flags fuel) flags folder fileName0 entries host = .ok scan →
    ∃ paths, Visited host scan.host paths ∧ Covers paths (files joinPath path forest) host.plugin

theorem Visited.opened {host : Host} (visited : Visited (host.openStream path).2.malloc.2 after paths) :
    Visited host after paths := by
  refine ⟨?_, visited.plugin⟩
  rw [visited.looked]
  simp [Host.looked, Host.openStream, Host.malloc, Host.emit]

theorem searchDir_visited (opened : opendir path = some entries) (visits : EntriesVisit opendir path entries forest)
    (holds : FolderHeld host folder path) (ran : searchDir opendir flags fuel folder host = .ok after) :
    ∃ paths, Visited host after paths ∧ Covers paths (files joinPath path forest) host.plugin := by
  cases fuel with
  | zero => simp [searchDir] at ran
  | succ fuel =>
    have below := holds.allocated
    have inside (scan : Scan) := visits flags fuel _ folder (host.fresh + 1) scan (holds.start path)
      (by show host.fresh + 1 < host.fresh + 2; omega) (by omega) (by omega)
    cases searchDir_level ran with
    | null null => exact absurd null holds.nonnull
    | refused held refused =>
      cases held.symm.trans holds.held
      cases refused.symm.trans opened
    | abandoned held listed entered =>
      cases held.symm.trans holds.held
      cases listed.symm.trans opened
      obtain ⟨paths, visited, covers⟩ := inside _ entered
      exact ⟨paths, visited.opened, covers⟩
    | finished held listed entered =>
      cases held.symm.trans holds.held
      cases listed.symm.trans opened
      obtain ⟨paths, visited, covers⟩ := inside _ entered
      refine ⟨paths, ⟨?_, visited.opened.plugin⟩, covers⟩
      rw [← visited.opened.looked]
      simp [Host.looked, Host.closedir, Host.free, Host.emit]

theorem searchDir_locked (refused : opendir path = none) (holds : FolderHeld host folder path)
    (ran : searchDir opendir flags fuel folder host = .ok after) : Visited host after [] := by
  cases fuel with
  | zero => simp [searchDir] at ran
  | succ fuel =>
    cases searchDir_level ran with
    | null null => exact absurd null holds.nonnull
    | refused held _ => exact ⟨by simp [Host.looked, Host.emit], rfl⟩
    | abandoned held listed entered =>
      cases held.symm.trans holds.held
      cases listed.symm.trans refused
    | finished held listed entered =>
      cases held.symm.trans holds.held
      cases listed.symm.trans refused

theorem EntriesVisit.file (rest : EntriesVisit opendir path entries forest) (name : CString) :
    EntriesVisit opendir path (⟨.reg, name⟩ :: entries) (.file name forest) := by
  intro flags fuel host folder fileName0 scan holds allocated apart nonnull ran
  simp only [readEntries, bind_eq_ok_iff] at ran
  obtain ⟨named, joined, outcome, checked, ran⟩ := ran
  obtain ⟨naming, fresh, text, held, written⟩ := getAbsPath_keeps joined
  cases held.symm.trans holds.held
  obtain ⟨looking, ends⟩ := checkFile_visited written checked
  have sofar := (getAbsPath_visited joined).trans looking
  have kept := naming.trans (checkFile_keeps checked).weaken
  have same : named.plugin = host.plugin := (getAbsPath_visited joined).plugin
  rcases ends with ⟨returned, failed⟩ | exhausted
  · rw [returned] at ran
    cases ran
    refine ⟨_, sofar, ?_⟩
    rw [same] at failed
    rintro (undisturbed | undisturbed)
    · exact absurd undisturbed (failed [])
    · exact absurd undisturbed (failed _)
  · rw [exhausted] at ran
    obtain ⟨paths, visited, covers⟩ := rest flags fuel outcome.host folder fileName0 scan
      (holds.advance kept apart) (lt_of_lt_of_le allocated kept.grows) apart nonnull ran
    refine ⟨_, sofar.trans visited, ?_⟩
    have first : Covers [joinPath path name] [joinPath path name] host.plugin := fun _ => rfl
    rw [sofar.plugin] at covers
    exact first.append covers

theorem EntriesVisit.directory (rest : EntriesVisit opendir path entries forest)
    (followed : name ≠ ".".toList ∧ name ≠ "..".toList)
    (child : ∀ flags fuel host buffer after, FolderHeld host buffer (joinPath path name) →
      searchDir opendir flags fuel buffer host = .ok after →
      ∃ paths, Visited host after paths ∧ Covers paths inside host.plugin)
    (split : files joinPath path whole = inside ++ files joinPath path forest) :
    EntriesVisit opendir path (⟨.dir, name⟩ :: entries) whole := by
  intro flags fuel host folder fileName0 scan holds allocated apart nonnull ran
  simp only [readEntries, if_pos followed, bind_eq_ok_iff] at ran
  obtain ⟨named, joined, inner, searched, ran⟩ := ran
  obtain ⟨naming, fresh, text, held, written⟩ := getAbsPath_keeps joined
  cases held.symm.trans holds.held
  have same : named.plugin = host.plugin := (getAbsPath_visited joined).plugin
  obtain ⟨within, looking, coversInner⟩ := child flags fuel named fileName0 inner
    ⟨written, by omega, nonnull⟩ searched
  have sofar := (getAbsPath_visited joined).trans looking
  have kept := naming.trans (searchDir_keeps searched).weaken
  obtain ⟨paths, visited, covers⟩ := rest flags fuel inner folder fileName0 scan
    (holds.advance kept apart) (lt_of_lt_of_le allocated kept.grows) apart nonnull ran
  refine ⟨_, sofar.trans visited, ?_⟩
  rw [split]
  rw [same] at coversInner
  rw [sofar.plugin] at covers
  exact coversInner.append covers

/-- The entry loop looks at the files of the tree it is shown, by induction on
the tree. -/
theorem readEntries_visits (shows : Shows opendir path entries forest) :
    EntriesVisit opendir path entries forest := by
  induction shows with
  | nil =>
    intro flags fuel host folder fileName0 scan holds allocated apart nonnull ran
    cases ran
    exact ⟨[], ⟨by simp, rfl⟩, fun _ => rfl⟩
  | file rest ih => exact ih.file _
  | folder followed opened inner rest ihInner ih =>
    refine ih.directory followed ?_ rfl
    intro flags fuel host buffer after holds ran
    exact searchDir_visited opened ihInner holds ran
  | locked followed refused rest ih =>
    refine ih.directory followed ?_ (List.nil_append _).symm
    intro flags fuel host buffer after holds ran
    exact ⟨[], searchDir_locked refused holds ran, fun _ => rfl⟩
  | dots dots rest ih =>
    intro flags fuel host folder fileName0 scan holds allocated apart nonnull ran
    rw [readEntries, if_neg dots] at ran
    exact ih flags fuel host folder fileName0 scan holds allocated apart nonnull ran
  | other rest ih =>
    intro flags fuel host folder fileName0 scan holds allocated apart nonnull ran
    exact ih flags fuel host folder fileName0 scan holds allocated apart nonnull ran

theorem searchDir_covers (shows : ShowsRoot opendir root forest) (holds : FolderHeld host folder root)
    (ran : searchDir opendir flags fuel folder host = .ok after) :
    ∃ paths, Visited host after paths ∧ Covers paths (files joinPath root forest) host.plugin := by
  cases shows with
  | refused refused => exact ⟨[], searchDir_locked refused holds ran, fun _ => rfl⟩
  | opened opened shows => exact searchDir_visited opened (readEntries_visits shows) holds ran

/-- A search of a finite tree gives back all that it and its plugin calls took,
and nothing else, exactly if no plugin call fails on a file of the tree. -/
theorem searchDir_restores_iff (shows : ShowsRoot opendir root forest) (holds : FolderHeld host folder root)
    (records : List Recorded) (observes : Observes records host.plugin) (calls : Nat)
    (ran : searchDir opendir flags fuel folder host = .ok after) (trace : after.trace = host.trace ++ events)
    (held : List Resource) (earlier : ∀ resource ∈ held, resource.Before ⟨host.fresh, calls⟩) :
    replay (ledger records events ⟨host.plugin, calls⟩).1 held = some held ↔
      Undisturbed (files joinPath root forest) host.plugin := by
  obtain ⟨more, same, leaked, stretch, clean⟩ := searchDir_leaks records opendir flags fuel folder host after calls
    observes ran
  obtain ⟨paths, visited, covers⟩ := searchDir_covers shows holds ran
  obtain rfl : events = same := List.append_cancel_left (trace.symm.trans stretch.trace)
  have looked : lookedIn events = paths := by
    have both := (looked_of_trace stretch.trace).symm.trans visited.looked
    exact List.append_cancel_left both
  rw [stretch.leaves.restores_iff (fun resource member inside => inside.1 (earlier resource member)), clean, looked,
    covers.undisturbed_iff]

end PluginSearch
