import PluginSearch.Basis.Forest
import PluginSearch.Host.Steps
import PluginSearch.Host.Verdict

/-! The search refines the depth-first scan of a finite directory tree: the
path buffers of the recursion never disturb each other, so every folder is
opened and every file is checked under the path made of its ancestors' names. -/

namespace PluginSearch

open Stopping
open Forest (checked files reported)

/-- What `opendir` and `readdir` show below a folder is this finite tree. The
entries `.` and `..` are directories that are not followed. -/
inductive Shows (opendir : CString → Option (List Dirent)) :
    CString → List Dirent → Forest CString → Prop where
  | nil : Shows opendir path [] .nil
  | file (rest : Shows opendir path entries forest) :
      Shows opendir path (⟨.reg, name⟩ :: entries) (.file name forest)
  | folder (followed : name ≠ ".".toList ∧ name ≠ "..".toList)
      (opened : opendir (joinPath path name) = some inside)
      (inner : Shows opendir (joinPath path name) inside below)
      (rest : Shows opendir path entries forest) :
      Shows opendir path (⟨.dir, name⟩ :: entries) (.folder name below forest)
  | locked (followed : name ≠ ".".toList ∧ name ≠ "..".toList)
      (refused : opendir (joinPath path name) = none) (rest : Shows opendir path entries forest) :
      Shows opendir path (⟨.dir, name⟩ :: entries) (.locked name forest)
  | dots (dots : ¬ (name ≠ ".".toList ∧ name ≠ "..".toList)) (rest : Shows opendir path entries forest) :
      Shows opendir path (⟨.dir, name⟩ :: entries) (.skipped name forest)
  | other (rest : Shows opendir path entries forest) :
      Shows opendir path (⟨.other, name⟩ :: entries) (.skipped name forest)

/-- The tree below a root folder; a root that cannot be opened shows nothing. -/
inductive ShowsRoot (opendir : CString → Option (List Dirent)) (root : CString) : Forest CString → Prop where
  | refused (refused : opendir root = none) : ShowsRoot opendir root .nil
  | opened (opened : opendir root = some entries) (shows : Shows opendir root entries forest) :
      ShowsRoot opendir root forest

def shown (flags : Flags) (plugins : List Plugin) (paths : List CString) : List CString :=
  paths.filter (fun path => judge flags plugins path == some true)

/-- A stretch of the search that looked at these files: it printed and counted
those judged so, and kept the strings of the `kept` buffers it found. -/
structure Searched (flags : Flags) (plugins : List Plugin) (kept : Nat → Prop) (before after : Host)
    (paths : List CString) : Prop where
  loaded : Loaded after.plugin plugins
  grows : before.fresh ≤ after.fresh
  frame : ∀ buffer, buffer < before.fresh → kept buffer → after.heap buffer = before.heap buffer
  looked : after.looked = before.looked ++ paths
  lines : after.lines = before.lines ++ shown flags plugins paths
  count : after.count = before.count + (shown flags plugins paths).length

theorem Searched.trans (first : Searched flags plugins kept before middle one)
    (second : Searched flags plugins kept middle after two) :
    Searched flags plugins kept before after (one ++ two) where
  loaded := second.loaded
  grows := first.grows.trans second.grows
  frame := fun buffer allocated keep =>
    (second.frame buffer (lt_of_lt_of_le allocated first.grows) keep).trans (first.frame buffer allocated keep)
  looked := by rw [second.looked, first.looked, List.append_assoc]
  lines := by rw [second.lines, first.lines, shown, shown, shown, List.filter_append, List.append_assoc]
  count := by
    rw [second.count, first.count, shown, shown, shown, List.filter_append, List.length_append, Nat.add_assoc]

theorem Searched.weaken (searched : Searched flags plugins (fun _ => True) before after paths) :
    Searched flags plugins kept before after paths :=
  { searched with frame := fun buffer allocated _ => searched.frame buffer allocated trivial }

theorem Searched.outside (searched : Searched flags plugins (· ≠ buffer) before after paths)
    (unused : before.fresh ≤ buffer) : Searched flags plugins kept before after paths :=
  { searched with frame := fun other allocated _ => searched.frame other allocated (by omega) }

/-- A call of the search may start: the folder's path is in an allocated buffer
and the plugin array is loaded. -/
structure Ready (host : Host) (folder : Nat) (path : CString) (plugins : List Plugin) : Prop where
  held : host.heap folder = some path
  allocated : folder < host.fresh
  nonnull : folder ≠ 0
  loaded : Loaded host.plugin plugins

theorem Ready.advance (ready : Ready before folder path plugins)
    (searched : Searched flags plugins kept before after paths) (keep : kept folder) :
    Ready after folder path plugins :=
  ⟨(searched.frame folder ready.allocated keep).trans ready.held,
    lt_of_lt_of_le ready.allocated searched.grows, ready.nonnull, searched.loaded⟩

theorem getAbsPath_searched (ready : Ready host folder path plugins) (apart : folder ≠ fileName0)
    (flags : Flags) (name : CString) :
    ∃ after, host.getAbsPath fileName0 folder name = .ok after ∧
      after.heap fileName0 = some (joinPath path name) ∧ after.fresh = host.fresh ∧
      Ready after folder path plugins ∧ Searched flags plugins (· ≠ fileName0) host after [] := by
  refine ⟨host.write fileName0 (joinPath path name), ?_, ?_, rfl,
    ⟨?_, ready.allocated, ready.nonnull, ready.loaded⟩, ?_⟩
  · rw [getAbsPath_eq, ready.held]
    rfl
  · simp [Host.write, Host.store, Host.emit]
  · simpa [Host.write, Host.store, Host.emit, Function.update_of_ne apart] using ready.held
  · refine ⟨ready.loaded, Nat.le_refl _, ?_, ?_, ?_, ?_⟩
    · intro buffer _ other
      simp [Host.write, Host.store, Host.emit, Function.update_of_ne other]
    · simp [Host.looked, Host.write, Host.store, Host.emit]
    · simp [Host.lines, Host.write, Host.store, Host.emit, shown]
    · simp [Host.write, Host.store, Host.emit, shown]

theorem checkFile_searched (kept : Nat → Prop) (held : host.heap fileName0 = some path)
    (loaded : Loaded host.plugin plugins)
    (flags : Flags) :
    ∃ scan, checkFile flags fileName0 host = .ok scan ∧ Searched flags plugins kept host scan.host [path] ∧
      ((judge flags plugins path = none ∧ scan = .returned scan.host) ∨
        (judge flags plugins path ≠ none ∧ scan = .exhausted scan.host)) := by
  obtain ⟨scan, ran, loaded, heap, fresh, looked, result⟩ := checkFile_loaded held loaded flags
  have frame : ∀ buffer, buffer < host.fresh → kept buffer → scan.host.heap buffer = host.heap buffer :=
    fun buffer _ _ => by rw [heap]
  cases verdict : judge flags plugins path with
  | none =>
    simp only [verdict] at result
    exact ⟨scan, ran, ⟨loaded, fresh.ge, frame, looked, by simp [result.2.1, shown, verdict],
      by simp [result.2.2, shown, verdict]⟩, .inl ⟨rfl, result.1⟩⟩
  | some decision =>
    cases decision with
    | true =>
      simp only [verdict] at result
      exact ⟨scan, ran, ⟨loaded, fresh.ge, frame, looked, by simp [result.2.1, shown, verdict],
        by simp [result.2.2, shown, verdict]⟩, .inr ⟨by simp, result.1⟩⟩
    | false =>
      simp only [verdict] at result
      exact ⟨scan, ran, ⟨loaded, fresh.ge, frame, looked, by simp [result.2.1, shown, verdict],
        by simp [result.2.2, shown, verdict]⟩, .inr ⟨by simp, result.1⟩⟩

/-- What the entry loop does to a listing, at a given recursion bound. -/
def EntriesRefine (opendir : CString → Option (List Dirent)) (flags : Flags) (plugins : List Plugin)
    (path : CString) (entries : List Dirent) (forest : Forest CString) (fuel : Nat) : Prop :=
  ∀ host folder fileName0, Ready host folder path plugins → fileName0 < host.fresh →
    folder ≠ fileName0 → fileName0 ≠ 0 →
    ∃ scan, readEntries (searchDir opendir flags fuel) flags folder fileName0 entries host = .ok scan ∧
      Searched flags plugins (· ≠ fileName0) host scan.host
        (checked joinPath (judge flags plugins) path forest)

/-- Opening a folder adds a stream and a buffer of its own; the caller's
buffers, its folder among them, come back unchanged. -/
theorem searchDir_opened (opened : opendir path = some entries)
    (refines : EntriesRefine opendir flags plugins path entries forest fuel)
    (ready : Ready host folder path plugins) :
    ∃ after, searchDir opendir flags (fuel + 1) folder host = .ok after ∧
      Searched flags plugins (fun _ => True) host after
        (checked joinPath (judge flags plugins) path forest) := by
  let started := (host.openStream path).2.malloc
  have fresh : started.1 = host.fresh + 1 := rfl
  have begun : Searched flags plugins (fun _ => True) host started.2 [] := by
    refine ⟨ready.loaded, ?_, fun _ _ _ => rfl, ?_, ?_, rfl⟩
    · show host.fresh ≤ host.fresh + 1 + 1
      omega
    · simp [started, Host.looked, Host.openStream, Host.malloc, Host.emit]
    · simp [started, Host.lines, Host.openStream, Host.malloc, Host.emit, shown]
  have readyStarted : Ready started.2 folder path plugins :=
    ⟨ready.held, lt_of_lt_of_le ready.allocated begun.grows, ready.nonnull, ready.loaded⟩
  have allocated := ready.allocated
  obtain ⟨scan, ran, searched⟩ := refines started.2 folder started.1 readyStarted
    (by show host.fresh + 1 < host.fresh + 1 + 1; omega) (by omega) (by omega)
  have entered : readEntries (searchDir opendir flags fuel) flags folder (host.openStream path).2.malloc.1 entries
      (host.openStream path).2.malloc.2 = .ok scan := ran
  have inner : Searched flags plugins (fun _ => True) host scan.host
      (checked joinPath (judge flags plugins) path forest) :=
    (begun.weaken.trans searched).outside (by omega)
  cases scan with
  | returned last =>
    refine ⟨last, ?_, inner⟩
    simp [searchDir, ready.nonnull, ready.held, opened, entered]
  | exhausted last =>
    refine ⟨(last.free started.1).closedir (host.openStream path).1, ?_, ?_⟩
    · simp [searchDir, ready.nonnull, ready.held, opened, entered, started]
    · refine ⟨inner.loaded, inner.grows, ?_, ?_, ?_, inner.count⟩
      · intro buffer below keep
        have other : buffer ≠ started.1 := by omega
        simpa [Host.closedir, Host.free, Host.emit, Function.update_of_ne other] using
          inner.frame buffer below keep
      · simpa [Host.looked, Host.closedir, Host.free, Host.emit] using inner.looked
      · simpa [Host.lines, Host.closedir, Host.free, Host.emit] using inner.lines

theorem searchDir_refused (refused : opendir path = none) (ready : Ready host folder path plugins)
    (flags : Flags) (fuel : Nat) :
    ∃ after, searchDir opendir flags (fuel + 1) folder host = .ok after ∧
      Searched flags plugins (fun _ => True) host after [] := by
  refine ⟨host.emit (.refusedDir path), ?_, ready.loaded, Nat.le_refl _, fun _ _ _ => rfl, ?_, ?_, rfl⟩
  · simp [searchDir, ready.nonnull, ready.held, refused]
  · simp [Host.looked, Host.emit]
  · simp [Host.lines, Host.emit, shown]

theorem EntriesRefine.file (rest : EntriesRefine opendir flags plugins path entries forest fuel) (name : CString) :
    EntriesRefine opendir flags plugins path (⟨.reg, name⟩ :: entries) (.file name forest) fuel := by
  intro host folder fileName0 ready allocated apart nonnull
  obtain ⟨named, joined, held, fresh, readyNamed, naming⟩ := getAbsPath_searched ready apart flags name
  obtain ⟨scan, ran, looking, outcome⟩ := checkFile_searched (· ≠ fileName0) held readyNamed.loaded flags
  have sofar := naming.trans looking
  rcases outcome with ⟨failed, returned⟩ | ⟨judged, exhausted⟩
  · refine ⟨scan, ?_, ?_⟩
    · rw [returned] at ran ⊢
      simp [readEntries, joined, ran]
    · simpa [checked, failed] using sofar
  · obtain ⟨last, later, searched⟩ := rest scan.host folder fileName0
      (readyNamed.advance looking apart) (lt_of_lt_of_le allocated sofar.grows) apart nonnull
    refine ⟨last, ?_, ?_⟩
    · rw [exhausted] at ran
      simp [readEntries, joined, ran, later]
    · simpa [checked, Option.isNone_iff_eq_none, judged] using sofar.trans searched

/-- A subfolder: its path is written to the buffer of this level, which the
child reads as its own folder, and the loop goes on behind it. -/
theorem EntriesRefine.directory (rest : EntriesRefine opendir flags plugins path entries forest fuel)
    (followed : name ≠ ".".toList ∧ name ≠ "..".toList)
    (child : ∀ host buffer, Ready host buffer (joinPath path name) plugins →
      ∃ after, searchDir opendir flags fuel buffer host = .ok after ∧
        Searched flags plugins (fun _ => True) host after paths)
    (split : checked joinPath (judge flags plugins) path whole =
      paths ++ checked joinPath (judge flags plugins) path forest) :
    EntriesRefine opendir flags plugins path (⟨.dir, name⟩ :: entries) whole fuel := by
  intro host folder fileName0 ready allocated apart nonnull
  obtain ⟨named, joined, held, fresh, readyNamed, naming⟩ := getAbsPath_searched ready apart flags name
  obtain ⟨inner, ran, inside⟩ := child named fileName0 ⟨held, by omega, nonnull, readyNamed.loaded⟩
  have sofar := naming.trans inside.weaken
  obtain ⟨last, later, searched⟩ := rest inner folder fileName0
    (readyNamed.advance inside trivial) (lt_of_lt_of_le allocated sofar.grows) apart nonnull
  refine ⟨last, ?_, ?_⟩
  · simp only [readEntries, if_pos followed, joined, ok_bind, ran, later]
  · simpa [split] using sofar.trans searched

/-- The entry loop refines the scan of the tree it is shown, by induction on
the tree: each subfolder is searched with one level of recursion less. -/
theorem readEntries_refines (shows : Shows opendir path entries forest) (flags : Flags) (plugins : List Plugin) :
    ∀ fuel, forest.depth ≤ fuel → EntriesRefine opendir flags plugins path entries forest fuel := by
  induction shows with
  | nil =>
    intro fuel enough host folder fileName0 ready _ _ _
    exact ⟨.exhausted host, rfl, ready.loaded, Nat.le_refl _, fun _ _ _ => rfl, by simp [Scan.host, checked],
      by simp [Scan.host, checked, shown], by simp [Scan.host, checked, shown]⟩
  | file rest ih =>
    intro fuel enough
    exact (ih fuel enough).file _
  | folder followed opened inner rest ihInner ih =>
    intro fuel enough
    simp only [Forest.depth, sup_le_iff] at enough
    obtain ⟨less, rfl⟩ : ∃ less, fuel = less + 1 := ⟨fuel - 1, by omega⟩
    refine (ih (less + 1) enough.2).directory followed (fun host buffer ready => ?_) rfl
    exact searchDir_opened opened (ihInner less (by omega)) ready
  | locked followed refused rest ih =>
    intro fuel enough
    simp only [Forest.depth, sup_le_iff] at enough
    obtain ⟨less, rfl⟩ : ∃ less, fuel = less + 1 := ⟨fuel - 1, by omega⟩
    refine (ih (less + 1) enough.2).directory followed (fun host buffer ready => ?_) (List.nil_append _).symm
    exact searchDir_refused refused ready flags less
  | dots dots rest ih =>
    intro fuel enough host folder fileName0 ready allocated apart nonnull
    obtain ⟨last, later, searched⟩ := ih fuel enough host folder fileName0 ready allocated apart nonnull
    exact ⟨last, by simpa only [readEntries, if_neg dots] using later, searched⟩
  | other rest ih =>
    intro fuel enough host folder fileName0 ready allocated apart nonnull
    obtain ⟨last, later, searched⟩ := ih fuel enough host folder fileName0 ready allocated apart nonnull
    exact ⟨last, by simpa [readEntries] using later, searched⟩

/-- The whole search of a finite tree terminates and refines its scan. -/
theorem searchDir_refines (shows : ShowsRoot opendir root forest) (ready : Ready host folder root plugins)
    (flags : Flags) (enough : forest.depth < fuel) :
    ∃ after, searchDir opendir flags fuel folder host = .ok after ∧
      Searched flags plugins (fun _ => True) host after
        (checked joinPath (judge flags plugins) root forest) := by
  obtain ⟨less, rfl⟩ : ∃ less, fuel = less + 1 := ⟨fuel - 1, by omega⟩
  cases shows with
  | refused refused => exact searchDir_refused refused ready flags less
  | opened opened shows =>
    exact searchDir_opened opened (readEntries_refines shows flags plugins less (by omega)) ready

end PluginSearch
