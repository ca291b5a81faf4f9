import PluginSearch.Host.SearchDir

namespace PluginSearch

open Stopping

theorem getAbsPath_eq (host : Host) (path dir : Nat) (fname : CString) :
    host.getAbsPath path dir fname = 
      host.expect ((host.heap dir).map fun folder => host.write path (joinPath folder fname)) := by
  cases held : host.heap dir with
  | none => simp [Host.getAbsPath, held]
  | some folder => simp [Host.getAbsPath, held, Host.write, Host.store, joinPath]

/-- A run of the plugin loop for one file. -/
inductive Called (fname : CString) : List Lib → Tally → List Lib × Option Tally → Prop where
  | done : Called fname [] tally ([], some tally)
  | failed (busy : lib.optsToPassLen > 0)
      (answered : lib.ppfFunc.call fname lib.optsToPass lib.optsToPassLen = some (ret, opts)) (negative : ret < 0) :
      Called fname (lib :: rest) tally ({ lib with optsToPass := opts } :: rest, none)
  | passed (busy : lib.optsToPassLen > 0)
      (answered : lib.ppfFunc.call fname lib.optsToPass lib.optsToPassLen = some (ret, opts)) (nonneg : ¬ ret < 0)
      (later : Called fname rest ⟨tally.call + 1, if ret = 1 then tally.returnTrue + 1 else tally.returnTrue⟩
        (others, last)) :
      Called fname (lib :: rest) tally ({ lib with optsToPass := opts } :: others, last)
  | idle (idle : ¬ lib.optsToPassLen > 0) (later : Called fname rest tally (others, last)) :
      Called fname (lib :: rest) tally (lib :: others, last)

theorem callPlugins_called (called : callPlugins fname libs tally = some result) :
    Called fname libs tally result := by
  induction libs generalizing tally result with
  | nil =>
    cases called
    exact .done
  | cons lib rest ih =>
    simp only [callPlugins, Option.bind_eq_bind, Option.pure_def] at called
    split at called
    · rename_i busy
      obtain ⟨⟨ret, opts⟩, answered, called⟩ := Option.bind_eq_some_iff.mp called
      split at called
      · rename_i negative
        cases called
        exact .failed busy answered negative
      · rename_i nonneg
        obtain ⟨⟨others, last⟩, later, called⟩ := Option.bind_eq_some_iff.mp called
        cases called
        exact .passed busy answered nonneg (ih later)
    · rename_i idle
      obtain ⟨⟨others, last⟩, later, called⟩ := Option.bind_eq_some_iff.mp called
      cases called
      exact .idle idle (ih later)

/-- What becomes of a regular file whose path is in the buffer. -/
inductive Checked (flags : Flags) (fileName0 : Nat) (host : Host) : Scan → Prop where
  | failed (held : host.heap fileName0 = some path)
      (called : callPlugins path host.plugin ⟨0, 0⟩ = some (plugin, none)) :
      Checked flags fileName0 host (.returned { host.emit (.checking path) with plugin := plugin })
  | printed (held : host.heap fileName0 = some path)
      (called : callPlugins path host.plugin ⟨0, 0⟩ = some (plugin, some tally))
      (line : reports flags tally = true) :
      Checked flags fileName0 host
        (.exhausted ({ host.emit (.checking path) with plugin := plugin }.report path))
  | passedOver (held : host.heap fileName0 = some path)
      (called : callPlugins path host.plugin ⟨0, 0⟩ = some (plugin, some tally))
      (line : reports flags tally = false) :
      Checked flags fileName0 host (.exhausted { host.emit (.checking path) with plugin := plugin })

theorem checkFile_checked (ran : checkFile flags fileName0 host = .ok scan) : Checked flags fileName0 host scan := by
  simp only [checkFile, bind_eq_ok_iff, Host.expect_eq_ok_iff] at ran
  obtain ⟨path, held, ⟨plugin, tally⟩, called, ran⟩ := ran
  cases tally with
  | none =>
    cases ran
    exact .failed held called
  | some tally =>
    cases ran
    cases line : reports flags tally with
    | true => exact .printed held called line
    | false => exact .passedOver held called line

/-- What the loop over `readdir` does with one entry: it returns, or is about
to read the next one. -/
inductive Entered (search : Nat → Host → Except Stopped Host) (flags : Flags) (folder fileName0 : Nat) :
    Dirent → Host → Scan → Prop where
  | file (joined : host.getAbsPath fileName0 folder name = .ok named)
      (checked : checkFile flags fileName0 named = .ok scan) :
      Entered search flags folder fileName0 ⟨.reg, name⟩ host scan
  | directory (joined : host.getAbsPath fileName0 folder name = .ok named)
      (searched : search fileName0 named = .ok child) :
      Entered search flags folder fileName0 ⟨.dir, name⟩ host (.exhausted child)
  | skipped : Entered search flags folder fileName0 entry host (.exhausted host)

section Loop

variable {search : Nat → Host → Except Stopped Host} {flags : Flags} {folder fileName0 : Nat} {scan : Scan}

theorem readEntries_entered
    (ran : readEntries search flags folder fileName0 (entry :: rest) host = .ok scan) :
    (∃ last, scan = .returned last ∧ Entered search flags folder fileName0 entry host scan) ∨
    ∃ next, Entered search flags folder fileName0 entry host (.exhausted next) ∧
      readEntries search flags folder fileName0 rest next = .ok scan := by
  obtain ⟨dType, dName⟩ := entry
  cases dType with
  | reg =>
    simp only [readEntries, bind_eq_ok_iff] at ran
    obtain ⟨named, joined, outcome, checked, ran⟩ := ran
    cases outcome with
    | returned last =>
      cases ran
      exact .inl ⟨last, rfl, .file joined checked⟩
    | exhausted last => exact .inr ⟨last, .file joined checked, ran⟩
  | dir =>
    simp only [readEntries] at ran
    split at ran
    · simp only [bind_eq_ok_iff] at ran
      obtain ⟨named, joined, child, searched, ran⟩ := ran
      exact .inr ⟨child, .directory joined searched, ran⟩
    · exact .inr ⟨host, .skipped, ran⟩
  | other => exact .inr ⟨host, .skipped, ran⟩

/-- What holds across every single entry, and composes, holds across the loop. -/
theorem readEntries_relates (relates : Host → Host → Prop) (refl : ∀ host, relates host host)
    (trans : ∀ before middle after, relates before middle → relates middle after → relates before after)
    (enters : ∀ entry host scan, Entered search flags folder fileName0 entry host scan → relates host scan.host)
    (entries : List Dirent) (ran : readEntries search flags folder fileName0 entries host = .ok scan) :
    relates host scan.host := by
  induction entries generalizing host with
  | nil =>
    cases ran
    exact refl host
  | cons entry rest ih =>
    rcases readEntries_entered ran with ⟨_, _, entered⟩ | ⟨next, entered, later⟩
    · exact enters entry host scan entered
    · exact trans host next scan.host (enters entry host _ entered) (ih later)

end Loop

/-- What one level of the recursion does. -/
inductive Level (opendir : CString → Option (List Dirent)) (flags : Flags) (fuel folder : Nat) (host : Host) :
    Host → Prop where
  | null (null : folder = 0) : Level opendir flags fuel folder host host
  | refused (held : host.heap folder = some path) (refused : opendir path = none) :
      Level opendir flags fuel folder host (host.emit (.refusedDir path))
  | abandoned (held : host.heap folder = some path) (opened : opendir path = some entries)
      (entered : readEntries (searchDir opendir flags fuel) flags folder (host.fresh + 1) entries
        (host.openStream path).2.malloc.2 = .ok (.returned after)) :
      Level opendir flags fuel folder host after
  | finished (held : host.heap folder = some path) (opened : opendir path = some entries)
      (entered : readEntries (searchDir opendir flags fuel) flags folder (host.fresh + 1) entries
        (host.openStream path).2.malloc.2 = .ok (.exhausted last)) :
      Level opendir flags fuel folder host ((last.free (host.fresh + 1)).closedir host.fresh)

theorem searchDir_level (ran : searchDir opendir flags (fuel + 1) folder host = .ok after) :
    Level opendir flags fuel folder host after := by
  simp only [searchDir] at ran
  split at ran
  · rename_i null
    cases ran
    exact .null null
  · simp only [bind_eq_ok_iff, Host.expect_eq_ok_iff] at ran
    obtain ⟨path, held, ran⟩ := ran
    cases listed : opendir path with
    | none =>
      simp only [listed] at ran
      cases ran
      exact .refused held listed
    | some entries =>
      simp only [listed, bind_eq_ok_iff] at ran
      obtain ⟨scan, entered, ran⟩ := ran
      cases scan with
      | returned last =>
        cases ran
        exact .abandoned held listed entered
      | exhausted last =>
        cases ran
        exact .finished held listed entered

end PluginSearch
