import PluginSearch.Basis.Ledger
import PluginSearch.Host.Steps
import PluginSearch.Host.Verdict

/-! What a search holds open: its directory streams and path buffers, and the
descriptors and mappings of the plugin calls it makes. The events of a run are
read as a ledger, and a run gives everything back unless a file fails. -/

namespace PluginSearch

open Ledger

/-- A stream or buffer under the number the search gave it, a descriptor or
mapping under the number of the plugin call that made it. -/
inductive Resource where
  | stream (number : Nat)
  | buffer (number : Nat)
  | descriptor (call : Nat)
  | mapping (call : Nat)
  deriving DecidableEq, Repr

/-- The numbers in use at some point of a run. -/
structure Mark where
  fresh : Nat
  calls : Nat

def Resource.Before (mark : Mark) : Resource → Prop
  | .stream number => number < mark.fresh
  | .buffer number => number < mark.fresh
  | .descriptor call => call < mark.calls
  | .mapping call => call < mark.calls

def Span (start stop : Mark) (resource : Resource) : Prop := ¬ resource.Before start ∧ resource.Before stop

theorem Resource.Before.mono {resource : Resource} (before : resource.Before mark)
    (fresh : mark.fresh ≤ later.fresh) (calls : mark.calls ≤ later.calls) : resource.Before later := by
  cases resource with
  | stream number => exact lt_of_lt_of_le before fresh
  | buffer number => exact lt_of_lt_of_le before fresh
  | descriptor call => exact lt_of_lt_of_le before calls
  | mapping call => exact lt_of_lt_of_le before calls

def PluginEvent.entry (call : Nat) : PluginEvent → Option (Entry Resource)
  | .opened => some (.acquire (.descriptor call))
  | .closed => some (.release (.descriptor call))
  | .mapped => some (.acquire (.mapping call))
  | .unmapped => some (.release (.mapping call))
  | .wrote _ _ _ => none
  | .searched _ _ => none

def callEntries (call : Nat) (events : List PluginEvent) : List (Entry Resource) :=
  events.filterMap (PluginEvent.entry call)

def OfCall (call : Nat) (resource : Resource) : Prop := resource = .descriptor call ∨ resource = .mapping call

/-- A plugin function with a record of what its calls do. A call that does not
fail holds nothing when it returns. -/
structure Recorded where
  func : PpfFunc
  events : CString → List Opt → List PluginEvent
  accounts : ∀ fname opts ret after, func.call fname opts opts.length = some (ret, after) → ∀ call, ∃ leaked,
    Leaves (OfCall call) (callEntries call (events fname opts)) leaked ∧ (0 ≤ ret → leaked = [])

def Recorded.unobserved (func : PpfFunc) : Recorded where
  func := func
  events := fun _ _ => []
  accounts := fun _ _ _ _ _ _ => ⟨[], .nil, fun _ => rfl⟩

/-- The records are those of the loaded plugins, whatever their options are. -/
def Observes (records : List Recorded) (libs : List Lib) : Prop :=
  libs.map Lib.ppfFunc = records.map Recorded.func

theorem Observes.uncons (observes : Observes records (lib :: rest)) :
    ∃ recorded others, records = recorded :: others ∧ lib.ppfFunc = recorded.func ∧ Observes others rest := by
  cases records with
  | nil => simp [Observes] at observes
  | cons recorded others => exact ⟨recorded, others, rfl, by simpa [Observes] using observes⟩

/-- The calls that the plugin loop makes for one file, as `callPlugins` does. -/
def loopCalls (fname : CString) : List Recorded → List Lib → List (List PluginEvent)
  | recorded :: records, lib :: rest =>
    if lib.optsToPassLen > 0 then
      recorded.events fname lib.optsToPass ::
        match lib.ppfFunc.call fname lib.optsToPass lib.optsToPassLen with
        | some (ret, _) => if ret < 0 then [] else loopCalls fname records rest
        | none => []
    else loopCalls fname records rest
  | _, _ => []

theorem loopCalls_passed (busy : lib.optsToPassLen > 0)
    (answered : lib.ppfFunc.call fname lib.optsToPass lib.optsToPassLen = some (ret, opts)) (nonneg : ¬ ret < 0) :
    loopCalls fname (recorded :: records) (lib :: rest) =
      recorded.events fname lib.optsToPass :: loopCalls fname records rest := by
  simp [loopCalls, busy, answered, nonneg]

def numbered : Nat → List (List PluginEvent) → List (Entry Resource)
  | _, [] => []
  | call, events :: rest => callEntries call events ++ numbered (call + 1) rest

def pluginsAfter (fname : CString) (libs : List Lib) : List Lib :=
  ((callPlugins fname libs ⟨0, 0⟩).map Prod.fst).getD libs

structure Progress where
  plugin : List Lib
  calls : Nat

/-- What one event of a run adds to its ledger; a file that is checked stands
for the plugin calls about it. -/
def Event.account (records : List Recorded) (progress : Progress) : Event → List (Entry Resource) × Progress
  | .openedDir stream _ => ([.acquire (.stream stream)], progress)
  | .closedDir stream => ([.release (.stream stream)], progress)
  | .allocated buffer => ([.acquire (.buffer buffer)], progress)
  | .freed buffer => ([.release (.buffer buffer)], progress)
  | .checking path =>
    (numbered progress.calls (loopCalls path records progress.plugin),
      ⟨pluginsAfter path progress.plugin, progress.calls + (loopCalls path records progress.plugin).length⟩)
  | .refusedDir _ => ([], progress)
  | .wrote _ _ => ([], progress)
  | .printed _ => ([], progress)

/-- The ledger of a run, from its events and the plugins it started with. -/
def ledger (records : List Recorded) : List Event → Progress → List (Entry Resource) × Progress
  | [], progress => ([], progress)
  | event :: rest, progress =>
    let (entries, next) := event.account records progress
    let (more, last) := ledger records rest next
    (entries ++ more, last)

theorem ledger_append (records : List Recorded) (first second : List Event) (progress : Progress) :
    ledger records (first ++ second) progress =
      ((ledger records first progress).1 ++ (ledger records second (ledger records first progress).2).1,
        (ledger records second (ledger records first progress).2).2) := by
  induction first generalizing progress with
  | nil => rfl
  | cons event rest ih => simp [ledger, ih]

def lookedIn (events : List Event) : List CString := Host.looked ⟨fun _ => none, 0, [], 0, events⟩

theorem lookedIn_append (first second : List Event) :
    lookedIn (first ++ second) = lookedIn first ++ lookedIn second := by
  simp [lookedIn, Host.looked]

theorem looked_of_trace {before after : Host} (trace : after.trace = before.trace ++ events) :
    after.looked = before.looked ++ lookedIn events := by
  simp [Host.looked, trace, lookedIn]

/-- No plugin call fails when these files are checked one after the other, each
with the option arrays that the calls before it left. -/
def Undisturbed : List CString → List Lib → Prop
  | [], _ => True
  | path :: rest, libs =>
    (∃ after tally, callPlugins path libs ⟨0, 0⟩ = some (after, some tally)) ∧
      Undisturbed rest (pluginsAfter path libs)

def pluginsBehind (paths : List CString) (libs : List Lib) : List Lib :=
  paths.foldl (fun libs path => pluginsAfter path libs) libs

theorem undisturbed_append (first second : List CString) (libs : List Lib) :
    Undisturbed (first ++ second) libs ↔ Undisturbed first libs ∧ Undisturbed second (pluginsBehind first libs) := by
  induction first generalizing libs with
  | nil => simp [Undisturbed, pluginsBehind]
  | cons path rest ih =>
    simp only [List.cons_append, Undisturbed, ih, and_assoc]
    rfl

theorem ledger_plugin (records : List Recorded) (events : List Event) (progress : Progress) :
    (ledger records events progress).2.plugin = pluginsBehind (lookedIn events) progress.plugin := by
  induction events generalizing progress with
  | nil => rfl
  | cons event rest ih => cases event <;> simp [ledger, ih, Event.account, lookedIn, Host.looked, pluginsBehind]

instance : LE Mark := ⟨fun one two => one.fresh ≤ two.fresh ∧ one.calls ≤ two.calls⟩

/-- Two stretches of a run number different resources. -/
theorem leaves_span {one two three : Mark} (first : Leaves (Span one two) early leakedEarly)
    (second : Leaves (Span two three) late leakedLate) (upTo : one ≤ two) (further : two ≤ three) :
    Leaves (Span one three) (early ++ late) (leakedLate ++ leakedEarly) := by
  refine (first.append second fun resource inside beyond => beyond.1 inside.2).widen ?_
  intro resource covered
  rcases covered with inside | beyond
  · exact ⟨inside.1, inside.2.mono further.1 further.2⟩
  · exact ⟨fun before => beyond.1 (before.mono upTo.1 upTo.2), beyond.2⟩

theorem OfCall.span (owned : OfCall call resource) (fresh : Nat) :
    Span ⟨fresh, call⟩ ⟨fresh, call + 1⟩ resource := by
  rcases owned with rfl | rfl
  · exact ⟨Nat.lt_irrefl call, Nat.lt_succ_self call⟩
  · exact ⟨Nat.lt_irrefl call, Nat.lt_succ_self call⟩

theorem Called.funcs (called : Called fname libs tally result) :
    result.1.map Lib.ppfFunc = libs.map Lib.ppfFunc := by
  induction called with
  | done => rfl
  | failed => rfl
  | passed busy answered nonneg later ih => rw [List.map_cons, List.map_cons, ih]
  | idle idle later ih => rw [List.map_cons, List.map_cons, ih]

theorem Called.leaves (called : Called fname libs tally result) (records : List Recorded)
    (observes : Observes records libs) (fresh call : Nat) :
    ∃ leaked, Leaves (Span ⟨fresh, call⟩ ⟨fresh, call + (loopCalls fname records libs).length⟩)
        (numbered call (loopCalls fname records libs)) leaked ∧ (result.2 ≠ none → leaked = []) := by
  induction called generalizing records call with
  | done =>
    refine ⟨[], ?_, fun _ => rfl⟩
    cases records <;> exact .nil
  | failed busy answered negative =>
    obtain ⟨recorded, records, rfl, own, others⟩ := observes.uncons
    obtain ⟨mine, leaves, fine⟩ := recorded.accounts fname _ _ _ (own ▸ answered) call
    have first := leaves.widen fun resource owned => owned.span fresh
    refine ⟨mine, ?_, fun judged => absurd rfl judged⟩
    simpa [loopCalls, busy, answered, negative, numbered] using first
  | passed busy answered nonneg later ih =>
    obtain ⟨recorded, records, rfl, own, others⟩ := observes.uncons
    obtain ⟨mine, leaves, fine⟩ := recorded.accounts fname _ _ _ (own ▸ answered) call
    have first := leaves.widen fun resource owned => owned.span fresh
    obtain ⟨leaked, leavesRest, clean⟩ := ih records others (call + 1)
    refine ⟨leaked ++ mine, ?_, ?_⟩
    · rw [loopCalls_passed busy answered nonneg, numbered, List.length_cons, Nat.add_comm _ 1, ← Nat.add_assoc]
      exact leaves_span first leavesRest ⟨Nat.le_refl _, Nat.le_succ _⟩ ⟨Nat.le_refl _, Nat.le_add_right _ _⟩
    · intro judged
      rw [clean judged, fine (not_lt.mp nonneg), List.append_nil]
  | idle idle later ih =>
    obtain ⟨recorded, records, rfl, own, others⟩ := observes.uncons
    simpa [loopCalls, idle] using ih records others call

/-- A stretch of a run between two states, with the events it adds, the number
of plugin calls before and behind it, and what its ledger leaves held. -/
structure Stretch (records : List Recorded) (before : Host) (calls : Nat) (after : Host) (more : Nat)
    (events : List Event) (leaked : List Resource) : Prop where
  trace : after.trace = before.trace ++ events
  grows : (⟨before.fresh, calls⟩ : Mark) ≤ ⟨after.fresh, more⟩
  observes : Observes records after.plugin
  threads : (ledger records events ⟨before.plugin, calls⟩).2 = ⟨after.plugin, more⟩
  leaves : Leaves (Span ⟨before.fresh, calls⟩ ⟨after.fresh, more⟩) (ledger records events ⟨before.plugin, calls⟩).1
    leaked

theorem Stretch.nil (observes : Observes records host.plugin) (calls : Nat) :
    Stretch records host calls host calls [] [] :=
  ⟨by simp, ⟨Nat.le_refl _, Nat.le_refl _⟩, observes, rfl, .nil⟩

theorem Stretch.trans (first : Stretch records before calls middle more early leakedEarly)
    (second : Stretch records middle more after most late leakedLate) :
    Stretch records before calls after most (early ++ late) (leakedLate ++ leakedEarly) where
  trace := by rw [second.trace, first.trace, List.append_assoc]
  grows := ⟨first.grows.1.trans second.grows.1, first.grows.2.trans second.grows.2⟩
  observes := second.observes
  threads := by rw [ledger_append, first.threads, second.threads]
  leaves := by
    rw [ledger_append, first.threads]
    exact leaves_span first.leaves second.leaves first.grows second.grows

theorem Stretch.silent (before after : Host) (observes : Observes records before.plugin)
    (event : Event) (trace : after.trace = before.trace ++ [event]) (fresh : after.fresh = before.fresh)
    (plugin : after.plugin = before.plugin)
    (unaccounted : ∀ progress, event.account records progress = ([], progress)) (calls : Nat) :
    Stretch records before calls after calls [event] [] := by
  have alone : ledger records [event] ⟨before.plugin, calls⟩ = ([], ⟨before.plugin, calls⟩) := by
    simp [ledger, unaccounted]
  exact ⟨trace, ⟨fresh.ge, Nat.le_refl _⟩, plugin ▸ observes, by rw [alone, plugin], by rw [alone]; exact .nil⟩

theorem getAbsPath_stretch {host : Host} (joined : host.getAbsPath path dir fname = .ok after)
    (observes : Observes records host.plugin) (calls : Nat) :
    ∃ text, Stretch records host calls after calls [.wrote path text] [] := by
  rw [getAbsPath_eq, Host.expect_eq_ok_iff, Option.map_eq_some_iff] at joined
  obtain ⟨folder, _, rfl⟩ := joined
  refine ⟨joinPath folder fname, .silent host _ observes (.wrote path (joinPath folder fname)) ?_ ?_ ?_
    (fun _ => rfl) calls⟩
  · rfl
  · rfl
  · rfl

theorem Stretch.behind (stretch : Stretch records before calls after more events leaked) :
    after.plugin = pluginsBehind (lookedIn events) before.plugin := by
  have same := ledger_plugin records events ⟨before.plugin, calls⟩
  rw [stretch.threads] at same
  exact same

/-- How a stretch of the entry loop ends: it returns only behind a file that
failed, and otherwise leaks exactly if a file failed in a folder below. -/
def Scan.Tells (scan : Scan) (leaked : List Resource) (undisturbed : Prop) : Prop :=
  match scan with
  | .returned _ => ¬ undisturbed
  | .exhausted _ => leaked = [] ↔ undisturbed

theorem callPlugins_stretch {host : Host} (called : callPlugins path host.plugin ⟨0, 0⟩ = some (plugin, outcome))
    (observes : Observes records host.plugin) (calls : Nat) :
    ∃ more leaked, Stretch records host calls { host.emit (.checking path) with plugin := plugin } more
      [.checking path] leaked ∧ (outcome ≠ none → leaked = []) := by
  have loop := callPlugins_called called
  have behind : pluginsAfter path host.plugin = plugin := by simp [pluginsAfter, called]
  obtain ⟨leaked, leaves, clean⟩ := loop.leaves records observes host.fresh calls
  refine ⟨calls + (loopCalls path records host.plugin).length, leaked, ?_, clean⟩
  refine ⟨rfl, ⟨Nat.le_refl _, Nat.le_add_right _ _⟩, loop.funcs.trans observes, ?_, ?_⟩
  · simp [ledger, Event.account, behind]
  · simpa [ledger, Event.account, Host.emit] using leaves

theorem checkFile_stretch (ran : checkFile flags fileName0 host = .ok scan) (observes : Observes records host.plugin)
    (calls : Nat) :
    ∃ more events leaked, Stretch records host calls scan.host more events leaked ∧
      scan.Tells leaked (Undisturbed (lookedIn events) host.plugin) := by
  cases checkFile_checked ran with
  | failed held called =>
    obtain ⟨more, leaked, checking, _⟩ := callPlugins_stretch called observes calls
    exact ⟨_, _, _, checking, by simp [Scan.Tells, lookedIn, Host.looked, Undisturbed, called]⟩
  | @printed path plugin tally held called line =>
    obtain ⟨more, leaked, checking, clean⟩ := callPlugins_stretch called observes calls
    have printing := checking.trans (.silent _ ({ host.emit (.checking path) with plugin := plugin }.report path)
      checking.observes (.printed path) rfl rfl rfl (fun _ => rfl) _)
    refine ⟨_, _, _, printing, ?_⟩
    simp [Scan.Tells, clean (Option.some_ne_none tally), lookedIn, Host.looked, Undisturbed, called]
  | @passedOver path plugin tally held called line =>
    obtain ⟨more, leaked, checking, clean⟩ := callPlugins_stretch called observes calls
    refine ⟨_, _, _, checking, ?_⟩
    simp [Scan.Tells, clean (Option.some_ne_none tally), lookedIn, Host.looked, Undisturbed, called]

/-- What a call of the search does to the ledger: it leaks exactly if a file
failed. -/
def Leaks (records : List Recorded) (search : Nat → Host → Except Stopped Host) : Prop :=
  ∀ folder host after calls, Observes records host.plugin → search folder host = .ok after →
    ∃ more events leaked, Stretch records host calls after more events leaked ∧
      (leaked = [] ↔ Undisturbed (lookedIn events) host.plugin)

theorem Scan.Tells.after (scan : Scan) (first : Stretch records before calls middle more early leakedEarly)
    (clean : leakedEarly = [] ↔ Undisturbed (lookedIn early) before.plugin)
    (tells : scan.Tells leakedLate (Undisturbed (lookedIn late) middle.plugin)) :
    scan.Tells (leakedLate ++ leakedEarly) (Undisturbed (lookedIn (early ++ late)) before.plugin) := by
  rw [lookedIn_append, undisturbed_append, ← first.behind]
  cases scan with
  | returned last => exact fun undisturbed => tells undisturbed.2
  | exhausted last =>
    have rest : leakedLate = [] ↔ Undisturbed (lookedIn late) middle.plugin := tells
    simp only [Scan.Tells, List.append_eq_nil_iff, rest, clean, and_comm]

theorem lookedIn_wrote (buffer : Nat) (text : CString) (events : List Event) :
    lookedIn ([.wrote buffer text] ++ events) = lookedIn events := by
  simp [lookedIn, Host.looked]

theorem Entered.stretch (leaks : Leaks records search)
    (entered : Entered search flags folder fileName0 entry host scan) (observes : Observes records host.plugin)
    (calls : Nat) :
    ∃ more events leaked, Stretch records host calls scan.host more events leaked ∧
      scan.Tells leaked (Undisturbed (lookedIn events) host.plugin) := by
  cases entered with
  | file joined checked =>
    obtain ⟨text, naming⟩ := getAbsPath_stretch joined observes calls
    obtain ⟨more, events, leaked, looking, tells⟩ := checkFile_stretch checked naming.observes calls
    rw [naming.behind, ← lookedIn_wrote fileName0 text] at tells
    exact ⟨_, _, _, naming.trans looking, (List.append_nil leaked).symm ▸ tells⟩
  | directory joined searched =>
    obtain ⟨text, naming⟩ := getAbsPath_stretch joined observes calls
    obtain ⟨more, events, leaked, inside, tells⟩ := leaks _ _ _ calls naming.observes searched
    rw [naming.behind, ← lookedIn_wrote fileName0 text] at tells
    exact ⟨_, _, _, naming.trans inside, (List.append_nil leaked).symm ▸ tells⟩
  | skipped => exact ⟨calls, [], [], .nil observes calls, by simp [Scan.Tells, Undisturbed, lookedIn, Host.looked]⟩

theorem readEntries_stretch (leaks : Leaks records search) (entries : List Dirent) (host : Host) (calls : Nat)
    (observes : Observes records host.plugin)
    (ran : readEntries search flags folder fileName0 entries host = .ok scan) :
    ∃ more events leaked, Stretch records host calls scan.host more events leaked ∧
      scan.Tells leaked (Undisturbed (lookedIn events) host.plugin) := by
  induction entries generalizing host calls with
  | nil =>
    cases ran
    exact ⟨calls, [], [], .nil observes calls, by simp [Scan.Tells, Undisturbed, lookedIn, Host.looked]⟩
  | cons entry rest ih =>
    rcases readEntries_entered ran with ⟨_, _, entered⟩ | ⟨next, entered, later⟩
    · exact entered.stretch leaks observes calls
    · obtain ⟨more, events, leaked, first, clean⟩ := entered.stretch leaks observes calls
      obtain ⟨most, others, leakedRest, behind, tells⟩ := ih next more first.observes later
      exact ⟨_, _, _, first.trans behind, tells.after scan first clean⟩

section Folder

variable {records : List Recorded} {host last : Host} {calls more : Nat} {events : List Event}
  {leaked : List Resource} {path : CString}

/-- The stream and the buffer of a folder are numbered before everything inside it. -/
theorem opened_span {fresh : Nat} (grows : (⟨fresh + 2, calls⟩ : Mark) ≤ ⟨last.fresh, more⟩) (resource : Resource)
    (covered : resource = .stream fresh ∨ resource = .buffer (fresh + 1) ∨
      Span ⟨fresh + 2, calls⟩ ⟨last.fresh, more⟩ resource) :
    Span ⟨fresh, calls⟩ ⟨last.fresh, more⟩ resource := by
  have room : fresh + 2 ≤ last.fresh := grows.1
  rcases covered with rfl | rfl | inside
  · exact ⟨Nat.lt_irrefl _, by show fresh < last.fresh; omega⟩
  · exact ⟨by show ¬ fresh + 1 < fresh; omega, by show fresh + 1 < last.fresh; omega⟩
  · refine ⟨fun early => inside.1 (early.mono ?_ (Nat.le_refl _)), inside.2⟩
    show fresh ≤ fresh + 2
    omega

theorem stream_outside {fresh : Nat} :
    ¬ (Resource.stream fresh = .buffer (fresh + 1) ∨ Span ⟨fresh + 2, calls⟩ ⟨last.fresh, more⟩ (.stream fresh)) := by
  simp [Span, Resource.Before]

theorem buffer_outside {fresh : Nat} : ¬ Span ⟨fresh + 2, calls⟩ ⟨last.fresh, more⟩ (.buffer (fresh + 1)) := by
  simp [Span, Resource.Before]

/-- Returning from the middle of a folder keeps its stream and its buffer. -/
theorem Stretch.abandoned
    (inside : Stretch records (host.openStream path).2.malloc.2 calls last more events leaked) :
    Stretch records host calls last more (.openedDir host.fresh path :: .allocated (host.fresh + 1) :: events)
      (leaked ++ [.buffer (host.fresh + 1)] ++ [.stream host.fresh]) where
  trace := by
    rw [inside.trace]
    simp [Host.openStream, Host.malloc, Host.emit]
  grows := ⟨(Nat.le_add_right host.fresh 2).trans inside.grows.1, inside.grows.2⟩
  observes := inside.observes
  threads := inside.threads
  leaves := ((inside.leaves.forget buffer_outside).forget stream_outside).widen (opened_span inside.grows)

theorem Stretch.enclosed
    (inside : Stretch records (host.openStream path).2.malloc.2 calls last more events leaked) :
    Stretch records host calls ((last.free (host.fresh + 1)).closedir host.fresh) more
      (.openedDir host.fresh path :: .allocated (host.fresh + 1) ::
        (events ++ [.freed (host.fresh + 1), .closedDir host.fresh])) leaked := by
  have split : ledger records (events ++ [.freed (host.fresh + 1), .closedDir host.fresh]) ⟨host.plugin, calls⟩ =
      ((ledger records events ⟨host.plugin, calls⟩).1 ++
        [.release (.buffer (host.fresh + 1)), .release (.stream host.fresh)],
        (ledger records events ⟨host.plugin, calls⟩).2) := by
    rw [ledger_append]
    rfl
  refine ⟨?_, ⟨(Nat.le_add_right host.fresh 2).trans inside.grows.1, inside.grows.2⟩, inside.observes, ?_, ?_⟩
  · show (last.trace ++ _) ++ _ = _
    rw [inside.trace]
    simp [Host.openStream, Host.malloc, Host.emit]
  · show (ledger records (events ++ _) _).2 = _
    rw [split]
    exact inside.threads
  · have bracketed := ((inside.leaves.bracket buffer_outside).bracket stream_outside).widen (opened_span inside.grows)
    show Leaves _ (_ :: _ :: (ledger records (events ++ _) _).1) _
    rw [split]
    simp only [List.cons_append, List.append_assoc, List.nil_append] at bracketed
    exact bracketed

end Folder

/-- The recursion: each level brackets what happens inside its folder, unless a
file that fails makes it return. -/
theorem searchDir_leaks (records : List Recorded) (opendir : CString → Option (List Dirent)) (flags : Flags)
    (fuel : Nat) : Leaks records (searchDir opendir flags fuel) := by
  induction fuel with
  | zero =>
    intro folder host after calls observes ran
    simp [searchDir] at ran
  | succ fuel ih =>
    intro folder host after calls observes ran
    cases searchDir_level ran with
    | null => exact ⟨calls, [], [], .nil observes calls, by simp [lookedIn, Host.looked, Undisturbed]⟩
    | @refused path held refused =>
      have silent : Stretch records host calls (host.emit (.refusedDir path)) calls [.refusedDir path] [] :=
        .silent host (host.emit (.refusedDir path)) observes (.refusedDir path) rfl rfl rfl (fun _ => rfl) calls
      exact ⟨calls, [.refusedDir path], [], silent, by simp [lookedIn, Host.looked, Undisturbed]⟩
    | @abandoned path entries after held opened entered =>
      obtain ⟨more, events, leaked, inside, tells⟩ :=
        readEntries_stretch ih entries (host.openStream path).2.malloc.2 calls observes entered
      refine ⟨_, _, _, inside.abandoned, ?_⟩
      have failed : ¬ Undisturbed (lookedIn events) host.plugin := tells
      simpa [lookedIn, Host.looked] using failed
    | @finished path entries last held opened entered =>
      obtain ⟨more, events, leaked, inside, tells⟩ :=
        readEntries_stretch ih entries (host.openStream path).2.malloc.2 calls observes entered
      refine ⟨_, _, _, inside.enclosed, ?_⟩
      have clean : leaked = [] ↔ Undisturbed (lookedIn events) host.plugin := tells
      simpa [lookedIn, Host.looked] using clean

end PluginSearch
