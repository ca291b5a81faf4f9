import Mathlib.Data.List.Forall2
import PluginSearch.Host.SearchDir

namespace PluginSearch

/-- A loaded plugin whose verdict is a function of the file. The plugin may
rewrite its option strings as long as what it leaves answers the same. -/
structure Plugin where
  lib : Lib
  verdict : CString → Int
  Valid : List Opt → Prop
  initial : Valid lib.optsToPass
  answers : ∀ fname opts, Valid opts →
    ∃ after, lib.ppfFunc.call fname opts lib.optsToPassLen = some (verdict fname, after) ∧ Valid after

/-- A plugin that computes its verdict from the file and its own options and
writes nothing. -/
def Plugin.ofVerdict (longopts optsToPass : List Opt) (verdict : CString → List Opt → Int) : Plugin where
  lib := ⟨optsToPass, longopts, fun fname opts _ => some (verdict fname opts, opts), by
    intro fname opts len ret after called
    cases called
    rfl⟩
  verdict := fun fname => verdict fname optsToPass
  Valid := fun opts => opts = optsToPass
  initial := rfl
  answers := by
    intro fname opts same
    exact ⟨opts, by rw [same], same⟩

def Plugin.active (plugin : Plugin) : Bool := plugin.lib.optsToPassLen > 0

def activeVerdicts (plugins : List Plugin) (fname : CString) : List Int :=
  (plugins.filter Plugin.active).map (fun plugin => plugin.verdict fname)

/-- The record the search holds is still that of the plugin, with option
strings the plugin left valid. -/
structure Tracks (lib : Lib) (plugin : Plugin) : Prop where
  func : lib.ppfFunc = plugin.lib.ppfFunc
  length : lib.optsToPassLen = plugin.lib.optsToPassLen
  valid : plugin.Valid lib.optsToPass

theorem Plugin.tracks (plugin : Plugin) : Tracks plugin.lib plugin := ⟨rfl, rfl, plugin.initial⟩

/-- The plugin array of the search stands for these plugins, in this order. -/
def Loaded (libs : List Lib) (plugins : List Plugin) : Prop := List.Forall₂ Tracks libs plugins

theorem loaded_map (plugins : List Plugin) : Loaded (plugins.map Plugin.lib) plugins := by
  rw [Loaded, List.forall₂_map_left_iff, List.forall₂_same]
  exact fun plugin _ => plugin.tracks

def Tally.add (tally : Tally) (verdicts : List Int) : Tally :=
  ⟨tally.call + verdicts.length, tally.returnTrue + verdicts.count 1⟩

theorem Tracks.call (tracks : Tracks lib plugin) (fname : CString) :
    ∃ after, lib.ppfFunc.call fname lib.optsToPass lib.optsToPassLen = some (plugin.verdict fname, after) ∧
      Tracks { lib with optsToPass := after } plugin := by
  obtain ⟨after, called, valid⟩ := plugin.answers fname lib.optsToPass tracks.valid
  rw [← tracks.func, ← tracks.length] at called
  refine ⟨after, called, tracks.func, ?_, valid⟩
  exact (lib.ppfFunc.length_eq called).trans tracks.length

theorem callPlugins_step (tracks : Tracks lib plugin) (active : plugin.active = true)
    (judged : 0 ≤ plugin.verdict fname) (tally : Tally) :
    ∃ after, Tracks after plugin ∧ ∀ rest, callPlugins fname (lib :: rest) tally =
      (callPlugins fname rest ⟨tally.call + 1, if plugin.verdict fname = 1 then tally.returnTrue + 1
        else tally.returnTrue⟩).map (fun result => (after :: result.1, result.2)) := by
  have busy : lib.optsToPassLen > 0 := by
    rw [tracks.length]
    simpa [Plugin.active] using active
  obtain ⟨opts, called, kept⟩ := tracks.call fname
  refine ⟨_, kept, fun rest => ?_⟩
  have fine : ¬ plugin.verdict fname < 0 := by omega
  simp only [callPlugins, busy, ↓reduceIte, called, Option.bind_eq_bind, Option.bind_some, fine]
  cases callPlugins fname rest _ <;> rfl

/-- The plugin loop counts the active plugins and their verdicts 1, unless a
negative verdict ends it. -/
theorem callPlugins_loaded (loaded : Loaded libs plugins) (fname : CString) (tally : Tally) :
    ∃ after, Loaded after plugins ∧
      callPlugins fname libs tally = some (after,
        if (activeVerdicts plugins fname).any (· < 0) then none
        else some (tally.add (activeVerdicts plugins fname))) := by
  induction loaded generalizing tally with
  | nil => exact ⟨[], .nil, by simp [callPlugins, activeVerdicts, Tally.add]⟩
  | @cons lib plugin libs plugins tracks loaded ih =>
    have same : decide (lib.optsToPassLen > 0) = plugin.active := by
      simp [Plugin.active, tracks.length]
    cases active : plugin.active with
    | false =>
      have idle : ¬ lib.optsToPassLen > 0 := by simpa [active] using same
      obtain ⟨after, rest, called⟩ := ih tally
      refine ⟨lib :: after, .cons tracks rest, ?_⟩
      simp [callPlugins, idle, called, activeVerdicts, active]
    | true =>
      have verdicts : activeVerdicts (plugin :: plugins) fname =
          plugin.verdict fname :: activeVerdicts plugins fname := by
        simp [activeVerdicts, active]
      by_cases negative : plugin.verdict fname < 0
      · have busy : lib.optsToPassLen > 0 := by simpa [active] using same
        obtain ⟨opts, called, kept⟩ := tracks.call fname
        refine ⟨{ lib with optsToPass := opts } :: libs, .cons kept loaded, ?_⟩
        simp [callPlugins, busy, called, negative, verdicts]
      · obtain ⟨first, kept, stepped⟩ := callPlugins_step tracks active (not_lt.mp negative) tally
        obtain ⟨after, rest, later⟩ := ih ⟨tally.call + 1,
          if plugin.verdict fname = 1 then tally.returnTrue + 1 else tally.returnTrue⟩
        refine ⟨first :: after, .cons kept rest, ?_⟩
        have counted : Tally.add ⟨tally.call + 1,
              if plugin.verdict fname = 1 then tally.returnTrue + 1 else tally.returnTrue⟩
            (activeVerdicts plugins fname) = tally.add (activeVerdicts (plugin :: plugins) fname) := by
          simp only [Tally.add, verdicts, List.length_cons, List.count_cons, Tally.mk.injEq]
          by_cases matching : plugin.verdict fname = 1
          · simp only [matching, ↓reduceIte, BEq.rfl]
            omega
          · have other : (plugin.verdict fname == 1) = false := by simpa using matching
            simp only [matching, ↓reduceIte, other, Bool.false_eq_true]
            omega
        rw [stepped, later, ← counted]
        simp [verdicts, negative]

/-- What the search makes of a file: nothing can be said after a negative
verdict, else whether the file is counted and printed. -/
def judge (flags : Flags) (plugins : List Plugin) (fname : CString) : Option Bool :=
  if (activeVerdicts plugins fname).any (· < 0) then none
  else some (reports flags (Tally.add ⟨0, 0⟩ (activeVerdicts plugins fname)))

theorem judge_of_nonneg (judged : ∀ verdict ∈ activeVerdicts plugins fname, 0 ≤ verdict) (flags : Flags) :
    judge flags plugins fname = some (reports flags (Tally.add ⟨0, 0⟩ (activeVerdicts plugins fname))) := by
  have nonneg : (activeVerdicts plugins fname).any (· < 0) = false := by
    simpa using judged
  simp [judge, nonneg]

theorem checkFile_loaded (held : host.heap fileName0 = some path) (loaded : Loaded host.plugin plugins)
    (flags : Flags) :
    ∃ scan, checkFile flags fileName0 host = .ok scan ∧ Loaded scan.host.plugin plugins ∧
      scan.host.heap = host.heap ∧ scan.host.fresh = host.fresh ∧
      scan.host.looked = host.looked ++ [path] ∧
      match judge flags plugins path with
      | none => scan = .returned scan.host ∧ scan.host.lines = host.lines ∧ scan.host.count = host.count
      | some true => scan = .exhausted scan.host ∧ scan.host.lines = host.lines ++ [path] ∧
          scan.host.count = host.count + 1
      | some false => scan = .exhausted scan.host ∧ scan.host.lines = host.lines ∧
          scan.host.count = host.count := by
  obtain ⟨after, kept, called⟩ := callPlugins_loaded loaded path ⟨0, 0⟩
  unfold judge
  cases negative : (activeVerdicts plugins path).any (· < 0) with
  | true =>
    refine ⟨.returned { host.emit (.checking path) with plugin := after }, ?_, kept, rfl, rfl, ?_⟩
    · simp [checkFile, held, Host.emit, called, negative]
    · simp [Host.looked, Host.lines, Scan.host, Host.emit]
  | false =>
    cases decision : reports flags (Tally.add ⟨0, 0⟩ (activeVerdicts plugins path)) with
    | true =>
      refine ⟨.exhausted (Host.report path { host.emit (.checking path) with plugin := after }), ?_, kept,
        rfl, rfl, ?_⟩
      · simp [checkFile, held, Host.emit, called, negative, decision]
      · simp [Host.looked, Host.lines, Scan.host, Host.emit, Host.report]
    | false =>
      refine ⟨.exhausted { host.emit (.checking path) with plugin := after }, ?_, kept, rfl, rfl, ?_⟩
      · simp [checkFile, held, Host.emit, called, negative, decision]
      · simp [Host.looked, Host.lines, Scan.host, Host.emit]

/-- The combined condition of the help text: `-O` asks for one match, `-A` and
the default for all, and `-N` inverts the combination. -/
def Documented (flags : Flags) (verdicts : List Int) : Prop :=
  if flags.nflag then ¬ (if flags.oflag then ∃ verdict ∈ verdicts, verdict = 1 else ∀ verdict ∈ verdicts, verdict = 1)
  else if flags.oflag then ∃ verdict ∈ verdicts, verdict = 1 else ∀ verdict ∈ verdicts, verdict = 1

instance (flags : Flags) (verdicts : List Int) : Decidable (Documented flags verdicts) :=
  inferInstanceAs (Decidable (ite _ _ _))

/-- When the guards follow the help text, for `matching` of `active` plugins:
`-N` with `-A` while some plugin does not match, `-N` with `-O` while none
does, and without `-A` and `-O` only where one match and all matches coincide. -/
def GuardsFollow (flags : Flags) (active matching : Nat) : Prop :=
  if flags.aflag then flags.nflag → matching < active
  else if flags.oflag then flags.nflag → matching = 0
  else if flags.nflag then active ≠ 1 ∧ (matching = 1 ∨ matching = active)
  else active = 1 ∨ (matching ≠ 1 ∧ matching ≠ active)

instance (flags : Flags) (active matching : Nat) : Decidable (GuardsFollow flags active matching) :=
  inferInstanceAs (Decidable (ite _ _ _))

private theorem all_one_iff (verdicts : List Int) :
    (∀ verdict ∈ verdicts, verdict = 1) ↔ verdicts.count 1 = verdicts.length := by
  rw [List.count_eq_length]
  exact ⟨fun all verdict member => (all verdict member).symm, fun all verdict member => (all verdict member).symm⟩

private theorem some_one_iff (verdicts : List Int) :
    (∃ verdict ∈ verdicts, verdict = 1) ↔ 0 < verdicts.count 1 := by
  simp [List.count_pos_iff]

theorem reports_documented_iff (flags : Flags) (single : ¬ (flags.aflag ∧ flags.oflag))
    (verdicts : List Int) (nonempty : verdicts ≠ []) :
    (reports flags (Tally.add ⟨0, 0⟩ verdicts) = true ↔ Documented flags verdicts) ↔
      GuardsFollow flags verdicts.length (verdicts.count 1) := by
  have active : 0 < verdicts.length := List.length_pos_of_ne_nil nonempty
  have bound : verdicts.count 1 ≤ verdicts.length := List.count_le_length
  obtain ⟨aflag, oflag, nflag⟩ := flags
  simp only [Documented, GuardsFollow, reports, Tally.add, Nat.zero_add, all_one_iff, some_one_iff]
  generalize verdicts.count 1 = matching at *
  generalize verdicts.length = active at *
  cases aflag <;> cases oflag <;> cases nflag <;> simp at single ⊢ <;> omega

/-- On a regular file with non-negative verdicts, the search prints and counts
by the documented condition exactly where the guards follow it. -/
theorem checkFile_documented_iff (plugins : List Plugin) (flags : Flags)
    (single : ¬ (flags.aflag ∧ flags.oflag)) (host : Host) (loaded : Loaded host.plugin plugins)
    (fileName0 : Nat) (path : CString) (held : host.heap fileName0 = some path)
    (nonempty : activeVerdicts plugins path ≠ [])
    (judged : ∀ verdict ∈ activeVerdicts plugins path, 0 ≤ verdict) :
    ∃ after, checkFile flags fileName0 host = .ok (.exhausted after) ∧
      ((after.lines = host.lines ++ [path] ∧ after.count = host.count + 1) ∨
        (after.lines = host.lines ∧ after.count = host.count)) ∧
      (((after.lines = host.lines ++ [path] ∧ after.count = host.count + 1) ↔
          Documented flags (activeVerdicts plugins path)) ↔
        GuardsFollow flags (activeVerdicts plugins path).length ((activeVerdicts plugins path).count 1)) := by
  obtain ⟨scan, checked, _, _, _, _, result⟩ := checkFile_loaded held loaded flags
  rw [judge_of_nonneg judged] at result
  rw [← reports_documented_iff flags single _ nonempty]
  cases decision : reports flags (Tally.add ⟨0, 0⟩ (activeVerdicts plugins path)) with
  | true =>
    simp only [decision] at result
    exact ⟨scan.host, result.1 ▸ checked, .inl result.2, by simp [result.2.1, result.2.2]⟩
  | false =>
    simp only [decision] at result
    exact ⟨scan.host, result.1 ▸ checked, .inr result.2, by simp [result.2.1, result.2.2]⟩

def Plugin.constant (verdict : Int) : Plugin :=
  .ofVerdict [⟨"any".toList, 0, .null, 0⟩] [⟨"any".toList, 0, .null, 0⟩] (fun _ _ => verdict)

def Host.holding (path : CString) (plugins : List Plugin) : Host :=
  .start path (plugins.map Plugin.lib)

theorem checkFile_documented_or :
    ∃ after, checkFile ⟨false, true, false⟩ 1 (.holding "f".toList [.constant 1, .constant 0]) =
        .ok (.exhausted after) ∧ after.lines = ["f".toList] ∧ after.count = 1 := by
  obtain ⟨after, checked, _, follows⟩ := checkFile_documented_iff [.constant 1, .constant 0]
    ⟨false, true, false⟩ (by decide) (.holding "f".toList [.constant 1, .constant 0])
    (loaded_map _) 1 "f".toList rfl (by decide) (by decide)
  have printed := (follows.mpr (by decide)).mpr ⟨1, by decide, rfl⟩
  exact ⟨after, checked, printed⟩

/-- Two matching plugins and no flag: the default combination holds, and the
file is not printed. -/
theorem checkFile_default_misses :
    Documented ⟨false, false, false⟩ (activeVerdicts [.constant 1, .constant 1] "f".toList) ∧
    ∃ after, checkFile ⟨false, false, false⟩ 1 (.holding "f".toList [.constant 1, .constant 1]) =
      .ok (.exhausted after) ∧ after.lines = [] ∧ after.count = 0 :=
  ⟨by decide, _, rfl, rfl, rfl⟩

end PluginSearch
