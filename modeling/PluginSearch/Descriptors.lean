import PluginSearch.Host.Reach
import PluginSearch.Plugin.BitSeqArray
import PluginSearch.Shipped

namespace PluginSearch

open Ledger
open Forest (files)

def FileAccess.Measured (file : FileAccess) : Prop :=
  file.openErrno = none ∧ file.fstatErrno = none ∧ file.content ≠ []

instance (file : FileAccess) : Decidable file.Measured := inferInstanceAs (Decidable (_ ∧ _ ∧ _))

section Call

theorem leaves_open (call : Nat) :
    Leaves (OfCall call) [.acquire (.descriptor call)] [.descriptor call] := by
  refine ⟨by simp [OfCall], ?_⟩
  intro held apart
  have unopened : Resource.descriptor call ∉ held := fun member => apart _ member (.inl rfl)
  simp [replay, unopened]

theorem leaves_closed (call : Nat) :
    Leaves (OfCall call) [.acquire (.descriptor call), .release (.descriptor call)] [] := by
  refine ⟨by simp, ?_⟩
  intro held apart
  have unopened : Resource.descriptor call ∉ held := fun member => apart _ member (.inl rfl)
  simp [replay, unopened]

theorem leaves_unmapped (call : Nat) :
    Leaves (OfCall call) [.acquire (.descriptor call), .acquire (.mapping call), .release (.descriptor call),
      .release (.mapping call)] [] := by
  refine ⟨by simp, ?_⟩
  intro held apart
  have unopened : Resource.descriptor call ∉ held := fun member => apart _ member (.inl rfl)
  have unmapped : Resource.mapping call ∉ held := fun member => apart _ member (.inr rfl)
  simp [replay, unopened, unmapped]

end Call

namespace BitSeq

theorem callEntries_opened (writes : OnlyWrites events) (call : Nat) (rest : List PluginEvent) :
    callEntries call (.opened :: events ++ rest) = .acquire (.descriptor call) :: callEntries call rest := by
  have silent : events.filterMap (PluginEvent.entry call) = [] := by
    rw [List.filterMap_eq_nil_iff]
    intro event member
    obtain ⟨option, offset, text, rfl⟩ := writes event member
    rfl
  simp [callEntries, PluginEvent.entry, silent]

/-- Everything a call that returns can be. -/
theorem pluginProcessFile_cases (called : pluginProcessFile file inOpts inOptsLen = some outcome) :
    (file.openErrno ≠ none ∧ outcome.ret < 0 ∧ outcome.events = []) ∨
    (file.openErrno = none ∧ ¬ file.Measured ∧ outcome.ret < 0 ∧ outcome.events = [.opened, .closed]) ∨
    (file.Measured ∧ (inOptsLen = 0 ∨ accepts none (inOpts.take inOptsLen) = false) ∧ outcome.ret < 0 ∧
      ∃ writes, OnlyWrites writes ∧ outcome.events = .opened :: writes) ∨
    (file.Measured ∧ inOptsLen ≠ 0 ∧ accepts none (inOpts.take inOptsLen) = true ∧ ∃ writes, OnlyWrites writes ∧
      ((file.mmapErrno ≠ none ∧ outcome.ret < 0 ∧ outcome.events = .opened :: writes ++ [.closed]) ∨
        (file.mmapErrno = none ∧ 0 ≤ outcome.ret ∧ ∃ pattern size,
          outcome.events = .opened :: writes ++ [.mapped, .searched pattern size, .closed, .unmapped]))) := by
  have negative : (-1 : Int) < 0 := by decide
  cases pluginProcessFile_processed called with
  | unopened opens => exact .inl ⟨by simp [opens], negative, rfl⟩
  | unmeasured opens measures => exact .inr (.inl ⟨opens, by simp [FileAccess.Measured, measures], negative, rfl⟩)
  | empty opens measures empty => exact .inr (.inl ⟨opens, by simp [FileAccess.Measured, empty], negative, rfl⟩)
  | unasked opens measures filled unasked =>
    exact .inr (.inr (.inl ⟨⟨opens, measures, filled⟩, .inl unasked, negative, [], by simp [OnlyWrites], rfl⟩))
  | rejected opens measures filled given parsed =>
    obtain ⟨refused, writes⟩ := (parseOptions_start parsed).1
    exact .inr (.inr (.inl ⟨⟨opens, measures, filled⟩, .inr refused, negative, _, writes, rfl⟩))
  | unsupplied opens measures filled given parsed missing =>
    have supplied := (parseOptions_start parsed).2 (Nat.pos_of_ne_zero given) _ rfl
    exact absurd supplied (by simp [missing])
  | unmapped opens measures filled given parsed maps =>
    obtain ⟨good, writes⟩ := (parseOptions_start parsed).1
    refine .inr (.inr (.inr ⟨⟨opens, measures, filled⟩, given, good, _, writes, .inl ⟨?_, negative, rfl⟩⟩))
    simp [maps]
  | searched opens measures filled given parsed maps found =>
    obtain ⟨good, writes⟩ := (parseOptions_start parsed).1
    refine .inr (.inr (.inr ⟨⟨opens, measures, filled⟩, given, good, _, writes, .inr ⟨maps, ?_, _, _, rfl⟩⟩))
    rw [bitSeqMatch_eq _ _ _ (lt_trans file.sizeFits (by decide))] at found
    cases found
    simp only
    split <;> decide

/-- A call that does not fail gives back its descriptor and its mapping. -/
theorem pluginProcessFile_accounts (called : pluginProcessFile file inOpts inOptsLen = some outcome) (call : Nat) :
    ∃ leaked, Leaves (OfCall call) (callEntries call outcome.events) leaked ∧
      (leaked = [] ↔ ¬ (file.Measured ∧ (inOptsLen = 0 ∨ accepts none (inOpts.take inOptsLen) = false))) ∧
      (0 ≤ outcome.ret ↔ file.Measured ∧ file.mmapErrno = none ∧ inOptsLen ≠ 0 ∧
        accepts none (inOpts.take inOptsLen) = true) := by
  rcases pluginProcessFile_cases called with ⟨closed, failed, events⟩ | ⟨opens, unmeasured, failed, events⟩ |
      ⟨measured, bad, failed, writes, only, events⟩ | ⟨measured, asked, good, writes, only, ends⟩
  · refine ⟨[], by rw [events]; exact .nil, ?_, ?_⟩
    · simp [FileAccess.Measured, closed]
    · simp [FileAccess.Measured, closed, failed]
  · refine ⟨[], by rw [events]; exact leaves_closed call, ?_, ?_⟩
    · simp [unmeasured]
    · simp [unmeasured, failed]
  · refine ⟨[.descriptor call], ?_, by simp [measured, bad], ?_⟩
    · rw [events, ← List.append_nil (.opened :: writes), callEntries_opened only]
      exact leaves_open call
    · constructor
      · intro nonneg
        exact absurd failed (not_lt.mpr nonneg)
      · rintro ⟨_, _, asked, good⟩
        rcases bad with unasked | refused
        · exact absurd unasked asked
        · simp [good] at refused
  · have clean : ¬ (file.Measured ∧ (inOptsLen = 0 ∨ accepts none (inOpts.take inOptsLen) = false)) := by
      simp [asked, good]
    rcases ends with ⟨unmapped, failed, events⟩ | ⟨maps, nonneg, pattern, size, events⟩
    · refine ⟨[], ?_, by simp [clean], by simp [unmapped, failed]⟩
      rw [events, callEntries_opened only]
      exact leaves_closed call
    · refine ⟨[], ?_, by simp [clean], by simp [measured, maps, asked, good, nonneg]⟩
      rw [events, callEntries_opened only]
      exact leaves_unmapped call

/-- When a call with all of its options returns and does not fail. -/
theorem pluginProcessFile_passes_iff (file : FileAccess) (inOpts : List Opt) (given : inOpts ≠ []) :
    (∃ outcome, pluginProcessFile file inOpts inOpts.length = some outcome ∧ 0 ≤ outcome.ret) ↔
      file.Measured ∧ file.mmapErrno = none ∧ accepts none inOpts = true := by
  constructor
  · rintro ⟨outcome, called, nonneg⟩
    obtain ⟨_, _, _, passes⟩ := pluginProcessFile_accounts called 0
    obtain ⟨measured, maps, _, good⟩ := passes.mp nonneg
    exact ⟨measured, maps, by simpa using good⟩
  · rintro ⟨measured, maps, good⟩
    obtain ⟨outcome, called⟩ : ∃ outcome, pluginProcessFile file inOpts inOpts.length = some outcome := by
      obtain ⟨parsed, ran⟩ := parseOptions_start_defined good
      obtain ⟨opens, measures, filled⟩ := measured
      have found (state : Parse) := bitSeqMatch_eq file.content (patternImage state.pattern file.beyond) state.patSize
        (lt_trans file.sizeFits (by decide))
      simp only [pluginProcessFile, opens, measures, List.length_eq_zero_iff, filled, given, ↓reduceIte, ran,
        Option.bind_eq_bind, Option.bind_some, maps, found]
      cases parsed with
      | rejected last => exact ⟨_, rfl⟩
      | accepted last =>
        simp only
        split
        · exact ⟨_, rfl⟩
        · exact ⟨_, rfl⟩
    obtain ⟨_, _, _, passes⟩ := pluginProcessFile_accounts called 0
    exact ⟨outcome, called, passes.mpr ⟨measured, maps, by simpa using given, by simpa using good⟩⟩

end BitSeq

namespace TypeFile

theorem pluginProcessFile_accounts (called : pluginProcessFile file fname inOpts inOptsLen = some outcome)
    (call : Nat) : Leaves (OfCall call) (callEntries call outcome.events) [] := by
  unfold pluginProcessFile at called
  split at called
  · cases called
    exact .nil
  · split at called
    · cases called
      exact .nil
    · split at called
      · cases called
        exact leaves_closed call
      · split at called
        · cases called
          exact leaves_closed call
        · obtain ⟨ret, _, called⟩ := Option.bind_eq_some_iff.mp called
          cases called
          exact leaves_closed call

theorem checkOptions_from (fname : CString) (front back : List Opt) (ret : Int) :
    checkOptions fname (front ++ back) (List.range' front.length back.length) ret =
      some (if back.any (fun opt => opt.name = optText) then isTxt fname else ret) := by
  induction back generalizing front ret with
  | nil => rfl
  | cons opt rest ih =>
    have later := ih (front ++ [opt]) (if opt.name = optText then isTxt fname else ret)
    rw [List.append_assoc, List.singleton_append, List.length_append, List.length_singleton] at later
    rw [List.length_cons, List.range'_succ, checkOptions, List.getElem?_append_right (Nat.le_refl _), Nat.sub_self]
    simp only [List.getElem?_cons_zero, Option.bind_eq_bind, Option.bind_some, later, List.any_cons]
    by_cases named : opt.name = optText <;> simp [named]

theorem pluginProcessFile_passes_iff (file : FileAccess) (fname : CString) (inOpts : List Opt) (given : inOpts ≠ []) :
    (∃ outcome, pluginProcessFile file fname inOpts inOpts.length = some outcome ∧ 0 ≤ outcome.ret) ↔
      file.Measured ∧ ∃ opt ∈ inOpts, opt.name = optText := by
  have all := checkOptions_from fname [] inOpts (-1)
  rw [List.nil_append, List.length_nil, ← List.range_eq_range'] at all
  have asked : (∃ opt ∈ inOpts, opt.name = optText) ↔ inOpts.any (fun opt => opt.name = optText) = true := by simp
  have verdict : 0 ≤ isTxt fname := by
    unfold isTxt
    split <;> decide
  rw [asked]
  generalize inOpts.any (fun opt => opt.name = optText) = found at all ⊢
  unfold pluginProcessFile FileAccess.Measured
  cases opens : file.openErrno with
  | some errno => simp [given]
  | none =>
    cases measures : file.fstatErrno with
    | some errno => simp [given]
    | none =>
      by_cases empty : file.content = []
      · simp [given, empty]
      · cases found <;> simp [given, empty, all, verdict]

end TypeFile

inductive Shipped where
  | bitSeq
  | typeFile
  deriving DecidableEq, Repr

namespace Shipped

def process (access : CString → FileAccess) (fname : CString) (inOpts : List Opt) (inOptsLen : Nat) :
    Shipped → Option Outcome
  | .bitSeq => BitSeq.pluginProcessFile (access fname) inOpts inOptsLen
  | .typeFile => TypeFile.pluginProcessFile (access fname) fname inOpts inOptsLen

def func (access : CString → FileAccess) : Shipped → PpfFunc
  | .bitSeq => BitSeq.ppfFunc access
  | .typeFile => TypeFile.ppfFunc access

theorem func_call (access : CString → FileAccess) (shipped : Shipped) (fname : CString) (inOpts : List Opt)
    (inOptsLen : Nat) : (shipped.func access).call fname inOpts inOptsLen =
      (shipped.process access fname inOpts inOptsLen).map (fun outcome => (outcome.ret, outcome.inOpts)) := by
  cases shipped <;> rfl

/-- What a plugin needs of a file and of its options in order not to fail. -/
def Passes (access : CString → FileAccess) (fname : CString) (inOpts : List Opt) : Shipped → Prop
  | .bitSeq => (access fname).Measured ∧ (access fname).mmapErrno = none ∧ BitSeq.accepts none inOpts = true
  | .typeFile => (access fname).Measured ∧ ∃ opt ∈ inOpts, opt.name = TypeFile.optText

theorem process_passes_iff (access : CString → FileAccess) (shipped : Shipped) (fname : CString) (inOpts : List Opt)
    (given : inOpts ≠ []) :
    (∃ outcome, shipped.process access fname inOpts inOpts.length = some outcome ∧ 0 ≤ outcome.ret) ↔
      shipped.Passes access fname inOpts := by
  cases shipped with
  | bitSeq => exact BitSeq.pluginProcessFile_passes_iff _ inOpts given
  | typeFile => exact TypeFile.pluginProcessFile_passes_iff _ fname inOpts given

def recorded (access : CString → FileAccess) (shipped : Shipped) : Recorded where
  func := shipped.func access
  events := fun fname inOpts => (shipped.process access fname inOpts inOpts.length).elim [] Outcome.events
  accounts := by
    intro fname opts ret after called call
    rw [func_call] at called
    obtain ⟨outcome, processed, same⟩ := Option.map_eq_some_iff.mp called
    cases same
    simp only [processed, Option.elim_some]
    cases shipped with
    | bitSeq =>
      obtain ⟨leaked, leaves, clean, passes⟩ := BitSeq.pluginProcessFile_accounts processed call
      refine ⟨leaked, leaves, fun nonneg => clean.mpr ?_⟩
      obtain ⟨_, _, asked, good⟩ := passes.mp nonneg
      rintro ⟨_, unasked | refused⟩
      · exact asked unasked
      · exact absurd (good.symm.trans refused) (by decide)
    | typeFile => exact ⟨[], TypeFile.pluginProcessFile_accounts processed call, fun _ => rfl⟩

end Shipped

/-- Every call about these files is one that its plugin passes; each file finds
the option arrays as the calls before it left them. -/
def AllPass (access : CString → FileAccess) (shipped : List Shipped) : List CString → List Lib → Prop
  | [], _ => True
  | path :: rest, libs =>
    List.Forall₂ (fun plugin lib => 0 < Lib.optsToPassLen lib → plugin.Passes access path lib.optsToPass)
      shipped libs ∧
      AllPass access shipped rest (pluginsAfter path libs)

/-- The plugin loop gets through if every active plugin answers and none fails. -/
theorem callPlugins_completes_iff (fname : CString) (libs : List Lib) (tally : Tally) :
    (∃ after last, callPlugins fname libs tally = some (after, some last)) ↔
      ∀ lib ∈ libs, 0 < lib.optsToPassLen →
        ∃ ret after, lib.ppfFunc.call fname lib.optsToPass lib.optsToPassLen = some (ret, after) ∧ 0 ≤ ret := by
  induction libs generalizing tally with
  | nil => simp [callPlugins]
  | cons lib rest ih =>
    rw [List.forall_mem_cons]
    by_cases busy : 0 < lib.optsToPassLen
    · cases answered : lib.ppfFunc.call fname lib.optsToPass lib.optsToPassLen with
      | none => simp [callPlugins, busy, answered]
      | some answer =>
        obtain ⟨ret, opts⟩ := answer
        by_cases negative : ret < 0
        · simp [callPlugins, busy, answered, negative]
        · rw [← ih ⟨tally.call + 1, if ret = 1 then tally.returnTrue + 1 else tally.returnTrue⟩]
          cases later : callPlugins fname rest
              ⟨tally.call + 1, if ret = 1 then tally.returnTrue + 1 else tally.returnTrue⟩ with
          | none => simp [callPlugins, busy, answered, negative, later]
          | some result => simp [callPlugins, busy, answered, negative, later, not_lt.mp negative, Prod.ext_iff]
    · rw [← ih tally]
      cases later : callPlugins fname rest tally with
      | none => simp [callPlugins, busy, later]
      | some result => simp [callPlugins, busy, later, Prod.ext_iff]

theorem pluginsAfter_funcs (fname : CString) (libs : List Lib) :
    (pluginsAfter fname libs).map Lib.ppfFunc = libs.map Lib.ppfFunc := by
  cases called : callPlugins fname libs ⟨0, 0⟩ with
  | none => simp [pluginsAfter, called]
  | some result =>
    obtain ⟨after, outcome⟩ := result
    simpa [pluginsAfter, called] using (callPlugins_called called).funcs

/-- One call of a plugin of the repository answers and does not fail exactly if
it passes. -/
theorem Shipped.answers_iff (access : CString → FileAccess) (plugin : Shipped) {lib : Lib}
    (own : lib.ppfFunc = plugin.func access) (busy : 0 < lib.optsToPassLen) (fname : CString) :
    (∃ ret after, lib.ppfFunc.call fname lib.optsToPass lib.optsToPassLen = some (ret, after) ∧ 0 ≤ ret) ↔
      plugin.Passes access fname lib.optsToPass := by
  rw [← plugin.process_passes_iff access fname lib.optsToPass (List.ne_nil_of_length_pos busy), own]
  simp only [Shipped.func_call, Option.map_eq_some_iff, Prod.mk.injEq, Lib.optsToPassLen]
  constructor
  · rintro ⟨ret, after, ⟨outcome, processed, rfl, rfl⟩, nonneg⟩
    exact ⟨outcome, processed, nonneg⟩
  · rintro ⟨outcome, processed, nonneg⟩
    exact ⟨_, _, ⟨outcome, processed, rfl, rfl⟩, nonneg⟩

theorem allAnswer_iff (access : CString → FileAccess) (fname : CString) (shipped : List Shipped) (libs : List Lib)
    (observes : libs.map Lib.ppfFunc = shipped.map (Shipped.func access)) :
    (∀ lib ∈ libs, 0 < lib.optsToPassLen →
      ∃ ret after, lib.ppfFunc.call fname lib.optsToPass lib.optsToPassLen = some (ret, after) ∧ 0 ≤ ret) ↔
    List.Forall₂ (fun plugin lib => 0 < Lib.optsToPassLen lib → plugin.Passes access fname lib.optsToPass)
      shipped libs := by
  induction libs generalizing shipped with
  | nil =>
    cases shipped with
    | nil => simp
    | cons plugin others => simp at observes
  | cons lib rest ih =>
    cases shipped with
    | nil => simp at observes
    | cons plugin others =>
      obtain ⟨own, observesRest⟩ : lib.ppfFunc = plugin.func access ∧
          rest.map Lib.ppfFunc = others.map (Shipped.func access) := by simpa using observes
      rw [List.forall_mem_cons, List.forall₂_cons, ih others observesRest]
      exact and_congr_left fun _ => imp_congr_right fun busy => plugin.answers_iff access own busy fname

/-- For the plugins of the repository, no call fails exactly if all pass. -/
theorem undisturbed_iff_allPass (access : CString → FileAccess) (shipped : List Shipped) (paths : List CString)
    (libs : List Lib) (observes : libs.map Lib.ppfFunc = shipped.map (Shipped.func access)) :
    Undisturbed paths libs ↔ AllPass access shipped paths libs := by
  induction paths generalizing libs with
  | nil => rfl
  | cons path rest ih =>
    rw [Undisturbed, AllPass, callPlugins_completes_iff, allAnswer_iff access path shipped libs observes]
    exact and_congr_right fun _ => ih _ ((pluginsAfter_funcs path libs).trans observes)

/-- What survives a search. The streams and buffers of the search itself are all
released, and exactly once, if no plugin call fails on a file of the tree, and
only then; with the plugins of the repository the same holds of everything that
is open, and each way to fail is one of the file or of the options. Alone, a
call of `libnhhN3249` keeps its descriptor exactly if it turns its options down
on a file it has measured; a call of `lib_typefile` never does. -/
theorem resources_released_iff (opendir : CString → Option (List Dirent)) (root : CString)
    (forest : Forest CString) (shows : ShowsRoot opendir root forest) (flags : Flags) (fuel folder : Nat)
    (host after : Host) (holds : FolderHeld host folder root)
    (returned : searchDir opendir flags fuel folder host = .ok after) :
    ∃ events, after.trace = host.trace ++ events ∧
      (∀ calls held, (∀ resource ∈ held, resource.Before ⟨host.fresh, calls⟩) →
        (replay (ledger (host.plugin.map (fun lib => .unobserved lib.ppfFunc)) events ⟨host.plugin, calls⟩).1 held =
            some held ↔
          Undisturbed (files joinPath root forest) host.plugin)) ∧
      (∀ access shipped, host.plugin.map Lib.ppfFunc = shipped.map (Shipped.func access) →
        ∀ calls held, (∀ resource ∈ held, resource.Before ⟨host.fresh, calls⟩) →
          (replay (ledger (shipped.map (Shipped.recorded access)) events ⟨host.plugin, calls⟩).1 held = some held ↔
            AllPass access shipped (files joinPath root forest) host.plugin)) ∧
      (∀ file inOpts inOptsLen outcome call, BitSeq.pluginProcessFile file inOpts inOptsLen = some outcome →
        (Settled (callEntries call outcome.events) ↔
          ¬ (file.Measured ∧ (inOptsLen = 0 ∨ BitSeq.accepts none (inOpts.take inOptsLen) = false)))) ∧
      ∀ file fname inOpts inOptsLen outcome call,
        TypeFile.pluginProcessFile file fname inOpts inOptsLen = some outcome →
          Settled (callEntries call outcome.events) := by
  obtain ⟨_, events, _, stretch, _⟩ := searchDir_leaks (host.plugin.map (fun lib => .unobserved lib.ppfFunc)) opendir
    flags fuel folder host after 0 (by simp [Observes, Recorded.unobserved]) returned
  refine ⟨events, stretch.trace, ?_, ?_, ?_, ?_⟩
  · intro calls held earlier
    exact searchDir_restores_iff shows holds _ (by simp [Observes, Recorded.unobserved]) calls returned stretch.trace
      held earlier
  · intro access shipped observes calls held earlier
    rw [← undisturbed_iff_allPass access shipped _ host.plugin observes]
    refine searchDir_restores_iff shows holds _ ?_ calls returned stretch.trace held earlier
    rw [Observes, observes, List.map_map]
    rfl
  · intro file inOpts inOptsLen outcome call called
    obtain ⟨leaked, leaves, clean, _⟩ := BitSeq.pluginProcessFile_accounts called call
    exact leaves.settled_iff.trans clean
  · intro file fname inOpts inOptsLen outcome call called
    exact (TypeFile.pluginProcessFile_accounts called call).settled_iff.mpr rfl

def oneByte (_ : CString) : FileAccess := ⟨none, none, none, [1], by decide, fun _ => 0⟩

def oneFile (path : CString) : Option (List Dirent) :=
  if path = "r".toList then some [⟨.reg, "f".toList⟩] else none

theorem oneFile_shows : ShowsRoot oneFile "r".toList (.file "f".toList .nil) := .opened rfl (.file .nil)

theorem resources_released_one_file :
    ∃ after events,
      searchDir oneFile ⟨false, false, false⟩ 1 1 (.holding "r".toList [BitSeq.plugin oneByte 0 "1".toList]) =
        .ok after ∧ after.trace = events ∧
      replay (ledger [Shipped.bitSeq.recorded oneByte] events ⟨[(BitSeq.plugin oneByte 0 "1".toList).lib], 0⟩).1 [] =
        some [] := by
  obtain ⟨after, returned⟩ : ∃ after, searchDir oneFile ⟨false, false, false⟩ 1 1
    (.holding "r".toList [BitSeq.plugin oneByte 0 "1".toList]) = .ok after := ⟨_, rfl⟩
  obtain ⟨events, trace, _, restored, _⟩ := resources_released_iff oneFile "r".toList _ oneFile_shows
    ⟨false, false, false⟩ 1 1 _ after ⟨rfl, by decide, by decide⟩ returned
  refine ⟨after, events, returned, trace, (restored oneByte [.bitSeq] rfl 0 [] (by simp)).mpr ?_⟩
  refine ⟨.cons (fun _ => ⟨by decide, rfl, by decide⟩) .nil, trivial⟩

/-- An argument that is no numeral: the stream and the buffer of the folder and
the descriptor of the file are still held when the search returns. -/
theorem resources_kept_on_refusal :
    ∃ after, searchDir oneFile ⟨false, false, false⟩ 1 1 (.holding "r".toList [BitSeq.plugin oneByte 0 "z".toList]) =
        .ok after ∧
      replay
          (ledger [Shipped.bitSeq.recorded oneByte] after.trace ⟨[(BitSeq.plugin oneByte 0 "z".toList).lib], 0⟩).1 [] =
        some [.descriptor 0, .buffer 3, .stream 2] :=
  ⟨_, rfl, by decide⟩

end PluginSearch
