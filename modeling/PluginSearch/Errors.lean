import PluginSearch.Descriptors
import PluginSearch.Plugin.Entropy

namespace PluginSearch

open Ledger

structure FileAccess.Honest (file : FileAccess) : Prop where
  opening : file.openErrno ≠ some .zero
  measuring : file.fstatErrno ≠ some .zero
  mapping : file.mmapErrno ≠ some .zero

/-- The call fails exactly if it leaves an error in `errno`. -/
def Outcome.Reports (outcome : Outcome) : Prop := outcome.ret < 0 ↔ outcome.errno ≠ .zero

theorem reports_failed (set : errno ≠ .zero) (inOpts : List Opt) (events : List PluginEvent) :
    Outcome.Reports ⟨-1, errno, inOpts, events⟩ := by
  have negative : (-1 : Int) < 0 := by decide
  exact iff_of_true negative set

theorem reports_answered (answered : 0 ≤ ret) (inOpts : List Opt) (events : List PluginEvent) :
    Outcome.Reports ⟨ret, .zero, inOpts, events⟩ := iff_of_false (not_lt.mpr answered) (fun set => set rfl)

theorem errno_ne_zero {found : Option Errno} (honest : found ≠ some .zero) (failed : found = some errno) :
    errno ≠ .zero := by
  rintro rfl
  exact honest failed

theorem BitSeq.pluginProcessFile_reports (honest : file.Honest)
    (called : BitSeq.pluginProcessFile file inOpts inOptsLen = some outcome) : outcome.Reports := by
  have einval : Errno.einval ≠ .zero := by decide
  cases pluginProcessFile_processed called with
  | unopened opens => exact reports_failed (errno_ne_zero honest.opening opens) _ _
  | unmeasured opens measures => exact reports_failed (errno_ne_zero honest.measuring measures) _ _
  | empty => exact reports_failed (by decide) _ _
  | unasked => exact reports_failed einval _ _
  | rejected => exact reports_failed einval _ _
  | unsupplied => exact reports_failed einval _ _
  | unmapped opens measures filled given parsed maps =>
    exact reports_failed (errno_ne_zero honest.mapping maps) _ _
  | searched opens measures filled given parsed maps found =>
    apply reports_answered
    rw [bitSeqMatch_eq _ _ _ (lt_trans file.sizeFits (by decide))] at found
    cases found
    split <;> decide

namespace Entropy

variable {arith : Arithmetic}

/-- A call refuses its options, or goes on to the file. -/
theorem pluginProcessFile_processed (called : pluginProcessFile arith file inOpts inOptsLen = some outcome) :
    (∃ errno, errno ≠ .zero ∧ outcome = ⟨-1, errno, inOpts, []⟩) ∨
    ∃ entropy offsetFrom offsetTo, Processed arith file entropy offsetFrom offsetTo inOpts outcome := by
  unfold pluginProcessFile at called
  split at called
  · cases called
    exact .inl ⟨.einval, by decide, rfl⟩
  · obtain ⟨parsed, _, called⟩ := Option.bind_eq_some_iff.mp called
    cases parsed with
    | none =>
      cases called
      exact .inl ⟨.einval, by decide, rfl⟩
    | some inputs =>
      dsimp only at called
      split at called
      · cases called
        exact .inl ⟨.einval, by decide, rfl⟩
      · rename_i entropy given
        split at called
        · cases called
          exact .inl ⟨.erange, by decide, rfl⟩
        · obtain ⟨processed, ran, holds⟩ := processFile_processed arith file entropy (inputs.offsetFrom.getD 0)
            (inputs.offsetTo.getD 0) inOpts
          cases called.symm.trans ran
          exact .inr ⟨_, _, _, holds⟩

theorem pluginProcessFile_inOpts (called : pluginProcessFile arith file inOpts inOptsLen = some outcome) :
    outcome.inOpts = inOpts := by
  rcases pluginProcessFile_processed called with ⟨errno, _, rfl⟩ | ⟨_, _, _, processed⟩
  · rfl
  · cases processed <;> rfl

theorem pluginProcessFile_reports (honest : file.Honest)
    (called : pluginProcessFile arith file inOpts inOptsLen = some outcome) : outcome.Reports := by
  rcases pluginProcessFile_processed called with ⟨errno, set, rfl⟩ | ⟨_, _, _, processed⟩
  · exact reports_failed set _ _
  · cases processed with
    | unopened opens => exact reports_failed (errno_ne_zero honest.opening opens) _ _
    | unmeasured opens measures => exact reports_failed (errno_ne_zero honest.measuring measures) _ _
    | narrow => exact reports_failed (by decide) _ _
    | unmapped opens measures spans maps => exact reports_failed (errno_ne_zero honest.mapping maps) _ _
    | compared =>
      apply reports_answered
      split <;> decide

theorem pluginProcessFile_accounts (called : pluginProcessFile arith file inOpts inOptsLen = some outcome)
    (call : Nat) :
    Leaves (OfCall call) (callEntries call outcome.events) [] := by
  rcases pluginProcessFile_processed called with ⟨errno, set, rfl⟩ | ⟨_, _, _, processed⟩
  · exact .nil
  · cases processed with
    | unopened => exact .nil
    | unmeasured => exact leaves_closed call
    | narrow => exact leaves_closed call
    | unmapped => exact leaves_closed call
    | compared => exact leaves_unmapped call

end Entropy

namespace TypeFile

/-- The ways in which a call of the text plugin returns. -/
inductive Processed (file : FileAccess) (fname : CString) (inOpts : List Opt) : Outcome → Prop where
  | unasked (unasked : inOpts = []) : Processed file fname inOpts ⟨-1, .einval, inOpts, []⟩
  | unopened (opens : file.openErrno = some errno) : Processed file fname inOpts ⟨-1, errno, inOpts, []⟩
  | unmeasured (opens : file.openErrno = none) (measures : file.fstatErrno = some errno) :
      Processed file fname inOpts ⟨-1, errno, inOpts, [.opened, .closed]⟩
  | empty (unfilled : file.content = []) : Processed file fname inOpts ⟨-1, .erange, inOpts, [.opened, .closed]⟩
  | judged (own : ∃ opt ∈ inOpts, opt.name = optText) :
      Processed file fname inOpts ⟨isTxt fname, .zero, inOpts, [.opened, .closed]⟩
  | strange (measured : file.Measured) (given : inOpts ≠ []) (foreign : ∀ opt ∈ inOpts, opt.name ≠ optText) :
      Processed file fname inOpts ⟨-1, .zero, inOpts, [.opened, .closed]⟩

theorem checkOptions_all (fname : CString) (inOpts : List Opt) :
    checkOptions fname inOpts (List.range inOpts.length) (-1) =
      some (if ∃ opt ∈ inOpts, opt.name = optText then isTxt fname else -1) := by
  have all := checkOptions_from fname [] inOpts (-1)
  rw [List.nil_append, List.length_nil, ← List.range_eq_range'] at all
  rw [all]
  simp only [List.any_eq_true, decide_eq_true_eq]

theorem pluginProcessFile_processed (called : pluginProcessFile file fname inOpts inOpts.length = some outcome) :
    Processed file fname inOpts outcome := by
  unfold pluginProcessFile at called
  split at called
  · rename_i unasked
    cases called
    exact .unasked (List.length_eq_zero_iff.mp unasked)
  · rename_i asked
    have given : inOpts ≠ [] := fun empty => asked (List.length_eq_zero_iff.mpr empty)
    split at called
    · rename_i errno opens
      cases called
      exact .unopened opens
    · rename_i opens
      split at called
      · rename_i errno measures
        cases called
        exact .unmeasured opens measures
      · rename_i measures
        split at called
        · rename_i unfilled
          cases called
          exact .empty (List.length_eq_zero_iff.mp unfilled)
        · rename_i filled
          have measured : file.Measured := ⟨opens, measures, fun empty => filled (List.length_eq_zero_iff.mpr empty)⟩
          rw [checkOptions_all] at called
          cases called
          split
          · rename_i own
            exact .judged own
          · rename_i foreign
            exact .strange measured given (by simpa using foreign)

/-- The text plugin fails in silence on a file it could measure if none of its
options is its own, and reports every other failure. -/
theorem pluginProcessFile_reports_iff (honest : file.Honest)
    (called : pluginProcessFile file fname inOpts inOpts.length = some outcome) :
    outcome.Reports ↔ ¬ (file.Measured ∧ inOpts ≠ [] ∧ ∀ opt ∈ inOpts, opt.name ≠ optText) := by
  cases pluginProcessFile_processed called with
  | unasked unasked =>
    apply iff_of_true (reports_failed (by decide) _ _)
    intro silent
    exact silent.2.1 unasked
  | unopened opens =>
    apply iff_of_true (reports_failed (errno_ne_zero honest.opening opens) _ _)
    intro silent
    obtain ⟨⟨opened, _, _⟩, _⟩ := silent
    cases opens.symm.trans opened
  | unmeasured opens measures =>
    apply iff_of_true (reports_failed (errno_ne_zero honest.measuring measures) _ _)
    intro silent
    obtain ⟨⟨_, known, _⟩, _⟩ := silent
    cases measures.symm.trans known
  | empty unfilled =>
    apply iff_of_true (reports_failed (by decide) _ _)
    intro silent
    obtain ⟨⟨_, _, filled⟩, _⟩ := silent
    exact filled unfilled
  | judged own =>
    have answered : 0 ≤ isTxt fname := by
      unfold isTxt
      split <;> decide
    apply iff_of_true (reports_answered answered _ _)
    intro silent
    obtain ⟨opt, member, named⟩ := own
    exact silent.2.2 opt member named
  | strange measured given foreign =>
    have negative : (-1 : Int) < 0 := by decide
    apply iff_of_false
    · intro reports
      exact reports.mp negative rfl
    · exact not_not.mpr ⟨measured, given, foreign⟩

end TypeFile

/-- The error contract of the plugin interface, for all three plugins, every
file and every list of options, given that failing system calls set `errno`: the
bit sequence and the entropy plugins fail exactly if they leave an error, the
text plugin with one exception; and whatever happens, the entropy plugin has
closed and unmapped what it acquired when it returns. -/
theorem plugins_report_errors (file : FileAccess) (honest : file.Honest) (fname : CString) (inOpts : List Opt)
    (arith : Entropy.Arithmetic) :
    (∀ outcome, BitSeq.pluginProcessFile file inOpts inOpts.length = some outcome → outcome.Reports) ∧
    (∀ outcome, Entropy.pluginProcessFile arith file inOpts inOpts.length = some outcome →
      outcome.Reports ∧ ∀ call, Leaves (OfCall call) (callEntries call outcome.events) []) ∧
    ∀ outcome, TypeFile.pluginProcessFile file fname inOpts inOpts.length = some outcome →
      (outcome.Reports ↔ ¬ (file.Measured ∧ inOpts ≠ [] ∧ ∀ opt ∈ inOpts, opt.name ≠ TypeFile.optText)) := by
  refine ⟨?_, ?_, ?_⟩
  · intro outcome called
    exact BitSeq.pluginProcessFile_reports honest called
  · intro outcome called
    exact ⟨Entropy.pluginProcessFile_reports honest called, Entropy.pluginProcessFile_accounts called⟩
  · intro outcome called
    exact TypeFile.pluginProcessFile_reports_iff honest called

/-- One option of another plugin, on a file of three bytes. -/
theorem plugins_report_errors_silent :
    ∃ outcome, TypeFile.pluginProcessFile Entropy.threeBytes "f".toList [⟨"n".toList, 0, .null, 0⟩] 1 = some outcome ∧
      ¬ outcome.Reports := by
  have honest : Entropy.threeBytes.Honest := ⟨by decide, by decide, by decide⟩
  obtain ⟨_, _, typeFile⟩ := plugins_report_errors Entropy.threeBytes honest "f".toList [⟨"n".toList, 0, .null, 0⟩]
    Entropy.exactly
  refine ⟨_, rfl, ?_⟩
  rw [typeFile _ rfl, not_not]
  exact ⟨⟨rfl, rfl, by decide⟩, by decide, by decide⟩

end PluginSearch
