import PluginSearch.Errors
import PluginSearch.OneLibrary

namespace PluginSearch.Entropy

open Forest (checked files reported)
open LongOption (Dashes)

section Search

variable {arith : Arithmetic} {access : CString → FileAccess}

def pluginGetInfo : InfoFunc := ⟨-1, 0, gPoArr⟩

/-- The plugin as the host calls it; it never writes to its options. -/
def ppfFunc (arith : Arithmetic) (access : CString → FileAccess) : PpfFunc where
  call := fun fname inOpts inOptsLen =>
    (pluginProcessFile arith (access fname) inOpts inOptsLen).map (fun outcome => (outcome.ret, outcome.inOpts))
  keepsPointers := by
    intro fname opts len ret after called
    obtain ⟨outcome, processed, same⟩ := Option.map_eq_some_iff.mp called
    cases same
    rw [pluginProcessFile_inOpts processed]

def plugin (arith : Arithmetic) (access : CString → FileAccess) (opts : List Opt) (defined : Defined arith opts) :
    Plugin where
  lib := ⟨opts, gPoArr, ppfFunc arith access⟩
  verdict := fun fname => ((pluginProcessFile arith (access fname) opts opts.length).map Outcome.ret).getD 0
  Valid := fun others => others = opts
  initial := rfl
  answers := by
    intro fname others same
    obtain ⟨outcome, called, _⟩ := pluginProcessFile_judged arith (access fname) opts defined
    refine ⟨opts, ?_, rfl⟩
    rw [same]
    simp [ppfFunc, Lib.optsToPassLen, called, pluginProcessFile_inOpts called]

/-- A file that the plugin answers for. -/
def Usable (inputs : Inputs arith) (file : FileAccess) : Prop :=
  file.Readable ∧ Spans (inputs.offsetFrom.getD 0) (inputs.offsetTo.getD 0) file.content.length

instance (offsetFrom offsetTo size : Nat) : Decidable (Spans offsetFrom offsetTo size) :=
  inferInstanceAs (Decidable (_ ∧ _))

instance (inputs : Inputs arith) (file : FileAccess) : Decidable (Usable inputs file) :=
  inferInstanceAs (Decidable (_ ∧ _))

/-- The entropy of the bytes asked about is not below the given one. -/
def reaches (inputs : Inputs arith) (entropy : arith.Double) (file : FileAccess) : Bool :=
  arith.le entropy (entropyOf arith (asked (inputs.offsetFrom.getD 0) (inputs.offsetTo.getD 0) file.content))

def judgeBytes (inputs : Inputs arith) (entropy : arith.Double) (access : CString → FileAccess) (path : CString) :
    Option Bool :=
  if Usable inputs (access path) then some (reaches inputs entropy (access path)) else none

theorem tells_nonempty (tells : Tells arith opts inputs) (given : inputs.entropy = some entropy) : opts ≠ [] := by
  rintro rfl
  obtain ⟨readings, read, perm⟩ := tells
  cases readings with
  | cons reading readings => cases read
  | nil =>
    have member : Reading.entropy entropy ∈ inputs.readings := by simp [Inputs.readings, given]
    cases perm.mem_iff.mpr member

theorem plugin_active (defined : Defined arith opts) (nonempty : opts ≠ []) :
    (plugin arith access opts defined).active = true := by
  simpa [Plugin.active, plugin, Lib.optsToPassLen, List.length_pos_iff] using nonempty

theorem judge_plugin (defined : Defined arith opts) (tells : Tells arith opts inputs)
    (given : inputs.entropy = some entropy) (low : arith.lt entropy (arith.ofInt 0) = false)
    (high : arith.lt (arith.ofInt 1) entropy = false) (path : CString) :
    judge ⟨false, false, false⟩ [plugin arith access opts defined] path = judgeBytes inputs entropy access path := by
  obtain ⟨outcome, called, judged⟩ := pluginProcessFile_judged arith (access path) opts defined
  obtain ⟨usable, answer⟩ := (judged.answered tells given low high).answers
  have active : (plugin arith access opts defined).active = true := plugin_active defined (tells_nonempty tells given)
  have verdict : (plugin arith access opts defined).verdict path = outcome.ret := by simp [plugin, called]
  rw [judge_one active, verdict]
  unfold judgeBytes
  by_cases readable : Usable inputs (access path)
  · have nonneg := usable.mpr readable
    rw [if_pos readable, if_neg (not_lt.mpr nonneg), answer nonneg, ← reaches]
    cases reaches inputs entropy (access path) <;> rfl
  · have negative : outcome.ret < 0 := not_le.mp fun nonneg => readable (usable.mp nonneg)
    rw [if_neg readable, if_pos negative]

def askEntropy : List Ask := [⟨.two, optEntropy, .inline "0".toList⟩]

def handedEntropy : List Opt := [⟨optEntropy, 1, .heap 0 "0".toList, 0⟩]

def onlyEntropy : Inputs exactly := ⟨some (0 : Rat), none, none⟩

def entropyEnv : Env :=
  { sampleEnv [⟨.reg, "a.so".toList⟩] none gPoArr with
    dlsymInfo := fun _ => some pluginGetInfo
    dlsymProcess := fun _ => some (ppfFunc exactly fun _ => threeBytes)
    longResults := fun _ => scanResults gPoArr ((searchLine none askEntropy "r".toList).flatMap Part.words)
    lastArg := "r".toList
    opendir := smallTree }

end Search

end PluginSearch.Entropy
