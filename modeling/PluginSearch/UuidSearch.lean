import PluginSearch.OneLibrary
import PluginSearch.Plugin.Uuids

namespace PluginSearch.Uuids

open Forest (checked files reported)
open Ledger

section Search

variable {access : CString → FileAccess} {remapped : CString → Bool}

def pluginGetInfo : InfoFunc := ⟨-1, 0, gPoArr⟩

/-- The plugin as the host calls it; it never looks at its options. -/
def ppfFunc (access : CString → FileAccess) (remapped : CString → Bool) : PpfFunc where
  call := fun fname inOpts inOptsLen =>
    (pluginProcessFile (access fname) (remapped fname) inOptsLen).map fun answer => (answer.ret, inOpts)
  keepsPointers := by
    intro fname opts len ret after called
    obtain ⟨answer, _, same⟩ := Option.map_eq_some_iff.mp called
    cases same
    rfl

def plugin (access : CString → FileAccess) (remapped : CString → Bool)
    (safe : ∀ fname, Safe (access fname) (remapped fname)) : Plugin where
  lib := ⟨gPoArr, gPoArr, ppfFunc access remapped⟩
  verdict := fun fname => if Searched (access fname) 1 then 1 else -1
  Valid := fun others => others = gPoArr
  initial := rfl
  answers := by
    intro fname others same
    obtain ⟨answer, called, ret, _⟩ := pluginProcessFile_safe (access fname) (safe fname) 1
    have single : Lib.optsToPassLen ⟨gPoArr, gPoArr, ppfFunc access remapped⟩ = 1 := rfl
    refine ⟨gPoArr, ?_, rfl⟩
    rw [same, single, ← ret]
    exact Option.map_eq_some_iff.mpr ⟨answer, called, rfl⟩

/-- A file is printed if it can be looked into, and gives its folder up if not. -/
def judgeFile (access : CString → FileAccess) (path : CString) : Option Bool :=
  if Searched (access path) 1 then some true else none

theorem judge_plugin (safe : ∀ fname, Safe (access fname) (remapped fname)) (path : CString) :
    judge ⟨false, false, false⟩ [plugin access remapped safe] path = judgeFile access path := by
  have verdict : (plugin access remapped safe).verdict path = if Searched (access path) 1 then 1 else -1 := rfl
  rw [judge_one rfl, verdict, judgeFile]
  split <;> rfl

def askUuids : List Ask := [⟨.two, optUuids, .bare⟩]

def uuidsEnv : Env :=
  { sampleEnv [⟨.reg, "a.so".toList⟩] none gPoArr with
    dlsymInfo := fun _ => some pluginGetInfo
    dlsymProcess := fun _ => some (ppfFunc (fun _ => oneDash) fun _ => true)
    longResults := fun _ => scanResults gPoArr ((searchLine none askUuids "r".toList).flatMap Part.words)
    lastArg := "r".toList
    opendir := smallTree }

end Search

end PluginSearch.Uuids
