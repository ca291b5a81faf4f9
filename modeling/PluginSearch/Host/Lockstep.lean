import PluginSearch.Host.Steps
import PluginSearch.Host.Walk

/-! Two searches that differ in their flags run in lockstep: they open the same
folders, look at the same files and leave the plugins alike, and differ at most
in which of the files they print. -/

namespace PluginSearch

open Stopping

/-- Two states of a search that only differ in what was printed, and there one
of them printed less. -/
structure Twin (one two : Host) : Prop where
  heap : one.heap = two.heap
  fresh : one.fresh = two.fresh
  plugin : one.plugin = two.plugin
  looked : one.looked = two.looked
  lines : one.lines.Sublist two.lines
  count : one.count ≤ two.count

theorem Twin.refl (host : Host) : Twin host host := ⟨rfl, rfl, rfl, rfl, .refl _, le_rfl⟩

theorem Twin.emit (twin : Twin one two) (event : Event) : Twin (one.emit event) (two.emit event) := by
  have looked : (one.emit event).looked = (two.emit event).looked := by
    simpa only [Host.looked, Host.emit, List.filterMap_append] using congrArg (· ++ _) twin.looked
  have lines : (one.emit event).lines.Sublist (two.emit event).lines := by
    simpa only [Host.lines, Host.emit, List.filterMap_append] using twin.lines.append (.refl _)
  exact ⟨twin.heap, twin.fresh, twin.plugin, looked, lines, twin.count⟩

theorem Twin.update (twin : Twin one two) (buffer : Nat) (text : Option CString) :
    Twin { one with heap := Function.update one.heap buffer text }
      { two with heap := Function.update two.heap buffer text } :=
  ⟨congrArg (fun heap => Function.update heap buffer text) twin.heap, twin.fresh, twin.plugin, twin.looked,
    twin.lines, twin.count⟩

/-- Both take the next unused number, for a stream or a buffer. -/
theorem Twin.take (twin : Twin one two) (event : Nat → Event) :
    Twin ({ one with fresh := one.fresh + 1 }.emit (event one.fresh))
      ({ two with fresh := two.fresh + 1 }.emit (event two.fresh)) := by
  have next : Twin { one with fresh := one.fresh + 1 } { two with fresh := two.fresh + 1 } :=
    ⟨twin.heap, congrArg (· + 1) twin.fresh, twin.plugin, twin.looked, twin.lines, twin.count⟩
  rw [← twin.fresh] at next ⊢
  exact next.emit _

structure Stopped.Twin (one two : Stopped) : Prop where
  cause : one.cause = two.cause
  host : PluginSearch.Twin one.host two.host

theorem Twin.expect (twin : Twin one two) (result : Option Value) :
    Both Stopped.Twin (fun first second => first = second ∧ result = some first) (one.expect result)
      (two.expect result) := by
  cases result with
  | none => exact .error ⟨rfl, twin⟩
  | some value => exact .ok ⟨rfl, rfl⟩

theorem Twin.getAbsPath (twin : Twin one two) (path dir : Nat) (fname : CString) :
    Both Stopped.Twin Twin (one.getAbsPath path dir fname) (two.getAbsPath path dir fname) := by
  rw [getAbsPath_eq, getAbsPath_eq, ← twin.heap]
  cases one.heap dir with
  | none => exact .error ⟨rfl, twin⟩
  | some folder => exact .ok ((twin.update path _).emit _)

theorem Called.bounded (called : Called fname libs tally result) (bounded : tally.returnTrue ≤ tally.call)
    (last : result.2 = some final) : final.returnTrue ≤ final.call := by
  induction called with
  | done =>
    cases last
    exact bounded
  | failed => cases last
  | passed busy answered nonneg later ih =>
    apply ih _ last
    split
    · exact Nat.succ_le_succ bounded
    · exact Nat.le_succ_of_le bounded
  | idle idle later ih => exact ih bounded last

/-- Every file that one combination of flags prints is printed by the other. -/
def Flags.Within (strict lenient : Flags) : Prop :=
  ∀ tally, tally.returnTrue ≤ tally.call → reports strict tally = true → reports lenient tally = true

/-- Both loops over the entries of a directory returned, or both went on. -/
inductive Scan.Twin : Scan → Scan → Prop where
  | returned (twin : PluginSearch.Twin one two) : Scan.Twin (.returned one) (.returned two)
  | exhausted (twin : PluginSearch.Twin one two) : Scan.Twin (.exhausted one) (.exhausted two)

theorem Twin.report (twin : Twin one two) (path : CString) : Twin (one.report path) (two.report path) := by
  have counted : Twin { one with count := one.count + 1 } { two with count := two.count + 1 } :=
    ⟨twin.heap, twin.fresh, twin.plugin, twin.looked, twin.lines, Nat.succ_le_succ twin.count⟩
  exact counted.emit (.printed path)

theorem Twin.report_right (twin : Twin one two) (path : CString) : Twin one (two.report path) := by
  have looked : (two.report path).looked = two.looked := by
    simp [Host.looked, Host.report, Host.emit]
  have lines : (two.report path).lines = two.lines ++ [path] := by
    simp [Host.lines, Host.report, Host.emit]
  refine ⟨twin.heap, twin.fresh, twin.plugin, twin.looked.trans looked.symm, ?_, Nat.le_succ_of_le twin.count⟩
  rw [lines]
  exact twin.lines.trans (List.sublist_append_left _ _)

section Lockstep

variable {strict lenient : Flags}

theorem Twin.checkFile (twin : Twin one two) (within : strict.Within lenient) (fileName0 : Nat) :
    Both Stopped.Twin Scan.Twin (checkFile strict fileName0 one) (checkFile lenient fileName0 two) := by
  unfold PluginSearch.checkFile
  rw [← twin.heap]
  apply (twin.expect (one.heap fileName0)).bind
  rintro path _ ⟨rfl, _⟩
  have checking := twin.emit (.checking path)
  simp only [← checking.plugin]
  apply (checking.expect (callPlugins path (one.emit (.checking path)).plugin ⟨0, 0⟩)).bind
  rintro ⟨plugin, tally⟩ _ ⟨rfl, called⟩
  have looped : Twin { one.emit (.checking path) with plugin := plugin }
      { two.emit (.checking path) with plugin := plugin } :=
    ⟨checking.heap, checking.fresh, rfl, checking.looked, checking.lines, checking.count⟩
  cases tally with
  | none => exact .ok (.returned looped)
  | some tally =>
    apply Both.ok
    apply Scan.Twin.exhausted
    have implied := within tally ((callPlugins_called called).bounded le_rfl rfl)
    cases strictly : reports strict tally with
    | true =>
      rw [if_pos rfl, if_pos (implied strictly)]
      exact looped.report path
    | false =>
      rw [if_neg Bool.false_ne_true]
      split
      · exact looped.report_right path
      · exact looped

/-- One directory in lockstep, if the recursive calls are. -/
theorem Twin.readEntries {search searchToo : Nat → Host → Except Stopped Host} (within : strict.Within lenient)
    (searches : ∀ folder one two, Twin one two → Both Stopped.Twin Twin (search folder one) (searchToo folder two))
    (folder fileName0 : Nat) (entries : List Dirent) (twin : Twin one two) :
    Both Stopped.Twin Scan.Twin (readEntries search strict folder fileName0 entries one)
      (readEntries searchToo lenient folder fileName0 entries two) := by
  induction entries generalizing one two with
  | nil => exact .ok (.exhausted twin)
  | cons entry rest ih =>
    simp only [PluginSearch.readEntries]
    cases entry.dType with
    | reg =>
      apply (twin.getAbsPath fileName0 folder entry.dName).bind
      intro named namedToo twin
      apply (twin.checkFile within fileName0).bind
      intro scan scanToo both
      cases both with
      | returned twin => exact .ok (.returned twin)
      | exhausted twin => exact ih twin
    | dir =>
      dsimp only
      split
      · apply (twin.getAbsPath fileName0 folder entry.dName).bind
        intro named namedToo twin
        apply (searches fileName0 named namedToo twin).bind
        intro child childToo twin
        exact ih twin
      · exact ih twin
    | other => exact ih twin

theorem Twin.searchDir (within : strict.Within lenient) (opendir : CString → Option (List Dirent))
    (fuel folder : Nat) (twin : Twin one two) :
    Both Stopped.Twin Twin (searchDir opendir strict fuel folder one) (searchDir opendir lenient fuel folder two) := by
  induction fuel generalizing folder one two with
  | zero => exact .error ⟨rfl, twin⟩
  | succ fuel ih =>
    simp only [PluginSearch.searchDir]
    split
    · exact .ok twin
    · rw [← twin.heap]
      apply (twin.expect (one.heap folder)).bind
      rintro path _ ⟨rfl, _⟩
      cases opendir path with
      | none => exact .ok (twin.emit _)
      | some entries =>
        have opened : Twin (one.openStream path).2 (two.openStream path).2 :=
          twin.take (fun stream => .openedDir stream path)
        have ready : Twin (one.openStream path).2.malloc.2 (two.openStream path).2.malloc.2 :=
          opened.take .allocated
        have streams : (two.openStream path).1 = (one.openStream path).1 := twin.fresh.symm
        have buffers : (two.openStream path).2.malloc.1 = (one.openStream path).2.malloc.1 := opened.fresh.symm
        rw [streams, buffers]
        apply (ready.readEntries within (fun folder one two twin => ih folder twin) folder _ entries).bind
        intro scan scanToo both
        cases both with
        | returned twin => exact .ok twin
        | exhausted twin => exact .ok (((twin.update _ none).emit _).emit _)

end Lockstep

/-- What the guards ask of a file, for each combination of `-A`, `-O` and `-N`. -/
inductive Mode where
  | all
  | any
  | every
  | single
  deriving DecidableEq, Repr

def Flags.mode (flags : Flags) : Mode :=
  if flags.aflag ∨ flags.oflag then
    if flags.nflag then .every else if flags.oflag then .any else .all
  else .single

def Mode.Accepts : Mode → Tally → Prop
  | .all, tally => tally.returnTrue = tally.call
  | .any, tally => 0 < tally.returnTrue
  | .every, _ => True
  | .single, tally => tally.returnTrue = 1

/-- All matches and a single match are matches, and everything contains each. -/
def Mode.Within (strict lenient : Mode) : Prop :=
  strict = lenient ∨ lenient = .every ∨ lenient = .any ∧ strict ≠ .every

theorem reports_iff_accepts (flags : Flags) (bounded : tally.returnTrue ≤ tally.call) :
    reports flags tally = true ↔ tally.call ≠ 0 ∧ flags.mode.Accepts tally := by
  obtain ⟨aflag, oflag, nflag⟩ := flags
  by_cases idle : tally.call = 0
  · simp [reports, idle]
  · cases aflag <;> cases oflag <;> cases nflag <;> simp [reports, idle, Flags.mode, Mode.Accepts] <;> omega

theorem within_iff_mode (strict lenient : Flags) : strict.Within lenient ↔ strict.mode.Within lenient.mode := by
  have modes : strict.Within lenient ↔ ∀ tally, tally.returnTrue ≤ tally.call → tally.call ≠ 0 →
      strict.mode.Accepts tally → lenient.mode.Accepts tally := by
    apply forall_congr'
    intro tally
    apply forall_congr'
    intro bounded
    rw [reports_iff_accepts strict bounded, reports_iff_accepts lenient bounded]
    tauto
  rw [modes]
  constructor
  · intro accepts
    have both := accepts ⟨2, 2⟩ (by decide) (by decide)
    have single := accepts ⟨2, 1⟩ (by decide) (by decide)
    have neither := accepts ⟨2, 0⟩ (by decide) (by decide)
    cases first : strict.mode <;> cases second : lenient.mode <;>
      simp [first, second, Mode.Accepts, Mode.Within] at both single neither ⊢
  · intro within tally bounded called
    cases first : strict.mode <;> cases second : lenient.mode <;>
      simp [first, second, Mode.Accepts, Mode.Within] at within ⊢ <;> omega

def Tally.plugins (tally : Tally) : List Plugin :=
  List.replicate tally.returnTrue (.constant 1) ++ List.replicate (tally.call - tally.returnTrue) (.constant 0)

theorem judge_plugins (flags : Flags) (bounded : tally.returnTrue ≤ tally.call) (path : CString) :
    judge flags tally.plugins path = some (reports flags tally) := by
  have verdicts : activeVerdicts tally.plugins path =
      List.replicate tally.returnTrue 1 ++ List.replicate (tally.call - tally.returnTrue) 0 := by
    have active (verdict : Int) : (Plugin.constant verdict).active = true := rfl
    have answer (verdict : Int) : (Plugin.constant verdict).verdict path = verdict := rfl
    simp [activeVerdicts, Tally.plugins, List.filter_append, active, answer]
  rw [judge_of_nonneg, verdicts]
  · congr 2
    simp [Tally.add, List.count_replicate, bounded]
  · rw [verdicts]
    intro verdict member
    rcases List.mem_append.mp member with ones | zeros
    · rw [List.eq_of_mem_replicate ones]
      exact Int.one_nonneg
    · rw [List.eq_of_mem_replicate zeros]

theorem searchDir_plugins (flags : Flags) (bounded : tally.returnTrue ≤ tally.call) :
    ∃ after, searchDir smallTree flags (smallForest.depth + 1) 1 (.holding "r".toList tally.plugins) = .ok after ∧
      after.lines = if reports flags tally then ["r/a".toList, "r/d/b".toList] else [] := by
  obtain ⟨after, ran, _, lines, _⟩ := searchDir_run smallTree_shows (Ready.holding "r".toList tally.plugins) flags
  refine ⟨after, ran _ (Nat.lt_succ_self _), lines.trans ?_⟩
  have same : judge flags tally.plugins = fun _ => some (reports flags tally) :=
    funext (judge_plugins flags bounded)
  rw [same]
  cases reports flags tally <;> rfl

/-- One combination of flags prints no more than another, in every search of
every tree with whatever plugins, exactly if its mode is within the other's;
the two searches then also end together, after looking at the same files. -/
theorem searchDir_lockstep_iff (strict lenient : Flags) :
    strict.mode.Within lenient.mode ↔
      ∀ (opendir : CString → Option (List Dirent)) (fuel folder : Nat) (host : Host),
        Both Stopped.Twin Twin (searchDir opendir strict fuel folder host)
          (searchDir opendir lenient fuel folder host) := by
  rw [← within_iff_mode]
  constructor
  · intro within opendir fuel folder host
    exact Twin.searchDir within opendir fuel folder (.refl host)
  · intro lockstep tally bounded strictly
    by_contra refuses
    obtain ⟨after, ran, lines⟩ := searchDir_plugins strict bounded
    obtain ⟨afterToo, ranToo, linesToo⟩ := searchDir_plugins lenient bounded
    have both := lockstep smallTree (smallForest.depth + 1) 1 (.holding "r".toList tally.plugins)
    rw [ran, ranToo] at both
    cases both with
    | ok twin =>
      have fewer := twin.lines
      rw [lines, linesToo, if_pos strictly, if_neg refuses] at fewer
      exact absurd (List.sublist_nil.mp fewer) (List.cons_ne_nil _ _)

end PluginSearch
