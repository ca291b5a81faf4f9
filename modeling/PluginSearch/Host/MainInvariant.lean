import PluginSearch.Basis.Forest
import PluginSearch.Host.Main
import PluginSearch.Host.Steps

namespace PluginSearch

/-- The options of a plugin without the texts their flags lead to. -/
def Lib.pointers (lib : Lib) : List Opt := lib.optsToPass.map Opt.pointers

def Host.pointers (host : Host) : List (List Opt) := host.plugin.map Lib.pointers

theorem Called.pointers (called : Called fname libs tally result) :
    result.1.map Lib.pointers = libs.map Lib.pointers := by
  induction called with
  | done => rfl
  | failed busy answered negative =>
    rw [List.map_cons, List.map_cons, Lib.pointers, PpfFunc.keepsPointers _ _ _ _ _ _ answered]
    rfl
  | passed busy answered nonneg later ih =>
    rw [List.map_cons, List.map_cons, ih, Lib.pointers, PpfFunc.keepsPointers _ _ _ _ _ _ answered]
    rfl
  | idle idle later ih => rw [List.map_cons, List.map_cons, ih]

theorem getAbsPath_pointers {host : Host} (joined : host.getAbsPath buffer folder name = .ok after) :
    after.pointers = host.pointers := by
  rw [getAbsPath_eq, Host.expect_eq_ok_iff, Option.map_eq_some_iff] at joined
  obtain ⟨path, _, rfl⟩ := joined
  rfl

theorem checkFile_pointers (checked : checkFile flags fileName0 host = .ok scan) :
    scan.host.pointers = host.pointers := by
  cases checkFile_checked checked with
  | failed _ called => exact (callPlugins_called called).pointers
  | printed _ called => exact (callPlugins_called called).pointers
  | passedOver _ called => exact (callPlugins_called called).pointers

theorem readEntries_pointers {search : Nat → Host → Except Stopped Host}
    (searches : ∀ folder host after, search folder host = .ok after → after.pointers = host.pointers)
    (entries : List Dirent) (read : readEntries search flags folder fileName0 entries host = .ok scan) :
    scan.host.pointers = host.pointers := by
  refine readEntries_relates (fun before after => after.pointers = before.pointers) (fun _ => rfl)
    (fun _ _ _ first second => second.trans first) ?_ entries read
  intro entry host scan entered
  cases entered with
  | file joined checked => exact (checkFile_pointers checked).trans (getAbsPath_pointers joined)
  | directory joined searched => exact (searches _ _ _ searched).trans (getAbsPath_pointers joined)
  | skipped => rfl

/-- Whatever the plugins do to their option strings, a search leaves every
pointer in the option arrays as it was. -/
theorem searchDir_pointers (searched : searchDir opendir flags fuel folder host = .ok after) :
    after.pointers = host.pointers := by
  induction fuel generalizing folder host after with
  | zero => simp [searchDir] at searched
  | succ fuel ih =>
    cases searchDir_level searched with
    | null => rfl
    | refused => rfl
    | abandoned held opened entered => exact readEntries_pointers (fun _ _ _ => ih) _ entered
    | finished held opened entered => exact readEntries_pointers (fun _ _ _ => ih) _ entered

theorem frees_of_pointers {one two : List Lib} (same : one.map Lib.pointers = two.map Lib.pointers) :
    one.flatMap Lib.frees = two.flatMap Lib.frees := by
  have through (libs : List Lib) : libs.flatMap Lib.frees =
      (libs.map Lib.pointers).flatMap (fun opts => (opts.map Opt.flag).filter (· ≠ .null)) := by
    simp only [List.flatMap_map]
    congr
    funext lib
    simp only [Lib.frees, Lib.pointers, List.map_map]
    rfl
  rw [through, through, same]

/-- A library from which everything needed can be obtained. -/
def Usable (env : Env) (i : Nat) (handle : Option Nat) : Prop :=
  ∃ pgiInfo ppfFunc, env.dlsymInfo handle = some pgiInfo ∧ env.callocPi = true ∧ 0 ≤ pgiInfo.ret ∧
    pgiInfo.supOpts ≠ [] ∧ env.dlsymProcess handle = some ppfFunc ∧ env.callocLongopts i = true ∧
    env.callocOptsToPass i = true

def Env.Allocates (env : Env) : Prop :=
  env.callocPi = true ∧ ∀ i, env.callocLongopts i = true ∧ env.callocOptsToPass i = true

def Env.supOpts (env : Env) (handle : Option Nat) : List Opt :=
  (env.dlsymInfo handle).elim [] InfoFunc.supOpts

theorem loadPlugin_cases (env : Env) (i : Nat) (handle : Option Nat) :
    (Usable env i handle ∧ ∃ ppfFunc, loadPlugin env i handle = .ok ⟨[], env.supOpts handle, ppfFunc⟩) ∨
    (¬ Usable env i handle ∧ ∃ status, status ≠ .going ∧ loadPlugin env i handle = .error status) := by
  by_cases usable : Usable env i handle
  · obtain ⟨pgiInfo, ppfFunc, info, pi, ret, table, process, longopts, opts⟩ := id usable
    refine .inl ⟨usable, ppfFunc, ?_⟩
    simp [loadPlugin, Env.supOpts, info, pi, ret, table, process, longopts, opts]
  · refine .inr ⟨usable, ?_⟩
    unfold loadPlugin
    split
    · exact ⟨.failed, by decide, rfl⟩
    · rename_i pgiInfo info
      split
      · rename_i pi
        split
        · exact ⟨.failed, by decide, rfl⟩
        · split
          · exact ⟨.failed, by decide, rfl⟩
          · rename_i ret table
            split
            · exact ⟨.failed, by decide, rfl⟩
            · rename_i ppfFunc process
              split
              · exact ⟨.failed, by decide, rfl⟩
              · split
                · exact ⟨.failed, by decide, rfl⟩
                · rename_i longopts opts
                  refine absurd ⟨pgiInfo, ppfFunc, info, pi, not_lt.mp ret, ?_, process, ?_, ?_⟩ usable
                  · simpa using table
                  · simpa using longopts
                  · simpa using opts
      · split
        · exact ⟨.failed, by decide, rfl⟩
        · exact ⟨.crashed, by decide, rfl⟩

/-- The loading loop hands over no option yet; it gets through exactly when
every library is usable, and then holds their tables in order. -/
theorem loadPlugins_spec (env : Env) (handles : List (Option Nat)) (i : Nat) (plugin : List Lib)
    (fresh : ∀ lib ∈ plugin, lib.optsToPass = []) :
    (∀ lib ∈ (loadPlugins env handles i plugin).2, lib.optsToPass = []) ∧
    ((loadPlugins env handles i plugin).1 = .going ↔
      ∀ k handle, handles[k]? = some handle → Usable env (i + k) handle) ∧
    ((loadPlugins env handles i plugin).1 = .going →
      (loadPlugins env handles i plugin).2.map Lib.longopts =
        plugin.map Lib.longopts ++ handles.map env.supOpts) := by
  induction handles generalizing i plugin with
  | nil => exact ⟨fresh, by simp [loadPlugins], by simp [loadPlugins]⟩
  | cons handle rest ih =>
    rcases loadPlugin_cases env i handle with ⟨usable, ppfFunc, loaded⟩ | ⟨useless, status, stopped, loaded⟩
    · have more : ∀ lib ∈ plugin ++ [⟨[], env.supOpts handle, ppfFunc⟩], lib.optsToPass = [] := by
        intro lib member
        rcases List.mem_append.mp member with old | new
        · exact fresh lib old
        · rw [List.mem_singleton.mp new]
      obtain ⟨empty, going, tables⟩ := ih (i + 1) _ more
      simp only [loadPlugins, loaded]
      refine ⟨empty, ?_, fun through => (tables through).trans (by simp)⟩
      rw [going, Loop.forall_place_cons (Usable env)]
      exact (and_iff_right usable).symm
    · simp only [loadPlugins, loaded]
      refine ⟨fresh, ⟨fun through => absurd through stopped, fun all => ?_⟩, fun through => absurd through stopped⟩
      exact absurd (all 0 handle rfl) useless

def recognisedIndices (results : List LongResult) : List Nat :=
  results.filterMap fun
    | .recognised optInd _ => some optInd
    | .other => none

/-- Handing over this entry of a table brings along no pointer of the table. -/
def PlainOption (table : List Opt) (optInd : Nat) : Prop :=
  ∀ opt, table[optInd]? = some opt → opt.hasArg = 0 → opt.flag = .null

def copied (block : Nat) : Flag := .heap block []

theorem Flag.pointer_eq_null_iff (flag : Flag) : flag.pointer = .null ↔ flag = .null := by
  cases flag <;> simp [Flag.pointer]

theorem Lib.optsToPassLen_append (lib : Lib) (opt : Opt) :
    ({ lib with optsToPass := lib.optsToPass ++ [opt] } : Lib).optsToPassLen = lib.optsToPassLen + 1 := by
  simp [Lib.optsToPassLen]

theorem Lib.frees_append (lib : Lib) (opt : Opt) :
    ({ lib with optsToPass := lib.optsToPass ++ [opt] } : Lib).frees =
      lib.frees ++ if opt.flag = .null then [] else [opt.flag.pointer] := by
  by_cases null : opt.flag = .null
  · simp [Lib.frees, null, Flag.pointer]
  · simp [Lib.frees, null, Flag.pointer_eq_null_iff]

/-- Handing over the entries of a table with these indices makes `new` copies
and passes the pointers `freed` on to the end: the copies are among them, and
are all of them exactly when every entry is plain. -/
structure HandedOver (table : List Opt) (indices new : List Nat) (freed : List Flag) : Prop where
  among : (new.map copied).Sublist freed
  all : new.map copied = freed ↔ ∀ optInd ∈ indices, PlainOption table optInd

theorem HandedOver.nil (table : List Opt) : HandedOver table [] [] [] := ⟨by simp, by simp⟩

theorem HandedOver.append (first : HandedOver table one new freed) (second : HandedOver table two new' freed') :
    HandedOver table (one ++ two) (new ++ new') (freed ++ freed') := by
  refine ⟨?_, ?_⟩
  · rw [List.map_append]
    exact first.among.append second.among
  · rw [List.map_append, append_eq_iff_of_sublist first.among second.among, first.all, second.all,
      List.forall_mem_append]

theorem HandedOver.plain (entry : table[optInd]? = some opt) (takes : opt.hasArg = 0) :
    HandedOver table [optInd] [] (if opt.flag = .null then [] else [opt.flag.pointer]) := by
  have meaning : PlainOption table optInd ↔ opt.flag = .null := by
    constructor
    · exact fun plain => plain opt entry takes
    · intro null other found _
      cases entry.symm.trans found
      exact null
  refine ⟨by simp, ?_⟩
  by_cases null : opt.flag = .null <;> simp [meaning, null]

theorem HandedOver.argument (entry : table[optInd]? = some opt) (takes : opt.hasArg ≠ 0) (block : Nat) :
    HandedOver table [optInd] [block] [copied block] := by
  have plain : PlainOption table optInd := by
    intro other found takesNothing
    cases entry.symm.trans found
    exact absurd takesNothing takes
  exact ⟨by simp, by simp [plain]⟩

inductive Passing (lib : Lib) (copies : List Nat) (optInd : Nat) (optarg : Option CString) :
    Except Status (Lib × List Nat) → Prop where
  | full (full : lib.optsToPassLen = lib.longopts.length) : Passing lib copies optInd optarg (.error .failed)
  | missing (free : lib.optsToPassLen ≠ lib.longopts.length) (missing : lib.longopts[optInd]? = none) :
      Passing lib copies optInd optarg (.error .crashed)
  | bare (free : lib.optsToPassLen ≠ lib.longopts.length) (entry : lib.longopts[optInd]? = some opt)
      (takes : opt.hasArg ≠ 0) (bare : optarg = none) : Passing lib copies optInd optarg (.error .crashed)
  | plain (free : lib.optsToPassLen ≠ lib.longopts.length) (entry : lib.longopts[optInd]? = some opt)
      (plain : opt.hasArg = 0) :
      Passing lib copies optInd optarg (.ok ({ lib with optsToPass := lib.optsToPass ++ [opt] }, copies))
  | argument (free : lib.optsToPassLen ≠ lib.longopts.length) (entry : lib.longopts[optInd]? = some opt)
      (takes : opt.hasArg ≠ 0) (given : optarg = some text) :
      Passing lib copies optInd optarg
        (.ok ({ lib with optsToPass := lib.optsToPass ++ [{ opt with flag := .heap copies.length text }] },
          copies ++ [copies.length]))

theorem passOption_passing (lib : Lib) (copies : List Nat) (optInd : Nat) (optarg : Option CString) :
    Passing lib copies optInd optarg (passOption lib copies optInd optarg) := by
  unfold passOption
  split
  · rename_i full
    exact .full full
  · rename_i free
    cases entry : lib.longopts[optInd]? with
    | none => exact .missing free entry
    | some opt =>
      by_cases takes : opt.hasArg = 0
      · simp only [takes, ne_eq, not_true_eq_false, ↓reduceIte]
        exact .plain free entry takes
      · simp only [ne_eq, takes, not_false_eq_true, ↓reduceIte]
        cases optarg with
        | none => exact .bare free entry takes rfl
        | some text => exact .argument free entry takes rfl

theorem passOption_cases (lib : Lib) (copies : List Nat) (optInd : Nat) (optarg : Option CString) :
    (lib.optsToPassLen = lib.longopts.length ∧ passOption lib copies optInd optarg = .error .failed) ∨
    (lib.optsToPassLen ≠ lib.longopts.length ∧ passOption lib copies optInd optarg = .error .crashed) ∨
    (lib.optsToPassLen ≠ lib.longopts.length ∧ ∃ opt new,
      passOption lib copies optInd optarg =
        .ok ({ lib with optsToPass := lib.optsToPass ++ [opt] }, copies ++ new) ∧
      HandedOver lib.longopts [optInd] new (if opt.flag = .null then [] else [opt.flag.pointer])) := by
  have passing := passOption_passing lib copies optInd optarg
  generalize passOption lib copies optInd optarg = passed at passing ⊢
  cases passing with
  | full full => exact .inl ⟨full, rfl⟩
  | missing free => exact .inr (.inl ⟨free, rfl⟩)
  | bare free => exact .inr (.inl ⟨free, rfl⟩)
  | plain free entry plain => exact .inr (.inr ⟨free, _, [], by simp, .plain entry plain⟩)
  | argument free entry takes =>
    exact .inr (.inr ⟨free, _, [copies.length], rfl, .argument entry takes copies.length⟩)

/-- The option loop of one plugin hands over the recognised options, as many as
the plugin's table has entries. -/
theorem passResults_spec (results : List LongResult) (lib : Lib) (copies : List Nat)
    (room : lib.optsToPassLen ≤ lib.longopts.length)
    (passed : passResults results lib copies = (status, after, copies')) (alive : status ≠ .crashed) :
    ∃ new freed, copies' = copies ++ new ∧ after.frees = lib.frees ++ freed ∧
      HandedOver lib.longopts ((recognisedIndices results).take (lib.longopts.length - lib.optsToPassLen)) new freed ∧
      (status = .going ↔ (recognisedIndices results).length ≤ lib.longopts.length - lib.optsToPassLen) := by
  induction results generalizing lib copies with
  | nil =>
    cases passed
    refine ⟨[], [], by simp, by simp, ?_, by simp [recognisedIndices]⟩
    simpa [recognisedIndices] using HandedOver.nil _
  | cons result rest ih =>
    cases result with
    | other => exact ih lib copies room passed
    | recognised optInd optarg =>
      have indices : recognisedIndices (.recognised optInd optarg :: rest) = optInd :: recognisedIndices rest := rfl
      rcases passOption_cases lib copies optInd optarg with
        ⟨full, option⟩ | ⟨_, option⟩ | ⟨free, opt, first, option, handed⟩
      · rw [passResults, option] at passed
        cases passed
        refine ⟨[], [], by simp, by simp, ?_, by simp [indices, full]⟩
        simpa [full] using HandedOver.nil _
      · rw [passResults, option] at passed
        cases passed
        exact absurd rfl alive
      · rw [passResults, option] at passed
        have capacity : lib.longopts.length - lib.optsToPassLen =
            lib.longopts.length - (lib.optsToPassLen + 1) + 1 := by omega
        obtain ⟨new, freed, more, frees, later, going⟩ := ih _ _ (by
          rw [Lib.optsToPassLen_append]
          exact lt_of_le_of_ne room free) passed
        rw [Lib.optsToPassLen_append] at later going
        rw [Lib.frees_append, List.append_assoc] at frees
        refine ⟨first ++ new, _, by simp [more], frees, ?_, ?_⟩
        · rw [indices, capacity, List.take_succ_cons]
          exact handed.append later
        · rw [going, indices, capacity]
          simp

/-- No option handed over to the plugins with these tables, from index `i` on,
brings along a pointer of its table. Too many options for one plugin keep the
loop from the plugins behind it. -/
def PlainTables (env : Env) : List (List Opt) → Nat → Prop
  | [], _ => True
  | table :: rest, i =>
    (∀ optInd ∈ (recognisedIndices (env.longResults i)).take table.length, PlainOption table optInd) ∧
      ((recognisedIndices (env.longResults i)).length ≤ table.length → PlainTables env rest (i + 1))

/-- Tables whose options without an argument have no flag, as both plugins have
them, are safe whatever is handed over. -/
theorem plainTables_of_null {tables : List (List Opt)}
    (null : ∀ table ∈ tables, ∀ opt ∈ table, opt.hasArg = 0 → opt.flag = .null) (i : Nat) :
    PlainTables env tables i := by
  induction tables generalizing i with
  | nil => trivial
  | cons table rest ih =>
    refine ⟨?_, fun _ => ih (fun other member => null other (by simp [member])) (i + 1)⟩
    intro optInd _ opt found
    exact null table (by simp) opt (List.mem_of_getElem? found)

theorem frees_fresh {plugin : List Lib} (fresh : ∀ lib ∈ plugin, lib.optsToPass = []) :
    plugin.flatMap Lib.frees = [] := by
  simp only [List.flatMap_eq_nil_iff]
  intro lib member
  simp [Lib.frees, fresh lib member]

/-- The option loop over all plugins, from empty option arrays. -/
theorem passAll_spec (env : Env) (plugin : List Lib) (i : Nat) (copies : List Nat)
    (fresh : ∀ lib ∈ plugin, lib.optsToPass = [])
    (passed : passAll env plugin i copies = (status, after, copies')) (alive : status ≠ .crashed) :
    ∃ new, copies' = copies ++ new ∧ (new.map copied).Sublist (after.flatMap Lib.frees) ∧
      (new.map copied = after.flatMap Lib.frees ↔ PlainTables env (plugin.map Lib.longopts) i) := by
  induction plugin generalizing i copies status after copies' with
  | nil =>
    cases passed
    exact ⟨[], by simp, by simp, by simp [PlainTables]⟩
  | cons lib rest ih =>
    have empty : lib.optsToPass = [] := fresh lib (by simp)
    have freshRest : ∀ other ∈ rest, other.optsToPass = [] := fun other member => fresh other (by simp [member])
    have unfreed : lib.frees = [] := by simp [Lib.frees, empty]
    have room : lib.longopts.length - lib.optsToPassLen = lib.longopts.length := by simp [Lib.optsToPassLen, empty]
    obtain ⟨first, lib', copied', own⟩ : ∃ first lib' copied',
        passResults (env.longResults i) lib copies = (first, lib', copied') := ⟨_, _, _, rfl⟩
    rw [passAll, own] at passed
    have survives : first ≠ .crashed := by
      rintro rfl
      cases passed
      exact alive rfl
    obtain ⟨new, freed, more, frees, ⟨sub, plain⟩, going⟩ := passResults_spec _ lib copies
      (by simp [Lib.optsToPassLen, empty]) own survives
    rw [room] at plain going
    rw [unfreed, List.nil_append] at frees
    cases first with
    | crashed => exact absurd rfl survives
    | failed =>
      cases passed
      have stops : ¬ (recognisedIndices (env.longResults i)).length ≤ lib.longopts.length :=
        fun fits => nomatch going.mpr fits
      refine ⟨new, more, ?_, ?_⟩
      · simpa [frees, frees_fresh freshRest] using sub
      · simp [frees, frees_fresh freshRest, plain, PlainTables, stops]
    | going =>
      obtain ⟨later, rest', copies'', passedRest⟩ : ∃ later rest' copies'',
          passAll env rest (i + 1) copied' = (later, rest', copies'') := ⟨_, _, _, rfl⟩
      simp only [passedRest] at passed
      cases passed
      obtain ⟨newRest, moreRest, subRest, plainRest⟩ := ih (i + 1) copied' freshRest passedRest alive
      refine ⟨new ++ newRest, by simp [moreRest, more], ?_, ?_⟩
      · simpa [frees] using sub.append subRest
      · have fits := going.mp rfl
        simp only [List.map_append, List.flatMap_cons, frees, List.map_cons, PlainTables]
        rw [append_eq_iff_of_sublist sub subRest, plain, plainRest]
        simp [fits]

end PluginSearch
