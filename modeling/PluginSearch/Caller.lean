import PluginSearch.OneLibrary

/-! `lab1call`, which calls one plugin for one file. Its option loop stops where
the search program passes over a word; where it goes on both hand over the same
options, and the search prints the files that `lab1call` says 1 for, unless it
finds short options of its own in the same words. -/

namespace PluginSearch

open Forest (checked files reported)
open LongOption (Code Dashes Yields scan)

/-- What the calls of `lab1call` meet; `strerror` describes the `errno` that the
plugin leaves. -/
structure CallEnv where
  dlopen : CString → Option Nat
  dlsymInfo : Nat → Option InfoFunc
  dlsymProcess : Nat → Option PpfFunc
  callocLongopts : Bool
  callocOptsToPass : Bool
  strerror : CString

/-- What `END` finds: the handle, the options, and for comparison the blocks
that were copied to and the value that the plugin returned if it was called. -/
structure CallVars where
  dl : Option Nat
  optsToPass : List Opt
  copies : List Nat
  ret : Option Int

inductive CallExit where
  | returned
  | crashed
  | atEnd (vars : CallVars)

def callUsage : CString :=
  "Usage: lab1call /path/to/libabcNXXXX.so [options_for_lib] /path/to/file\n".toList

def aboutLines (texts : Texts) (table : List Opt) : List CString :=
  ["Plugin purpose:\t\t".toList ++ texts.purpose ++ "\n".toList,
    "Plugin author:\t\t".toList ++ texts.author ++ "\n".toList, "Supported options: ".toList] ++
  if table.length > 0 then "\n".toList :: optionLines texts table else [noneText]

def infoLines (texts : Texts) (table : List Opt) : List CString := aboutLines texts table ++ ["\n".toList]

def returnedLines (env : CallEnv) (ret : Int) : List CString :=
  ("plugin_process_file() returned ".toList ++ Numeral.lld ret ++ "\n".toList) ::
    if ret < 0 then ["Error information: ".toList ++ env.strerror ++ "\n".toList] else []

/-- The option loop. Words are moved behind the options and never returned; a
result other than -1 that is no option of the plugin ends the program. -/
def callOptions : List Code → Lib → List Nat → Status × Lib × List Nat
  | [], lib, copies => (.going, lib, copies)
  | .done :: _, lib, copies => (.going, lib, copies)
  | .word _ :: rest, lib, copies => callOptions rest lib copies
  | .question :: _, lib, copies => (.failed, lib, copies)
  | .option ret longind optarg :: rest, lib, copies =>
    if ret = -1 then (.going, lib, copies)
    else if ret ≠ 0 then (.failed, lib, copies)
    else match passOption lib copies longind optarg with
      | .error status => (status, lib, copies)
      | .ok (lib, copies) => callOptions rest lib copies

def callFile (env : CallEnv) (dl : Nat) (fileName : CString) (lib : Lib) (copies : List Nat) :
    CallExit × List CString :=
  match lib.ppfFunc.call fileName lib.optsToPass lib.optsToPassLen with
  | none => (.crashed, [])
  | some (ret, optsToPass) => (.atEnd ⟨some dl, optsToPass, copies, some ret⟩, returnedLines env ret)

def callLibrary (env : CallEnv) (dl : Nat) (args : List CString) (lib : Lib) : CallExit × List CString :=
  match callOptions (scan (lib.longopts.map Opt.entry) args) lib [] with
  | (.crashed, _, _) => (.crashed, [])
  | (.failed, lib, copies) => (.atEnd ⟨some dl, lib.optsToPass, copies, none⟩, [])
  | (.going, lib, copies) => callFile env dl (args.getLastD []) lib copies

def callOpened (texts : Texts) (env : CallEnv) (dl : Nat) (args : List CString) : CallExit × List CString :=
  match env.dlsymInfo dl with
  | none => (.atEnd ⟨some dl, [], [], none⟩, [])
  | some pgiInfo =>
    if pgiInfo.ret < 0 then (.atEnd ⟨some dl, [], [], none⟩, [])
    else
      let lines := infoLines texts pgiInfo.supOpts
      if pgiInfo.supOpts.length = 0 then (.atEnd ⟨some dl, [], [], none⟩, lines)
      else match env.dlsymProcess dl with
        | none => (.atEnd ⟨some dl, [], [], none⟩, lines)
        | some ppfFunc =>
          if !env.callocLongopts then (.atEnd ⟨some dl, [], [], none⟩, lines)
          else if !env.callocOptsToPass then (.atEnd ⟨some dl, [], [], none⟩, lines)
          else
            let (exit, more) := callLibrary env dl args ⟨[], pgiInfo.supOpts, ppfFunc⟩
            (exit, lines ++ more)

/-- `main` of `lab1call` with what it prints, given the words behind its name:
the first is the library, the last the file. -/
def callMain (texts : Texts) (env : CallEnv) (args : List CString) : CallExit × List CString :=
  if args.length < 3 then (.returned, [callUsage])
  else match env.dlopen (args.headD []) with
    | none => (.atEnd ⟨none, [], [], none⟩, [])
    | some dl => callOpened texts env dl args

def CallExit.ret : CallExit → Option Int
  | .atEnd vars => vars.ret
  | _ => none

/-- Up to the first -1 every result is an option of the plugin. -/
def Understood : List Code → Prop
  | [] => True
  | .done :: _ => True
  | .word _ :: rest => Understood rest
  | .question :: _ => False
  | .option ret _ _ :: rest => ret = -1 ∨ ret = 0 ∧ Understood rest

/-- The strict loop goes through exactly if the loop of the search program does
and every word was understood, and then with the same options and copies. -/
theorem callOptions_going_iff (codes : List Code) (lib : Lib) (copies : List Nat) :
    callOptions codes lib copies = (.going, after, copies') ↔
      passResults (longResults codes) lib copies = (.going, after, copies') ∧ Understood codes := by
  induction codes generalizing lib copies with
  | nil => simp [callOptions, longResults, passResults, Understood]
  | cons code rest ih =>
    cases code with
    | done => simp [callOptions, longResults, passResults, Understood]
    | word text => exact ih lib copies
    | question => simp [callOptions, Understood]
    | option ret longind optarg =>
      by_cases minus : ret = -1
      · simp [callOptions, longResults, passResults, Understood, minus]
      · by_cases zero : ret = 0
        · subst zero
          have returned : longResults (.option 0 longind optarg :: rest) =
              .recognised longind optarg :: longResults rest := by simp [longResults]
          rw [returned, callOptions, passResults]
          rcases passOption_takes lib copies longind optarg with
            ⟨_, last, more, passed⟩ | ⟨_, status, stops, passed⟩
          · simpa [passed, Understood] using ih _ more
          · simp [passed, stops]
        · simp [callOptions, Understood, minus, zero]

def callLine (libName : CString) (asks : List Ask) (fileName : CString) : List CString :=
  libName :: ((asks.map Ask.part).flatMap Part.words ++ [fileName])

section Agreement

variable {table : List Opt} {asks : List Ask}

/-- Options of the plugin are understood, and behind them whatever follows; an
option of another plugin is not. -/
theorem understood_asks (legible : ∀ ask ∈ asks, Legible table ask.part) (rest : List CString) :
    Understood (scan (table.map Opt.entry) ((asks.map Ask.part).flatMap Part.words ++ rest)) ↔
      (∀ ask ∈ asks, named table ask.name ≠ none) ∧ Understood (scan (table.map Opt.entry) rest) := by
  induction asks with
  | nil => simp
  | cons ask asks ih =>
    have first := legible ask List.mem_cons_self
    have later := ih fun other member => legible other (List.mem_cons_of_mem _ member)
    rw [List.map_cons, List.flatMap_cons, List.append_assoc, List.forall_mem_cons, and_assoc, ← later]
    cases found : place table ask.name with
    | none =>
      obtain ⟨skipped, yields⟩ := first.yields_question found
      rw [Ask.part, yields]
      simp [Understood, named, found]
    | some index =>
      have inside := (List.findIdx?_eq_some_iff_getElem.mp found).1
      rw [Ask.part, Legible.yields first found]
      simp [Understood, named, found, inside]

theorem callLine_parts (libName : CString) (asks : List Ask) (fileName : CString) :
    callLine libName asks fileName =
      (Part.plain libName :: (asks.map Ask.part ++ [.plain fileName])).flatMap Part.words := by
  simp [callLine, Part.words]

variable {libName fileName : CString}

theorem recognisedOptions_callLine (legible : ∀ ask ∈ asks, Legible table ask.part)
    (plainLib : libName.head? ≠ some '-') (plainFile : fileName.head? ≠ some '-') :
    recognisedOptions (scanResults table (callLine libName asks fileName)) = requested table (asks.map Ask.part) := by
  rw [callLine_parts, recognisedOptions_parts]
  · simp [requested, List.filterMap_append, List.filterMap_cons, Part.asks]
  · intro part member
    simp only [List.mem_cons, List.mem_append, List.mem_map, List.not_mem_nil, or_false] at member
    rcases member with rfl | ⟨ask, present, rfl⟩ | rfl
    · exact plainLib
    · exact legible ask present
    · exact plainFile

theorem understood_callLine (legible : ∀ ask ∈ asks, Legible table ask.part)
    (plainLib : libName.head? ≠ some '-') (plainFile : fileName.head? ≠ some '-') :
    Understood (scan (table.map Opt.entry) (callLine libName asks fileName)) ↔
      ∀ ask ∈ asks, named table ask.name ≠ none := by
  have first : Yields (table.map Opt.entry) [libName] [.word libName] := .plain plainLib
  have last : Yields (table.map Opt.entry) [fileName] [.word fileName] := .plain plainFile
  have front := first ((asks.map Ask.part).flatMap Part.words ++ [fileName])
  rw [callLine, ← List.singleton_append, front, List.singleton_append, Understood, understood_asks legible, last.scan]
  exact and_iff_left trivial

end Agreement

/-- A library whose options get read: it has both functions and some option, and
there is memory for them. -/
structure CallEnv.Reads (env : CallEnv) (dl : Nat) (pgiInfo : InfoFunc) (ppfFunc : PpfFunc) : Prop where
  info : env.dlsymInfo dl = some pgiInfo
  process : env.dlsymProcess dl = some ppfFunc
  valid : 0 ≤ pgiInfo.ret
  options : pgiInfo.supOpts ≠ []
  memory : env.callocLongopts = true ∧ env.callocOptsToPass = true

theorem callOpened_reads (reads : env.Reads dl pgiInfo ppfFunc) (texts : Texts) (args : List CString) :
    (callOpened texts env dl args).1 = (callLibrary env dl args ⟨[], pgiInfo.supOpts, ppfFunc⟩).1 := by
  have fine : ¬ pgiInfo.ret < 0 := not_lt.mpr reads.valid
  simp [callOpened, reads.info, fine, reads.options, reads.process, reads.memory]

/-- Both programs are offered the same library: it is the only one in the plugin
folder of the search program, and the one that `lab1call` is told to open. -/
structure Offered (env : Env) (callEnv : CallEnv) (folderLib libName : CString) (pgiInfo : InfoFunc)
    (ppfFunc : PpfFunc) : Prop where
  alone : env.Alone folderLib pgiInfo ppfFunc
  called : ∃ dl, callEnv.dlopen libName = some dl ∧ callEnv.Reads dl pgiInfo ppfFunc

section Offered

variable {env : Env} {callEnv : CallEnv} {folderLib libName : CString} {pgiInfo : InfoFunc} {ppfFunc : PpfFunc}
variable {asks : List Ask} {plugin : Plugin} {fileName : CString}

theorem Offered.callMain (offered : Offered env callEnv folderLib libName pgiInfo ppfFunc) (texts : Texts)
    (args : List CString) (many : 3 ≤ args.length) (first : args.headD [] = libName) :
    ∃ dl, (callMain texts callEnv args).1 = (callLibrary callEnv dl args ⟨[], pgiInfo.supOpts, ppfFunc⟩).1 := by
  obtain ⟨dl, opens, reads⟩ := offered.called
  refine ⟨dl, ?_⟩
  simp only [PluginSearch.callMain, not_lt.mpr many, ↓reduceIte, first, opens]
  exact callOpened_reads reads texts args

theorem callLine_long (libName : CString) (fileName : CString) (given : asks ≠ []) :
    3 ≤ (callLine libName asks fileName).length := by
  have words := length_le_words (asks.map Ask.part)
  have nonempty := List.length_pos_of_ne_nil given
  simp only [callLine, List.length_cons, List.length_append, List.length_map] at words ⊢
  omega

/-- `lab1call` gets the verdict of the plugin on the file exactly if each of its
options is one of the library; else it does not call the plugin. -/
theorem Offered.ret (offered : Offered env callEnv folderLib libName pgiInfo ppfFunc) (texts : Texts)
    (given : asks ≠ []) (legible : ∀ ask ∈ asks, Legible pgiInfo.supOpts ask.part)
    (handing : Handing pgiInfo.supOpts ppfFunc asks plugin) (plainLib : libName.head? ≠ some '-')
    (plainFile : fileName.head? ≠ some '-') :
    ((∀ ask ∈ asks, named pgiInfo.supOpts ask.name ≠ none) →
      (PluginSearch.callMain texts callEnv (callLine libName asks fileName)).1.ret =
        some (plugin.verdict fileName)) ∧
    ((∃ ask ∈ asks, named pgiInfo.supOpts ask.name = none) →
      (PluginSearch.callMain texts callEnv (callLine libName asks fileName)).1.ret = none) := by
  obtain ⟨dl, calls⟩ := offered.callMain texts (callLine libName asks fileName) (callLine_long _ _ given) rfl
  have understood := understood_callLine legible plainLib plainFile
  obtain ⟨copies, passed⟩ := handing.results (recognisedOptions_callLine legible plainLib plainFile)
  rw [calls]
  constructor
  · intro own
    have going : callOptions (scan (pgiInfo.supOpts.map Opt.entry) (callLine libName asks fileName))
        ⟨[], pgiInfo.supOpts, ppfFunc⟩ [] = (.going, plugin.lib, copies) :=
      (callOptions_going_iff _ _ _).mpr ⟨passed, understood.mpr own⟩
    obtain ⟨after, answered, _⟩ := plugin.answers fileName plugin.lib.optsToPass plugin.initial
    have last : (callLine libName asks fileName).getLastD [] = fileName := by
      rw [callLine, ← List.cons_append, List.getLastD_concat]
    rw [callLibrary, going]
    simp only [callFile, last, answered, CallExit.ret]
  · rintro ⟨ask, member, foreign⟩
    generalize outcome : callOptions (scan (pgiInfo.supOpts.map Opt.entry) (callLine libName asks fileName))
      ⟨[], pgiInfo.supOpts, ppfFunc⟩ [] = result
    obtain ⟨status, lib, blocks⟩ := result
    cases status with
    | going => exact absurd foreign (understood.mp ((callOptions_going_iff _ _ _).mp outcome).2 ask member)
    | failed => simp [callLibrary, outcome, CallExit.ret]
    | crashed => simp [callLibrary, outcome, CallExit.ret]

end Offered

theorem files_below (root : CString) (forest : Forest CString) (member : path ∈ files joinPath root forest) :
    ∃ tail, path = root ++ '/' :: tail := by
  induction forest generalizing root with
  | nil => cases member
  | file name rest ih =>
    rcases List.mem_cons.mp member with rfl | later
    · exact ⟨name, by simp [joinPath]⟩
    · exact ih root later
  | folder name inner rest inside behind =>
    rcases List.mem_append.mp member with below | later
    · obtain ⟨tail, rfl⟩ := inside _ below
      exact ⟨name ++ '/' :: tail, by simp [joinPath]⟩
    · exact behind root later
  | locked name rest ih => exact ih root member
  | skipped name rest ih => exact ih root member

def anyTable : List Opt := (Plugin.constant 1).lib.longopts

def askAny : List Ask := [⟨.two, "any".toList, .bare⟩]

def anyCallEnv : CallEnv where
  dlopen := fun path => if path = "a.so".toList then some 3 else none
  dlsymInfo := fun _ => some ⟨-1, 0, anyTable⟩
  dlsymProcess := fun _ => some (Plugin.constant 1).lib.ppfFunc
  callocLongopts := true
  callocOptsToPass := true
  strerror := []

def anyEnv : Env :=
  { sampleEnv [⟨.reg, "a.so".toList⟩] none anyTable with
    longResults := fun _ => scanResults anyTable ["--any".toList, "r".toList]
    lastArg := "r".toList
    opendir := smallTree }

section Release

/-- The options that the loop hands over before it stops. -/
def callResults : List Code → List LongResult
  | [] => []
  | .done :: _ => []
  | .word _ :: rest => callResults rest
  | .question :: _ => []
  | .option ret longind optarg :: rest =>
    if ret ≠ 0 then [] else .recognised longind optarg :: callResults rest

theorem callOptions_results (codes : List Code) (lib : Lib) (copies : List Nat) :
    (callOptions codes lib copies).2 = (passResults (callResults codes) lib copies).2 ∧
      ((callOptions codes lib copies).1 = .crashed ↔ (passResults (callResults codes) lib copies).1 = .crashed) := by
  induction codes generalizing lib copies with
  | nil => exact ⟨rfl, Iff.rfl⟩
  | cons code rest ih =>
    cases code with
    | done => exact ⟨rfl, Iff.rfl⟩
    | word text => exact ih lib copies
    | question => simp [callOptions, callResults, passResults]
    | option ret longind optarg =>
      by_cases zero : ret = 0
      · subst zero
        have returned : callResults (.option 0 longind optarg :: rest) =
            .recognised longind optarg :: callResults rest := by simp [callResults]
        rw [returned, callOptions, passResults]
        cases passOption lib copies longind optarg with
        | error status => simp
        | ok passed => simpa using ih passed.1 passed.2
      · have stops : callResults (.option ret longind optarg :: rest) = [] := by simp [callResults, zero]
        rw [stops, callOptions]
        by_cases minus : ret = -1 <;> simp [minus, zero, passResults]

/-- The pointers that `END` frees; to free a null pointer does nothing. -/
def CallVars.frees (vars : CallVars) : List Flag :=
  (vars.optsToPass.map (fun opt => opt.flag.pointer)).filter (· ≠ .null)

def handedIndices (table : List Opt) (args : List CString) : List Nat :=
  (recognisedIndices (callResults (scan (table.map Opt.entry) args))).take table.length

theorem callLibrary_frees (env : CallEnv) (dl : Nat) (args : List CString) (table : List Opt) (ppfFunc : PpfFunc)
    (ends : (callLibrary env dl args ⟨[], table, ppfFunc⟩).1 = .atEnd vars) :
    vars.dl = some dl ∧
      (vars.frees = vars.copies.map copied ↔ ∀ optInd ∈ handedIndices table args, PlainOption table optInd) := by
  obtain ⟨left, crashes⟩ := callOptions_results (scan (table.map Opt.entry) args) ⟨[], table, ppfFunc⟩ []
  generalize outcome : passResults (callResults (scan (table.map Opt.entry) args)) ⟨[], table, ppfFunc⟩ [] = result
    at left crashes
  obtain ⟨status, after, copies⟩ := result
  have handed (alive : status ≠ .crashed) :
      after.frees = copies.map copied ↔ ∀ optInd ∈ handedIndices table args, PlainOption table optInd := by
    obtain ⟨new, freed, rfl, frees, handedOver, _⟩ := passResults_spec _ _ _ (Nat.zero_le _) outcome alive
    rw [frees]
    simpa [Lib.frees, Lib.optsToPassLen, handedIndices, eq_comm] using handedOver.all
  unfold callLibrary at ends
  dsimp only at ends
  generalize callOptions (scan (table.map Opt.entry) args) ⟨[], table, ppfFunc⟩ [] = looped at ends left crashes
  obtain ⟨ended, lib, blocks⟩ := looped
  cases left
  cases ended with
  | crashed => cases ends
  | failed =>
    cases ends
    exact ⟨rfl, handed fun crashed => by simpa using crashes.mpr crashed⟩
  | going =>
    dsimp only [callFile] at ends
    split at ends
    · cases ends
    · rename_i ret opts called
      cases ends
      have kept : opts.map (fun opt => opt.flag.pointer) = after.optsToPass.map (fun opt => opt.flag.pointer) := by
        have pointers := congrArg (List.map Opt.flag) (after.ppfFunc.keepsPointers _ _ _ _ _ called)
        rw [List.map_map, List.map_map] at pointers
        exact pointers
      refine ⟨rfl, ?_⟩
      rw [CallVars.frees, kept]
      exact handed fun crashed => by simpa using crashes.mpr crashed

theorem callOpened_fails (unread : ∀ pgiInfo ppfFunc, ¬ env.Reads dl pgiInfo ppfFunc) (texts : Texts)
    (args : List CString) : (callOpened texts env dl args).1 = .atEnd ⟨some dl, [], [], none⟩ := by
  unfold callOpened
  split
  · rfl
  · rename_i pgiInfo info
    split
    · rfl
    · rename_i valid
      dsimp only
      split
      · rfl
      · rename_i filled
        split
        · rfl
        · rename_i ppfFunc process
          split
          · rfl
          · rename_i longopts
            split
            · rfl
            · rename_i opts
              refine absurd ⟨info, process, not_lt.mp valid, ?_, ?_, ?_⟩ (unread pgiInfo ppfFunc)
              · exact fun empty => filled (List.length_eq_zero_iff.mpr empty)
              · simpa using longopts
              · simpa using opts

/-- Whatever `lab1call` is given, when it comes to its end it closes the library
if it opened one, and frees exactly the arguments that it copied if and only if
no option that it handed over without an argument has a flag in its table. -/
theorem call_releases_iff (texts : Texts) (env : CallEnv) (args : List CString) (vars : CallVars)
    (ends : (callMain texts env args).1 = .atEnd vars) :
    vars.dl = env.dlopen (args.headD []) ∧
      (vars.frees = vars.copies.map copied ↔ ∀ dl pgiInfo ppfFunc, env.dlopen (args.headD []) = some dl →
        env.Reads dl pgiInfo ppfFunc → ∀ optInd ∈ handedIndices pgiInfo.supOpts args,
          PlainOption pgiInfo.supOpts optInd) := by
  unfold callMain at ends
  split at ends
  · cases ends
  · cases opens : env.dlopen (args.headD []) with
    | none =>
      rw [opens] at ends
      cases ends
      exact ⟨rfl, iff_of_true rfl (by simp)⟩
    | some dl =>
      rw [opens] at ends
      dsimp only at ends
      by_cases reads : ∃ pgiInfo ppfFunc, env.Reads dl pgiInfo ppfFunc
      · obtain ⟨pgiInfo, ppfFunc, reads⟩ := reads
        rw [callOpened_reads reads] at ends
        obtain ⟨handle, frees⟩ := callLibrary_frees env dl args pgiInfo.supOpts ppfFunc ends
        refine ⟨handle, frees.trans ⟨?_, ?_⟩⟩
        · intro plain other info func same again
          cases same
          cases reads.info.symm.trans again.info
          exact plain
        · exact fun all => all dl pgiInfo ppfFunc rfl reads
      · have unread : ∀ pgiInfo ppfFunc, ¬ env.Reads dl pgiInfo ppfFunc := by simpa using reads
        rw [callOpened_fails unread] at ends
        cases ends
        refine ⟨rfl, iff_of_true rfl ?_⟩
        intro other pgiInfo ppfFunc same again
        cases same
        exact absurd again (unread pgiInfo ppfFunc)

def argumentCallEnv : CallEnv := { anyCallEnv with dlsymInfo := fun _ => some ⟨-1, 0, [⟨"n".toList, 1, .null, 0⟩]⟩ }

theorem call_releases_any :
    ∃ vars, (callMain noTexts argumentCallEnv ["a.so".toList, "--n=1".toList, "f".toList]).1 = .atEnd vars ∧
      vars.dl = some 3 ∧ vars.copies = [0] ∧ vars.frees = vars.copies.map copied := by
  obtain ⟨handle, frees⟩ := call_releases_iff noTexts argumentCallEnv ["a.so".toList, "--n=1".toList, "f".toList] _ rfl
  refine ⟨_, rfl, handle, rfl, frees.mpr ?_⟩
  intro dl pgiInfo ppfFunc _ reads optInd _ opt found _
  cases reads.info
  rw [List.mem_singleton.mp (List.mem_of_getElem? found)]

end Release

end PluginSearch
