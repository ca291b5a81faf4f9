import PluginSearch.Host.Libraries
import PluginSearch.Host.ShortOptions
import PluginSearch.Host.Texts

/-! `main`: the plugins are loaded, their options are collected and the search is
started; one block at the end releases what its variables say was acquired. -/

namespace PluginSearch

/-- `plugin_get_info` of a library: what it returns for a null pointer, what it
returns otherwise, and the options it then reports. -/
structure InfoFunc where
  retNull : Int
  ret : Int
  supOpts : List Opt

/-- What `getopt_long_only` returns before the final -1: 0 for an option of the
table, with its index, or some other value. -/
inductive LongResult where
  | recognised (optInd : Nat) (optarg : Option CString)
  | other
  deriving DecidableEq, Repr

/-- What the calls of `main` meet. The plugin folder is listed twice, `dlsym` is
asked about entries of the handle array, null ones included, `lastArg` is the
last word of the command line as `getopt_long_only` leaves it, and `info` holds
the texts that the plugins report. The variable `LAB1DEBUG` is not set. -/
structure Env where
  getcwd : Option CString
  counted : CString → Option (List Dirent)
  listed : CString → Option (List Dirent)
  dlopen : CString → Option Nat
  dlsymInfo : Option Nat → Option InfoFunc
  dlsymProcess : Option Nat → Option PpfFunc
  callocDl : Bool
  callocPlugin : Bool
  callocPi : Bool
  callocLongopts : Nat → Bool
  callocOptsToPass : Nat → Bool
  longResults : Nat → List LongResult
  lastArg : CString
  opendir : CString → Option (List Dirent)
  info : Info

/-- How a loop of `main` goes on: it may jump to `END`, or crash on the way. -/
inductive Status where
  | going
  | failed
  | crashed
  deriving DecidableEq, Repr

/-- The body of the loading loop, for `dl[i]`. -/
def loadPlugin (env : Env) (i : Nat) (handle : Option Nat) : Except Status Lib :=
  match env.dlsymInfo handle with
  | none => .error .failed
  | some pgiInfo =>
    if env.callocPi then
      if pgiInfo.ret < 0 then .error .failed
      else if pgiInfo.supOpts.length = 0 then .error .failed
      else match env.dlsymProcess handle with
        | none => .error .failed
        | some ppfFunc =>
          if !env.callocLongopts i then .error .failed
          else if !env.callocOptsToPass i then .error .failed
          else .ok ⟨[], pgiInfo.supOpts, ppfFunc⟩
    else if pgiInfo.retNull < 0 then .error .failed
    else .error .crashed

def loadPlugins (env : Env) : List (Option Nat) → Nat → List Lib → Status × List Lib
  | [], _, plugin => (.going, plugin)
  | handle :: rest, i, plugin => match loadPlugin env i handle with
    | .error status => (status, plugin)
    | .ok lib => loadPlugins env rest (i + 1) (plugin ++ [lib])

/-- One recognised option: its table entry is copied, and its argument, if it
takes one, goes to a new block on the heap. -/
def passOption (lib : Lib) (copies : List Nat) (optInd : Nat) (optarg : Option CString) :
    Except Status (Lib × List Nat) :=
  if lib.optsToPassLen = lib.longopts.length then .error .failed
  else match lib.longopts[optInd]? with
    | none => .error .crashed
    | some opt =>
      if opt.hasArg ≠ 0 then match optarg with
        | none => .error .crashed
        | some text =>
          .ok ({ lib with optsToPass := lib.optsToPass ++ [{ opt with flag := .heap copies.length text }] },
            copies ++ [copies.length])
      else .ok ({ lib with optsToPass := lib.optsToPass ++ [opt] }, copies)

def passResults : List LongResult → Lib → List Nat → Status × Lib × List Nat
  | [], lib, copies => (.going, lib, copies)
  | .other :: rest, lib, copies => passResults rest lib copies
  | .recognised optInd optarg :: rest, lib, copies => match passOption lib copies optInd optarg with
    | .error status => (status, lib, copies)
    | .ok (lib, copies) => passResults rest lib copies

def passAll (env : Env) : List Lib → Nat → List Nat → Status × List Lib × List Nat
  | [], _, copies => (.going, [], copies)
  | lib :: rest, i, copies => match passResults (env.longResults i) lib copies with
    | (.going, lib, copies) =>
      let (status, rest, copies) := passAll env rest (i + 1) copies
      (status, lib :: rest, copies)
    | (status, lib, copies) => (status, lib :: rest, copies)

/-- What `END` finds: the variables it looks at, and for comparison the handles
that were opened and the blocks that were copied to. -/
structure Vars where
  numIter : Nat
  dl : Option (List (Option Nat))
  plugin : Option (List Lib)
  opened : List Nat
  copies : List Nat

/-- How `main` ends before or at `END`, or that its search reached the bound on
the depth of the recursion. -/
inductive Exit where
  | crashed
  | tooDeep
  | returned (code : Int)
  | atEnd (vars : Vars)

def Cause.exit : Cause → Exit
  | .undefined => .crashed
  | .tooDeep => .tooDeep

/-- A run of `main`, or of the rest of it: how it ends, what it copies into its
path buffers and what it writes to the standard output, error messages apart. -/
structure Run where
  exit : Exit
  copies : List Copy
  lines : List CString

def Run.quiet (exit : Exit) : Run := ⟨exit, [], []⟩

def Run.behind (copies : List Copy) (run : Run) : Run := { run with copies := copies ++ run.copies }

@[simp] theorem Run.quiet_exit (exit : Exit) : (Run.quiet exit).exit = exit := rfl

@[simp] theorem Run.quiet_copies (exit : Exit) : (Run.quiet exit).copies = [] := rfl

@[simp] theorem Run.quiet_lines (exit : Exit) : (Run.quiet exit).lines = [] := rfl

@[simp] theorem Run.behind_exit (copies : List Copy) (run : Run) : (run.behind copies).exit = run.exit := rfl

@[simp] theorem Run.behind_copies (copies : List Copy) (run : Run) :
    (run.behind copies).copies = copies ++ run.copies := rfl

@[simp] theorem Run.behind_lines (copies : List Copy) (run : Run) : (run.behind copies).lines = run.lines := rfl

@[simp] theorem Run.behind_behind (first second : List Copy) (run : Run) :
    (run.behind second).behind first = run.behind (first ++ second) := by
  simp [Run.behind]

/-- The last word names the working folder, which is in its buffer already. -/
def Env.Dotted (env : Env) : Prop := env.lastArg = "./".toList ∨ env.lastArg = ".".toList

instance (env : Env) : Decidable env.Dotted := inferInstanceAs (Decidable (_ ∨ _))

def Env.root (env : Env) (folderWorking : CString) : CString :=
  if env.Dotted then folderWorking else env.lastArg

def ShortOpts.flags (opts : ShortOpts) : Flags := ⟨opts.aflag, opts.oflag, opts.nflag⟩

def runSearch (env : Env) (opts : ShortOpts) (fuel : Nat) (folderWorking : CString) (vars : Vars)
    (plugin : List Lib) : Run :=
  Run.behind (if env.Dotted then [] else [⟨.folderWorking, env.lastArg⟩])
    (match searchDir env.opendir opts.flags fuel 1 (.start (env.root folderWorking) plugin) with
    | .error stopped => ⟨stopped.cause.exit, stopped.host.copies, pathLines stopped.host.lines⟩
    | .ok host => ⟨.atEnd { vars with plugin := vars.plugin.map (fun _ => host.plugin) }, host.copies,
        foundText host.lines host.count⟩)

def runOptions (env : Env) (opts : ShortOpts) (fuel : Nat) (folderWorking : CString) (vars : Vars)
    (plugin : List Lib) : Run :=
  if opts.vflag then ⟨.atEnd vars, [], versionText env.info plugin⟩
  else if opts.hflag then
    let (lines, through) := helpPlugins env.info 0 plugin
    ⟨if through then .atEnd vars else .returned (-1), [], helpText :: lines⟩
  else match passAll env plugin 0 [] with
    | (.crashed, _, _) => .quiet .crashed
    | (.failed, plugin, copies) =>
      .quiet (.atEnd { vars with plugin := vars.plugin.map (fun _ => plugin), copies := copies })
    | (.going, plugin, copies) => runSearch env opts fuel folderWorking { vars with copies := copies } plugin

/-- From the arrays on. A null array is written through as soon as there is a library. -/
def runPlugins (env : Env) (opts : ShortOpts) (fuel : Nat) (folderWorking folderLib : CString) (numIter : Nat) : Run :=
  let dl := if env.callocDl then some (List.replicate numIter none) else none
  let listed := getLib env.dlopen folderLib (dl.getD []) (env.listed folderLib)
  Run.behind listed.log (match listed.result with
    | none => .quiet .crashed
    | some (_, handles) =>
      let dl := dl.map (fun _ => handles.dl)
      if numIter ≠ 0 ∧ ¬ (env.callocDl ∧ env.callocPlugin) then .quiet .crashed
      else
        let (status, plugin) := loadPlugins env handles.dl 0 []
        let vars : Vars :=
          ⟨numIter, dl, if env.callocPlugin then some plugin else none, handles.opened, []⟩
        match status with
        | .crashed => .quiet .crashed
        | .failed => .quiet (.atEnd vars)
        | .going => runOptions env opts fuel folderWorking vars plugin)

def mainFrom (env : Env) (opts : ShortOpts) (fuel : Nat) : Run :=
  match env.getcwd with
  | none => .quiet (.atEnd ⟨0, none, none, [], []⟩)
  | some folderWorking =>
    let folderLib := opts.pvalue.getD folderWorking
    let numIter := countSo folderLib (env.counted folderLib)
    Run.behind (⟨.folderWorking, folderWorking⟩ :: ⟨.folderLib, folderLib⟩ ::
        countCopies folderLib (env.counted folderLib))
      (if numIter < 2 ∧ opts.needLib2 then .quiet (.atEnd ⟨numIter, none, none, [], []⟩)
      else runPlugins env opts fuel folderWorking folderLib numIter)

/-- `main`, given the words behind the program name. -/
def main (env : Env) (args : List CString) (fuel : Nat) : Run :=
  if args.length < 2 then ⟨.returned 0, [], [usageText]⟩
  else match shortOptions args with
    | some (some opts) => mainFrom env opts fuel
    | _ => .quiet (.returned (-1))

/-- One `dlclose(dl[i])`: with what the entry holds, or through a null array. -/
inductive Close where
  | entry (handle : Option Nat)
  | throughNull
  deriving DecidableEq, Repr

def Vars.closes (vars : Vars) : List Close :=
  (List.range vars.numIter).map fun i => match vars.dl with
    | none => .throughNull
    | some handles => .entry (handles[i]?.join)

/-- The pointers that `END` frees for the options of one plugin. -/
def Lib.frees (lib : Lib) : List Flag :=
  (lib.optsToPass.map (fun opt => opt.flag.pointer)).filter (· ≠ .null)

def Vars.frees (vars : Vars) : List Flag :=
  match vars.plugin with
  | none => []
  | some plugin => plugin.flatMap Lib.frees

end PluginSearch
