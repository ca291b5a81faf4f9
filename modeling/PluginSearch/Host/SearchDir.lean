import Mathlib.Logic.Function.Basic
import PluginSearch.Api
import PluginSearch.Basis.Stopping
import PluginSearch.FileName

/-! The recursive search of the host program. Paths live in heap buffers that
each level of the recursion allocates and rewrites; a child reads its folder
from the buffer of its parent. -/

namespace PluginSearch

/-- `struct lib`, the host's record of one loaded plugin. -/
structure Lib where
  optsToPass : List Opt
  longopts : List Opt
  ppfFunc : PpfFunc

def Lib.optsToPassLen (lib : Lib) : Nat := lib.optsToPass.length

inductive DType where
  | reg
  | dir
  | other
  deriving DecidableEq, Repr

structure Dirent where
  dType : DType
  dName : CString
  deriving DecidableEq, Repr

/-- What the search does to the outside, and to its own resources. -/
inductive Event where
  | openedDir (stream : Nat) (path : CString)
  | refusedDir (path : CString)
  | closedDir (stream : Nat)
  | allocated (buffer : Nat)
  | freed (buffer : Nat)
  | wrote (buffer : Nat) (text : CString)
  | checking (path : CString)
  | printed (line : CString)
  deriving DecidableEq, Repr

/-- The memory and output of a search. A buffer holds no string before its
first write and after it is freed; addresses from `fresh` on are unused. -/
structure Host where
  heap : Nat → Option CString
  fresh : Nat
  plugin : List Lib
  count : Nat
  trace : List Event

/-- Why a search stops on the way: its behaviour, or that of a plugin, is not
defined, or its recursion reaches the bound it was given. -/
inductive Cause where
  | undefined
  | tooDeep
  deriving DecidableEq, Repr

/-- A search that stopped, with what it had done so far. -/
structure Stopped where
  cause : Cause
  host : Host

namespace Host

def start (folder : CString) (plugin : List Lib) : Host :=
  ⟨Function.update (fun _ => none) 1 (some folder), 2, plugin, 0, []⟩

def lines (host : Host) : List CString :=
  host.trace.filterMap fun
    | .printed line => some line
    | _ => none

def looked (host : Host) : List CString :=
  host.trace.filterMap fun
    | .checking path => some path
    | _ => none

def expect (host : Host) : Option Value → Except Stopped Value
  | none => .error ⟨.undefined, host⟩
  | some value => .ok value

@[simp] theorem expect_none (host : Host) :
    host.expect (none : Option Value) = .error ⟨.undefined, host⟩ := rfl

@[simp] theorem expect_some (host : Host) (value : Value) : host.expect (some value) = .ok value := rfl

@[simp] theorem expect_eq_ok_iff {host : Host} {result : Option Value} :
    host.expect result = .ok value ↔ result = some value := by
  cases result <;> simp [expect]

def emit (event : Event) (host : Host) : Host := { host with trace := host.trace ++ [event] }

/-- `strcpy`, or the whole string after a `strcat`. -/
def store (buffer : Nat) (text : CString) (host : Host) : Host :=
  { host with heap := Function.update host.heap buffer (some text) }

def write (buffer : Nat) (text : CString) (host : Host) : Host := (host.store buffer text).emit (.wrote buffer text)

def malloc (host : Host) : Nat × Host :=
  (host.fresh, { host with fresh := host.fresh + 1 }.emit (.allocated host.fresh))

def free (buffer : Nat) (host : Host) : Host :=
  { host with heap := Function.update host.heap buffer none }.emit (.freed buffer)

/-- A successful `opendir`: the new stream takes the next unused number. -/
def openStream (path : CString) (host : Host) : Nat × Host :=
  (host.fresh, { host with fresh := host.fresh + 1 }.emit (.openedDir host.fresh path))

def closedir (stream : Nat) (host : Host) : Host := host.emit (.closedDir stream)

def report (path : CString) (host : Host) : Host :=
  { host with count := host.count + 1 }.emit (.printed path)

/-- `get_abs_path(path, dir, fname)`: a copy and two concatenations. -/
def getAbsPath (path dir : Nat) (fname : CString) (host : Host) : Except Stopped Host := do
  let folder ← host.expect (host.heap dir)
  let host := host.store path folder
  let copied ← host.expect (host.heap path)
  let host := host.store path (copied ++ "/".toList)
  let slashed ← host.expect (host.heap path)
  return host.write path (slashed ++ fname)

end Host

structure Tally where
  call : Nat
  returnTrue : Nat
  deriving DecidableEq, Repr

/-- The plugin loop for one file: the plugins afterwards and the counters, or
no counters after the early return on a negative verdict. -/
def callPlugins (fname : CString) : List Lib → Tally → Option (List Lib × Option Tally)
  | [], tally => some ([], some tally)
  | lib :: rest, tally =>
    if lib.optsToPassLen > 0 then do
      let (ret, optsToPass) ← lib.ppfFunc.call fname lib.optsToPass lib.optsToPassLen
      let lib := { lib with optsToPass := optsToPass }
      let tally : Tally := ⟨tally.call + 1, if ret = 1 then tally.returnTrue + 1 else tally.returnTrue⟩
      if ret < 0 then return (lib :: rest, none)
      else
        let (rest, tally) ← callPlugins fname rest tally
        return (lib :: rest, tally)
    else do
      let (rest, tally) ← callPlugins fname rest tally
      return (lib :: rest, tally)

structure Flags where
  aflag : Bool
  oflag : Bool
  nflag : Bool
  deriving DecidableEq, Repr

/-- The five guards that decide whether a file is counted and printed. -/
def reports (flags : Flags) (tally : Tally) : Bool :=
  if tally.call ≠ 0 then
    if flags.aflag ∧ tally.returnTrue = tally.call then true
    else if flags.aflag ∧ flags.nflag ∧ tally.returnTrue < tally.call then true
    else if flags.oflag ∧ tally.returnTrue > 0 then true
    else if flags.oflag ∧ flags.nflag ∧ tally.returnTrue = 0 then true
    else if ¬ flags.aflag ∧ ¬ flags.oflag ∧ ¬ flags.aflag ∧ tally.returnTrue = 1 then true
    else false
  else false

/-- How the entry loop of one directory goes on, or ends: `return` in its
middle skips the release of the buffer and the stream. -/
inductive Scan where
  | returned (host : Host)
  | exhausted (host : Host)

def Scan.host : Scan → Host
  | .returned host => host
  | .exhausted host => host

@[simp] theorem Scan.host_returned (host : Host) : (Scan.returned host).host = host := rfl

@[simp] theorem Scan.host_exhausted (host : Host) : (Scan.exhausted host).host = host := rfl

/-- A regular file whose path is in the buffer: all plugins, then the guards. -/
def checkFile (flags : Flags) (fileName0 : Nat) (host : Host) : Except Stopped Scan := do
  let path ← host.expect (host.heap fileName0)
  let host := host.emit (.checking path)
  let (plugin, tally) ← host.expect (callPlugins path host.plugin ⟨0, 0⟩)
  let host := { host with plugin := plugin }
  match tally with
  | none => return .returned host
  | some tally => return .exhausted (if reports flags tally then host.report path else host)

/-- The loop over `readdir`; `search` is the recursive call. -/
def readEntries (search : Nat → Host → Except Stopped Host) (flags : Flags) (folder fileName0 : Nat) :
    List Dirent → Host → Except Stopped Scan
  | [], host => .ok (.exhausted host)
  | entry :: rest, host =>
    match entry.dType with
    | .reg => do
      let host ← host.getAbsPath fileName0 folder entry.dName
      match ← checkFile flags fileName0 host with
      | .returned host => return .returned host
      | .exhausted host => readEntries search flags folder fileName0 rest host
    | .dir =>
      if entry.dName ≠ ".".toList ∧ entry.dName ≠ "..".toList then do
        let host ← host.getAbsPath fileName0 folder entry.dName
        let host ← search fileName0 host
        readEntries search flags folder fileName0 rest host
      else readEntries search flags folder fileName0 rest host
    | .other => readEntries search flags folder fileName0 rest host

/-- `search_dir`, with a bound on the depth of the recursion. `opendir` gives
the entries in `readdir` order, or refuses; address 0 is the null pointer. -/
def searchDir (opendir : CString → Option (List Dirent)) (flags : Flags) : Nat → Nat → Host → Except Stopped Host
  | 0, _, host => .error ⟨.tooDeep, host⟩
  | fuel + 1, folder, host =>
    if folder = 0 then .ok host
    else do
      let path ← host.expect (host.heap folder)
      match opendir path with
      | none => return host.emit (.refusedDir path)
      | some entries =>
        let (dir, host) := host.openStream path
        let (fileName0, host) := host.malloc
        match ← readEntries (searchDir opendir flags fuel) flags folder fileName0 entries host with
        | .returned host => return host
        | .exhausted host => return (host.free fileName0).closedir dir

/-- The same directories with the same entries, each in an order of its own. -/
def SameListings (opendir shuffled : CString → Option (List Dirent)) : Prop :=
  ∀ path, Option.Rel List.Perm (opendir path) (shuffled path)

theorem SameListings.opened (same : SameListings opendir shuffled) (opened : opendir path = some entries) :
    ∃ others, shuffled path = some others ∧ entries.Perm others := by
  have listing := same path
  rw [opened] at listing
  cases relisted : shuffled path with
  | none => simp [relisted] at listing
  | some others => exact ⟨others, rfl, by simpa [relisted] using listing⟩

theorem SameListings.refused (same : SameListings opendir shuffled) (refused : opendir path = none) :
    shuffled path = none := by
  have listing := same path
  rw [refused] at listing
  cases relisted : shuffled path with
  | none => rfl
  | some others => simp [relisted] at listing

end PluginSearch
