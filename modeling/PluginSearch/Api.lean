import PluginSearch.Basis.Numeral

namespace PluginSearch

/-- Where the `flag` field of an option points: nowhere, to a variable named in
the plugin's own option table, or to a string copied to the heap. -/
inductive Flag where
  | null
  | static (address : Nat)
  | heap (block : Nat) (text : CString)
  deriving DecidableEq, Repr

def Flag.pointer : Flag → Flag
  | .heap block _ => .heap block []
  | flag => flag

/-- `struct option` of `getopt_long`. -/
structure Opt where
  name : CString
  hasArg : Nat
  flag : Flag
  val : Int
  deriving DecidableEq, Repr

def Opt.pointers (opt : Opt) : Opt := { opt with flag := opt.flag.pointer }

/-- `plugin_process_file` as the host calls it. It may rewrite the strings the
flags lead to, but not the option array itself; `none` is undefined behaviour. -/
structure PpfFunc where
  call : CString → List Opt → Nat → Option (Int × List Opt)
  keepsPointers : ∀ fname opts len ret after, call fname opts len = some (ret, after) →
    after.map Opt.pointers = opts.map Opt.pointers

theorem PpfFunc.length_eq (func : PpfFunc) (called : func.call fname opts len = some (ret, after)) :
    after.length = opts.length := by
  simpa using congrArg List.length (func.keepsPointers _ _ _ _ _ called)

inductive Errno where
  | zero
  | einval
  | erange
  | system (code : Nat)
  deriving DecidableEq, Repr

/-- What the system calls of one plugin call meet: each may fail with its own
`errno`. The bytes `beyond` belong to the call too: they are what earlier calls
left on the stack behind its local variable. -/
structure FileAccess where
  openErrno : Option Errno
  fstatErrno : Option Errno
  mmapErrno : Option Errno
  content : List UInt8
  sizeFits : content.length < 2 ^ 63
  beyond : Nat → UInt8

def FileAccess.Readable (file : FileAccess) : Prop :=
  file.openErrno = none ∧ file.fstatErrno = none ∧ file.mmapErrno = none

instance (file : FileAccess) : Decidable file.Readable := inferInstanceAs (Decidable (_ ∧ _ ∧ _))

/-- What a plugin call does besides computing its result. -/
inductive PluginEvent where
  | opened
  | closed
  | mapped
  | unmapped
  | wrote (option offset : Nat) (text : CString)
  | searched (pattern : Int) (pSize : Nat)
  deriving DecidableEq, Repr

structure Outcome where
  ret : Int
  errno : Errno
  inOpts : List Opt
  events : List PluginEvent
  deriving DecidableEq, Repr

end PluginSearch
