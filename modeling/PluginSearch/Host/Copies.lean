import PluginSearch.Host.SearchDir

namespace PluginSearch

def pathMax : Nat := 4096

def nameMax : Nat := 255

/-- The buffers for paths: two of `main`, and `file_name0` of the three functions
that list a folder. -/
inductive Buffer where
  | folderWorking
  | folderLib
  | countSo
  | getLib
  | searchDir
  deriving DecidableEq, Repr

def Buffer.capacity : Buffer → Nat
  | .folderWorking => pathMax
  | .folderLib => pathMax
  | .countSo => 255
  | .getLib => pathMax * 2
  | .searchDir => pathMax * 2

/-- A string that stands in a buffer after a copy. -/
structure Copy where
  buffer : Buffer
  text : CString
  deriving DecidableEq, Repr

/-- The string and its terminator have room in the buffer. -/
def Copy.Fits (copy : Copy) : Prop := copy.text.length + 1 ≤ copy.buffer.capacity

instance (copy : Copy) : Decidable copy.Fits := inferInstanceAs (Decidable (_ ≤ _))

def Event.copy : Event → Option Copy
  | .wrote _ text => some ⟨.searchDir, text⟩
  | _ => none

def Host.copies (host : Host) : List Copy := host.trace.filterMap Event.copy

end PluginSearch
