import PluginSearch.Basis.Numeral
import PluginSearch.Host.SearchDir

namespace PluginSearch

/-- What a plugin says about itself and about each of its options. -/
structure Texts where
  purpose : CString
  author : CString
  optDescr : Nat → CString

abbrev Info := Nat → Texts

def noTexts : Texts := ⟨[], [], fun _ => []⟩

def usageText : CString :=
  "Usage: ./lab1nhhN3249 --options [value] /path/to/folder \nUse ./lab1nhhN3249 -h . for help\n".toList

/-- The help on the options of the host; each line but the last ends with the
white space that starts the next line of the source. -/
def helpText : CString :=
  ("\n\t-P dir\t\t Plugin directory.                    " ++
    "\n\t-A\t\t Combine plugin options using AND operation (default).                    " ++
    "\n\t-O\t\t Combine plugin options using OR operation.                    " ++
    "\n\t-N\t\t Inverting the search condition (after combining options plugins with -A or -O).                    " ++
    "\n\t-v\t\t Display the version of the program and information about the program " ++
    "(full name performer, group number, laboratory version number).                    " ++
    "\n\t-h\t\t Display help for options.\n").toList

def noneText : CString := "none (!?)\n".toList

def optionLines (texts : Texts) (table : List Opt) : List CString :=
  table.mapIdx fun i opt => "\t--".toList ++ opt.name ++ "\t\t".toList ++ texts.optDescr i ++ "\n".toList

def versionOf (texts : Texts) (k : Nat) (lib : Lib) : List CString :=
  ["Plugin ".toList ++ Numeral.lld k ++ ":\n\n".toList, "Plugin purpose:\t\t".toList ++ texts.purpose ++ "\n".toList,
    "Plugin author:\t\t".toList ++ texts.author ++ "\n".toList, "Supported options: ".toList] ++
  if lib.longopts.length > 0 then "\n".toList :: optionLines texts lib.longopts else [noneText]

def versionText (info : Info) (plugin : List Lib) : List CString :=
  (plugin.mapIdx fun k lib => versionOf (info k) k lib).flatten ++ ["\n".toList]

/-- The loop of `-h` over the plugins from index `j` on; it may return early. -/
def helpPlugins (info : Info) : Nat → List Lib → List CString × Bool
  | _, [] => ([], true)
  | j, lib :: rest =>
    if lib.longopts.length > 0 then
      let (lines, through) := helpPlugins info (j + 1) rest
      ("\n".toList :: optionLines (info j) lib.longopts ++ lines, through)
    else ([noneText], false)

theorem helpPlugins_snd (info : Info) (j : Nat) (plugin : List Lib) :
    (helpPlugins info j plugin).2 = plugin.all (fun lib => lib.longopts.length > 0) := by
  induction plugin generalizing j with
  | nil => rfl
  | cons lib rest ih =>
    rw [helpPlugins, List.all_cons, ← ih (j + 1)]
    split
    · rename_i listed
      simp [listed]
    · rename_i unlisted
      simp [unlisted]

/-- The line behind a search. -/
def countLine (count : Nat) : CString := "\n".toList ++ Numeral.lld count ++ " file(s) have been found\n".toList

def pathLines (lines : List CString) : List CString := lines.map (· ++ "\n".toList)

def foundText (lines : List CString) (count : Nat) : List CString := pathLines lines ++ [countLine count]

end PluginSearch
