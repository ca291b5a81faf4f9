import Mathlib.Data.List.Infix
import PluginSearch.Basis.Numeral

namespace PluginSearch

/-- `strrchr`: the text from the last occurrence of a character on. -/
def strrchr (c : Char) : CString → Option CString
  | [] => none
  | head :: rest => match strrchr c rest with
    | some found => some found
    | none => if head = c then some (head :: rest) else none

theorem strrchr_eq_none_iff (c : Char) (text : CString) : strrchr c text = none ↔ c ∉ text := by
  induction text with
  | nil => simp [strrchr]
  | cons head rest ih =>
    simp only [strrchr, List.mem_cons, not_or]
    cases found : strrchr c rest with
    | some suffix =>
      have member : ¬ c ∉ rest := fun absent => by simp [ih.mpr absent] at found
      simp [member]
    | none =>
      have absent := ih.mp found
      by_cases same : head = c
      · simp [same]
      · simp [same, absent, Ne.symm same]

theorem strrchr_append (absent : c ∉ tail) (front : CString) :
    strrchr c (front ++ c :: tail) = some (c :: tail) := by
  induction front with
  | nil => simp [strrchr, (strrchr_eq_none_iff c tail).mpr absent]
  | cons head rest ih => simp [strrchr, ih]

theorem strrchr_split (found : strrchr c text = some suffix) : ∃ front, text = front ++ suffix := by
  induction text with
  | nil => simp [strrchr] at found
  | cons head rest ih =>
    simp only [strrchr] at found
    cases later : strrchr c rest with
    | some inner =>
      simp only [later, Option.some.injEq] at found
      subst found
      obtain ⟨front, same⟩ := ih later
      exact ⟨head :: front, by simp [same]⟩
    | none =>
      simp only [later] at found
      split at found
      · cases found
        exact ⟨[], rfl⟩
      · cases found

/-- `get_filename_ext`; the guard `dot == filename` compares pointers. -/
def getFilenameExt (filename : CString) : CString :=
  match strrchr '.' filename with
  | none => []
  | some dot => if dot.length = filename.length then [] else dot

def isLib (filename : CString) : Bool := getFilenameExt filename = ".so".toList

def isTxt (filename : CString) : Int := if getFilenameExt filename = ".txt".toList then 1 else 0

/-- A name has this extension when some text stands before it. -/
theorem getFilenameExt_eq_iff (plain : '.' ∉ tail) (filename : CString) :
    getFilenameExt filename = '.' :: tail ↔ ∃ stem, stem ≠ [] ∧ filename = stem ++ '.' :: tail := by
  constructor
  · intro ext
    unfold getFilenameExt at ext
    cases found : strrchr '.' filename with
    | none => simp [found] at ext
    | some dot =>
      simp only [found] at ext
      split at ext
      · cases ext
      · rename_i longer
        subst ext
        obtain ⟨stem, same⟩ := strrchr_split found
        refine ⟨stem, ?_, same⟩
        rintro rfl
        simp [same] at longer
  · intro found
    obtain ⟨stem, nonempty, rfl⟩ := found
    have longer : stem.length ≠ 0 := by simpa using nonempty
    simp [getFilenameExt, strrchr_append plain, longer]

/-- `folder`, a slash and the entry's name: what `get_abs_path` writes. -/
def joinPath (folder name : CString) : CString := folder ++ "/".toList ++ name

/-- The extension of an entry is that of its own name, read as a suffix. -/
theorem getFilenameExt_joinPath (plain : '.' ∉ tail) (noSlash : '/' ∉ tail) (folder name : CString) :
    getFilenameExt (joinPath folder name) = '.' :: tail ↔ '.' :: tail <:+ name := by
  rw [getFilenameExt_eq_iff plain]
  constructor
  · intro found
    obtain ⟨stem, _, same⟩ := found
    have ending : '.' :: tail <:+ joinPath folder name := ⟨stem, same.symm⟩
    have slashed : '/' :: name <:+ joinPath folder name := ⟨folder, by simp [joinPath]⟩
    rcases List.suffix_or_suffix_of_suffix ending slashed with inside | outside
    · rcases List.suffix_cons_iff.mp inside with same | inside
      · simp at same
      · exact inside
    · have member : '/' ∈ '.' :: tail := outside.subset (by simp)
      simp [noSlash] at member
  · intro found
    obtain ⟨stem, rfl⟩ := found
    exact ⟨folder ++ '/' :: stem, by simp, by simp [joinPath]⟩

/-- In a folder the guard compares with the start of the whole path, so a name
that is nothing but the extension is taken for a file of that kind. -/
theorem getFilenameExt_own_name_iff (plain : '.' ∉ tail) (noSlash : '/' ∉ tail) (folder name : CString) :
    ((getFilenameExt (joinPath folder name) = '.' :: tail ↔ getFilenameExt name = '.' :: tail) ↔
        name ≠ '.' :: tail) ∧
      ((getFilenameExt (joinPath folder name) = '.' :: tail ↔ ∃ stem, stem ≠ [] ∧ name = stem ++ '.' :: tail) ↔
        name ≠ '.' :: tail) := by
  rw [getFilenameExt_joinPath plain noSlash, getFilenameExt_eq_iff plain, and_self]
  constructor
  · intro same bare
    subst bare
    obtain ⟨stem, nonempty, longer⟩ := same.mp (List.suffix_refl _)
    have lengths := congrArg List.length longer
    simp only [List.length_cons, List.length_append] at lengths
    exact nonempty (List.eq_nil_of_length_eq_zero (by omega))
  · intro other
    constructor
    · intro ending
      obtain ⟨stem, whole⟩ := ending
      refine ⟨stem, ?_, whole.symm⟩
      intro empty
      exact other (by simpa [empty] using whole.symm)
    · intro named
      obtain ⟨stem, _, whole⟩ := named
      exact ⟨stem, whole.symm⟩

/-- `is_lib` and `is_txt` depend on the file's own name alone, and ask for a
stem before the extension, exactly for the names that are not the bare extension. -/
theorem extension_own_name_iff (folder name : CString) :
    ((isLib (joinPath folder name) = isLib name ∧
        (isLib (joinPath folder name) = true ↔ ∃ stem, stem ≠ [] ∧ name = stem ++ ".so".toList)) ↔
      name ≠ ".so".toList) ∧
    ((isTxt (joinPath folder name) = isTxt name ∧
        (isTxt (joinPath folder name) = 1 ↔ ∃ stem, stem ≠ [] ∧ name = stem ++ ".txt".toList)) ↔
      name ≠ ".txt".toList) := by
  have lib (text : CString) : isLib text = true ↔ getFilenameExt text = '.' :: "so".toList := by simp [isLib]
  have txt (text : CString) : isTxt text = 1 ↔ getFilenameExt text = '.' :: "txt".toList := by simp [isTxt]
  have sameTxt (one two : CString) : isTxt one = isTxt two ↔ (isTxt one = 1 ↔ isTxt two = 1) := by
    unfold isTxt
    split <;> split <;> simp
  constructor
  · obtain ⟨own, stem⟩ := @getFilenameExt_own_name_iff "so".toList (by decide) (by decide) folder name
    rw [Bool.eq_iff_iff, lib, lib]
    exact (and_congr own stem).trans (and_self_iff)
  · obtain ⟨own, stem⟩ := @getFilenameExt_own_name_iff "txt".toList (by decide) (by decide) folder name
    rw [sameTxt, txt, txt]
    exact (and_congr own stem).trans (and_self_iff)

/-- The hidden files `.so` and `.txt` are no library and no text by their own
names, but are taken for one in every folder. -/
theorem extension_bare_name :
    isLib ".so".toList = false ∧ isLib (joinPath "d".toList ".so".toList) = true ∧
      isTxt ".txt".toList = 0 ∧ isTxt (joinPath "d".toList ".txt".toList) = 1 := by
  decide

end PluginSearch
