import PluginSearch.Basis.Numeral

/-! The scanner of `getopt_long_only(3)` for an empty string of short options,
where every word with a dash is a long option. A scan composes: what some words
yield does not depend on the words behind them. -/

namespace PluginSearch.LongOption

/-- What the scanner reads of an entry of the option table; `ret` is what a
call returns for it. -/
structure Entry where
  name : CString
  hasArg : Nat
  ret : Int
  deriving DecidableEq, Repr

/-- The entry of a name: the first that has it, or else the only one that the
name abbreviates. -/
def select (table : List Entry) (name : CString) : Option (Entry × Nat) :=
  match table.zipIdx.find? (fun found => found.1.name = name) with
  | some found => some found
  | none => match table.zipIdx.filter (fun found => name.isPrefixOf found.1.name) with
    | [found] => some found
    | _ => none

/-- What a word is by itself: the end of the options, no option, an option that
is not understood, an option with its argument if it has one, or an option
whose argument is the next word. -/
inductive Reading where
  | ends
  | operand
  | unknown
  | option (found : Entry × Nat) (optarg : Option CString)
  | wants (found : Entry × Nat)
  deriving DecidableEq, Repr

def readOption (table : List Entry) (text : CString) : Reading :=
  match select table (text.takeWhile (· ≠ '=')) with
  | none => .unknown
  | some found => match text.dropWhile (· ≠ '=') with
    | _ :: value => if found.1.hasArg ≠ 0 then .option found (some value) else .unknown
    | [] => if found.1.hasArg = 1 then .wants found else .option found none

def read (table : List Entry) (word : CString) : Reading :=
  match word with
  | ['-', '-'] => .ends
  | '-' :: '-' :: text => readOption table text
  | '-' :: first :: text => readOption table (first :: text)
  | _ => .operand

/-- What one call returns: -1, 1 with a word in `optarg`, `?`, or the value of
an option, with its index and argument. -/
inductive Code where
  | done
  | word (optarg : CString)
  | question
  | option (ret : Int) (longind : Nat) (optarg : Option CString)
  deriving DecidableEq, Repr

/-- What the calls return until the first -1 that stands for the end. -/
def scan (table : List Entry) : List CString → List Code
  | [] => []
  | word :: rest => match read table word with
    | .ends => []
    | .operand => .word word :: scan table rest
    | .unknown => .question :: scan table rest
    | .option found optarg => .option found.1.ret found.2 optarg :: scan table rest
    | .wants found => match rest with
      | [] => [.question]
      | arg :: rest => .option found.1.ret found.2 (some arg) :: scan table rest

section Select

variable {table : List Entry} {first second : Entry} {i j : Nat}

theorem select_some (selected : select table name = some (entry, index)) :
    table[index]? = some entry ∧ name <+: entry.name := by
  unfold select at selected
  split at selected
  · rename_i found exact
    cases selected
    have member := List.mem_of_find?_eq_some exact
    have same := List.find?_some exact
    refine ⟨List.mem_zipIdx_iff_getElem?.mp member, ?_⟩
    rw [of_decide_eq_true same]
  · split at selected
    · rename_i found only
      cases selected
      have member : (entry, index) ∈ table.zipIdx.filter (fun found => name.isPrefixOf found.1.name) := by
        rw [only]
        exact List.mem_singleton_self _
      obtain ⟨present, abbreviates⟩ := List.mem_filter.mp member
      exact ⟨List.mem_zipIdx_iff_getElem?.mp present, List.isPrefixOf_iff_prefix.mp abbreviates⟩
    · cases selected

theorem select_none (strange : ∀ entry ∈ table, ¬ name <+: entry.name) : select table name = none := by
  cases selected : select table name with
  | none => rfl
  | some found =>
    obtain ⟨place, abbreviates⟩ := select_some selected
    exact absurd abbreviates (strange found.1 (List.mem_of_getElem? place))

theorem select_name (place : table[index]? = some entry)
    (new : ∀ before earlier, before < index → table[before]? = some earlier → earlier.name ≠ entry.name) :
    select table entry.name = some (entry, index) := by
  have found : table.zipIdx.find? (fun found => found.1.name = entry.name) = some (entry, index) := by
    obtain ⟨inside, same⟩ := List.getElem?_eq_some_iff.mp place
    rw [List.find?_eq_some_iff_getElem]
    refine ⟨by simp, index, by simpa using inside, by simp [same], ?_⟩
    intro before earlier
    have short : before < table.length := lt_trans earlier inside
    simpa using new before table[before] earlier (List.getElem?_eq_getElem short)
  simp [select, found]

end Select

section Read

variable {table : List Entry}

/-- An argument comes with an entry that requires one, and with none that takes
no argument. -/
structure Entry.Argued (entry : Entry) (optarg : Option CString) : Prop where
  required : entry.hasArg = 1 → optarg ≠ none
  refused : entry.hasArg = 0 → optarg = none

theorem readOption_option (reads : readOption table text = .option (entry, index) optarg) :
    table[index]? = some entry ∧ entry.Argued optarg := by
  unfold readOption at reads
  split at reads
  · cases reads
  · rename_i found selected
    split at reads
    · split at reads
      · rename_i takes
        cases reads
        exact ⟨(select_some selected).1, by simp, fun refuses => absurd refuses takes⟩
      · cases reads
    · split at reads
      · cases reads
      · rename_i needless
        cases reads
        exact ⟨(select_some selected).1, fun required => absurd required needless, by simp⟩

theorem readOption_wants (reads : readOption table text = .wants (entry, index)) :
    table[index]? = some entry ∧ entry.hasArg = 1 := by
  unfold readOption at reads
  split at reads
  · cases reads
  · rename_i found selected
    split at reads
    · split at reads <;> cases reads
    · split at reads
      · rename_i required
        cases reads
        exact ⟨(select_some selected).1, required⟩
      · cases reads

/-- Every word is the end, no option, or an option word behind one or two dashes. -/
theorem read_cases (table : List Entry) (word : CString) :
    read table word = .ends ∨ read table word = .operand ∨ ∃ text, read table word = readOption table text := by
  unfold read
  split
  · exact .inl rfl
  · exact .inr (.inr ⟨_, rfl⟩)
  · exact .inr (.inr ⟨_, rfl⟩)
  · exact .inr (.inl rfl)

theorem read_option (reading : read table word = .option (entry, index) optarg) :
    table[index]? = some entry ∧ entry.Argued optarg := by
  rcases read_cases table word with ends | operand | ⟨text, reads⟩
  · cases ends.symm.trans reading
  · cases operand.symm.trans reading
  · exact readOption_option (reads.symm.trans reading)

theorem read_wants (reading : read table word = .wants (entry, index)) :
    table[index]? = some entry ∧ entry.hasArg = 1 := by
  rcases read_cases table word with ends | operand | ⟨text, reads⟩
  · cases ends.symm.trans reading
  · cases operand.symm.trans reading
  · exact readOption_wants (reads.symm.trans reading)

/-- Whatever the words are, an option that is returned is an entry of the table
in its place, with its own value and an argument as it asks for one. -/
theorem scan_option (argv : List CString) (returned : .option ret longind optarg ∈ scan table argv) :
    ∃ entry, table[longind]? = some entry ∧ entry.ret = ret ∧ entry.Argued optarg := by
  fun_induction scan table argv with
  | case1 => cases returned
  | case2 => cases returned
  | case3 word rest reading ih =>
    rcases List.mem_cons.mp returned with same | later
    · cases same
    · exact ih later
  | case4 word rest reading ih =>
    rcases List.mem_cons.mp returned with same | later
    · cases same
    · exact ih later
  | case5 word rest found given reading ih =>
    rcases List.mem_cons.mp returned with same | later
    · cases same
      obtain ⟨place, argued⟩ := read_option reading
      exact ⟨_, place, rfl, argued⟩
    · exact ih later
  | case6 word found reading => simp at returned
  | case7 word found reading arg rest ih =>
    rcases List.mem_cons.mp returned with same | later
    · cases same
      obtain ⟨place, required⟩ := read_wants reading
      refine ⟨_, place, rfl, by simp, fun refuses => ?_⟩
      cases refuses.symm.trans required
    · exact ih later

end Read

section Yields

variable {table : List Entry}

/-- These words yield these codes, whatever words follow. -/
def Yields (table : List Entry) (words : List CString) (codes : List Code) : Prop :=
  ∀ rest, scan table (words ++ rest) = codes ++ scan table rest

theorem Yields.append (first : Yields table words codes) (second : Yields table more others) :
    Yields table (words ++ more) (codes ++ others) := by
  intro rest
  rw [List.append_assoc, first, second, List.append_assoc]

theorem Yields.scan (yields : Yields table words codes) : scan table words = codes := by
  simpa [LongOption.scan] using yields []

theorem read_plain (table : List Entry) (plain : word.head? ≠ some '-') : read table word = .operand := by
  cases word with
  | nil => rfl
  | cons first more =>
    have other : first ≠ '-' := by simpa using plain
    simp [read, other]

theorem Yields.plain (plain : word.head? ≠ some '-') : Yields table [word] [.word word] := by
  intro rest
  simp [LongOption.scan, read_plain table plain]

inductive Dashes where
  | one
  | two
  deriving DecidableEq, Repr

/-- `-name`, `--name`, `-name=value` or `--name=value`. -/
def Dashes.word (dashes : Dashes) (name : CString) (value : Option CString) : CString :=
  match dashes with
  | .one => '-' :: (name ++ value.elim [] ('=' :: ·))
  | .two => '-' :: '-' :: (name ++ value.elim [] ('=' :: ·))

structure Dashes.Names (dashes : Dashes) (name : CString) : Prop where
  nonempty : name ≠ []
  equals : '=' ∉ name
  dash : dashes = .one → name.head? ≠ some '-'

instance (dashes : Dashes) (name : CString) : Decidable (dashes.Names name) :=
  decidable_of_iff (name ≠ [] ∧ '=' ∉ name ∧ (dashes = .one → name.head? ≠ some '-'))
    ⟨fun all => ⟨all.1, all.2.1, all.2.2⟩, fun names => ⟨names.nonempty, names.equals, names.dash⟩⟩

theorem read_word (table : List Entry) (names : Dashes.Names dashes name) (value : Option CString) :
    read table (dashes.word name value) = readOption table (name ++ value.elim [] ('=' :: ·)) := by
  cases name with
  | nil => exact absurd rfl names.nonempty
  | cons first more =>
    cases dashes with
    | one =>
      have other : first ≠ '-' := by simpa using names.dash rfl
      simp [read, Dashes.word, other]
    | two => simp [read, Dashes.word]

theorem split_word (equals : '=' ∉ name) (value : Option CString) :
    (name ++ value.elim [] ('=' :: ·)).takeWhile (· ≠ '=') = name ∧
      (name ++ value.elim [] ('=' :: ·)).dropWhile (· ≠ '=') = value.elim [] ('=' :: ·) := by
  have inside : ∀ char ∈ name, decide (char ≠ '=') = true := by
    intro char member
    rw [decide_eq_true_eq]
    rintro rfl
    exact equals member
  rw [List.takeWhile_append_of_pos inside, List.dropWhile_append_of_pos inside]
  cases value <;> simp

theorem readOption_word (equals : '=' ∉ name) (value : Option CString) :
    readOption table (name ++ value.elim [] ('=' :: ·)) = match select table name with
      | none => .unknown
      | some found => match value with
        | some value => if found.1.hasArg ≠ 0 then .option found (some value) else .unknown
        | none => if found.1.hasArg = 1 then .wants found else .option found none := by
  obtain ⟨before, behind⟩ := split_word equals value
  rw [readOption, before, behind]
  cases value <;> rfl

/-- An option that the table does not know, or to which a name is not enough. -/
theorem Yields.strange (names : Dashes.Names dashes name) (missing : select table name = none)
    (value : Option CString) : Yields table [dashes.word name value] [.question] := by
  intro rest
  have reading : read table (dashes.word name value) = .unknown := by
    rw [read_word table names, readOption_word names.equals, missing]
  simp [LongOption.scan, reading]

theorem Yields.bare (names : Dashes.Names dashes name) (selected : select table name = some (entry, index))
    (needless : entry.hasArg ≠ 1) : Yields table [dashes.word name none] [.option entry.ret index none] := by
  intro rest
  have reading : read table (dashes.word name none) = .option (entry, index) none := by
    rw [read_word table names, readOption_word names.equals, selected]
    simp [needless]
  simp [LongOption.scan, reading]

theorem Yields.inline (names : Dashes.Names dashes name) (selected : select table name = some (entry, index))
    (takes : entry.hasArg ≠ 0) (value : CString) :
    Yields table [dashes.word name (some value)] [.option entry.ret index (some value)] := by
  intro rest
  have reading : read table (dashes.word name (some value)) = .option (entry, index) (some value) := by
    rw [read_word table names, readOption_word names.equals, selected]
    simp [takes]
  simp [LongOption.scan, reading]

/-- A required argument is the next word, whatever it looks like. -/
theorem Yields.separate (names : Dashes.Names dashes name) (selected : select table name = some (entry, index))
    (required : entry.hasArg = 1) (value : CString) :
    Yields table [dashes.word name none, value] [.option entry.ret index (some value)] := by
  intro rest
  have reading : read table (dashes.word name none) = .wants (entry, index) := by
    rw [read_word table names, readOption_word names.equals, selected]
    simp [required]
  simp [LongOption.scan, reading]

end Yields

end PluginSearch.LongOption
