import PluginSearch.Basis.LongOption
import PluginSearch.Host.CopiesInvariant

/-! From the words of the command line to the options of each plugin. The host
scans the same words once for every plugin, with that plugin's table alone. -/

namespace PluginSearch

open LongOption (Code Dashes Entry Yields scan select)

/-- What `getopt_long_only` returns for an option that it finds. -/
def Opt.ret (opt : Opt) : Int := if opt.flag ≠ .null then 0 else opt.val

def Opt.entry (opt : Opt) : Entry := ⟨opt.name, opt.hasArg, opt.ret⟩

@[simp] theorem Opt.entry_name (opt : Opt) : opt.entry.name = opt.name := rfl

/-- How the option loop takes what a call returns: -1 ends it, 0 is an option
of the plugin, anything else is passed over. -/
def longResults : List Code → List LongResult
  | [] => []
  | .option ret longind optarg :: rest =>
    if ret = -1 then []
    else if ret ≠ 0 then .other :: longResults rest
    else .recognised longind optarg :: longResults rest
  | .done :: _ => []
  | .word _ :: rest => .other :: longResults rest
  | .question :: rest => .other :: longResults rest

def scanResults (table : List Opt) (args : List CString) : List LongResult :=
  longResults (scan (table.map Opt.entry) args)

theorem mem_longResults (codes : List Code) (member : .recognised optInd optarg ∈ longResults codes) :
    .option 0 optInd optarg ∈ codes := by
  induction codes with
  | nil => cases member
  | cons code rest ih =>
    cases code with
    | done => cases member
    | word text => exact List.mem_cons_of_mem _ (ih (by simpa [longResults] using member))
    | question => exact List.mem_cons_of_mem _ (ih (by simpa [longResults] using member))
    | option ret longind given =>
      simp only [longResults] at member
      split at member
      · cases member
      · split at member
        · exact List.mem_cons_of_mem _ (ih (by simpa using member))
        · rename_i zero
          rcases List.mem_cons.mp member with same | later
          · cases same
            rw [not_not.mp zero]
            exact List.mem_cons_self
          · exact List.mem_cons_of_mem _ (ih later)

/-- Whatever the words are, a recognised option is in the plugin's table, and
has an argument where its entry requires one. -/
theorem scanResults_entry (table : List Opt) (args : List CString)
    (member : .recognised optInd optarg ∈ scanResults table args) :
    ∃ opt, table[optInd]? = some opt ∧ (opt.hasArg = 1 → optarg ≠ none) ∧ (opt.hasArg = 0 → optarg = none) := by
  obtain ⟨entry, place, _, argued⟩ := LongOption.scan_option args (mem_longResults _ member)
  rw [List.getElem?_map, Option.map_eq_some_iff] at place
  obtain ⟨opt, present, rfl⟩ := place
  exact ⟨opt, present, argued.required, argued.refused⟩

theorem scanResults_wellReturned (table : List Opt) (args : List CString) :
    WellReturned table (scanResults table args) := by
  intro optInd optarg member
  obtain ⟨opt, present, required, _⟩ := scanResults_entry table args member
  exact ⟨opt, present, required⟩

/-- How the argument of an option is given. -/
inductive Form where
  | bare
  | inline (value : CString)
  | separate (value : CString)
  deriving DecidableEq, Repr

def Form.value : Form → Option CString
  | .bare => none
  | .inline value => some value
  | .separate value => some value

/-- The form that an option with this `has_arg` is given in: an optional
argument is given in its own word. -/
def Form.Suits (hasArg : Nat) : Form → Prop
  | .bare => hasArg = 0
  | .inline _ => hasArg ≠ 0
  | .separate _ => hasArg = 1

/-- A separate argument does not look like an option. -/
def Form.Plain : Form → Prop
  | .separate value => value.head? ≠ some '-'
  | _ => True

instance (hasArg : Nat) (form : Form) : Decidable (form.Suits hasArg) := match form with
  | .bare => inferInstanceAs (Decidable (_ = _))
  | .inline _ => inferInstanceAs (Decidable (_ ≠ _))
  | .separate _ => inferInstanceAs (Decidable (_ = _))

instance (form : Form) : Decidable form.Plain := match form with
  | .bare => .isTrue trivial
  | .inline _ => .isTrue trivial
  | .separate _ => inferInstanceAs (Decidable (_ ≠ _))

/-- A part of a command line: a word of the host, an option under its full
name, or a word that is no option. -/
inductive Part where
  | host (word : HostWord)
  | option (dashes : Dashes) (name : CString) (form : Form)
  | plain (text : CString)
  deriving DecidableEq, Repr

def Part.words : Part → List CString
  | .host word => word.words
  | .option dashes name .bare => [dashes.word name none]
  | .option dashes name (.inline value) => [dashes.word name (some value)]
  | .option dashes name (.separate value) => [dashes.word name none, value]
  | .plain text => [text]

def place (table : List Opt) (name : CString) : Option Nat := table.findIdx? (fun opt => opt.name = name)

def named (table : List Opt) (name : CString) : Option Opt := (place table name).bind (fun index => table[index]?)

/-- What a part asks of the plugin with this table. -/
def Part.asks (table : List Opt) : Part → Option (Nat × Option CString)
  | .option _ name form => (place table name).map (fun index => (index, form.value))
  | _ => none

def requested (table : List Opt) (parts : List Part) : List (Nat × Option CString) := parts.filterMap (Part.asks table)

def HostWord.letter : HostWord → Char
  | .a => 'A'
  | .o => 'O'
  | .n => 'N'
  | .v => 'v'
  | .h => 'h'
  | .p _ => 'P'

def HostWord.Plain : HostWord → Prop
  | .p dir => dir.head? ≠ some '-'
  | _ => True

instance (word : HostWord) : Decidable word.Plain := match word with
  | .p _ => inferInstanceAs (Decidable (_ ≠ _))
  | .a | .o | .n | .v | .h => .isTrue trivial

/-- No name of the table goes on from this one. -/
def Strange (table : List Opt) (name : CString) : Prop := ∀ opt ∈ table, ¬ name <+: opt.name

instance (table : List Opt) (name : CString) : Decidable (Strange table name) :=
  inferInstanceAs (Decidable (∀ _ ∈ _, _))

/-- A part that a plugin with this table cannot misread: what is not its own is
no abbreviation of its options, and what is its own is given as it asks. -/
def Legible (table : List Opt) : Part → Prop
  | .host word => Strange table [word.letter] ∧ word.Plain
  | .option dashes name form => dashes.Names name ∧
    (∀ opt ∈ named table name, opt.ret = 0 ∧ form.Suits opt.hasArg) ∧
    (named table name = none → Strange table name ∧ form.Plain)
  | .plain text => text.head? ≠ some '-'

instance (table : List Opt) (part : Part) : Decidable (Legible table part) := match part with
  | .host _ => inferInstanceAs (Decidable (_ ∧ _))
  | .option _ _ _ => inferInstanceAs (Decidable (_ ∧ _ ∧ _))
  | .plain _ => inferInstanceAs (Decidable (_ ≠ _))

section Scan

variable {table : List Opt}

def Gives (table : List Opt) (words : List CString) (options : List (Nat × Option CString)) : Prop :=
  ∀ rest, recognisedOptions (scanResults table (words ++ rest)) =
    options ++ recognisedOptions (scanResults table rest)

theorem Gives.nil (table : List Opt) : Gives table [] [] := fun _ => rfl

theorem Gives.append (first : Gives table words options) (second : Gives table more others) :
    Gives table (words ++ more) (options ++ others) := by
  intro rest
  rw [List.append_assoc, first, second, List.append_assoc]

theorem recognisedOptions_words (skipped : List CString) (codes : List Code) :
    recognisedOptions (longResults (skipped.map Code.word ++ codes)) = recognisedOptions (longResults codes) := by
  induction skipped with
  | nil => rfl
  | cons text skipped ih => exact ih

theorem Gives.skipped {skipped : List CString}
    (yields : Yields (table.map Opt.entry) words (.question :: skipped.map Code.word)) : Gives table words [] := by
  intro rest
  rw [scanResults, yields]
  exact recognisedOptions_words skipped _

theorem Gives.word (yields : Yields (table.map Opt.entry) words [.word text]) : Gives table words [] := by
  intro rest
  rw [scanResults, yields]
  rfl

theorem Gives.option (yields : Yields (table.map Opt.entry) words [.option 0 longind optarg]) :
    Gives table words [(longind, optarg)] := by
  intro rest
  rw [scanResults, yields]
  rfl

theorem Gives.plain (plain : text.head? ≠ some '-') : Gives table [text] [] := .word (.plain plain)

theorem select_strange (strange : Strange table name) : select (table.map Opt.entry) name = none := by
  apply LongOption.select_none
  intro entry member
  obtain ⟨opt, present, rfl⟩ := List.mem_map.mp member
  exact strange opt present

theorem select_place (found : place table name = some index) (present : table[index]? = some opt) :
    select (table.map Opt.entry) name = some (opt.entry, index) := by
  obtain ⟨inside, named, new⟩ := List.findIdx?_eq_some_iff_getElem.mp found
  have same : table[index] = opt := Option.some.inj ((List.getElem?_eq_getElem inside).symm.trans present)
  have called : opt.entry.name = name := by simpa [same] using named
  rw [← called]
  apply LongOption.select_name
  · simp [present]
  · intro before earlier less found
    rw [List.getElem?_map, Option.map_eq_some_iff] at found
    obtain ⟨other, here, rfl⟩ := found
    obtain ⟨_, rfl⟩ := List.getElem?_eq_some_iff.mp here
    rw [called]
    simpa using new before less

theorem HostWord.gives (word : HostWord) (strange : Strange table [word.letter]) (plain : word.Plain) :
    Gives table word.words [] := by
  have flag : Gives table [Dashes.one.word [word.letter] none] [] := by
    have names : Dashes.Names .one [word.letter] := by
      cases word <;> exact ⟨by simp, by simp [HostWord.letter], by simp [HostWord.letter]⟩
    have yields := Yields.strange names (select_strange strange) none
    exact @Gives.skipped _ _ [] yields
  cases word with
  | p dir => exact flag.append (.plain plain)
  | a => exact flag
  | o => exact flag
  | n => exact flag
  | v => exact flag
  | h => exact flag

theorem Legible.yields (legible : Legible table (.option dashes name form)) (found : place table name = some index) :
    Yields (table.map Opt.entry) (Part.option dashes name form).words [.option 0 index form.value] := by
  obtain ⟨names, own, _⟩ := legible
  obtain ⟨inside, _⟩ := List.findIdx?_eq_some_iff_getElem.mp found
  have present := List.getElem?_eq_getElem inside
  obtain ⟨zero, suits⟩ := own table[index] (by simp [named, found])
  have selected := select_place found present
  rw [← zero]
  cases form with
  | bare =>
    have flag : table[index].hasArg = 0 := suits
    exact .bare names selected (by simp [Opt.entry, flag])
  | inline value => exact .inline names selected suits value
  | separate value => exact .separate names selected suits value

theorem Legible.yields_question (legible : Legible table (.option dashes name form))
    (missing : place table name = none) :
    ∃ skipped : List CString, Yields (table.map Opt.entry) (Part.option dashes name form).words
      (.question :: skipped.map Code.word) := by
  obtain ⟨names, _, foreign⟩ := legible
  obtain ⟨strange, plain⟩ := foreign (by simp [named, missing])
  have unknown := select_strange strange
  cases form with
  | bare => exact ⟨[], .strange names unknown none⟩
  | inline value => exact ⟨[], .strange names unknown (some value)⟩
  | separate value => exact ⟨[value], (Yields.strange names unknown none).append (.plain plain)⟩

theorem Legible.gives (legible : Legible table part) : Gives table part.words (part.asks table).toList := by
  cases part with
  | host word => exact word.gives legible.1 legible.2
  | plain text => exact .plain legible
  | option dashes name form =>
    cases found : place table name with
    | some index =>
      simp only [Part.asks, found, Option.map_some, Option.toList_some]
      exact .option (legible.yields found)
    | none =>
      obtain ⟨skipped, yields⟩ := legible.yields_question found
      simp only [Part.asks, found, Option.map_none, Option.toList_none]
      exact .skipped yields

/-- A command line of legible parts is read back: the plugin is given exactly the
options that were asked of it, in order and each with its own argument. -/
theorem recognisedOptions_parts (parts : List Part) (legible : ∀ part ∈ parts, Legible table part) :
    recognisedOptions (scanResults table (parts.flatMap Part.words)) = requested table parts := by
  have all : Gives table (parts.flatMap Part.words) (requested table parts) := by
    induction parts with
    | nil => exact .nil table
    | cons part parts ih =>
      have first := (legible part List.mem_cons_self).gives
      have later := ih fun other member => legible other (List.mem_cons_of_mem _ member)
      have front : requested table (part :: parts) = (part.asks table).toList ++ requested table parts := by
        cases asked : part.asks table <;> simp [requested, asked]
      rw [List.flatMap_cons, front]
      exact first.append later
  simpa [scanResults, scan, longResults, recognisedOptions] using all []

end Scan

section Loop

/-- The entry of an option is in the table, and an argument is there if the
entry takes one. -/
def Served (table : List Opt) (option : Nat × Option CString) : Prop :=
  ∃ entry, table[option.1]? = some entry ∧ (entry.hasArg ≠ 0 → option.2 ≠ none)

/-- Behind options that are served, and with a place left, comes one that is
not: the host copies an argument that is not there. -/
def Breaks (table : List Opt) (taken : Nat) (options : List (Nat × Option CString)) : Prop :=
  ∃ before option after, options = before ++ option :: after ∧ taken + before.length < table.length ∧
    (∀ earlier ∈ before, Served table earlier) ∧ ¬ Served table option

theorem breaks_nil : ¬ Breaks table taken [] := by
  rintro ⟨before, option, after, split, _⟩
  simp at split

theorem breaks_cons (served : Served table option) :
    Breaks table taken (option :: rest) ↔ Breaks table (taken + 1) rest := by
  constructor
  · rintro ⟨before, broken, after, split, room, earlier, not⟩
    cases before with
    | nil =>
      cases split
      exact absurd served not
    | cons first before =>
      cases split
      refine ⟨before, broken, after, rfl, ?_, fun other member => earlier other (List.mem_cons_of_mem _ member), not⟩
      simpa [Nat.add_assoc, Nat.add_comm 1] using room
  · rintro ⟨before, broken, after, rfl, room, earlier, not⟩
    refine ⟨option :: before, broken, after, rfl, ?_, ?_, not⟩
    · simpa [Nat.add_assoc, Nat.add_comm 1] using room
    · exact List.forall_mem_cons.mpr ⟨served, earlier⟩

theorem passResults_crashed_iff (results : List LongResult) (lib : Lib) (copies : List Nat)
    (room : lib.optsToPassLen ≤ lib.longopts.length) :
    (passResults results lib copies).1 = .crashed ↔
      Breaks lib.longopts lib.optsToPassLen (recognisedOptions results) := by
  induction results generalizing lib copies with
  | nil => simp [passResults, recognisedOptions, breaks_nil]
  | cons result rest ih =>
    cases result with
    | other => exact ih lib copies room
    | recognised optInd optarg =>
      have options : recognisedOptions (.recognised optInd optarg :: rest) =
          (optInd, optarg) :: recognisedOptions rest := rfl
      have next (served : Served lib.longopts (optInd, optarg)) (free : lib.optsToPassLen ≠ lib.longopts.length)
          (last : Opt) (more : List Nat) := by
        have later := ih { lib with optsToPass := lib.optsToPass ++ [last] } more (by
          rw [Lib.optsToPassLen_append]
          exact lt_of_le_of_ne room free)
        rw [Lib.optsToPassLen_append] at later
        exact later.trans (breaks_cons served).symm
      have here (broken : ¬ Served lib.longopts (optInd, optarg)) (free : lib.optsToPassLen ≠ lib.longopts.length) :
          Breaks lib.longopts lib.optsToPassLen ((optInd, optarg) :: recognisedOptions rest) :=
        ⟨[], _, _, rfl, lt_of_le_of_ne room free, by simp, broken⟩
      rw [options, passResults]
      have passing := passOption_passing lib copies optInd optarg
      generalize passOption lib copies optInd optarg = passed at passing ⊢
      cases passing with
      | full full =>
        refine iff_of_false (by simp) ?_
        rintro ⟨before, _, _, _, fits, _⟩
        omega
      | missing free missing =>
        exact iff_of_true rfl (here (by simp [Served, missing]) free)
      | bare free entry takes bare =>
        exact iff_of_true rfl (here (by simp [Served, entry, takes, bare]) free)
      | plain free entry plain =>
        exact next ⟨_, entry, fun takes => absurd plain takes⟩ free _ _
      | argument free entry takes given =>
        exact next ⟨_, entry, fun _ => by simp [given]⟩ free _ _

/-- The loop over the plugins breaks at the first of them that is not handed
its options, if it breaks there. -/
theorem passAll_crashed_iff (env : Env) (plugin : List Lib) (i : Nat) (copies : List Nat)
    (fresh : ∀ lib ∈ plugin, lib.optsToPass = []) :
    (passAll env plugin i copies).1 = .crashed ↔
      ∃ k lib, plugin[k]? = some lib ∧ Breaks lib.longopts 0 (recognisedOptions (env.longResults (i + k))) ∧
        ∀ j earlier, j < k → plugin[j]? = some earlier → Handable earlier.longopts (env.longResults (i + j)) := by
  induction plugin generalizing i copies with
  | nil => simp [passAll]
  | cons lib rest ih =>
    have unused : lib.optsToPassLen = 0 := by simp [Lib.optsToPassLen, fresh lib List.mem_cons_self]
    have crashes := passResults_crashed_iff (env.longResults i) lib copies (by omega)
    have goes := passResults_going_iff (env.longResults i) lib copies (by omega)
    rw [unused] at crashes
    rw [unused, Nat.zero_add] at goes
    have later (copies : List Nat) := ih (i + 1) copies
      fun other member => fresh other (List.mem_cons_of_mem _ member)
    rw [Loop.exists_first_cons
      (fun place (other : Lib) => Breaks other.longopts 0 (recognisedOptions (env.longResults place)))
      (fun place (other : Lib) => Handable other.longopts (env.longResults place)), ← crashes, Handable, ← goes,
      passAll]
    obtain ⟨status, lib', copies'⟩ := passResults (env.longResults i) lib copies
    cases status with
    | going => simp [later]
    | failed => simp
    | crashed => simp

def Scans (env : Env) (plugin : List Lib) (args : List CString) : Prop :=
  ∀ k lib, plugin[k]? = some lib → env.longResults k = scanResults lib.longopts args

/-- Behind options that are served, and with a place left, the command line
gives an option with an optional argument and no argument. -/
def LacksOptional (table : List Opt) (args : List CString) : Prop :=
  ∃ before optInd after entry, recognisedOptions (scanResults table args) = before ++ (optInd, none) :: after ∧
    before.length < table.length ∧ (∀ earlier ∈ before, Served table earlier) ∧
    table[optInd]? = some entry ∧ 2 ≤ entry.hasArg

theorem mem_recognisedOptions (results : List LongResult) (member : (optInd, optarg) ∈ recognisedOptions results) :
    .recognised optInd optarg ∈ results := by
  obtain ⟨result, present, same⟩ := List.mem_filterMap.mp member
  cases result with
  | other => cases same
  | recognised index given =>
    cases same
    exact present

theorem breaks_scanned (table : List Opt) (args : List CString) :
    Breaks table 0 (recognisedOptions (scanResults table args)) ↔ LacksOptional table args := by
  constructor
  · rintro ⟨before, ⟨optInd, optarg⟩, after, split, room, earlier, not⟩
    have returned : LongResult.recognised optInd optarg ∈ scanResults table args :=
      mem_recognisedOptions _ (by simp [split])
    obtain ⟨entry, present, required, _⟩ := scanResults_entry table args returned
    have takes : entry.hasArg ≠ 0 ∧ optarg = none := by simpa [Served, present] using not
    have optional : entry.hasArg ≠ 1 := fun requires => required requires takes.2
    refine ⟨before, optInd, after, entry, takes.2 ▸ split, by simpa using room, earlier, present, ?_⟩
    omega
  · rintro ⟨before, optInd, after, entry, split, room, earlier, present, optional⟩
    refine ⟨before, _, after, split, by simpa using room, earlier, ?_⟩
    simp only [Served, present, Option.some.injEq, not_exists]
    rintro _ ⟨rfl, takes⟩
    exact takes (by omega) rfl

/-- The first plugin that cannot be handed its options lacks an optional argument. -/
def FirstLacks (plugin : List Lib) (args : List CString) : Prop :=
  ∃ (k : Nat) (lib : Lib), plugin[k]? = some lib ∧ LacksOptional lib.longopts args ∧
    ∀ (j : Nat) (earlier : Lib), j < k → plugin[j]? = some earlier →
      Handable earlier.longopts (scanResults earlier.longopts args)

/-- The option loop on any command line. It crashes exactly if the first plugin
that cannot be handed its options comes, with a place left, to an option with
an optional argument that was given none; options that take no argument or
require one never make it crash. -/
theorem option_loop_crashes_iff (env : Env) (plugin : List Lib) (fresh : ∀ lib ∈ plugin, lib.optsToPass = [])
    (args : List CString) (scans : Scans env plugin args) :
    ((passAll env plugin 0 []).1 = .crashed ↔ FirstLacks plugin args) ∧
    ((∀ lib ∈ plugin, ∀ opt ∈ lib.longopts, opt.hasArg < 2) → (passAll env plugin 0 []).1 ≠ .crashed) := by
  have crashes := passAll_crashed_iff env plugin 0 [] fresh
  simp only [Nat.zero_add] at crashes
  have exactly : (passAll env plugin 0 []).1 = .crashed ↔ FirstLacks plugin args := by
    rw [crashes]
    constructor
    · rintro ⟨k, lib, found, breaks, before⟩
      rw [scans k lib found, breaks_scanned] at breaks
      refine ⟨k, lib, found, breaks, ?_⟩
      intro j earlier less present
      exact scans j earlier present ▸ before j earlier less present
    · rintro ⟨k, lib, found, breaks, before⟩
      rw [← breaks_scanned, ← scans k lib found] at breaks
      refine ⟨k, lib, found, breaks, ?_⟩
      intro j earlier less present
      exact (scans j earlier present).symm ▸ before j earlier less present
  refine ⟨exactly, fun kinds crashed => ?_⟩
  obtain ⟨k, lib, found, ⟨_, optInd, _, entry, _, _, _, present, optional⟩, _⟩ := exactly.mp crashed
  have few := kinds lib (List.mem_of_getElem? found) entry (List.mem_of_getElem? present)
  omega

def Env.scanning (env : Env) (plugin : List Lib) (args : List CString) : Env :=
  { env with
    longResults := fun k => scanResults ((plugin[k]?).elim [] Lib.longopts) args
    lastArg := args.getLastD [] }

theorem scanning_scans (env : Env) (plugin : List Lib) (args : List CString) :
    Scans (env.scanning plugin args) plugin args := by
  intro k lib found
  simp [Env.scanning, found]

def optionalPlugin : Lib := ⟨[], [⟨"log".toList, 2, .null, 0⟩], (Plugin.constant 1).lib.ppfFunc⟩

theorem option_loop_crashes_abbreviated :
    (passAll ((sampleEnv [] none []).scanning [optionalPlugin] ["--log=x".toList]) [optionalPlugin] 0 []).1 ≠
        .crashed ∧
      (passAll ((sampleEnv [] none []).scanning [optionalPlugin] ["--lo".toList]) [optionalPlugin] 0 []).1 =
        .crashed := by
  have fresh : ∀ lib ∈ [optionalPlugin], lib.optsToPass = [] := by simp [optionalPlugin]
  constructor
  · decide
  · refine (option_loop_crashes_iff _ _ fresh _ (scanning_scans _ _ _)).1.mpr ⟨0, optionalPlugin, rfl, ?_, by simp⟩
    exact ⟨[], 0, [], _, rfl, by decide, by simp, rfl, by decide⟩

end Loop

section Line

open Loop

/-- A text without a letter of a short option. -/
def IdleText (text : CString) : Prop := ∀ char ∈ text, Idle char

instance (text : CString) : Decidable (IdleText text) := List.decidableBAll _ text

def Form.Quiet : Form → Prop
  | .inline value => IdleText value
  | _ => True

instance (form : Form) : Decidable form.Quiet := match form with
  | .bare => .isTrue trivial
  | .inline value => inferInstanceAs (Decidable (IdleText value))
  | .separate _ => .isTrue trivial

/-- A part in which the scan for short options finds none but the host's own. -/
def Part.Quiet : Part → Prop
  | .host _ => True
  | .option dashes name form => dashes.Names name ∧ IdleText name ∧ form.Quiet ∧ form.Plain
  | .plain text => text.head? ≠ some '-'

instance (part : Part) : Decidable part.Quiet := match part with
  | .host _ => .isTrue trivial
  | .option _ _ _ => inferInstanceAs (Decidable (_ ∧ _ ∧ _ ∧ _))
  | .plain _ => inferInstanceAs (Decidable (_ ≠ _))

def Part.hostWord : Part → Option HostWord
  | .host word => some word
  | _ => none

def hostOptions (parts : List Part) : ShortOpts :=
  (parts.filterMap Part.hostWord).foldl (fun opts word => word.set opts) .unset

theorem ends_dashes (names : Dashes.Names dashes name) (idle : ∀ char ∈ name, Idle char)
    (value : Option CString) (idleValue : ∀ text ∈ value, ∀ char ∈ text, Idle char) (rest : List CString)
    (opts : ShortOpts) :
    Ends shortTurn (⟨[], dashes.word name value :: rest⟩, opts) result ↔ Ends shortTurn (⟨[], rest⟩, opts) result := by
  cases dashes with
  | two => exact ends_harmless ⟨.inl names.nonempty, idle, idleValue⟩ rest opts
  | one =>
    cases name with
    | nil => exact absurd rfl names.nonempty
    | cons first more =>
      have other : first ≠ '-' := by simpa using names.dash rfl
      have strange : first ≠ 'P' := by
        rintro rfl
        exact absurd (idle 'P' List.mem_cons_self) (by decide)
      have begun : shortTurn (⟨[], Dashes.one.word (first :: more) value :: rest⟩, opts) =
          .again (⟨more ++ value.elim [] ('=' :: ·), rest⟩, opts) := by
        simp [shortTurn, Getopt.getopt, Dashes.word, other, Getopt.scanChar,
          lookup_idle (idle first List.mem_cons_self), strange]
      have tail : ∀ char ∈ more ++ value.elim [] ('=' :: ·), Idle char := by
        intro char member
        rcases List.mem_append.mp member with inName | inValue
        · exact idle char (List.mem_cons_of_mem _ inName)
        · cases value with
          | none => cases inValue
          | some text =>
            rcases List.mem_cons.mp inValue with rfl | inside
            · decide
            · exact idleValue text rfl char inside
      rw [ends_again begun]
      simpa using ends_idle tail [] rest opts

/-- A quiet part changes what the host's own word in it says. -/
theorem Part.Quiet.ends {part : Part} (quiet : part.Quiet) (rest : List CString) (opts : ShortOpts) :
    Ends shortTurn (⟨[], part.words ++ rest⟩, opts) result ↔
      Ends shortTurn (⟨[], rest⟩, part.hostWord.elim opts (fun word => word.set opts)) result := by
  cases part with
  | host word => exact ends_host word rest opts
  | plain text => exact ends_plain quiet rest opts
  | option dashes name form =>
    obtain ⟨names, idle, inline, separate⟩ := quiet
    cases form with
    | bare => exact ends_dashes names idle none (by simp) rest opts
    | inline value =>
      exact ends_dashes names idle (some value) (by simpa [Form.Quiet, IdleText] using inline) rest opts
    | separate value =>
      exact (ends_dashes names idle none (by simp) (value :: rest) opts).trans (ends_plain separate rest opts)

theorem shortOptions_parts (parts : List Part) (quiet : ∀ part ∈ parts, part.Quiet) :
    shortOptions (parts.flatMap Part.words) = some (some (hostOptions parts)) := by
  have all (opts : ShortOpts) : Ends shortTurn (⟨[], parts.flatMap Part.words⟩, opts)
      (some ((parts.filterMap Part.hostWord).foldl (fun opts word => word.set opts) opts)) := by
    induction parts generalizing opts with
    | nil => exact ends_leave rfl
    | cons part parts ih =>
      have later := ih fun other member => quiet other (List.mem_cons_of_mem _ member)
      rw [List.flatMap_cons, (quiet part List.mem_cons_self).ends]
      cases own : part.hostWord with
      | none => simpa [own] using later opts
      | some word => simpa [own] using later (word.set opts)
  exact (shortOptions_eq_iff _).mpr (all .unset)

/-- One command line, scanned once for the host and once for every plugin. Where
no scan misreads a part, quiet for the host and legible for the plugins, the host
takes its own words; each plugin is given exactly the options that were asked of
it, in order and with copies of their own arguments, and the program stops if one
plugin is asked for more options than its table has. -/
theorem command_line_distributed (parts : List Part) (quiet : ∀ part ∈ parts, part.Quiet) (env : Env)
    (plugin : List Lib) (fresh : ∀ lib ∈ plugin, lib.optsToPass = [])
    (kinds : ∀ lib ∈ plugin, ∀ opt ∈ lib.longopts, opt.hasArg = 0 ∨ opt.hasArg = 1)
    (legible : ∀ lib ∈ plugin, ∀ part ∈ parts, Legible lib.longopts part)
    (scans : Scans env plugin (parts.flatMap Part.words)) :
    shortOptions (parts.flatMap Part.words) = some (some (hostOptions parts)) ∧
    ((∀ lib ∈ plugin, (requested lib.longopts parts).length ≤ lib.longopts.length) →
      ∃ after copies, passAll env plugin 0 [] = (.going, after, copies) ∧
        List.Forall₂ (fun (lib done : Lib) => done.longopts = lib.longopts ∧ done.ppfFunc = lib.ppfFunc ∧
          List.Forall₂ (Handed lib.longopts) (requested lib.longopts parts) done.optsToPass) plugin after) ∧
    ((∃ lib ∈ plugin, lib.longopts.length < (requested lib.longopts parts).length) →
      (passAll env plugin 0 []).1 = .failed) := by
  have read (k : Nat) (lib : Lib) (found : plugin[k]? = some lib) :
      recognisedOptions (env.longResults (0 + k)) = requested lib.longopts parts := by
    rw [Nat.zero_add, scans k lib found]
    exact recognisedOptions_parts parts (legible lib (List.mem_of_getElem? found))
  have fits : Fits env 0 plugin ↔ ∀ lib ∈ plugin, (requested lib.longopts parts).length ≤ lib.longopts.length := by
    constructor
    · intro fits lib member
      obtain ⟨k, found⟩ := List.mem_iff_getElem?.mp member
      exact read k lib found ▸ fits k lib found
    · intro all k lib found
      exact (read k lib found).symm ▸ all lib (List.mem_of_getElem? found)
  have handed := passAll_handed env plugin 0 [] fresh kinds fun k lib found => by
    rw [Nat.zero_add, scans k lib found]
    exact scanResults_wellReturned lib.longopts _
  refine ⟨shortOptions_parts parts quiet, fun room => ?_, fun many => ?_⟩
  · rcases handed with ⟨_, after, copies, going, size, all⟩ | ⟨exceeds, _⟩
    · refine ⟨after, copies, going, List.forall₂_iff_get.mpr ⟨size.symm, ?_⟩⟩
      intro k inside inAfter
      obtain ⟨done, present, table, func, _, options⟩ := all k _ (List.getElem?_eq_getElem inside)
      rw [read k _ (List.getElem?_eq_getElem inside)] at options
      have same : after.get ⟨k, inAfter⟩ = done :=
        Option.some.inj ((List.getElem?_eq_getElem inAfter).symm.trans present)
      rw [same]
      exact ⟨table, func, options⟩
    · exact absurd (fits.mpr room) exceeds
  · rcases handed with ⟨room, _⟩ | ⟨_, failed⟩
    · obtain ⟨lib, member, exceeds⟩ := many
      exact absurd (fits.mp room lib member) (not_le.mpr exceeds)
    · exact failed

def sampleParts : List Part :=
  [.host .o, .option .two "n".toList (.separate "1".toList), .option .one "m".toList .bare, .plain "dir".toList]

theorem command_line_distributed_both :
    ∃ after copies, shortOptions (sampleParts.flatMap Part.words) =
        some (some { ShortOpts.unset with oflag := true, needLib2 := true }) ∧
      passAll ((sampleEnv [] none []).scanning samplePlugins (sampleParts.flatMap Part.words)) samplePlugins 0 [] =
        (.going, after, copies) := by
  obtain ⟨short, fits, _⟩ := command_line_distributed sampleParts (by decide)
    ((sampleEnv [] none []).scanning samplePlugins (sampleParts.flatMap Part.words)) samplePlugins (by decide)
    (by decide) (by decide) (scanning_scans _ _ _)
  obtain ⟨after, copies, going, _⟩ := fits (by decide)
  exact ⟨after, copies, short, going⟩

end Line

end PluginSearch
