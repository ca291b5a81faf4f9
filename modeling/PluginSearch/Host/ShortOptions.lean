import PluginSearch.Basis.Getopt
import PluginSearch.Basis.Loop

namespace PluginSearch

open Getopt (getopt lookup scanChar)
open Loop

/-- The option string, after the `-` that asks for words in order. -/
def optstring : CString := "AONvhP:".toList

structure ShortOpts where
  aflag : Bool
  oflag : Bool
  nflag : Bool
  vflag : Bool
  hflag : Bool
  needLib2 : Bool
  pvalue : Option CString
  deriving DecidableEq, Repr

def ShortOpts.unset : ShortOpts := ⟨false, false, false, false, false, false, none⟩

/-- The `switch` over the character that `getopt` returned. -/
def setShort (char : Char) (optarg : Option CString) (opts : ShortOpts) : ShortOpts :=
  match char with
  | 'A' => { opts with aflag := true, needLib2 := true }
  | 'O' => { opts with oflag := true, needLib2 := true }
  | 'N' => { opts with nflag := true, needLib2 := true }
  | 'v' => { opts with vflag := true }
  | 'h' => { opts with hflag := true }
  | 'P' => { opts with pvalue := optarg }
  | _ => opts

/-- One turn of the loop. It leaves the whole program, without a result, when
`-P` has no argument. -/
def shortTurn (state : Getopt.State × ShortOpts) : Turn (Getopt.State × ShortOpts) (Option ShortOpts) :=
  match getopt optstring state.1 with
  | (.done, _) => .leave (some state.2)
  | (.word _, next) => .again (next, state.2)
  | (.option char optarg, next) => .again (next, setShort char optarg state.2)
  | (.question optopt, next) => if optopt = 'P' then .leave none else .again (next, state.2)

/-- The loop over the words behind the program name; each turn uses up part of them. -/
def shortOptions (args : List CString) : Option (Option ShortOpts) :=
  run shortTurn (Getopt.State.size ⟨[], args⟩ + 1) (⟨[], args⟩, .unset)

theorem shortTurn_variant (valid : ShortOpts → Prop)
    (keeps : ∀ char optarg opts, lookup optstring char = some optarg.isSome → valid opts →
      valid (setShort char optarg opts)) :
    Variant shortTurn (fun state => valid state.2) (fun state => state.1.size) := by
  constructor
  · intro state next good taken
    unfold shortTurn at taken
    split at taken <;> rename_i called
    · cases taken
    · cases taken
      exact good
    · cases taken
      exact keeps _ _ _ (Getopt.getopt_option called) good
    · split at taken
      · cases taken
      · cases taken
        exact good
  · intro state next _ taken
    unfold shortTurn at taken
    have shrinks := Getopt.getopt_size optstring state.1
    split at taken <;> rename_i called
    · cases taken
    · cases taken
      simpa [called] using shrinks
    · cases taken
      simpa [called] using shrinks
    · split at taken
      · cases taken
      · cases taken
        simpa [called] using shrinks

theorem shortOptions_eq_iff (args : List CString) :
    shortOptions args = some result ↔ Ends shortTurn (⟨[], args⟩, .unset) result := by
  constructor
  · exact fun reached => ⟨_, reached⟩
  · intro ends
    obtain ⟨other, reached, _⟩ : ∃ other, shortOptions args = some other ∧ True :=
      (shortTurn_variant (fun _ => True) (fun _ _ _ _ _ => trivial)).total
        (fun _ => True) (fun _ _ _ _ => trivial) trivial (Nat.lt_succ_self _)
    rw [reached, ends.unique ⟨_, reached⟩]

/-- A character that is no short option of the host. -/
def Idle (char : Char) : Prop := char ∉ "AONvhP".toList

instance (char : Char) : Decidable (Idle char) := inferInstanceAs (Decidable (¬ _))

theorem lookup_idle (idle : Idle char) : lookup optstring char = none := by
  simp only [lookup]
  split
  · rfl
  · rename_i punctuation
    have passed : optstring.dropWhile (· ≠ char) = [] := by
      rw [List.dropWhile_eq_nil_iff]
      intro letter member
      have parts : optstring = "AONvhP".toList ++ [':'] := by decide
      rw [parts] at member
      have other : letter ≠ char := by
        rintro rfl
        rcases List.mem_append.mp member with listed | colon
        · exact idle listed
        · exact punctuation (.inl (List.mem_singleton.mp colon))
      simpa using other
    rw [passed]

theorem shortTurn_idle (idle : Idle char) (body : CString) (argv : List CString) (opts : ShortOpts) :
    shortTurn (⟨char :: body, argv⟩, opts) = .again (⟨body, argv⟩, opts) := by
  have other : char ≠ 'P' := by
    rintro rfl
    exact absurd idle (by decide)
  simp [shortTurn, getopt, scanChar, lookup_idle idle, other]

/-- Characters that are no options leave no trace. -/
theorem ends_idle (idle : ∀ char ∈ front, Idle char) (body : CString) (argv : List CString) (opts : ShortOpts) :
    Ends shortTurn (⟨front ++ body, argv⟩, opts) result ↔ Ends shortTurn (⟨body, argv⟩, opts) result := by
  induction front with
  | nil => rfl
  | cons char front ih =>
    rw [List.cons_append, ends_again (shortTurn_idle (idle char (by simp)) _ _ _)]
    apply ih
    exact fun other member => idle other (by simp [member])

inductive HostWord where
  | a
  | o
  | n
  | v
  | h
  | p (dir : CString)
  deriving DecidableEq, Repr

def HostWord.words : HostWord → List CString
  | .a => ["-A".toList]
  | .o => ["-O".toList]
  | .n => ["-N".toList]
  | .v => ["-v".toList]
  | .h => ["-h".toList]
  | .p dir => ["-P".toList, dir]

def HostWord.set : HostWord → ShortOpts → ShortOpts
  | .a => setShort 'A' none
  | .o => setShort 'O' none
  | .n => setShort 'N' none
  | .v => setShort 'v' none
  | .h => setShort 'h' none
  | .p dir => setShort 'P' (some dir)

def pluginWord (name : CString) (value : Option CString) : CString :=
  "--".toList ++ name ++ value.elim [] ('=' :: ·)

/-- A command line in parts: words of the host, long options of plugins, and
words that do not begin with a dash (a separate value, or the folder). -/
inductive Item where
  | host (word : HostWord)
  | plugin (name : CString) (value : Option CString)
  | plain (word : CString)
  deriving DecidableEq, Repr

def Item.words : Item → List CString
  | .host word => word.words
  | .plugin name value => [pluginWord name value]
  | .plain word => [word]

def commandLine (items : List Item) : List CString := items.flatMap Item.words

def hostWords (items : List Item) : List HostWord :=
  items.filterMap fun
    | .host word => some word
    | _ => none

def Admits (spelling : CString → Option CString → Prop) (items : List Item) : Prop :=
  ∀ item ∈ items, match item with
    | .host _ => True
    | .plugin name value => spelling name value
    | .plain word => word.head? ≠ some '-'

/-- A spelling that is not the bare word `--` and has no letter of a short
option in its name or inline value. -/
structure Harmless (name : CString) (value : Option CString) : Prop where
  named : name ≠ [] ∨ value ≠ none
  name : ∀ char ∈ name, Idle char
  value : ∀ text ∈ value, ∀ char ∈ text, Idle char

theorem ends_host (word : HostWord) (rest : List CString) (opts : ShortOpts) :
    Ends shortTurn (⟨[], word.words ++ rest⟩, opts) result ↔ Ends shortTurn (⟨[], rest⟩, word.set opts) result := by
  cases word <;> exact ends_again rfl

theorem ends_plain (plain : word.head? ≠ some '-') (rest : List CString) (opts : ShortOpts) :
    Ends shortTurn (⟨[], word :: rest⟩, opts) result ↔ Ends shortTurn (⟨[], rest⟩, opts) result :=
  ends_again (by simp [shortTurn, Getopt.getopt_plain optstring plain])

/-- A long option is scanned character by character, from its second dash. -/
theorem ends_plugin (named : name ≠ [] ∨ value ≠ none) (rest : List CString) (opts : ShortOpts) :
    Ends shortTurn (⟨[], pluginWord name value :: rest⟩, opts) result ↔
      Ends shortTurn (⟨name ++ value.elim [] ('=' :: ·), rest⟩, opts) result := by
  have body : name ++ value.elim [] ('=' :: ·) ≠ [] := by
    rcases named with named | valued
    · simp [named]
    · cases value with
      | none => exact absurd rfl valued
      | some text => simp
  have spelled : pluginWord name value = '-' :: '-' :: (name ++ value.elim [] ('=' :: ·)) := by simp [pluginWord]
  have dash : lookup optstring '-' = none := lookup_idle (by decide)
  apply ends_again
  simp [shortTurn, spelled, Getopt.getopt_dashes optstring body rest, scanChar, dash]

theorem ends_harmless (harmless : Harmless name value) (rest : List CString) (opts : ShortOpts) :
    Ends shortTurn (⟨[], pluginWord name value :: rest⟩, opts) result ↔
      Ends shortTurn (⟨[], rest⟩, opts) result := by
  rw [ends_plugin harmless.named, ends_idle harmless.name]
  cases value with
  | none => rfl
  | some text =>
    have idle : ∀ char ∈ '=' :: text, Idle char := by
      intro char member
      rcases List.mem_cons.mp member with rfl | inside
      · decide
      · exact harmless.value text rfl char inside
    simpa using ends_idle idle [] rest opts

theorem ends_commandLine (admits : Admits Harmless items) (opts : ShortOpts) :
    Ends shortTurn (⟨[], commandLine items⟩, opts)
      (some ((hostWords items).foldl (fun opts word => word.set opts) opts)) := by
  induction items generalizing opts with
  | nil => exact ends_leave rfl
  | cons item items ih =>
    have tail : Admits Harmless items := fun other member => admits other (by simp [member])
    have first := admits item (by simp)
    cases item with
    | host word => exact (ends_host word _ opts).mpr (ih tail _)
    | plugin name value => exact (ends_harmless first _ opts).mpr (ih tail _)
    | plain word => exact (ends_plain first _ opts).mpr (ih tail _)

def Touched (opts : ShortOpts) : Prop :=
  opts.aflag ∨ opts.oflag ∨ opts.nflag ∨ opts.vflag ∨ opts.hflag ∨ opts.pvalue.isSome

theorem touched_setShort (listed : lookup optstring char = some optarg.isSome) (touched : Touched opts) :
    Touched (setShort char optarg opts) := by
  unfold setShort
  split
  case h_6 =>
    have argument : some true = some optarg.isSome := listed
    exact .inr (.inr (.inr (.inr (.inr (Option.some.inj argument).symm))))
  all_goals simp_all [Touched]

theorem Ends.touched (ends : Ends shortTurn state (some opts)) (touched : Touched state.2) : Touched opts := by
  have establishes : ∀ state result, Touched state.2 → shortTurn state = .leave result →
      ∀ opts, result = some opts → Touched opts := by
    intro state result good left opts same
    unfold shortTurn at left
    split at left
    · cases left
      cases same
      exact good
    · cases left
    · cases left
    · split at left
      · cases left
        cases same
      · cases left
  obtain ⟨result, reached, kept⟩ := (shortTurn_variant Touched (fun _ _ _ => touched_setShort)).total
    _ establishes touched (Nat.lt_succ_self _)
  exact kept opts (Loop.Ends.unique ⟨_, reached⟩ ends)

/-- A letter of a short option takes effect wherever it stands in a word. -/
theorem shortTurn_letter (letter : ¬ Idle char) (more : CString) (arg : CString) (rest : List CString)
    (opts : ShortOpts) :
    ∃ next after, shortTurn (⟨char :: more, arg :: rest⟩, opts) = .again (next, after) ∧ Touched after := by
  have listed : char = 'A' ∨ char = 'O' ∨ char = 'N' ∨ char = 'v' ∨ char = 'h' ∨ char = 'P' := by
    simpa using (not_not.mp letter : char ∈ "AONvhP".toList)
  rcases listed with rfl | rfl | rfl | rfl | rfl | rfl
  · exact ⟨_, _, rfl, by simp [Touched, setShort]⟩
  · exact ⟨_, _, rfl, by simp [Touched, setShort]⟩
  · exact ⟨_, _, rfl, by simp [Touched, setShort]⟩
  · exact ⟨_, _, rfl, by simp [Touched, setShort]⟩
  · exact ⟨_, _, rfl, by simp [Touched, setShort]⟩
  · cases more with
    | nil => exact ⟨_, _, rfl, by simp [Touched, setShort]⟩
    | cons first more => exact ⟨_, _, rfl, by simp [Touched, setShort]⟩

/-- A spelling with such a letter leaves the variables touched. -/
theorem touched_of_letter (named : name ≠ [] ∨ value ≠ none)
    (letter : char ∈ name ++ value.elim [] ('=' :: ·)) (active : ¬ Idle char)
    (ends : Ends shortTurn (⟨[], pluginWord name value :: arg :: rest⟩, before) (some opts)) : Touched opts := by
  rw [ends_plugin named] at ends
  have present : ((name ++ value.elim [] ('=' :: ·)).find? (fun char => ¬ Idle char)).isSome := by
    rw [List.find?_isSome]
    exact ⟨char, letter, by simpa using active⟩
  obtain ⟨first, found⟩ := Option.isSome_iff_exists.mp present
  obtain ⟨acts, front, more, split, idle⟩ := List.find?_eq_some_iff_append.mp found
  rw [split, ends_idle (fun char member => by simpa using idle char member)] at ends
  obtain ⟨next, after, taken, touched⟩ := shortTurn_letter (by simpa using acts) more arg rest before
  exact Ends.touched ((ends_again taken).mp ends) touched

/-- Lines with the same words of the host end the loop with the same variables,
whatever plugin options they hold. -/
def Independent (spelling : CString → Option CString → Prop) : Prop :=
  ∀ one two, Admits spelling one → Admits spelling two →
    2 ≤ (commandLine one).length → 2 ≤ (commandLine two).length → hostWords one = hostWords two →
    ∃ opts, shortOptions (commandLine one) = some (some opts) ∧ shortOptions (commandLine two) = some (some opts)

/-- Plugin options leave the variables of the host alone exactly when no
spelling is the bare word `--` or holds the letter of a short option. -/
theorem shortOptions_independent_iff (spelling : CString → Option CString → Prop) :
    Independent spelling ↔ ∀ name value, spelling name value → Harmless name value := by
  constructor
  · intro independent name value spelled
    have named : name ≠ [] ∨ value ≠ none := by
      by_contra bare
      obtain ⟨rfl, rfl⟩ : name = [] ∧ value = none := by simpa using bare
      obtain ⟨opts, stopped, set⟩ := independent [.plugin [] none, .host .a] [.plain "x".toList, .host .a]
        (by simpa [Admits] using spelled) (by simp [Admits]) (by decide) (by decide) rfl
      have unset : shortOptions (commandLine [.plugin [] none, .host .a]) = some (some .unset) := by decide
      have changed : shortOptions (commandLine [.plain "x".toList, .host .a]) ≠ some (some .unset) := by decide
      exact changed (set.trans (stopped.symm.trans unset))
    have idle : ∀ char ∈ name ++ value.elim [] ('=' :: ·), Idle char := by
      intro char letter
      by_contra active
      obtain ⟨opts, spoiled, plain⟩ := independent [.plugin name value, .plain "x".toList]
        [.plain "x".toList, .plain "x".toList] (by simpa [Admits] using spelled) (by simp [Admits])
        (by simp [commandLine, Item.words]) (by decide) rfl
      have unset : shortOptions (commandLine [.plain "x".toList, .plain "x".toList]) = some (some .unset) := by decide
      cases plain.symm.trans unset
      have touched := touched_of_letter named letter active ((shortOptions_eq_iff _).mp spoiled)
      simp [Touched, ShortOpts.unset] at touched
    refine ⟨named, fun char member => idle char (by simp [member]), ?_⟩
    rintro text rfl char member
    exact idle char (by simp [member])
  · intro harmless one two admitsOne admitsTwo _ _ same
    have weaken (items : List Item) (admits : Admits spelling items) : Admits Harmless items := by
      intro item member
      have admitted := admits item member
      cases item with
      | host word => trivial
      | plugin name value => exact harmless name value admitted
      | plain word => exact admitted
    refine ⟨_, (shortOptions_eq_iff _).mpr (ends_commandLine (weaken one admitsOne) .unset), ?_⟩
    rw [same]
    exact (shortOptions_eq_iff _).mpr (ends_commandLine (weaken two admitsTwo) .unset)

/-- The options of the two plugins, with any value that does not begin with a dash. -/
def ShippedSpelling (name : CString) (value : Option CString) : Prop :=
  (name = "bit-seq".toList ∨ name = "txt".toList) ∧ ∀ text ∈ value, text.head? ≠ some '-'

/-- An inline value with an `A` turns on `-A`; the same option with another
value does not. -/
theorem shortOptions_inline_letter :
    shortOptions (commandLine [.plugin "bit-seq".toList (some "0xA".toList), .plain "d".toList]) =
      some (some ⟨true, false, false, false, false, true, none⟩) ∧
    shortOptions (commandLine [.plugin "bit-seq".toList (some "0xB".toList), .plain "d".toList]) =
      some (some ⟨false, false, false, false, false, false, none⟩) ∧
    ¬ Independent ShippedSpelling := by
  have spoiled : shortOptions (commandLine [.plugin "bit-seq".toList (some "0xA".toList), .plain "d".toList]) =
      some (some ⟨true, false, false, false, false, true, none⟩) := by decide
  have plain : shortOptions (commandLine [.plugin "bit-seq".toList (some "0xB".toList), .plain "d".toList]) =
      some (some ⟨false, false, false, false, false, false, none⟩) := by decide
  refine ⟨spoiled, plain, ?_⟩
  intro independent
  obtain ⟨opts, withA, withB⟩ := independent
    [.plugin "bit-seq".toList (some "0xA".toList), .plain "d".toList]
    [.plugin "bit-seq".toList (some "0xB".toList), .plain "d".toList]
    (by simp [Admits, ShippedSpelling]) (by simp [Admits, ShippedSpelling]) (by decide) (by decide) rfl
  cases withA.symm.trans spoiled
  cases withB.symm.trans plain

end PluginSearch
