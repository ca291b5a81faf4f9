import PluginSearch.Basis.Numeral

/-! The short-option scanner of `getopt(3)` for an option string that starts
with `-`: words that are not options are returned in order. -/

namespace PluginSearch.Getopt

/-- `nextchar` is what is left of the word being scanned, `argv` the words that
were not begun yet. -/
structure State where
  nextchar : CString
  argv : List CString
  deriving DecidableEq, Repr

/-- What one call returns: -1, 1 with a word in `optarg`, an option character
with its argument if it takes one, or `?` with the character in `optopt`. -/
inductive Code where
  | done
  | word (optarg : CString)
  | option (char : Char) (optarg : Option CString)
  | question (optopt : Char)
  deriving DecidableEq, Repr

def lookup (optstring : CString) (char : Char) : Option Bool :=
  if char = ':' ∨ char = ';' then none
  else match optstring.dropWhile (· ≠ char) with
    | [] => none
    | _ :: rest => some (rest.head? = some ':')

def scanChar (optstring : CString) (char : Char) (nextchar : CString) (argv : List CString) : Code × State :=
  match lookup optstring char with
  | none => (.question char, ⟨nextchar, argv⟩)
  | some false => (.option char none, ⟨nextchar, argv⟩)
  | some true =>
    if nextchar ≠ [] then (.option char (some nextchar), ⟨[], argv⟩)
    else match argv with
      | [] => (.question char, ⟨[], []⟩)
      | arg :: rest => (.option char (some arg), ⟨[], rest⟩)

/-- One call. The word `--` ends the options, whatever follows it. -/
def getopt (optstring : CString) (state : State) : Code × State :=
  match state.nextchar with
  | char :: nextchar => scanChar optstring char nextchar state.argv
  | [] => match state.argv with
    | [] => (.done, state)
    | word :: rest =>
      if word = "--".toList then (.done, ⟨[], []⟩)
      else match word with
        | '-' :: char :: nextchar => scanChar optstring char nextchar rest
        | _ => (.word word, ⟨[], rest⟩)

def State.size (state : State) : Nat :=
  state.nextchar.length + (state.argv.map (fun word => word.length + 1)).sum

theorem scanChar_size (optstring : CString) (char : Char) (nextchar : CString) (argv : List CString) :
    (scanChar optstring char nextchar argv).2.size ≤ State.size ⟨nextchar, argv⟩ := by
  unfold scanChar
  split
  · exact Nat.le_refl _
  · exact Nat.le_refl _
  · split
    · simp [State.size]
    · cases argv with
      | nil => simp [State.size]
      | cons arg rest => simp [State.size]; omega

theorem getopt_size (optstring : CString) (state : State) :
    (getopt optstring state).1 = .done ∨ (getopt optstring state).2.size < state.size := by
  obtain ⟨nextchar, argv⟩ := state
  cases nextchar with
  | cons char nextchar =>
    right
    have scanned := scanChar_size optstring char nextchar argv
    simp only [getopt]
    apply lt_of_le_of_lt scanned
    simp only [State.size, List.length_cons]
    omega
  | nil =>
    cases argv with
    | nil => exact .inl rfl
    | cons word rest =>
      simp only [getopt]
      split
      · exact .inl rfl
      · right
        split
        · rename_i char nextchar _
          have scanned := scanChar_size optstring char nextchar rest
          apply lt_of_le_of_lt scanned
          simp only [State.size, List.map_cons, List.sum_cons, List.length_cons, List.length_nil]
          omega
        · simp only [State.size, List.map_cons, List.sum_cons, List.length_nil]
          omega

theorem scanChar_option (scanned : scanChar optstring first nextchar argv = (.option char optarg, next)) :
    lookup optstring char = some optarg.isSome := by
  unfold scanChar at scanned
  split at scanned
  · cases scanned
  · cases scanned
    assumption
  · split at scanned
    · cases scanned
      assumption
    · split at scanned
      · cases scanned
      · cases scanned
        assumption

theorem getopt_option (called : getopt optstring state = (.option char optarg, next)) :
    lookup optstring char = some optarg.isSome := by
  unfold getopt at called
  split at called
  · exact scanChar_option called
  · split at called
    · cases called
    · split at called
      · cases called
      · split at called
        · exact scanChar_option called
        · cases called

theorem getopt_plain (optstring : CString) (plain : word.head? ≠ some '-') (rest : List CString) :
    getopt optstring ⟨[], word :: rest⟩ = (.word word, ⟨[], rest⟩) := by
  cases word with
  | nil => simp [getopt]
  | cons first more =>
    have other : first ≠ '-' := by simpa using plain
    simp [getopt, other]

/-- A word that begins with `--` and goes on is scanned from its second dash. -/
theorem getopt_dashes (optstring : CString) (more : body ≠ []) (rest : List CString) :
    getopt optstring ⟨[], ('-' :: '-' :: body) :: rest⟩ = scanChar optstring '-' body rest := by
  simp [getopt, more]

end PluginSearch.Getopt
