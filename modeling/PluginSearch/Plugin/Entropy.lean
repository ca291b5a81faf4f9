import PluginSearch.Api
import PluginSearch.Basis.Loop

/-! `libavg`: compare the entropy of a range of a file with a given value. The
arithmetic of `double` is a parameter; the range, the table of frequencies and
the options are the program's own. -/

namespace PluginSearch.Entropy

open Numeral Loop

/-- The arithmetic of `double`. A conversion to `size_t` is undefined for values
out of its range. -/
structure Arithmetic where
  Double : Type
  ofInt : Int → Double
  toSizeT : Double → Option Nat
  lt : Double → Double → Bool
  le : Double → Double → Bool
  sub : Double → Double → Double
  mul : Double → Double → Double
  div : Double → Double → Double
  log2 : Double → Double
  strtod : CString → Double × CString

def optEntropy : CString := "entropy".toList

def optOffsetFrom : CString := "offset-from".toList

def optOffsetTo : CString := "offset-to".toList

def gPoArr : List Opt := [⟨optEntropy, 1, .null, 0⟩, ⟨optOffsetFrom, 1, .null, 0⟩, ⟨optOffsetTo, 1, .null, 0⟩]

structure Inputs (arith : Arithmetic) where
  entropy : Option arith.Double
  offsetFrom : Option Nat
  offsetTo : Option Nat

def Inputs.unset (arith : Arithmetic) : Inputs arith := ⟨none, none, none⟩

def argument : Flag → Option CString
  | .heap _ text => some text
  | _ => none

/-- `OPT_CHECK`: an option that was got already, or whose argument is not a
numeral as a whole, is refused. -/
def optCheck (got : Option Value) (convert : CString → Option (Value × CString)) (flag : Flag) :
    Option (Option Value) :=
  if got.isSome then some none
  else do
    let text ← argument flag
    let (value, endptr) ← convert text
    return if endptr ≠ [] then none else some value

section Plugin

variable (arith : Arithmetic)

def convertEntropy (text : CString) : Option (arith.Double × CString) := some (arith.strtod text)

/-- The conditional expression of `OPT_CHECK` has type `double`, so that an
offset passes through it on its way from `long` to `size_t`. -/
def convertOffset (text : CString) : Option (Nat × CString) :=
  (arith.toSizeT (arith.ofInt (strtol text).1)).map fun offset => (offset, (strtol text).2)

def parseOption (opt : Opt) (inputs : Inputs arith) : Option (Option (Inputs arith)) :=
  if opt.name = optEntropy then
    (optCheck inputs.entropy (convertEntropy arith) opt.flag).map
      (Option.map fun entropy => { inputs with entropy := some entropy })
  else if opt.name = optOffsetFrom then
    (optCheck inputs.offsetFrom (convertOffset arith) opt.flag).map
      (Option.map fun offset => { inputs with offsetFrom := some offset })
  else if opt.name = optOffsetTo then
    (optCheck inputs.offsetTo (convertOffset arith) opt.flag).map
      (Option.map fun offset => { inputs with offsetTo := some offset })
  else some none

/-- The option loop over the entries of the array; there is nothing behind its end. -/
def parseOptions : List (Option Opt) → Inputs arith → Option (Option (Inputs arith))
  | [], inputs => some (some inputs)
  | entry :: rest, inputs => do
    let opt ← entry
    match ← parseOption arith opt inputs with
    | none => return none
    | some inputs => parseOptions rest inputs

/-- One turn of the counting loop of `calculate_entropy`; the buffer has no
bytes but its own. -/
def countTurn (buffer : List UInt8) (pend : Nat) (state : Nat × (UInt8 → Nat)) :
    Turn (Nat × (UInt8 → Nat)) (Option (UInt8 → Nat)) :=
  if state.1 ≤ pend then
    match buffer[state.1]? with
    | none => .leave none
    | some byte => .again (state.1 + 1, Function.update state.2 byte (state.2 byte + 1))
  else .leave (some state.2)

def sumEntropy (freqTable : UInt8 → Nat) (totalSize : Nat) : arith.Double :=
  (List.range 256).foldl (fun totalEntropy i =>
    let prob := arith.div (arith.ofInt (freqTable (UInt8.ofNat i))) (arith.ofInt totalSize)
    if arith.lt (arith.ofInt 0) prob then arith.sub totalEntropy (arith.mul prob (arith.log2 prob)) else totalEntropy)
    (arith.ofInt 0)

def calculateEntropy (buffer : List UInt8) (offsetFrom offsetTo : Nat) : Option arith.Double := do
  let freqTable ← (run (countTurn buffer offsetTo) (offsetTo - offsetFrom + 2) (offsetFrom, fun _ => 0)).join
  return arith.div (sumEntropy arith freqTable (offsetTo - offsetFrom + 1)) (arith.ofInt 8)

/-- From `open` on. -/
def processFile (file : FileAccess) (entropy : arith.Double) (offsetFrom offsetTo : Nat) (inOpts : List Opt) :
    Option Outcome :=
  match file.openErrno with
  | some errno => some ⟨-1, errno, inOpts, []⟩
  | none => match file.fstatErrno with
    | some errno => some ⟨-1, errno, inOpts, [.opened, .closed]⟩
    | none =>
      if file.content.length = 0 then some ⟨-1, .erange, inOpts, [.opened, .closed]⟩
      else if offsetFrom ≥ file.content.length then some ⟨-1, .erange, inOpts, [.opened, .closed]⟩
      else
        let offsetTo := if offsetTo = 0 ∨ offsetTo ≥ file.content.length then file.content.length - 1 else offsetTo
        if offsetFrom ≥ offsetTo then some ⟨-1, .erange, inOpts, [.opened, .closed]⟩
        else match file.mmapErrno with
          | some errno => some ⟨-1, errno, inOpts, [.opened, .closed]⟩
          | none => do
            let calcEntropy ← calculateEntropy arith file.content offsetFrom offsetTo
            return ⟨if arith.le entropy calcEntropy then 1 else 0, .zero, inOpts,
              [.opened, .mapped, .closed, .unmapped]⟩

def pluginProcessFile (file : FileAccess) (inOpts : List Opt) (inOptsLen : Nat) : Option Outcome :=
  if inOptsLen = 0 then some ⟨-1, .einval, inOpts, []⟩
  else do
    match ← parseOptions arith ((List.range inOptsLen).map (inOpts[·]?)) (.unset arith) with
    | none => return ⟨-1, .einval, inOpts, []⟩
    | some inputs => match inputs.entropy with
      | none => return ⟨-1, .einval, inOpts, []⟩
      | some entropy =>
        if arith.lt entropy (arith.ofInt 0) || arith.lt (arith.ofInt 1) entropy then
          return ⟨-1, .erange, inOpts, []⟩
        else processFile arith file entropy (inputs.offsetFrom.getD 0) (inputs.offsetTo.getD 0) inOpts

end Plugin

section Count

def between (buffer : List UInt8) (start stop : Nat) : List UInt8 := (buffer.drop start).take (stop - start)

theorem between_succ (buffer : List UInt8) (after : start ≤ stop) (present : buffer[stop]? = some byte) :
    between buffer start (stop + 1) = between buffer start stop ++ [byte] := by
  have place : (buffer.drop start)[stop - start]? = some byte := by
    rw [List.getElem?_drop, Nat.add_sub_cancel' after]
    exact present
  rw [between, Nat.sub_add_comm after, List.take_add_one, place]
  rfl

/-- The table holds how often each byte stands before the pointer. -/
structure Counting (buffer : List UInt8) (offsetFrom offsetTo : Nat) (state : Nat × (UInt8 → Nat)) : Prop where
  above : offsetFrom ≤ state.1
  below : state.1 ≤ offsetTo + 1
  table : ∀ byte, state.2 byte = (between buffer offsetFrom state.1).count byte

theorem countTurn_variant (buffer : List UInt8) (offsetFrom offsetTo : Nat) :
    Variant (countTurn buffer offsetTo) (Counting buffer offsetFrom offsetTo)
      (fun state => offsetTo + 1 - state.1) := by
  have again (state next : Nat × (UInt8 → Nat)) (taken : countTurn buffer offsetTo state = .again next) :
      state.1 ≤ offsetTo ∧ ∃ byte, buffer[state.1]? = some byte ∧
        next = (state.1 + 1, Function.update state.2 byte (state.2 byte + 1)) := by
    unfold countTurn at taken
    split at taken
    · rename_i within
      split at taken
      · cases taken
      · rename_i byte present
        cases taken
        exact ⟨within, byte, present, rfl⟩
    · cases taken
  constructor
  · intro state next counting taken
    obtain ⟨within, byte, present, rfl⟩ := again state next taken
    refine ⟨Nat.le_succ_of_le counting.above, Nat.succ_le_succ within, ?_⟩
    intro other
    rw [between_succ buffer counting.above present, List.count_append, ← counting.table other]
    by_cases same : other = byte
    · simp [same]
    · simp [same, Ne.symm same]
  · intro state next counting taken
    obtain ⟨within, _, _, rfl⟩ := again state next taken
    show offsetTo + 1 - (state.1 + 1) < offsetTo + 1 - state.1
    omega

/-- The loop reads inside the buffer only, and counts every byte of the range. -/
theorem countTurn_total (ordered : offsetFrom ≤ offsetTo) (inside : offsetTo < buffer.length) :
    run (countTurn buffer offsetTo) (offsetTo - offsetFrom + 2) (offsetFrom, fun _ => 0) =
      some (some fun byte => (between buffer offsetFrom (offsetTo + 1)).count byte) := by
  have start : Counting buffer offsetFrom offsetTo (offsetFrom, fun _ => 0) :=
    ⟨le_rfl, Nat.le_succ_of_le ordered, by simp [between]⟩
  have counts (state : Nat × (UInt8 → Nat)) (result : Option (UInt8 → Nat))
      (counting : Counting buffer offsetFrom offsetTo state) (left : countTurn buffer offsetTo state = .leave result) :
      result = some fun byte => (between buffer offsetFrom (offsetTo + 1)).count byte := by
    unfold countTurn at left
    split at left
    · rename_i within
      have present := List.getElem?_eq_getElem (lt_of_le_of_lt within inside)
      rw [present] at left
      cases left
    · rename_i beyond
      cases left
      have last : state.1 = offsetTo + 1 := le_antisymm counting.below (not_le.mp beyond)
      rw [← last]
      exact congrArg some (funext counting.table)
  have enough : offsetTo + 1 - offsetFrom < offsetTo - offsetFrom + 2 := by omega
  obtain ⟨result, reached, rfl⟩ :=
    (countTurn_variant buffer offsetFrom offsetTo).total _ counts start enough
  exact reached

def entropyOf (arith : Arithmetic) (bytes : List UInt8) : arith.Double :=
  arith.div (sumEntropy arith (fun byte => bytes.count byte) bytes.length) (arith.ofInt 8)

theorem calculateEntropy_eq (arith : Arithmetic) (ordered : offsetFrom ≤ offsetTo)
    (inside : offsetTo < buffer.length) :
    calculateEntropy arith buffer offsetFrom offsetTo =
      some (entropyOf arith (between buffer offsetFrom (offsetTo + 1))) := by
  have size : (between buffer offsetFrom (offsetTo + 1)).length = offsetTo - offsetFrom + 1 := by
    simp only [between, List.length_take, List.length_drop]
    omega
  rw [calculateEntropy, countTurn_total ordered inside, entropyOf, size]
  rfl

end Count

section Options

variable {arith : Arithmetic}

/-- What one option says by itself. -/
inductive Reading (arith : Arithmetic) where
  | entropy (value : arith.Double)
  | offsetFrom (offset : Nat)
  | offsetTo (offset : Nat)

def reading (arith : Arithmetic) (opt : Opt) : Option (Option (Reading arith)) :=
  if opt.name = optEntropy then (optCheck none (convertEntropy arith) opt.flag).map (Option.map .entropy)
  else if opt.name = optOffsetFrom then (optCheck none (convertOffset arith) opt.flag).map (Option.map .offsetFrom)
  else if opt.name = optOffsetTo then (optCheck none (convertOffset arith) opt.flag).map (Option.map .offsetTo)
  else some none

/-- Every option has an argument, and each offset can be converted. -/
def Defined (arith : Arithmetic) (opts : List Opt) : Prop := ∀ opt ∈ opts, reading arith opt ≠ none

def Inputs.put (inputs : Inputs arith) : Reading arith → Option (Inputs arith)
  | .entropy value => if inputs.entropy.isSome then none else some { inputs with entropy := some value }
  | .offsetFrom offset => if inputs.offsetFrom.isSome then none else some { inputs with offsetFrom := some offset }
  | .offsetTo offset => if inputs.offsetTo.isSome then none else some { inputs with offsetTo := some offset }

theorem optCheck_none {convert : CString → Option (Value × CString)}
    (checked : optCheck none convert flag = some result) (got : Option Value) :
    optCheck got convert flag = some (if got.isSome then none else result) := by
  cases got with
  | none => simpa using checked
  | some value => rfl

theorem parseOption_reading (reads : reading arith opt = some result) (inputs : Inputs arith) :
    parseOption arith opt inputs = some (result.bind inputs.put) := by
  unfold reading at reads
  unfold parseOption
  split at reads
  · rename_i named
    obtain ⟨value, checked, rfl⟩ := Option.map_eq_some_iff.mp reads
    rw [if_pos named, optCheck_none checked]
    cases value <;> cases got : inputs.entropy <;> simp [Inputs.put, got]
  · rename_i other
    rw [if_neg other]
    split at reads
    · rename_i named
      obtain ⟨value, checked, rfl⟩ := Option.map_eq_some_iff.mp reads
      rw [if_pos named, optCheck_none checked]
      cases value <;> cases got : inputs.offsetFrom <;> simp [Inputs.put, got]
    · rename_i another
      rw [if_neg another]
      split at reads
      · rename_i named
        obtain ⟨value, checked, rfl⟩ := Option.map_eq_some_iff.mp reads
        rw [if_pos named, optCheck_none checked]
        cases value <;> cases got : inputs.offsetTo <;> simp [Inputs.put, got]
      · rename_i unknown
        cases reads
        rw [if_neg unknown]
        rfl

def gather (inputs : Option (Inputs arith)) (readings : List (Option (Reading arith))) : Option (Inputs arith) :=
  readings.foldl (fun inputs reading => inputs.bind fun inputs => reading.bind inputs.put) inputs

theorem gather_cons (inputs : Inputs arith) (first : Option (Reading arith))
    (readings : List (Option (Reading arith))) :
    gather (some inputs) (first :: readings) = gather (first.bind inputs.put) readings := rfl

theorem gather_none (readings : List (Option (Reading arith))) : gather none readings = none := by
  induction readings with
  | nil => rfl
  | cons reading readings ih => exact ih

theorem parseOptions_gather (opts : List Opt) (readings : List (Option (Reading arith)))
    (read : opts.map (reading arith) = readings.map some) (inputs : Inputs arith) :
    parseOptions arith (opts.map some) inputs = some (gather (some inputs) readings) := by
  induction opts generalizing readings inputs with
  | nil =>
    cases readings with
    | nil => rfl
    | cons first readings => cases read
  | cons opt opts ih =>
    cases readings with
    | nil => cases read
    | cons first readings =>
      rw [List.map_cons, List.map_cons, List.cons.injEq] at read
      rw [List.map_cons, parseOptions]
      simp only [Option.bind_eq_bind, Option.bind_some, parseOption_reading read.1]
      rw [gather_cons]
      cases first.bind inputs.put with
      | none =>
        rw [gather_none]
        rfl
      | some next => exact ih readings read.2 next

theorem put_comm (inputs : Inputs arith) (one two : Reading arith) :
    (inputs.put one).bind (Inputs.put · two) = (inputs.put two).bind (Inputs.put · one) := by
  obtain ⟨entropy, offsetFrom, offsetTo⟩ := inputs
  cases one <;> cases two <;> cases entropy <;> cases offsetFrom <;> cases offsetTo <;> rfl

theorem gather_perm {readings others : List (Option (Reading arith))} (perm : readings.Perm others)
    (inputs : Option (Inputs arith)) : gather inputs readings = gather inputs others := by
  apply perm.foldl_eq'
  intro one _ two _ inputs
  cases inputs with
  | none => rfl
  | some inputs =>
    cases one with
    | none => cases two <;> simp
    | some one =>
      cases two with
      | none => simp
      | some two => simpa using (put_comm inputs one two)

def Inputs.readings (inputs : Inputs arith) : List (Reading arith) :=
  (inputs.entropy.map .entropy).toList ++ (inputs.offsetFrom.map .offsetFrom).toList ++
    (inputs.offsetTo.map .offsetTo).toList

theorem gather_readings (inputs : Inputs arith) :
    gather (some (.unset arith)) (inputs.readings.map some) = some inputs := by
  obtain ⟨entropy, offsetFrom, offsetTo⟩ := inputs
  cases entropy <;> cases offsetFrom <;> cases offsetTo <;> rfl

theorem put_readings {inputs next : Inputs arith} (one : Reading arith) (put : inputs.put one = some next) :
    (one :: inputs.readings).Perm next.readings := by
  obtain ⟨entropy, offsetFrom, offsetTo⟩ := inputs
  cases one with
  | entropy value =>
    cases entropy with
    | some given => cases put
    | none =>
      cases put
      exact .refl _
  | offsetFrom offset =>
    cases offsetFrom with
    | some given => cases put
    | none =>
      cases put
      cases entropy with
      | none => exact .refl _
      | some value => exact .swap _ _ _
  | offsetTo offset =>
    cases offsetTo with
    | some given => cases put
    | none =>
      cases put
      have empty : Inputs.readings ⟨entropy, offsetFrom, none⟩ =
          (entropy.map Reading.entropy).toList ++ (offsetFrom.map Reading.offsetFrom).toList := List.append_nil _
      rw [empty]
      exact (List.perm_append_singleton _ _).symm

theorem readings_of_gather (readings : List (Option (Reading arith))) (start : Inputs arith)
    (gathered : gather (some start) readings = some inputs) :
    ∃ all, readings = all.map some ∧ (all ++ start.readings).Perm inputs.readings := by
  induction readings generalizing start with
  | nil =>
    cases gathered
    exact ⟨[], rfl, .refl _⟩
  | cons first readings ih =>
    rw [gather_cons] at gathered
    cases first with
    | none =>
      rw [Option.bind_none, gather_none] at gathered
      cases gathered
    | some one =>
      rw [Option.bind_some] at gathered
      cases put : start.put one with
      | none =>
        rw [put, gather_none] at gathered
        cases gathered
      | some next =>
        rw [put] at gathered
        obtain ⟨all, rfl, perm⟩ := ih next gathered
        refine ⟨one :: all, rfl, ?_⟩
        have moved : (one :: (all ++ start.readings)).Perm (all ++ one :: start.readings) := List.perm_middle.symm
        exact (moved.trans ((put_readings one put).append_left all)).trans perm

/-- The options say exactly this, in some order. -/
def Tells (arith : Arithmetic) (opts : List Opt) (inputs : Inputs arith) : Prop :=
  ∃ readings : List (Reading arith),
    opts.map (reading arith) = readings.map (fun one => some (some one)) ∧ readings.Perm inputs.readings

theorem Defined.readings (defined : Defined arith opts) :
    ∃ readings : List (Option (Reading arith)), opts.map (reading arith) = readings.map some := by
  refine ⟨opts.map fun opt => (reading arith opt).join, ?_⟩
  rw [List.map_map]
  apply List.map_congr_left
  intro opt member
  cases reads : reading arith opt with
  | none => exact absurd reads (defined opt member)
  | some result => simp [reads]

theorem parseOptions_some (defined : Defined arith opts) :
    ∃ parsed, parseOptions arith (opts.map some) (.unset arith) = some parsed := by
  obtain ⟨readings, read⟩ := defined.readings
  exact ⟨_, parseOptions_gather opts readings read (.unset arith)⟩

theorem Tells.defined (tells : Tells arith opts inputs) : Defined arith opts := by
  obtain ⟨readings, read, _⟩ := tells
  intro opt member
  have reads : reading arith opt ∈ opts.map (reading arith) := List.mem_map_of_mem member
  rw [read] at reads
  obtain ⟨said, _, same⟩ := List.mem_map.mp reads
  rw [← same]
  exact Option.some_ne_none _

theorem parseOptions_tells_iff (opts : List Opt) (inputs : Inputs arith) (defined : Defined arith opts) :
    parseOptions arith (opts.map some) (.unset arith) = some (some inputs) ↔ Tells arith opts inputs := by
  obtain ⟨readings, read⟩ := defined.readings
  rw [parseOptions_gather opts readings read, Option.some.injEq]
  constructor
  · intro gathered
    obtain ⟨all, rfl, perm⟩ := readings_of_gather readings (.unset arith) gathered
    refine ⟨all, read.trans (List.map_map ..), ?_⟩
    simpa [Inputs.readings, Inputs.unset] using perm
  · rintro ⟨all, same, perm⟩
    have both : readings = all.map some := by
      apply List.map_injective_iff.mpr (Option.some_injective _)
      rw [← read, same, List.map_map]
      rfl
    rw [both, gather_perm (perm.map some)]
    exact gather_readings inputs

end Options

section Range

/-- There is a second byte to look at behind the start. -/
def Spans (offsetFrom offsetTo size : Nat) : Prop := offsetFrom + 1 < size ∧ (offsetTo = 0 ∨ offsetFrom < offsetTo)

/-- The bytes that are looked at; an end of 0 stands for the end of the file. -/
def asked (offsetFrom offsetTo : Nat) (content : List UInt8) : List UInt8 :=
  if offsetTo = 0 then content.drop offsetFrom else between content offsetFrom (offsetTo + 1)

theorem between_all (content : List UInt8) (start : Nat) (beyond : content.length ≤ stop) :
    between content start stop = content.drop start := by
  apply List.take_of_length_le
  rw [List.length_drop]
  exact Nat.sub_le_sub_right beyond start

/-- Everything that can become of a file. -/
inductive Processed (arith : Arithmetic) (file : FileAccess) (entropy : arith.Double) (offsetFrom offsetTo : Nat)
    (inOpts : List Opt) : Outcome → Prop where
  | unopened (opens : file.openErrno = some errno) :
      Processed arith file entropy offsetFrom offsetTo inOpts ⟨-1, errno, inOpts, []⟩
  | unmeasured (opens : file.openErrno = none) (measures : file.fstatErrno = some errno) :
      Processed arith file entropy offsetFrom offsetTo inOpts ⟨-1, errno, inOpts, [.opened, .closed]⟩
  | narrow (opens : file.openErrno = none) (measures : file.fstatErrno = none)
      (narrow : ¬ Spans offsetFrom offsetTo file.content.length) :
      Processed arith file entropy offsetFrom offsetTo inOpts ⟨-1, .erange, inOpts, [.opened, .closed]⟩
  | unmapped (opens : file.openErrno = none) (measures : file.fstatErrno = none)
      (spans : Spans offsetFrom offsetTo file.content.length) (maps : file.mmapErrno = some errno) :
      Processed arith file entropy offsetFrom offsetTo inOpts ⟨-1, errno, inOpts, [.opened, .closed]⟩
  | compared (readable : file.Readable) (spans : Spans offsetFrom offsetTo file.content.length) :
      Processed arith file entropy offsetFrom offsetTo inOpts
        ⟨if arith.le entropy (entropyOf arith (asked offsetFrom offsetTo file.content)) then 1 else 0, .zero, inOpts,
          [.opened, .mapped, .closed, .unmapped]⟩

/-- The end of the range after its correction, for a range that spans two
bytes: it lies in the file, and the bytes up to it are the asked ones. -/
theorem corrected_end (spans : Spans offsetFrom offsetTo content.length)
    (stop : (if offsetTo = 0 ∨ offsetTo ≥ content.length then content.length - 1 else offsetTo) = last) :
    offsetFrom < last ∧ last < content.length ∧
      between content offsetFrom (last + 1) = asked offsetFrom offsetTo content := by
  obtain ⟨second, wide⟩ := spans
  unfold asked
  split at stop
  · rename_i corrected
    have whole : content.length ≤ last + 1 := by omega
    refine ⟨by omega, by omega, ?_⟩
    rw [between_all _ _ whole]
    split
    · rfl
    · rename_i given
      rw [between_all _ _ (by omega)]
  · rename_i kept
    refine ⟨by omega, by omega, ?_⟩
    rw [if_neg (fun unset => kept (.inl unset)), stop]

theorem processFile_processed (arith : Arithmetic) (file : FileAccess) (entropy : arith.Double)
    (offsetFrom offsetTo : Nat) (inOpts : List Opt) :
    ∃ outcome, processFile arith file entropy offsetFrom offsetTo inOpts = some outcome ∧
      Processed arith file entropy offsetFrom offsetTo inOpts outcome := by
  unfold processFile
  cases opens : file.openErrno with
  | some errno => exact ⟨_, rfl, .unopened opens⟩
  | none =>
    cases measures : file.fstatErrno with
    | some errno => exact ⟨_, rfl, .unmeasured opens measures⟩
    | none =>
      dsimp only
      by_cases spans : Spans offsetFrom offsetTo file.content.length
      · generalize stop : (if offsetTo = 0 ∨ offsetTo ≥ file.content.length then file.content.length - 1
          else offsetTo) = last
        obtain ⟨before, inside, bytes⟩ := corrected_end spans stop
        rw [if_neg (by omega), if_neg (by omega), if_neg (by omega)]
        cases maps : file.mmapErrno with
        | some errno => exact ⟨_, rfl, .unmapped opens measures spans maps⟩
        | none =>
          rw [calculateEntropy_eq arith (le_of_lt before) inside, bytes]
          exact ⟨_, rfl, .compared ⟨opens, measures, maps⟩ spans⟩
      · refine ⟨_, ?_, .narrow opens measures spans⟩
        unfold Spans at spans
        split
        · rfl
        · split
          · rfl
          · rename_i filled within
            rw [if_pos]
            split <;> omega

theorem Processed.answers (processed : Processed arith file entropy offsetFrom offsetTo inOpts outcome) :
    (0 ≤ outcome.ret ↔ file.Readable ∧ Spans offsetFrom offsetTo file.content.length) ∧
    (0 ≤ outcome.ret →
      outcome.ret = if arith.le entropy (entropyOf arith (asked offsetFrom offsetTo file.content)) then 1 else 0) := by
  cases processed with
  | unopened opens => simp [FileAccess.Readable, opens]
  | unmeasured opens measures => simp [FileAccess.Readable, measures]
  | narrow opens measures narrow => simp [narrow]
  | unmapped opens measures spans maps => simp [FileAccess.Readable, maps]
  | compared readable spans =>
    refine ⟨iff_of_true ?_ ⟨readable, spans⟩, fun _ => rfl⟩
    dsimp only
    split <;> decide

/-- Everything that can become of a call. -/
inductive Judged (arith : Arithmetic) (file : FileAccess) (inOpts : List Opt) : Outcome → Prop where
  | refused (refused : ¬ ∃ inputs, Tells arith inOpts inputs ∧ inputs.entropy ≠ none) :
      Judged arith file inOpts ⟨-1, .einval, inOpts, []⟩
  | excessive (tells : Tells arith inOpts inputs) (given : inputs.entropy = some entropy)
      (beyond : (arith.lt entropy (arith.ofInt 0) || arith.lt (arith.ofInt 1) entropy) = true) :
      Judged arith file inOpts ⟨-1, .erange, inOpts, []⟩
  | processed (tells : Tells arith inOpts inputs) (given : inputs.entropy = some entropy)
      (within : (arith.lt entropy (arith.ofInt 0) || arith.lt (arith.ofInt 1) entropy) = false)
      (processed : Processed arith file entropy (inputs.offsetFrom.getD 0) (inputs.offsetTo.getD 0) inOpts outcome) :
      Judged arith file inOpts outcome

theorem Tells.unique (tells : Tells arith opts inputs) (also : Tells arith opts others) : inputs = others := by
  obtain ⟨readings, read, perm⟩ := tells
  obtain ⟨same, reread, again⟩ := also
  have both : readings = same := by
    apply List.map_injective_iff.mpr (fun _ _ equal => Option.some.inj (Option.some.inj equal))
    exact read.symm.trans reread
  subst both
  have gathered := gather_readings inputs
  rw [gather_perm ((perm.symm.trans again).map some), gather_readings] at gathered
  exact (Option.some.inj gathered).symm

theorem Judged.answered (judged : Judged arith file inOpts outcome) (tells : Tells arith inOpts inputs)
    (given : inputs.entropy = some entropy) (low : arith.lt entropy (arith.ofInt 0) = false)
    (high : arith.lt (arith.ofInt 1) entropy = false) :
    Processed arith file entropy (inputs.offsetFrom.getD 0) (inputs.offsetTo.getD 0) inOpts outcome := by
  cases judged with
  | refused refused => exact absurd ⟨inputs, tells, by simp [given]⟩ refused
  | excessive told got beyond =>
    cases told.unique tells
    cases got.symm.trans given
    simp [low, high] at beyond
  | processed told got _ processed =>
    cases told.unique tells
    cases got.symm.trans given
    exact processed

theorem entries_all (inOpts : List Opt) : (List.range inOpts.length).map (inOpts[·]?) = inOpts.map some := by
  apply List.ext_getElem
  · simp
  · intro i inside _
    have present : i < inOpts.length := by simpa using inside
    simp [present]

theorem pluginProcessFile_judged (arith : Arithmetic) (file : FileAccess) (inOpts : List Opt)
    (defined : Defined arith inOpts) :
    ∃ outcome, pluginProcessFile arith file inOpts inOpts.length = some outcome ∧
      Judged arith file inOpts outcome := by
  have parses (inputs : Inputs arith) := parseOptions_tells_iff inOpts inputs defined
  obtain ⟨parsed, parse⟩ : ∃ parsed, parseOptions arith (inOpts.map some) (.unset arith) = some parsed :=
    parseOptions_some defined
  have refused (failed : ∀ inputs, parsed = some inputs → inputs.entropy = none) :
      Judged arith file inOpts ⟨-1, .einval, inOpts, []⟩ := by
    apply Judged.refused
    rintro ⟨inputs, tells, given⟩
    have same := parse.symm.trans ((parses inputs).mpr tells)
    exact given (failed inputs (Option.some.inj same))
  unfold pluginProcessFile
  split
  · rename_i empty
    cases List.length_eq_zero_iff.mp empty
    cases parse
    refine ⟨_, rfl, refused ?_⟩
    intro inputs same
    cases same
    rfl
  · rw [entries_all, parse]
    simp only [Option.bind_eq_bind, Option.bind_some]
    cases parsed with
    | none => exact ⟨_, rfl, refused (fun inputs same => by cases same)⟩
    | some inputs =>
      have tells := (parses inputs).mp parse
      dsimp only
      cases given : inputs.entropy with
      | none =>
        refine ⟨_, rfl, refused ?_⟩
        intro other same
        cases same
        exact given
      | some entropy =>
        dsimp only
        split
        · rename_i beyond
          exact ⟨_, rfl, .excessive tells given beyond⟩
        · rename_i within
          obtain ⟨outcome, ran, processed⟩ := processFile_processed arith file entropy (inputs.offsetFrom.getD 0)
            (inputs.offsetTo.getD 0) inOpts
          exact ⟨outcome, ran, .processed tells given (Bool.eq_false_iff.mpr within) processed⟩

theorem parseOptions_perm (defined : Defined arith opts) (perm : opts.Perm others) :
    parseOptions arith (opts.map some) (.unset arith) = parseOptions arith (others.map some) (.unset arith) := by
  have definedToo : Defined arith others := fun opt member => defined opt (perm.mem_iff.mpr member)
  obtain ⟨readings, read⟩ := defined.readings
  obtain ⟨rereadings, reread⟩ := definedToo.readings
  have both : readings.Perm rereadings := by
    apply (List.map_perm_map_iff (Option.some_injective _)).mp
    rw [← read, ← reread]
    exact perm.map _
  rw [parseOptions_gather opts readings read, parseOptions_gather others rereadings reread, gather_perm both]

theorem processFile_inOpts (arith : Arithmetic) (file : FileAccess) (entropy : arith.Double)
    (offsetFrom offsetTo : Nat) (inOpts others : List Opt) :
    processFile arith file entropy offsetFrom offsetTo others =
      (processFile arith file entropy offsetFrom offsetTo inOpts).map
        fun outcome => { outcome with inOpts := others } := by
  unfold processFile
  cases file.openErrno with
  | some errno => rfl
  | none =>
    cases file.fstatErrno with
    | some errno => rfl
    | none =>
      dsimp only
      generalize (if offsetTo = 0 ∨ offsetTo ≥ file.content.length then file.content.length - 1 else offsetTo) = last
      split_ifs
      · rfl
      · rfl
      · rfl
      · cases file.mmapErrno with
        | some errno => rfl
        | none => cases calculateEntropy arith file.content offsetFrom last <;> rfl

theorem pluginProcessFile_perm (arith : Arithmetic) (file : FileAccess) (defined : Defined arith inOpts)
    (perm : inOpts.Perm others) :
    pluginProcessFile arith file others others.length =
      (pluginProcessFile arith file inOpts inOpts.length).map fun outcome => { outcome with inOpts := others } := by
  unfold pluginProcessFile
  rw [entries_all, entries_all, ← parseOptions_perm defined perm, ← perm.length_eq]
  split
  · rfl
  · cases parseOptions arith (inOpts.map some) (.unset arith) with
    | none => rfl
    | some parsed =>
      cases parsed with
      | none => rfl
      | some inputs =>
        simp only [Option.bind_eq_bind, Option.bind_some]
        cases inputs.entropy with
        | none => rfl
        | some entropy =>
          dsimp only
          split_ifs
          · rfl
          · exact processFile_inOpts arith file entropy _ _ inOpts others

/-- What the plugin says about a file, for any options whose arguments can be
converted: it answers exactly if each option is given once, in whatever order,
with a numeral and an entropy between 0 and 1, and two bytes at least are left
of the file; then it compares the entropy of the bytes asked about, both ends
included, and reads nothing else. -/
theorem pluginProcessFile_answers (arith : Arithmetic) (file : FileAccess) (inOpts : List Opt)
    (defined : Defined arith inOpts) :
    ∃ outcome, pluginProcessFile arith file inOpts inOpts.length = some outcome ∧
      (0 ≤ outcome.ret ↔ ∃ inputs entropy, Tells arith inOpts inputs ∧ inputs.entropy = some entropy ∧
        arith.lt entropy (arith.ofInt 0) = false ∧ arith.lt (arith.ofInt 1) entropy = false ∧ file.Readable ∧
        Spans (inputs.offsetFrom.getD 0) (inputs.offsetTo.getD 0) file.content.length) ∧
      (∀ inputs entropy, Tells arith inOpts inputs → inputs.entropy = some entropy → 0 ≤ outcome.ret →
        outcome.ret = if arith.le entropy (entropyOf arith
          (asked (inputs.offsetFrom.getD 0) (inputs.offsetTo.getD 0) file.content)) then 1 else 0) ∧
      ∀ others, inOpts.Perm others →
        pluginProcessFile arith file others others.length = some { outcome with inOpts := others } := by
  obtain ⟨outcome, called, judged⟩ := pluginProcessFile_judged arith file inOpts defined
  have negative : ¬ (0 : Int) ≤ -1 := by decide
  refine ⟨outcome, called, ?_, ?_, ?_⟩
  · constructor
    · intro nonneg
      cases judged with
      | refused => exact absurd nonneg negative
      | excessive => exact absurd nonneg negative
      | processed tells given within processed =>
        rw [Bool.or_eq_false_iff] at within
        exact ⟨_, _, tells, given, within.1, within.2, processed.answers.1.mp nonneg⟩
    · rintro ⟨inputs, entropy, tells, given, low, high, usable⟩
      exact (judged.answered tells given low high).answers.1.mpr usable
  · intro inputs entropy tells given nonneg
    cases judged with
    | refused => exact absurd nonneg negative
    | excessive => exact absurd nonneg negative
    | processed told got _ processed =>
      cases told.unique tells
      cases got.symm.trans given
      exact processed.answers.2 nonneg
  · intro others perm
    rw [pluginProcessFile_perm arith file defined perm, called]
    rfl

/-- Exact arithmetic, with logarithms of powers of two and whole numerals. -/
def exactly : Arithmetic where
  Double := Rat
  ofInt := fun number => number
  toSizeT := fun value => if 0 ≤ value then some value.floor.toNat else none
  lt := fun one two => one < two
  le := fun one two => one ≤ two
  sub := fun one two => one - two
  mul := fun one two => one * two
  div := fun one two => one / two
  log2 := fun value => (Nat.log2 value.num.toNat : Int) - (Nat.log2 value.den : Int)
  strtod := fun text => ((strtoll text 10).1, (strtoll text 10).2)

def sampleOptions : List Opt :=
  [⟨optEntropy, 1, .heap 0 "0".toList, 0⟩, ⟨optOffsetFrom, 1, .heap 1 "0x1".toList, 0⟩]

def threeBytes : FileAccess := ⟨none, none, none, [7, 8, 9], by decide, fun _ => 0⟩

theorem pluginProcessFile_answers_three_bytes :
    ∃ outcome, pluginProcessFile exactly threeBytes sampleOptions 2 = some outcome ∧ 0 ≤ outcome.ret := by
  have tells : Tells exactly sampleOptions ⟨some (0 : Rat), some 1, none⟩ :=
    ⟨[.entropy (0 : Rat), .offsetFrom 1], rfl, .refl _⟩
  obtain ⟨outcome, called, answers, _⟩ := pluginProcessFile_answers exactly threeBytes sampleOptions tells.defined
  refine ⟨outcome, called, answers.mpr ⟨_, (0 : Rat), tells, rfl, ?_, ?_, ⟨rfl, rfl, rfl⟩, ?_⟩⟩
  · rfl
  · rfl
  · exact ⟨by decide, .inl rfl⟩

end Range

end PluginSearch.Entropy
