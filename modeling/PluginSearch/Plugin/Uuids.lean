import PluginSearch.Api
import PluginSearch.Basis.Ledger
import PluginSearch.Basis.Loop

/-! The `libavg` of `lab1`: look for a UUID in a file. It maps the file twice,
copies letters and digits to a buffer of 256 bytes, and compares a pointer. -/

namespace PluginSearch.Uuids

open Ledger Loop

def optUuids : CString := "uuids".toList

def gPoArr : List Opt := [⟨optUuids, 0, .null, 0⟩]

/-- What a call holds: the descriptor and two mappings of the file. -/
inductive Held where
  | fd
  | ptr
  | f
  deriving DecidableEq, Repr

structure Answer where
  ret : Int
  errno : Errno
  ledger : List (Entry Held)
  deriving DecidableEq, Repr

/-- What `get_uuid` points to: nothing, the buffer, whose bytes are unset at
first, or a literal. -/
inductive Text where
  | null
  | buffer (bytes : List (Option UInt8))
  | literal (text : CString)
  deriving DecidableEq, Repr

def intMax : Nat := 2 ^ 31 - 1

/-- A byte of the mapping; behind the file it holds zeros up to the end of its page. -/
def byteAt (f : List UInt8) (i : Nat) : UInt8 := f.getD i 0

def isKept (c : UInt8) : Bool := (48 ≤ c && c ≤ 57) || (97 ≤ c && c ≤ 122)

/-- One turn of the copying loop. It is undefined to write behind the buffer and
to count beyond an `int`. -/
def copyTurn (f : List UInt8) (state : Nat × List (Option UInt8)) :
    Turn (Nat × List (Option UInt8)) (Option (List (Option UInt8))) :=
  if state.1 < f.length then
    let c := byteAt f state.1
    if isKept c ∧ state.2.length ≤ state.1 then .leave none
    else if state.1 = intMax then .leave none
    else .again (state.1 + 1, if isKept c then state.2.set state.1 (some c) else state.2)
  else .leave (some state.2)

def Marked (f : List UInt8) : Prop := byteAt f 8 = 45 ∧ byteAt f 13 = 45 ∧ byteAt f 18 = 45 ∧ byteAt f 23 = 45

instance (f : List UInt8) : Decidable (Marked f) := inferInstanceAs (Decidable (_ ∧ _ ∧ _ ∧ _))

def getUuid (f : List UInt8) : Option Text :=
  if Marked f then (run (copyTurn f) (f.length + 1) (0, List.replicate 256 none)).join.map .buffer
  else some (.literal " UUIDS not exist".toList)

/-- `plugin_process_file`; `remapped` tells whether the file can be mapped once
more. The failure of that is not looked at, and the mapping is read at once. -/
def pluginProcessFile (file : FileAccess) (remapped : Bool) (inOptsLen : Nat) : Option Answer :=
  if inOptsLen = 0 then some ⟨-1, .einval, []⟩
  else match file.openErrno with
    | some errno => some ⟨-1, errno, []⟩
    | none => match file.fstatErrno with
      | some errno => some ⟨-1, errno, [.acquire .fd, .release .fd]⟩
      | none =>
        if file.content.length = 0 then some ⟨-1, .erange, [.acquire .fd, .release .fd]⟩
        else match file.mmapErrno with
          | some errno => some ⟨-1, errno, [.acquire .fd, .release .fd]⟩
          | none =>
            if !remapped then none
            else do
              let text ← getUuid file.content
              let uuids : Int := 0
              let check : Int := if text ≠ .null then 1 else 0
              return ⟨if check ≥ uuids then 1 else 0, .zero,
                [.acquire .fd, .acquire .ptr, .acquire .f, .release .fd, .release .ptr]⟩

section Copy

variable {f : List UInt8}

/-- The copying loop stays within its buffer and its counter. -/
def Contained (f : List UInt8) : Prop :=
  f.length ≤ intMax ∧ ∀ i, i < f.length → isKept (byteAt f i) = true → i < 256

def copied (f : List UInt8) (i : Nat) : List (Option UInt8) :=
  (List.range 256).map fun k => if k < i ∧ isKept (byteAt f k) = true then some (byteAt f k) else none

theorem copied_length (f : List UInt8) (i : Nat) : (copied f i).length = 256 := by simp [copied]

theorem copied_succ (f : List UInt8) (i : Nat) :
    copied f (i + 1) = if isKept (byteAt f i) then (copied f i).set i (some (byteAt f i)) else copied f i := by
  by_cases kept : isKept (byteAt f i) = true
  · rw [if_pos kept]
    apply List.ext_getElem
    · simp [copied]
    · intro k inside _
      rw [List.getElem_set]
      by_cases here : i = k
      · cases here
        simp [copied, kept]
      · have same : k ≤ i ↔ k < i := by omega
        simp [copied, here, same]
  · rw [if_neg kept]
    apply List.map_congr_left
    intro k _
    by_cases here : i = k
    · cases here
      simp [kept]
    · have same : k < i + 1 ↔ k < i := by omega
      simp [same]

/-- What holds before each turn: so far nothing was kept behind the buffer. -/
structure Copying (f : List UInt8) (state : Nat × List (Option UInt8)) : Prop where
  inside : state.1 ≤ f.length
  counted : state.1 ≤ intMax
  kept : ∀ k, k < state.1 → isKept (byteAt f k) = true → k < 256
  buffer : state.2 = copied f state.1

theorem Copying.next {state next : Nat × List (Option UInt8)} (copying : Copying f state)
    (taken : copyTurn f state = .again next) : Copying f next ∧ next.1 = state.1 + 1 ∧ state.1 < f.length := by
  unfold copyTurn at taken
  split at taken
  · rename_i inside
    dsimp only at taken
    split at taken
    · cases taken
    · rename_i fits
      split at taken
      · cases taken
      · rename_i counts
        cases taken
        refine ⟨⟨inside, ?_, ?_, ?_⟩, rfl, inside⟩
        · exact lt_of_le_of_ne copying.counted counts
        · intro k before kept
          rcases Nat.lt_succ_iff_lt_or_eq.mp before with earlier | rfl
          · exact copying.kept k earlier kept
          · rw [copying.buffer, copied_length] at fits
            exact not_le.mp fun behind => fits ⟨kept, behind⟩
        · rw [copied_succ, copying.buffer]
  · cases taken

theorem copyTurn_variant (f : List UInt8) : Variant (copyTurn f) (Copying f) (fun state => f.length - state.1) := by
  refine ⟨?_, ?_⟩
  · intro state next copying taken
    exact (copying.next taken).1
  · intro state next copying taken
    obtain ⟨_, later, inside⟩ := copying.next taken
    omega

theorem copy_ends (f : List UInt8) (fuel : Nat) (enough : f.length < fuel) :
    ∃ result, run (copyTurn f) fuel (0, List.replicate 256 none) = some result ∧
      (Contained f → result = some (copied f f.length)) ∧ (¬ Contained f → result = none) := by
  have start : Copying f (0, List.replicate 256 none) := by
    refine ⟨Nat.zero_le _, Nat.zero_le _, ?_, ?_⟩
    · intro k before
      cases before
    · simp [copied, List.map_const']
  refine (copyTurn_variant f).total
    (fun result => (Contained f → result = some (copied f f.length)) ∧ (¬ Contained f → result = none)) ?_ start
    (by simpa using enough)
  intro state result copying left
  unfold copyTurn at left
  split at left
  · rename_i inside
    dsimp only at left
    split at left
    · rename_i behind
      cases left
      rw [copying.buffer, copied_length] at behind
      exact ⟨fun contained => absurd (contained.2 _ inside behind.1) (not_lt.mpr behind.2), fun _ => rfl⟩
    · split at left
      · rename_i most
        cases left
        exact ⟨fun contained => absurd contained.1 (not_le.mpr (most ▸ inside)), fun _ => rfl⟩
      · cases left
  · rename_i ended
    cases left
    have last : state.1 = f.length := le_antisymm copying.inside (not_lt.mp ended)
    have contained : Contained f := ⟨last ▸ copying.counted, last ▸ copying.kept⟩
    refine ⟨fun _ => ?_, fun escapes => absurd contained escapes⟩
    rw [copying.buffer, last]

/-- Looking for a UUID is defined exactly if marked files fit the buffer, and
never yields a null pointer. -/
theorem getUuid_cases (f : List UInt8) :
    (¬ (Marked f ∧ ¬ Contained f) → ∃ text, getUuid f = some text ∧ text ≠ .null) ∧
    (Marked f ∧ ¬ Contained f → getUuid f = none) := by
  unfold getUuid
  obtain ⟨result, ran, kept, escapes⟩ := copy_ends f (f.length + 1) (Nat.lt_succ_self _)
  rw [ran]
  refine ⟨?_, ?_⟩
  · intro safe
    by_cases marked : Marked f
    · have contained : Contained f := not_not.mp fun escapes => safe ⟨marked, escapes⟩
      rw [if_pos marked, kept contained]
      exact ⟨.buffer (copied f f.length), rfl, by simp⟩
    · rw [if_neg marked]
      exact ⟨_, rfl, by simp⟩
  · intro unsafeFile
    rw [if_pos unsafeFile.1, escapes unsafeFile.2]
    rfl

end Copy

section Call

def Searched (file : FileAccess) (inOptsLen : Nat) : Prop := inOptsLen ≠ 0 ∧ file.Readable ∧ file.content ≠ []

instance (file : FileAccess) (inOptsLen : Nat) : Decidable (Searched file inOptsLen) :=
  inferInstanceAs (Decidable (_ ∧ _ ∧ _))

/-- The ways in which a call returns. -/
inductive Processed (file : FileAccess) (remapped : Bool) (inOptsLen : Nat) : Option Answer → Prop where
  | refused (apart : ¬ Searched file inOptsLen) (errno : Errno) :
    Processed file remapped inOptsLen (some ⟨-1, errno, []⟩)
  | closed (apart : ¬ Searched file inOptsLen) (errno : Errno) :
      Processed file remapped inOptsLen (some ⟨-1, errno, [.acquire .fd, .release .fd]⟩)
  | unmapped (searched : Searched file inOptsLen) (fails : remapped = false) : Processed file remapped inOptsLen none
  | outside (searched : Searched file inOptsLen) (marked : Marked file.content) (escapes : ¬ Contained file.content) :
      Processed file remapped inOptsLen none
  | found (searched : Searched file inOptsLen) (maps : remapped = true)
      (safe : ¬ (Marked file.content ∧ ¬ Contained file.content)) :
      Processed file remapped inOptsLen
        (some ⟨1, .zero, [.acquire .fd, .acquire .ptr, .acquire .f, .release .fd, .release .ptr]⟩)

theorem pluginProcessFile_processed (file : FileAccess) (remapped : Bool) (inOptsLen : Nat) :
    Processed file remapped inOptsLen (pluginProcessFile file remapped inOptsLen) := by
  unfold pluginProcessFile
  split
  · rename_i unasked
    exact .refused (fun searched => searched.1 unasked) _
  · rename_i given
    split
    · rename_i errno opens
      exact .refused (fun searched => by simp [searched.2.1.1] at opens) _
    · rename_i opens
      split
      · rename_i errno measures
        exact .closed (fun searched => by simp [searched.2.1.2.1] at measures) _
      · rename_i measures
        split
        · rename_i empty
          exact .closed (fun searched => searched.2.2 (List.length_eq_zero_iff.mp empty)) _
        · rename_i filled
          split
          · rename_i errno maps
            exact .closed (fun searched => by simp [searched.2.1.2.2] at maps) _
          · rename_i maps
            have searched : Searched file inOptsLen :=
              ⟨given, ⟨opens, measures, maps⟩, fun empty => filled (List.length_eq_zero_iff.mpr empty)⟩
            cases remapped with
            | false => exact .unmapped searched rfl
            | true =>
              obtain ⟨defined, undefined⟩ := getUuid_cases file.content
              by_cases outside : Marked file.content ∧ ¬ Contained file.content
              · rw [undefined outside]
                exact .outside searched outside.1 outside.2
              · obtain ⟨text, got, nonnull⟩ := defined outside
                rw [got]
                simp only [Bool.not_true, Bool.false_eq_true, ↓reduceIte, Option.bind_eq_bind, Option.bind_some, ne_eq,
                  nonnull, not_false_eq_true]
                exact .found searched rfl outside

/-- A file that no call goes astray on. -/
def Safe (file : FileAccess) (remapped : Bool) : Prop :=
  remapped = true ∧ ¬ (Marked file.content ∧ ¬ Contained file.content)

theorem pluginProcessFile_safe (file : FileAccess) {remapped : Bool} (safe : Safe file remapped) (inOptsLen : Nat) :
    ∃ answer, pluginProcessFile file remapped inOptsLen = some answer ∧
      answer.ret = (if Searched file inOptsLen then 1 else -1) ∧
      replay answer.ledger [] = some (if Searched file inOptsLen then [.f] else []) := by
  have processed := pluginProcessFile_processed file remapped inOptsLen
  generalize pluginProcessFile file remapped inOptsLen = outcome at processed
  cases processed with
  | refused apart errno => exact ⟨_, rfl, by rw [if_neg apart], by rw [if_neg apart]; rfl⟩
  | closed apart errno => exact ⟨_, rfl, by rw [if_neg apart], by rw [if_neg apart]; rfl⟩
  | unmapped searched fails => cases safe.1.symm.trans fails
  | outside searched marked escapes => exact absurd ⟨marked, escapes⟩ safe.2
  | found searched maps fits => exact ⟨_, rfl, by rw [if_pos searched], by rw [if_pos searched]; rfl⟩

/-- For every file: a call is undefined exactly if the file cannot be mapped once
more or has four dashes in their places and is not contained; every other call
that gets to look into a file answers 1, whatever is in it, and leaves the second
mapping behind; all others fail and give back what they took. -/
theorem pluginProcessFile_ignores_bytes (file : FileAccess) (remapped : Bool) (inOptsLen : Nat) :
    (pluginProcessFile file remapped inOptsLen = none ↔ Searched file inOptsLen ∧
      (remapped = false ∨ Marked file.content ∧ ¬ Contained file.content)) ∧
    ∀ answer, pluginProcessFile file remapped inOptsLen = some answer →
      (Searched file inOptsLen → answer.ret = 1 ∧ answer.errno = .zero ∧ replay answer.ledger [] = some [.f]) ∧
      (¬ Searched file inOptsLen → answer.ret = -1 ∧ Settled answer.ledger) := by
  have processed := pluginProcessFile_processed file remapped inOptsLen
  generalize pluginProcessFile file remapped inOptsLen = outcome at processed
  cases processed with
  | refused apart errno =>
    refine ⟨iff_of_false (Option.some_ne_none _) (fun searched => apart searched.1), ?_⟩
    intro answer same
    cases same
    exact ⟨fun searched => absurd searched apart, fun _ => ⟨rfl, rfl⟩⟩
  | closed apart errno =>
    refine ⟨iff_of_false (Option.some_ne_none _) (fun searched => apart searched.1), ?_⟩
    intro answer same
    cases same
    exact ⟨fun searched => absurd searched apart, fun _ => ⟨rfl, rfl⟩⟩
  | unmapped searched fails =>
    refine ⟨iff_of_true rfl ⟨searched, .inl fails⟩, ?_⟩
    intro answer same
    cases same
  | outside searched marked escapes =>
    refine ⟨iff_of_true rfl ⟨searched, .inr ⟨marked, escapes⟩⟩, ?_⟩
    intro answer same
    cases same
  | found searched maps safe =>
    refine ⟨iff_of_false (Option.some_ne_none _) ?_, ?_⟩
    · rintro ⟨_, fails | outside⟩
      · cases maps.symm.trans fails
      · exact absurd outside safe
    · intro answer same
      cases same
      exact ⟨fun _ => ⟨rfl, rfl, rfl⟩, fun apart => absurd searched apart⟩

def longFile : FileAccess where
  openErrno := none
  fstatErrno := none
  mmapErrno := none
  content := List.replicate 24 45 ++ List.replicate 300 97
  sizeFits := by
    rw [List.length_append, List.length_replicate, List.length_replicate]
    decide
  beyond := fun _ => 0

def oneDash : FileAccess := { longFile with content := [45], sizeFits := by decide }

theorem pluginProcessFile_ignores_bytes_dashes :
    pluginProcessFile longFile true 1 = none ∧
      ∃ answer, pluginProcessFile oneDash true 1 = some answer ∧ answer.ret = 1 ∧
        replay answer.ledger [] = some [.f] := by
  have escapes : ¬ Contained longFile.content := by
    intro contained
    have kept := contained.2 256 (by decide +kernel) (by decide +kernel)
    exact absurd kept (lt_irrefl 256)
  have marked : Marked longFile.content := by decide +kernel
  obtain ⟨undefined, _⟩ := pluginProcessFile_ignores_bytes longFile true 1
  obtain ⟨_, answers⟩ := pluginProcessFile_ignores_bytes oneDash true 1
  obtain ⟨looked, _⟩ := answers _ rfl
  obtain ⟨found, _, left⟩ := looked ⟨by decide, ⟨rfl, rfl, rfl⟩, by decide⟩
  exact ⟨undefined.mpr ⟨⟨by decide, ⟨rfl, rfl, rfl⟩, by decide⟩, .inr ⟨marked, escapes⟩⟩, _, rfl, found, left⟩

end Call

end PluginSearch.Uuids
