/-! While loops run with a turn budget. A loop is one turn function; a variant
shows that some budget suffices, and an invariant says what the result is. -/

namespace PluginSearch.Loop

universe u v
variable {State : Type u} {Result : Type v}

/-- One turn of a loop: go on from the next state, or leave with a result. -/
inductive Turn (State : Type u) (Result : Type v) where
  | again (next : State)
  | leave (result : Result)

/-- Run a loop for at most `fuel` turns; `none` means the budget ran out. -/
def run (turn : State → Turn State Result) : Nat → State → Option Result
  | 0, _ => none
  | fuel + 1, state => match turn state with
    | .again next => run turn fuel next
    | .leave result => some result

variable {turn : State → Turn State Result} {valid : State → Prop} {measure : State → Nat}

theorem run_leave (left : turn state = .leave result) (fuel : Nat) :
    run turn (fuel + 1) state = some result := by
  simp [run, left]

theorem run_again (next : turn state = .again later) (fuel : Nat) :
    run turn (fuel + 1) state = run turn fuel later := by
  simp [run, next]

theorem run_stable (reached : run turn fuel state = some result) (more : fuel ≤ larger) :
    run turn larger state = some result := by
  induction fuel generalizing state larger with
  | zero => simp [run] at reached
  | succ fuel ih =>
    obtain ⟨spare, rfl⟩ := Nat.exists_eq_add_of_le' more
    rw [Nat.add_succ]
    cases taken : turn state with
    | leave left =>
      rw [run_leave taken] at reached ⊢
      exact reached
    | again next =>
      rw [run_again taken] at reached ⊢
      exact ih reached (Nat.le_add_left fuel spare)

/-- With enough budget the loop ends with this result. -/
def Ends (turn : State → Turn State Result) (state : State) (result : Result) : Prop :=
  ∃ fuel, run turn fuel state = some result

theorem Ends.unique (ends : Ends turn state result) (also : Ends turn state other) : result = other := by
  obtain ⟨fuel, reached⟩ := ends
  obtain ⟨more, again⟩ := also
  have early := run_stable reached (Nat.le_add_right fuel more)
  have late := run_stable again (Nat.le_add_left more fuel)
  exact Option.some.inj (early.symm.trans late)

theorem ends_leave (left : turn state = .leave result) : Ends turn state result := ⟨1, run_leave left 0⟩

theorem ends_again (next : turn state = .again later) : Ends turn state result ↔ Ends turn later result := by
  constructor
  · intro ends
    obtain ⟨fuel, reached⟩ := ends
    cases fuel with
    | zero => simp [run] at reached
    | succ fuel => exact ⟨fuel, (run_again next fuel).symm.trans reached⟩
  · intro ends
    obtain ⟨fuel, reached⟩ := ends
    exact ⟨fuel + 1, (run_again next fuel).trans reached⟩

/-- Valid states lead to valid states, each nearer to the end. -/
structure Variant (turn : State → Turn State Result) (valid : State → Prop)
    (measure : State → Nat) : Prop where
  keeps : ∀ state next, valid state → turn state = .again next → valid next
  decreases : ∀ state next, valid state → turn state = .again next → measure next < measure state

/-- Total correctness: a budget above the variant reaches a result, and the
result meets whatever every leaving turn establishes. -/
theorem Variant.total (variant : Variant turn valid measure) (post : Result → Prop)
    (establishes : ∀ state result, valid state → turn state = .leave result → post result)
    (start : valid state) (enough : measure state < fuel) :
    ∃ result, run turn fuel state = some result ∧ post result := by
  induction fuel generalizing state with
  | zero => omega
  | succ fuel ih =>
    cases taken : turn state with
    | leave result => exact ⟨result, run_leave taken fuel, establishes state result start taken⟩
    | again next =>
      have nearer := variant.decreases state next start taken
      obtain ⟨result, reached, holds⟩ := ih (variant.keeps state next start taken) (by omega)
      exact ⟨result, (run_again taken fuel).trans reached, holds⟩

inductive Passes (turn : State → Turn State Result) (start : State) : State → Prop where
  | start : Passes turn start start
  | again (before : Passes turn start state) (taken : turn state = .again next) : Passes turn start next

theorem Variant.passes (variant : Variant turn valid measure) (begun : valid start)
    (passes : Passes turn start state) : valid state := by
  induction passes with
  | start => exact begun
  | again before taken ih => exact variant.keeps _ _ ih taken

/-- A loop that counts along a list meets its head at the index it starts with. -/
theorem forall_place_cons (holds : Nat → State → Prop) (i : Nat) (first : State) (rest : List State) :
    (∀ k item, (first :: rest)[k]? = some item → holds (i + k) item) ↔
      holds i first ∧ ∀ k item, rest[k]? = some item → holds (i + 1 + k) item := by
  constructor
  · intro all
    refine ⟨all 0 first rfl, ?_⟩
    intro k item found
    have place : i + (k + 1) = i + 1 + k := by omega
    exact place ▸ all (k + 1) item found
  · rintro ⟨head, tail⟩ k item found
    cases k with
    | zero =>
      cases found
      exact head
    | succ k =>
      have place : i + 1 + k = i + (k + 1) := by omega
      exact place ▸ tail k item found

/-- The first item that goes wrong is the head, or comes behind a head that is fine. -/
theorem exists_first_cons (wrong fine : Nat → State → Prop) (i : Nat) (first : State) (rest : List State) :
    (∃ k item, (first :: rest)[k]? = some item ∧ wrong (i + k) item ∧
        ∀ j earlier, j < k → (first :: rest)[j]? = some earlier → fine (i + j) earlier) ↔
      wrong i first ∨ fine i first ∧ ∃ k item, rest[k]? = some item ∧ wrong (i + 1 + k) item ∧
        ∀ j earlier, j < k → rest[j]? = some earlier → fine (i + 1 + j) earlier := by
  have place (k : Nat) : i + (k + 1) = i + 1 + k := by omega
  constructor
  · rintro ⟨k, item, found, here, before⟩
    cases k with
    | zero =>
      cases found
      exact .inl here
    | succ k =>
      refine .inr ⟨before 0 first (Nat.succ_pos k) rfl, k, item, found, place k ▸ here, ?_⟩
      intro j earlier less present
      exact place j ▸ before (j + 1) earlier (Nat.succ_lt_succ less) present
  · rintro (here | ⟨head, k, item, found, here, before⟩)
    · exact ⟨0, first, rfl, here, fun j _ less => absurd less (Nat.not_lt_zero j)⟩
    · refine ⟨k + 1, item, found, place k ▸ here, ?_⟩
      intro j earlier less present
      cases j with
      | zero =>
        cases present
        exact head
      | succ j => exact place j ▸ before j earlier (Nat.lt_of_succ_lt_succ less) present

theorem forall_place_map (holds : Nat → Result → Prop) (view : State → Result) (items : List State) :
    (∀ k shown, (items.map view)[k]? = some shown → holds k shown) ↔
      ∀ k item, items[k]? = some item → holds k (view item) := by
  constructor
  · intro all k item found
    exact all k (view item) (by simp [found])
  · intro all k shown found
    rw [List.getElem?_map, Option.map_eq_some_iff] at found
    obtain ⟨item, present, rfl⟩ := found
    exact all k item present

end PluginSearch.Loop
