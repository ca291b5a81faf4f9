namespace PluginSearch

universe u

/-- A computation with its result, if there is one, and its log. -/
structure Logged (Entry Result : Type u) where
  result : Option Result
  log : List Entry

namespace Logged

variable {Entry Result Other : Type u}

instance : Monad (Logged Entry) where
  pure result := ⟨some result, []⟩
  bind first next := match first.result with
    | none => ⟨none, first.log⟩
    | some value => ⟨(next value).result, first.log ++ (next value).log⟩

def silent (result : Option Result) : Logged Entry Result := ⟨result, []⟩

def note (entry : Entry) : Logged Entry PUnit := ⟨some ⟨⟩, [entry]⟩

@[simp] theorem result_note (entry : Entry) : (note entry).result = some ⟨⟩ := rfl

@[simp] theorem result_silent (result : Option Result) : (silent result : Logged Entry Result).result = result := rfl

@[simp] theorem result_pure (value : Result) : (pure value : Logged Entry Result).result = some value := rfl

@[simp] theorem result_bind (first : Logged Entry Result) (next : Result → Logged Entry Other) :
    (first >>= next).result = first.result.bind (fun value => (next value).result) := by
  obtain ⟨result, log⟩ := first
  cases result <;> rfl

def All (property : Entry → Prop) (computation : Logged Entry Result) : Prop :=
  ∀ entry ∈ computation.log, property entry

variable {property : Entry → Prop}

theorem all_silent (result : Option Result) : All property (silent result) := by simp [All, silent]

theorem all_pure (value : Result) : All property (pure value) := all_silent (some value)

theorem all_note {entry : Entry} (holds : property entry) : All property (note entry) := by
  simpa [All, note] using holds

/-- The entries of a sequence are those of its parts, the second of which is
reached only with a result of the first. -/
theorem All.bind {first : Logged Entry Result} {next : Result → Logged Entry Other} (here : All property first)
    (there : ∀ value, first.result = some value → All property (next value)) : All property (first >>= next) := by
  obtain ⟨result, log⟩ := first
  cases result with
  | none => exact here
  | some value =>
    intro entry member
    rcases List.mem_append.mp member with early | late
    · exact here entry early
    · exact there value rfl entry late

end Logged

end PluginSearch
