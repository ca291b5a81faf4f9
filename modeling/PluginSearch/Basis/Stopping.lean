namespace PluginSearch.Stopping

universe u v

variable {Stop : Type u} {Value Result : Type v}

@[simp] theorem pure_eq_ok (value : Value) : (pure value : Except Stop Value) = .ok value := rfl

@[simp] theorem ok_bind (value : Value) (next : Value → Except Stop Result) :
    (Except.ok value >>= next) = next value := rfl

@[simp] theorem error_bind (stop : Stop) (next : Value → Except Stop Result) :
    (Except.error stop >>= next) = .error stop := rfl

theorem bind_eq_ok_iff {first : Except Stop Value} {next : Value → Except Stop Result} :
    (first >>= next) = .ok result ↔ ∃ value, first = .ok value ∧ next value = .ok result := by
  cases first with
  | error stop => exact iff_of_false (fun same => nomatch same) (fun found => nomatch found.choose_spec.1)
  | ok value =>
    constructor
    · exact fun same => ⟨value, rfl, same⟩
    · rintro ⟨_, done, same⟩
      cases done
      exact same

theorem bind_congr {first : Except Stop Value} {next other : Value → Except Stop Result}
    (agree : ∀ value, first = .ok value → next value = other value) : (first >>= next) = (first >>= other) := by
  cases first with
  | error stop => rfl
  | ok value => exact agree value rfl

/-- What holds of a computation however it ends. -/
def Ends (stops : Stop → Prop) (finishes : Value → Prop) : Except Stop Value → Prop
  | .error stop => stops stop
  | .ok value => finishes value

theorem Ends.bind {stops : Stop → Prop} {reaches : Value → Prop} {finishes : Result → Prop}
    {first : Except Stop Value} {next : Value → Except Stop Result} (here : Ends stops reaches first)
    (there : ∀ value, first = .ok value → reaches value → Ends stops finishes (next value)) :
    Ends stops finishes (first >>= next) := by
  cases first with
  | error stop => exact here
  | ok value => exact there value rfl here

/-- Two computations stop both, or finish both, in related ways. -/
inductive Both (stops : Stop → Stop → Prop) (finishes : Value → Value → Prop) :
    Except Stop Value → Except Stop Value → Prop where
  | error (stopped : stops one two) : Both stops finishes (.error one) (.error two)
  | ok (finished : finishes one two) : Both stops finishes (.ok one) (.ok two)

theorem Both.bind {stops : Stop → Stop → Prop} {reaches : Value → Value → Prop} {finishes : Result → Result → Prop}
    {first second : Except Stop Value} {next later : Value → Except Stop Result}
    (here : Both stops reaches first second)
    (there : ∀ one two, reaches one two → Both stops finishes (next one) (later two)) :
    Both stops finishes (first >>= next) (second >>= later) := by
  cases here with
  | error stopped => exact .error stopped
  | ok reached => exact there _ _ reached

end PluginSearch.Stopping
