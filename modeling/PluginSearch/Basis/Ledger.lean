import Mathlib.Data.List.Basic

/-! Ledgers of resources that are acquired and released. A ledger is replayed
over the resources held before it, and stretches of a ledger that concern
different resources can be accounted for one by one. -/

namespace PluginSearch.Ledger

universe u

inductive Entry (Resource : Type u) where
  | acquire (resource : Resource)
  | release (resource : Resource)
  deriving DecidableEq, Repr

variable {Resource : Type u} [DecidableEq Resource]

/-- What is held after a ledger, from what was held before it. There is no
answer if something held is acquired again, or something not held is released. -/
def replay : List (Entry Resource) → List Resource → Option (List Resource)
  | [], held => some held
  | .acquire resource :: rest, held => if resource ∈ held then none else replay rest (resource :: held)
  | .release resource :: rest, held => if resource ∈ held then replay rest (held.erase resource) else none

/-- Every resource acquired in the ledger is released in it, exactly once. -/
def Settled (entries : List (Entry Resource)) : Prop := replay entries [] = some []

instance (entries : List (Entry Resource)) : Decidable (Settled entries) := inferInstanceAs (Decidable (_ = _))

theorem replay_append (first second : List (Entry Resource)) (held : List Resource) :
    replay (first ++ second) held = (replay first held).bind (replay second) := by
  induction first generalizing held with
  | nil => rfl
  | cons entry rest ih =>
    cases entry with
    | acquire resource =>
      simp only [List.cons_append, replay]
      split
      · rfl
      · exact ih _
    | release resource =>
      simp only [List.cons_append, replay]
      split
      · exact ih _
      · rfl

/-- A ledger about the resources of a scope: beside any others that are held,
it ends with exactly the leaked ones of the scope. -/
structure Leaves (scope : Resource → Prop) (entries : List (Entry Resource)) (leaked : List Resource) : Prop where
  own : ∀ resource ∈ leaked, scope resource
  runs : ∀ held, (∀ resource ∈ held, ¬ scope resource) → replay entries held = some (leaked ++ held)

variable {scope wider : Resource → Prop} {entries : List (Entry Resource)} {leaked : List Resource}

theorem Leaves.nil : Leaves scope [] [] := ⟨by simp, fun _ _ => rfl⟩

theorem Leaves.widen (leaves : Leaves scope entries leaked) (inside : ∀ resource, scope resource → wider resource) :
    Leaves wider entries leaked :=
  ⟨fun resource member => inside resource (leaves.own resource member),
    fun held apart => leaves.runs held fun resource member own => apart resource member (inside resource own)⟩

theorem Leaves.append {one two : Resource → Prop} {first second : List (Entry Resource)}
    {leakedFirst leakedSecond : List Resource} (before : Leaves one first leakedFirst)
    (after : Leaves two second leakedSecond) (apart : ∀ resource, one resource → ¬ two resource) :
    Leaves (fun resource => one resource ∨ two resource) (first ++ second) (leakedSecond ++ leakedFirst) := by
  refine ⟨?_, ?_⟩
  · intro resource member
    rcases List.mem_append.mp member with late | early
    · exact .inr (after.own resource late)
    · exact .inl (before.own resource early)
  · intro held outside
    rw [replay_append, before.runs held (fun resource member own => outside resource member (.inl own)),
      Option.bind_some, after.runs, List.append_assoc]
    intro resource member own
    rcases List.mem_append.mp member with early | old
    · exact apart resource (before.own resource early) own
    · exact outside resource old (.inr own)

/-- A resource that is acquired before a ledger and released behind it. -/
theorem Leaves.bracket {resource : Resource} (leaves : Leaves scope entries leaked) (outside : ¬ scope resource) :
    Leaves (fun other => other = resource ∨ scope other) (.acquire resource :: (entries ++ [.release resource]))
      leaked := by
  refine ⟨fun other member => .inr (leaves.own other member), ?_⟩
  intro held apart
  have unheld : resource ∉ held := fun member => apart resource member (.inl rfl)
  have unleaked : resource ∉ leaked := fun member => outside (leaves.own resource member)
  have inner : replay entries (resource :: held) = some (leaked ++ resource :: held) := by
    apply leaves.runs
    intro other member own
    rcases List.mem_cons.mp member with rfl | old
    · exact outside own
    · exact apart other old (.inr own)
  simp [replay, unheld, replay_append, inner, List.erase_append_right _ unleaked]

theorem Leaves.forget {resource : Resource} (leaves : Leaves scope entries leaked) (outside : ¬ scope resource) :
    Leaves (fun other => other = resource ∨ scope other) (.acquire resource :: entries) (leaked ++ [resource]) := by
  refine ⟨?_, ?_⟩
  · intro other member
    rcases List.mem_append.mp member with early | last
    · exact .inr (leaves.own other early)
    · exact .inl (List.mem_singleton.mp last)
  · intro held apart
    have unheld : resource ∉ held := fun member => apart resource member (.inl rfl)
    have inner : replay entries (resource :: held) = some (leaked ++ resource :: held) := by
      apply leaves.runs
      intro other member own
      rcases List.mem_cons.mp member with rfl | old
      · exact outside own
      · exact apart other old (.inr own)
    simp [replay, unheld, inner]

theorem Leaves.restores_iff (leaves : Leaves scope entries leaked) {held : List Resource}
    (apart : ∀ resource ∈ held, ¬ scope resource) : replay entries held = some held ↔ leaked = [] := by
  rw [leaves.runs held apart, Option.some.injEq, List.append_left_eq_self]

theorem Leaves.settled_iff (leaves : Leaves scope entries leaked) : Settled entries ↔ leaked = [] :=
  leaves.restores_iff (by simp)

end PluginSearch.Ledger
