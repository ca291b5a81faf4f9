import Mathlib.Data.List.Perm.Basic

/-! Finite directory trees over arbitrary names and paths, and the depth-first
scan that gives up the rest of a listing at the first item it cannot judge. -/

namespace PluginSearch

universe u v

theorem append_eq_iff_of_sublist {Item : Type u} {first second one two : List Item}
    (left : first.Sublist one) (right : second.Sublist two) :
    first ++ second = one ++ two ↔ first = one ∧ second = two := by
  constructor
  · intro same
    have lengths := congrArg List.length same
    have leftBound := left.length_le
    have rightBound := right.length_le
    simp only [List.length_append] at lengths
    exact ⟨left.eq_of_length (by omega), right.eq_of_length (by omega)⟩
  · intro whole
    obtain ⟨rfl, rfl⟩ := whole
    rfl

/-- The entries of one directory in listing order. A folder carries its own
entries; a locked folder cannot be listed, a skipped entry is never followed. -/
inductive Forest (Name : Type u) where
  | nil
  | file (name : Name) (rest : Forest Name)
  | folder (name : Name) (inner rest : Forest Name)
  | locked (name : Name) (rest : Forest Name)
  | skipped (name : Name) (rest : Forest Name)
  deriving DecidableEq, Repr

namespace Forest

variable {Name : Type u} {Path : Type v}

inductive Entry (Name : Type u) where
  | file (name : Name)
  | folder (name : Name) (inner : Forest Name)
  | locked (name : Name)
  | skipped (name : Name)

def cons : Entry Name → Forest Name → Forest Name
  | .file name, rest => .file name rest
  | .folder name inner, rest => .folder name inner rest
  | .locked name, rest => .locked name rest
  | .skipped name, rest => .skipped name rest

/-- Levels of folders below this listing, those that cannot be listed included. -/
def depth : Forest Name → Nat
  | .nil => 0
  | .file _ rest => depth rest
  | .folder _ inner rest => max (depth inner + 1) (depth rest)
  | .locked _ rest => max 1 (depth rest)
  | .skipped _ rest => depth rest

/-- The same tree without the folders that cannot be listed. -/
def unlocked : Forest Name → Forest Name
  | .nil => .nil
  | .file name rest => .file name (unlocked rest)
  | .folder name inner rest => .folder name (unlocked inner) (unlocked rest)
  | .locked _ rest => unlocked rest
  | .skipped name rest => .skipped name (unlocked rest)

section Scan

variable (join : Path → Name → Path) (judge : Path → Option Bool)

def files (folder : Path) : Forest Name → List Path
  | .nil => []
  | .file name rest => join folder name :: files folder rest
  | .folder name inner rest => files (join folder name) inner ++ files folder rest
  | .locked _ rest => files folder rest
  | .skipped _ rest => files folder rest

/-- The files a scan looks at when an unjudgeable file ends its own listing. -/
def checked (folder : Path) : Forest Name → List Path
  | .nil => []
  | .file name rest =>
    join folder name :: if (judge (join folder name)).isNone then [] else checked folder rest
  | .folder name inner rest => checked (join folder name) inner ++ checked folder rest
  | .locked _ rest => checked folder rest
  | .skipped _ rest => checked folder rest

/-- The files a scan reports, in the order it looks at them. -/
def reported (folder : Path) (forest : Forest Name) : List Path :=
  (checked join judge folder forest).filter (fun path => judge path == some true)

/-- An unjudgeable file stands behind every other reachable file of its listing. -/
def Clear (folder : Path) : Forest Name → Prop
  | .nil => True
  | .file name rest =>
    (judge (join folder name) = none → files join folder rest = []) ∧ Clear folder rest
  | .folder name inner rest => Clear (join folder name) inner ∧ Clear folder rest
  | .locked _ rest => Clear folder rest
  | .skipped _ rest => Clear folder rest

end Scan

variable {join : Path → Name → Path} {judge : Path → Option Bool}

theorem files_unlocked (folder : Path) (forest : Forest Name) :
    files join folder forest.unlocked = files join folder forest := by
  induction forest generalizing folder with
  | nil => rfl
  | file name rest ih => simp [unlocked, files, ih]
  | folder name inner rest ihInner ih => simp [unlocked, files, ihInner, ih]
  | locked name rest ih => simp [unlocked, files, ih]
  | skipped name rest ih => simp [unlocked, files, ih]

theorem checked_sublist (folder : Path) (forest : Forest Name) :
    (checked join judge folder forest).Sublist (files join folder forest) := by
  induction forest generalizing folder with
  | nil => exact List.Sublist.refl _
  | file name rest ih =>
    simp only [checked, files]
    split
    · exact (List.nil_sublist _).cons_cons _
    · exact (ih folder).cons_cons _
  | folder name inner rest ihInner ih => exact (ihInner _).append (ih _)
  | locked name rest ih => exact ih folder
  | skipped name rest ih => exact ih folder

private theorem clear_of_no_files (folder : Path) (forest : Forest Name)
    (empty : files join folder forest = []) : Clear join judge folder forest := by
  induction forest generalizing folder with
  | nil => trivial
  | file name rest ih => simp [files] at empty
  | folder name inner rest ihInner ih =>
    simp only [files, List.append_eq_nil_iff] at empty
    exact ⟨ihInner _ empty.1, ih _ empty.2⟩
  | locked name rest ih => exact ih folder empty
  | skipped name rest ih => exact ih folder empty

/-- A scan looks at every reachable file exactly when no unjudgeable file has
a reachable file behind it in its own listing. -/
theorem checked_eq_files_iff (folder : Path) (forest : Forest Name) :
    checked join judge folder forest = files join folder forest ↔
      Clear join judge folder forest := by
  induction forest generalizing folder with
  | nil => simp [checked, files, Clear]
  | file name rest ih =>
    simp only [checked, files, Clear, List.cons.injEq, true_and]
    cases verdict : judge (join folder name) with
    | none =>
      simp only [Option.isNone_none, ↓reduceIte, true_implies]
      constructor
      · intro empty
        exact ⟨empty.symm, clear_of_no_files folder rest empty.symm⟩
      · exact fun clear => clear.1.symm
    | some shown => simpa using ih folder
  | folder name inner rest ihInner ih =>
    simp only [checked, files, Clear]
    rw [append_eq_iff_of_sublist (checked_sublist _ _) (checked_sublist _ _), ihInner, ih]
  | locked name rest ih => exact ih folder
  | skipped name rest ih => exact ih folder

theorem clear_of_judged (folder : Path) (forest : Forest Name)
    (judged : ∀ path ∈ files join folder forest, judge path ≠ none) : Clear join judge folder forest := by
  induction forest generalizing folder with
  | nil => trivial
  | file name rest ih =>
    refine ⟨fun failed => absurd failed (judged _ List.mem_cons_self), ?_⟩
    apply ih folder
    intro path member
    exact judged path (List.mem_cons_of_mem _ member)
  | folder name inner rest ihInner ih =>
    constructor
    · apply ihInner
      intro path member
      exact judged path (List.mem_append_left _ member)
    · apply ih
      intro path member
      exact judged path (List.mem_append_right _ member)
  | locked name rest ih => exact ih folder judged
  | skipped name rest ih => exact ih folder judged

theorem checked_of_judged (folder : Path) (forest : Forest Name)
    (judged : ∀ path ∈ files join folder forest, judge path ≠ none) :
    checked join judge folder forest = files join folder forest :=
  (checked_eq_files_iff folder forest).mpr (clear_of_judged folder forest judged)

/-- A file reached through listable folders, under the path of its ancestors. -/
inductive Reaches (join : Path → Name → Path) : Path → Forest Name → Path → Prop where
  | here : Reaches join parent (.file name rest) (join parent name)
  | inside (inner : Reaches join (join parent name) entries target) :
      Reaches join parent (.folder name entries rest) target
  | later (first : Entry Name) (behind : Reaches join parent rest target) :
      Reaches join parent (cons first rest) target

theorem mem_files_iff (folder target : Path) (forest : Forest Name) :
    target ∈ files join folder forest ↔ Reaches join folder forest target := by
  constructor
  · intro member
    induction forest generalizing folder with
    | nil => simp [files] at member
    | file name rest ih =>
      rcases List.mem_cons.mp member with same | behind
      · subst same
        exact .here
      · exact .later (.file name) (ih folder behind)
    | folder name inner rest ihInner ih =>
      rcases List.mem_append.mp member with inside | behind
      · exact .inside (ihInner _ inside)
      · exact .later (.folder name inner) (ih folder behind)
    | locked name rest ih => exact .later (.locked name) (ih folder member)
    | skipped name rest ih => exact .later (.skipped name) (ih folder member)
  · intro reaches
    induction reaches with
    | here => simp [files]
    | inside inner ih => simp [files, ih]
    | later first behind ih => cases first <;> simp [cons, files, ih]

section Names

def names : Forest Name → List Name
  | .nil => []
  | .file name rest => name :: names rest
  | .folder name _ rest => name :: names rest
  | .locked name rest => name :: names rest
  | .skipped name rest => name :: names rest

/-- In every listing the names are valid and distinct. -/
def WellNamed (valid : Name → Prop) : Forest Name → Prop
  | .nil => True
  | .file name rest => valid name ∧ name ∉ names rest ∧ WellNamed valid rest
  | .folder name inner rest =>
    valid name ∧ name ∉ names rest ∧ WellNamed valid inner ∧ WellNamed valid rest
  | .locked name rest => valid name ∧ name ∉ names rest ∧ WellNamed valid rest
  | .skipped name rest => valid name ∧ name ∉ names rest ∧ WellNamed valid rest

/-- The target lies at or below a path, through valid names. -/
inductive Below (join : Path → Name → Path) (valid : Name → Prop) : Path → Path → Prop where
  | self : Below join valid path path
  | step (named : valid name) (deeper : Below join valid (join path name) target) :
      Below join valid path target

def Separated (join : Path → Name → Path) (valid : Name → Prop) : Prop :=
  ∀ path one two target, valid one → valid two → Below join valid (join path one) target →
    Below join valid (join path two) target → one = two

variable {valid : Name → Prop}

theorem files_below (forest : Forest Name) (folder : Path) (named : WellNamed valid forest)
    (member : target ∈ files join folder forest) :
    ∃ name ∈ names forest, valid name ∧ Below join valid (join folder name) target := by
  induction forest generalizing folder with
  | nil => simp [files] at member
  | file name rest ih =>
    rcases List.mem_cons.mp member with same | behind
    · subst same
      exact ⟨name, by simp [names], named.1, .self⟩
    · obtain ⟨other, present, rest⟩ := ih folder named.2.2 behind
      exact ⟨other, by simp [names, present], rest⟩
  | folder name inner rest ihInner ih =>
    rcases List.mem_append.mp member with inside | behind
    · obtain ⟨deeper, _, valid, below⟩ := ihInner _ named.2.2.1 inside
      exact ⟨name, by simp [names], named.1, .step valid below⟩
    · obtain ⟨other, present, rest⟩ := ih folder named.2.2.2 behind
      exact ⟨other, by simp [names, present], rest⟩
  | locked name rest ih =>
    obtain ⟨other, present, rest⟩ := ih folder named.2.2 member
    exact ⟨other, by simp [names, present], rest⟩
  | skipped name rest ih =>
    obtain ⟨other, present, rest⟩ := ih folder named.2.2 member
    exact ⟨other, by simp [names, present], rest⟩

theorem files_nodup (separated : Separated join valid) (forest : Forest Name) (folder : Path)
    (named : WellNamed valid forest) : (files join folder forest).Nodup := by
  induction forest generalizing folder with
  | nil => exact List.nodup_nil
  | file name rest ih =>
    refine List.nodup_cons.mpr ⟨?_, ih folder named.2.2⟩
    intro member
    obtain ⟨other, present, otherValid, below⟩ := files_below rest folder named.2.2 member
    exact named.2.1 (separated folder name other _ named.1 otherValid .self below ▸ present)
  | folder name inner rest ihInner ih =>
    refine List.nodup_append.mpr ⟨ihInner _ named.2.2.1, ih _ named.2.2.2, ?_⟩
    rintro target inside _ behind rfl
    obtain ⟨deeper, _, deeperValid, below⟩ := files_below inner _ named.2.2.1 inside
    obtain ⟨other, present, otherValid, beside⟩ := files_below rest folder named.2.2.2 behind
    exact named.2.1 (separated folder name other _ named.1 otherValid (.step deeperValid below) beside ▸ present)
  | locked name rest ih => exact ih folder named.2.2
  | skipped name rest ih => exact ih folder named.2.2

end Names

end Forest

end PluginSearch
