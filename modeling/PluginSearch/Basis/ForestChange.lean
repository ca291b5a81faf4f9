import PluginSearch.Basis.Forest

namespace PluginSearch.Forest

universe u v
variable {Name : Type u} {Path : Type v} {join : Path → Name → Path} {judge : Path → Option Bool}

/-- One file entry with the given path has left the tree. -/
inductive Removed (join : Path → Name → Path) (target : Path) :
    Path → Forest Name → Forest Name → Prop where
  | here (same : join parent name = target) : Removed join target parent (.file name rest) rest
  | file (later : Removed join target parent rest rest') :
      Removed join target parent (.file name rest) (.file name rest')
  | inside (inner : Removed join target (join parent name) entries entries') :
      Removed join target parent (.folder name entries rest) (.folder name entries' rest)
  | folder (later : Removed join target parent rest rest') :
      Removed join target parent (.folder name entries rest) (.folder name entries rest')
  | locked (later : Removed join target parent rest rest') :
      Removed join target parent (.locked name rest) (.locked name rest')
  | skipped (later : Removed join target parent rest rest') :
      Removed join target parent (.skipped name rest) (.skipped name rest')

/-- In a clear tree an unjudgeable file can leave without changing any report. -/
theorem Removed.reported_eq {target folder : Path} {forest forest' : Forest Name}
    (removed : Removed join target folder forest forest') (failed : judge target = none)
    (clear : Clear join judge folder forest) :
    reported join judge folder forest' = reported join judge folder forest := by
  induction removed with
  | @here parent name rest same =>
    subst same
    have nothing : checked join judge parent rest = [] := by
      rw [(checked_eq_files_iff parent rest).mpr clear.2]
      exact clear.1 failed
    simp [reported, checked, failed, nothing]
  | @file parent rest rest' name later ih =>
    have tail := ih clear.2
    simp only [reported] at tail
    simp only [reported, checked, List.filter_cons]
    split <;> split <;> simp [tail]
  | inside inner ih => simpa [reported, checked] using ih clear.1
  | folder later ih => simpa [reported, checked] using ih clear.2
  | locked later ih => exact ih clear
  | skipped later ih => exact ih clear

/-- The same tree with the entries of any listings in another order. -/
inductive Reordered : Forest Name → Forest Name → Prop where
  | refl (forest) : Reordered forest forest
  | entry (first : Entry Name) (later : Reordered rest rest') :
      Reordered (cons first rest) (cons first rest')
  | inside (inner : Reordered entries entries') :
      Reordered (.folder name entries rest) (.folder name entries' rest)
  | swap (first second : Entry Name) (rest) :
      Reordered (cons first (cons second rest)) (cons second (cons first rest))
  | trans (before : Reordered one two) (after : Reordered two three) : Reordered one three

def Entry.files (join : Path → Name → Path) (folder : Path) : Entry Name → List Path
  | .file name => [join folder name]
  | .folder name inner => inner.files join (join folder name)
  | .locked _ => []
  | .skipped _ => []

theorem files_cons (folder : Path) (first : Entry Name) (rest : Forest Name) :
    files join folder (cons first rest) = first.files join folder ++ files join folder rest := by
  cases first <;> rfl

theorem Reordered.files_perm {one two : Forest Name} (reordered : Reordered one two)
    (folder : Path) : (files join folder one).Perm (files join folder two) := by
  induction reordered generalizing folder with
  | refl forest => exact List.Perm.refl _
  | entry first later ih =>
    rw [files_cons, files_cons]
    exact (ih folder).append_left _
  | inside inner ih => exact (ih _).append_right _
  | swap first second rest =>
    simp only [files_cons, ← List.append_assoc]
    exact List.perm_append_comm.append_right _
  | trans before after ihBefore ihAfter => exact (ihBefore folder).trans (ihAfter folder)

section Order

variable (join : Path → Name → Path) (judge : Path → Option Bool)

def deserving (folder : Path) (forest : Forest Name) : List Path :=
  (files join folder forest).filter (fun path => judge path == some true)

/-- Some file of this very listing cannot be judged. -/
def Fails (folder : Path) : Forest Name → Prop
  | .nil => False
  | .file name rest => judge (join folder name) = none ∨ Fails folder rest
  | .folder _ _ rest => Fails folder rest
  | .locked _ rest => Fails folder rest
  | .skipped _ rest => Fails folder rest

def Silent (folder : Path) (forest : Forest Name) : Prop :=
  ∀ path ∈ files join folder forest, judge path ≠ some true

/-- In every folder below, a listing that fails is silent. -/
def Quiet (folder : Path) : Forest Name → Prop
  | .nil => True
  | .file _ rest => Quiet folder rest
  | .folder name inner rest =>
    ((Fails join judge (join folder name) inner → Silent join judge (join folder name) inner) ∧
      Quiet (join folder name) inner) ∧ Quiet folder rest
  | .locked _ rest => Quiet folder rest
  | .skipped _ rest => Quiet folder rest

/-- Every listing that fails is silent, this one included. -/
def Calm (folder : Path) (forest : Forest Name) : Prop :=
  (Fails join judge folder forest → Silent join judge folder forest) ∧ Quiet join judge folder forest

end Order

theorem silent_iff (folder : Path) (forest : Forest Name) :
    Silent join judge folder forest ↔ deserving join judge folder forest = [] := by
  simp [Silent, deserving, List.filter_eq_nil_iff]

theorem reported_sublist (folder : Path) (forest : Forest Name) :
    (reported join judge folder forest).Sublist (deserving join judge folder forest) :=
  (checked_sublist folder forest).filter _

theorem silent_cons (folder : Path) (first : Entry Name) (rest : Forest Name) :
    Silent join judge folder (cons first rest) ↔
      (∀ path ∈ first.files join folder, judge path ≠ some true) ∧ Silent join judge folder rest := by
  simp only [Silent, files_cons, List.forall_mem_append]

theorem quiet_of_silent (folder : Path) (forest : Forest Name) (silent : Silent join judge folder forest) :
    Quiet join judge folder forest := by
  induction forest generalizing folder with
  | nil => trivial
  | file name rest ih => exact ih folder ((silent_cons folder (.file name) rest).mp silent).2
  | folder name inner rest ihInner ih =>
    obtain ⟨inside, behind⟩ := (silent_cons folder (.folder name inner) rest).mp silent
    exact ⟨⟨fun _ => inside, ihInner _ inside⟩, ih folder behind⟩
  | locked name rest ih => exact ih folder silent
  | skipped name rest ih => exact ih folder silent

theorem Reordered.fails_iff {one two : Forest Name} (reordered : Reordered one two) (folder : Path) :
    Fails join judge folder one ↔ Fails join judge folder two := by
  induction reordered with
  | refl forest => rfl
  | entry first later ih => cases first <;> simp [cons, Fails, ih]
  | inside inner ih => rfl
  | swap first second rest => cases first <;> cases second <;> simp [cons, Fails, or_left_comm]
  | trans before after ihBefore ihAfter => exact ihBefore.trans ihAfter

theorem Reordered.silent_iff {one two : Forest Name} (reordered : Reordered one two) (folder : Path) :
    Silent join judge folder one ↔ Silent join judge folder two :=
  forall_congr' fun _ => imp_congr_left (reordered.files_perm folder).mem_iff

/-- Whether a tree is calm does not depend on the order of its listings. -/
theorem Reordered.calm_iff {one two : Forest Name} (reordered : Reordered one two) (folder : Path) :
    Calm join judge folder one ↔ Calm join judge folder two := by
  have quiet : Quiet join judge folder one ↔ Quiet join judge folder two := by
    induction reordered generalizing folder with
    | refl forest => rfl
    | entry first later ih => cases first <;> simp [cons, Quiet, ih]
    | inside inner ih => simp only [Quiet, inner.fails_iff, inner.silent_iff, ih]
    | swap first second rest => cases first <;> cases second <;> simp [cons, Quiet, and_left_comm]
    | trans before after ihBefore ihAfter => exact (ihBefore folder).trans (ihAfter folder)
  simp only [Calm, reordered.fails_iff, reordered.silent_iff, quiet]

theorem Calm.reported_eq {folder : Path} {forest : Forest Name} (calm : Calm join judge folder forest) :
    reported join judge folder forest = deserving join judge folder forest := by
  induction forest generalizing folder with
  | nil => rfl
  | file name rest ih =>
    by_cases failed : judge (join folder name) = none
    · rw [(silent_iff folder _).mp (calm.1 (.inl failed))]
      simp [reported, checked, failed]
    · have tail := @ih folder ⟨fun fails =>
        ((silent_cons folder (.file name) rest).mp (calm.1 (.inr fails))).2, calm.2⟩
      simp only [reported, deserving] at tail
      simp [reported, checked, deserving, files, Option.isNone_iff_eq_none, failed, List.filter_cons, tail]
  | folder name inner rest ihInner ih =>
    have tail := @ih folder ⟨fun fails =>
      ((silent_cons folder (.folder name inner) rest).mp (calm.1 fails)).2, calm.2.2⟩
    have inside := @ihInner (join folder name) calm.2.1
    simp only [reported, deserving] at tail inside
    simp only [reported, checked, deserving, files, List.filter_append, tail, inside]
  | locked name rest ih => exact @ih folder calm
  | skipped name rest ih => exact @ih folder calm

end PluginSearch.Forest
