import PluginSearch.Host.Steps

namespace PluginSearch

open Stopping

/-- The buffers allocated before, apart from one, keep their strings. -/
structure Keeps (apart : Nat → Prop) (before after : Host) : Prop where
  grows : before.fresh ≤ after.fresh
  frame : ∀ buffer, buffer < before.fresh → ¬ apart buffer → after.heap buffer = before.heap buffer

theorem Keeps.refl (apart : Nat → Prop) (host : Host) : Keeps apart host host := ⟨Nat.le_refl _, fun _ _ _ => rfl⟩

theorem Keeps.trans (first : Keeps apart before middle) (second : Keeps apart middle after) :
    Keeps apart before after :=
  ⟨first.grows.trans second.grows, fun buffer allocated keep =>
    (second.frame buffer (lt_of_lt_of_le allocated first.grows) keep).trans (first.frame buffer allocated keep)⟩

theorem Keeps.weaken (keeps : Keeps (fun _ => False) before after) : Keeps apart before after :=
  ⟨keeps.grows, fun buffer allocated _ => keeps.frame buffer allocated id⟩

theorem getAbsPath_keeps {host : Host} (joined : host.getAbsPath fileName0 folder name = .ok after) :
    Keeps (· = fileName0) host after ∧ after.fresh = host.fresh ∧
      ∃ path, host.heap folder = some path ∧ after.heap fileName0 = some (joinPath path name) := by
  rw [getAbsPath_eq, Host.expect_eq_ok_iff, Option.map_eq_some_iff] at joined
  obtain ⟨path, held, rfl⟩ := joined
  refine ⟨⟨Nat.le_refl _, ?_⟩, rfl, path, held, by simp [Host.write, Host.store, Host.emit]⟩
  intro buffer _ other
  simp [Host.write, Host.store, Host.emit, Function.update_of_ne other]

theorem checkFile_keeps (ran : checkFile flags fileName0 host = .ok scan) :
    Keeps (fun _ => False) host scan.host := by
  cases checkFile_checked ran <;> exact ⟨Nat.le_refl _, fun _ _ _ => rfl⟩

/-- The path of a folder stands in an allocated buffer. -/
structure FolderHeld (host : Host) (folder : Nat) (path : CString) : Prop where
  held : host.heap folder = some path
  allocated : folder < host.fresh
  nonnull : folder ≠ 0

theorem FolderHeld.root (folder : CString) (plugin : List Lib) : FolderHeld (.start folder plugin) 1 folder :=
  ⟨by simp [Host.start], Nat.lt_succ_self 1, Nat.one_ne_zero⟩

theorem FolderHeld.advance (holds : FolderHeld before folder path) (keeps : Keeps apart before after)
    (other : ¬ apart folder) : FolderHeld after folder path :=
  ⟨(keeps.frame folder holds.allocated other).trans holds.held, lt_of_lt_of_le holds.allocated keeps.grows,
    holds.nonnull⟩

theorem FolderHeld.start (holds : FolderHeld host folder path) (opened : CString) :
    FolderHeld (host.openStream opened).2.malloc.2 folder path :=
  ⟨holds.held, holds.allocated.trans (by show host.fresh < host.fresh + 2; omega), holds.nonnull⟩

theorem readEntries_keeps {search : Nat → Host → Except Stopped Host}
    (keeps : ∀ folder host after, search folder host = .ok after → Keeps (fun _ => False) host after)
    (entries : List Dirent) (ran : readEntries search flags folder fileName0 entries host = .ok scan) :
    Keeps (· = fileName0) host scan.host := by
  refine readEntries_relates (Keeps (· = fileName0)) (Keeps.refl _) (fun _ _ _ => Keeps.trans) ?_ entries ran
  intro entry host scan entered
  cases entered with
  | file joined checked => exact (getAbsPath_keeps joined).1.trans (checkFile_keeps checked).weaken
  | directory joined searched => exact (getAbsPath_keeps joined).1.trans (keeps _ _ _ searched).weaken
  | skipped => exact .refl _ _

theorem Keeps.opened {host : Host}
    (inside : Keeps (· = host.fresh + 1) (host.openStream path).2.malloc.2 after) :
    Keeps (fun _ => False) host after := by
  refine ⟨(Nat.le_add_right host.fresh 2).trans inside.grows, ?_⟩
  intro buffer allocated _
  refine inside.frame buffer ?_ ?_
  · show buffer < host.fresh + 2
    omega
  · show buffer ≠ host.fresh + 1
    omega

/-- A search keeps every buffer that was allocated before it. -/
theorem searchDir_keeps (ran : searchDir opendir flags fuel folder host = .ok after) :
    Keeps (fun _ => False) host after := by
  induction fuel generalizing folder host after with
  | zero => simp [searchDir] at ran
  | succ fuel ih =>
    cases searchDir_level ran with
    | null => exact .refl _ _
    | refused => exact ⟨Nat.le_refl _, fun _ _ _ => rfl⟩
    | abandoned held opened entered => exact (readEntries_keeps (fun _ _ _ => ih) _ entered).opened
    | finished held opened entered =>
      have inside := (readEntries_keeps (fun _ _ _ => ih) _ entered).opened
      refine ⟨inside.grows, ?_⟩
      intro buffer allocated _
      have other : buffer ≠ host.fresh + 1 := by omega
      exact (Function.update_of_ne other _ _).trans (inside.frame buffer allocated id)

theorem Host.expect_ends {stops : Stopped → Prop} (stopped : stops ⟨.undefined, host⟩) (result : Option Value) :
    Ends stops (fun value => result = some value) (host.expect result) := by
  cases result with
  | none => exact stopped
  | some value => rfl

theorem checkFile_ends {stops : Stopped → Prop} {finishes : Scan → Prop} (before : stops ⟨.undefined, host⟩)
    (calling : ∀ path, stops ⟨.undefined, host.emit (.checking path)⟩)
    (checked : ∀ scan, Checked flags fileName0 host scan → finishes scan) :
    Ends stops finishes (checkFile flags fileName0 host) := by
  unfold checkFile
  refine (Host.expect_ends before _).bind fun path _ held => ?_
  refine (Host.expect_ends (calling path) _).bind fun result _ called => ?_
  obtain ⟨plugin, tally⟩ := result
  cases tally with
  | none => exact checked _ (.failed held called)
  | some tally =>
    dsimp only
    cases line : reports flags tally with
    | true => exact checked _ (.printed held called line)
    | false => exact checked _ (.passedOver held called line)

/-- What holds however the entry loop ends, from what holds of each entry: the
path of the folder stays in its buffer, so every entry is joined to it. -/
theorem readEntries_ends {search : Nat → Host → Except Stopped Host} {stops : Stopped → Prop} (holds : Host → Prop)
    (joins : ∀ host entry, entry ∈ entries → holds host → holds (host.write fileName0 (joinPath path entry.dName)))
    (checks : ∀ host, holds host → Ends stops (fun scan => holds scan.host) (checkFile flags fileName0 host))
    (searches : ∀ host name, holds host → FolderHeld host fileName0 (joinPath path name) →
      Ends stops holds (search fileName0 host))
    (keeps : ∀ folder host after, search folder host = .ok after → Keeps (fun _ => False) host after)
    (apart : folder ≠ fileName0) (nonnull : fileName0 ≠ 0) (here : holds host)
    (held : FolderHeld host folder path) (allocated : fileName0 < host.fresh) :
    Ends stops (fun scan => holds scan.host) (readEntries search flags folder fileName0 entries host) := by
  induction entries generalizing host with
  | nil => exact here
  | cons entry rest ih =>
    have later (host : Host) := @ih host fun host other member => joins host other (List.mem_cons_of_mem _ member)
    have joined (name : CString) : host.getAbsPath fileName0 folder name =
        .ok (host.write fileName0 (joinPath path name)) := by
      rw [getAbsPath_eq, held.held]
      rfl
    have named := joins host entry List.mem_cons_self here
    obtain ⟨naming, _, _, _, written⟩ := getAbsPath_keeps (joined entry.dName)
    rw [readEntries]
    cases entry.dType with
    | reg =>
      simp only [joined, ok_bind]
      refine (checks _ named).bind fun scan ran checked => ?_
      have kept := naming.trans (checkFile_keeps ran).weaken
      cases scan with
      | returned last => exact checked
      | exhausted last => exact later _ checked (held.advance kept apart) (lt_of_lt_of_le allocated kept.grows)
    | dir =>
      dsimp only
      split
      · simp only [joined, ok_bind]
        have inner : FolderHeld (host.write fileName0 (joinPath path entry.dName)) fileName0
            (joinPath path entry.dName) :=
          ⟨by simp [Host.write, Host.store, Host.emit], allocated, nonnull⟩
        refine (searches _ _ named inner).bind fun child ran searched => ?_
        have kept := naming.trans (keeps _ _ _ ran).weaken
        exact later _ searched (held.advance kept apart) (lt_of_lt_of_le allocated kept.grows)
      · exact later _ here held allocated
    | other => exact later _ here held allocated

end PluginSearch
