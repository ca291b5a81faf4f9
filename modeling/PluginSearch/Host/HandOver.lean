import PluginSearch.Host.Release

/-! The option arrays in memory. For each plugin a block of as many entries as
its table has is filled from the front; the loop over the command line refines
the list of options that the search is given. -/

namespace PluginSearch

/-- `opts_to_pass` and `opts_to_pass_len` of one plugin; an entry that was not
written yet is all zero. -/
structure Block where
  entries : List (Option Opt)
  len : Nat
  deriving DecidableEq, Repr

def Block.zeroed (supOptsLen : Nat) : Block := ⟨List.replicate supOptsLen none, 0⟩

/-- Why the loop stops: the plugin got too many options, an index is not in its
table, an argument is missing, or a write would miss the plugin's block. -/
inductive Fault where
  | tooMany
  | badIndex
  | nullArgument
  | outside
  deriving DecidableEq, Repr

/-- The blocks of all plugins, and the heap blocks that `strdup` returned. -/
structure Memory where
  blocks : List Block
  copies : List Nat
  deriving DecidableEq, Repr

namespace Memory

def optsToPassLen (memory : Memory) (i : Nat) : Nat := (memory.blocks[i]?).elim 0 Block.len

def store (memory : Memory) (i index : Nat) (opt : Opt) : Except Fault Memory :=
  match memory.blocks[i]? with
  | none => .error .outside
  | some block =>
    if index < block.entries.length then
      .ok { memory with blocks := memory.blocks.set i { block with entries := block.entries.set index (some opt) } }
    else .error .outside

def grow (memory : Memory) (i : Nat) : Memory :=
  match memory.blocks[i]? with
  | none => memory
  | some block => { memory with blocks := memory.blocks.set i { block with len := block.len + 1 } }

end Memory

/-- The body of the option loop for a recognised option of plugin `i`: the
table entry is copied to the next place, then its flag is replaced there. -/
def fillOption (table : List Opt) (i : Nat) (memory : Memory) (optInd : Nat) (optarg : Option CString) :
    Except Fault Memory :=
  if memory.optsToPassLen i = table.length then .error .tooMany
  else match table[optInd]? with
    | none => .error .badIndex
    | some opt => do
      let memory ← memory.store i (memory.optsToPassLen i) opt
      if opt.hasArg ≠ 0 then match optarg with
        | none => .error .nullArgument
        | some text =>
          let copy := memory.copies.length
          let memory ← { memory with copies := memory.copies ++ [copy] }.store i (memory.optsToPassLen i)
            { opt with flag := .heap copy text }
          return memory.grow i
      else return memory.grow i

def fillResults (table : List Opt) (i : Nat) : List LongResult → Memory → Except Fault Memory
  | [], memory => .ok memory
  | .other :: rest, memory => fillResults table i rest memory
  | .recognised optInd optarg :: rest, memory => do
    let memory ← fillOption table i memory optInd optarg
    fillResults table i rest memory

/-- The option loop over the plugins from index `i` on, with their tables. -/
def fillAll (env : Env) : List (List Opt) → Nat → Memory → Except Fault Memory
  | [], _, memory => .ok memory
  | table :: rest, i, memory => do
    let memory ← fillResults table i (env.longResults i) memory
    fillAll env rest (i + 1) memory

/-- A block holds the options of a plugin at its front and nothing behind them. -/
structure Block.Holds (block : Block) (lib : Lib) : Prop where
  len : block.len = lib.optsToPassLen
  room : lib.optsToPassLen ≤ lib.longopts.length
  entries : block.entries =
    lib.optsToPass.map some ++ List.replicate (lib.longopts.length - lib.optsToPassLen) none

theorem Block.Holds.size {block : Block} (holds : block.Holds lib) : block.entries.length = lib.longopts.length := by
  have room := holds.room
  rw [holds.entries]
  simp only [List.length_append, List.length_map, List.length_replicate, Lib.optsToPassLen] at *
  omega

theorem Block.Holds.zeroed (fresh : lib.optsToPass = []) : (Block.zeroed lib.longopts.length).Holds lib :=
  ⟨by simp [Block.zeroed, Lib.optsToPassLen, fresh], by simp [Lib.optsToPassLen, fresh],
    by simp [Block.zeroed, Lib.optsToPassLen, fresh]⟩

def Block.push (block : Block) (opt : Opt) : Block := ⟨block.entries.set block.len (some opt), block.len + 1⟩

theorem Block.Holds.push {block : Block} (holds : block.Holds lib) (free : lib.optsToPassLen ≠ lib.longopts.length)
    (opt : Opt) : (block.push opt).Holds { lib with optsToPass := lib.optsToPass ++ [opt] } := by
  have room := holds.room
  refine ⟨?_, ?_, ?_⟩
  · simp [Block.push, holds.len, Lib.optsToPassLen]
  · rw [Lib.optsToPassLen_append]
    exact lt_of_le_of_ne room free
  · obtain ⟨more, same⟩ : ∃ more, lib.longopts.length - lib.optsToPassLen = more + 1 :=
      ⟨lib.longopts.length - lib.optsToPassLen - 1, by omega⟩
    have less : lib.longopts.length - (lib.optsToPassLen + 1) = more := by omega
    rw [Lib.optsToPassLen_append]
    simp only [Block.push, holds.len, holds.entries, less, same, List.replicate_succ]
    rw [List.set_append_right _ _ (by simp [Lib.optsToPassLen])]
    simp [Lib.optsToPassLen]

section Place

variable {before after : List Block} {block : Block} {lib : Lib} {copies : List Nat}

abbrev serving (before : List Block) (block : Block) (after : List Block) (copies : List Nat) : Memory :=
  ⟨before ++ block :: after, copies⟩

theorem serving_len : (serving before block after copies).optsToPassLen before.length = block.len := by
  simp [Memory.optsToPassLen]

theorem serving_store (inside : index < block.entries.length) (opt : Opt) :
    (serving before block after copies).store before.length index opt =
      .ok (serving before { block with entries := block.entries.set index (some opt) } after copies) := by
  simp [Memory.store, inside]

theorem serving_grow :
    (serving before block after copies).grow before.length =
      serving before { block with len := block.len + 1 } after copies := by
  simp [Memory.grow]

/-- An entry that is in the table and, if it takes an argument, comes with one
is put at the place that the counter of the plugin names. -/
theorem fillOption_entry (holds : block.Holds lib) (free : lib.optsToPassLen ≠ lib.longopts.length)
    (entry : lib.longopts[optInd]? = some opt) (optarg : Option CString) :
    fillOption lib.longopts before.length (serving before block after copies) optInd optarg =
      if opt.hasArg ≠ 0 then match optarg with
        | none => .error .nullArgument
        | some text => .ok (serving before (block.push { opt with flag := .heap copies.length text }) after
            (copies ++ [copies.length]))
      else .ok (serving before (block.push opt) after copies) := by
  have len : block.len ≠ lib.longopts.length := holds.len ▸ free
  have inside : block.len < block.entries.length := by
    rw [holds.size, holds.len]
    exact lt_of_le_of_ne holds.room free
  rw [fillOption, serving_len, if_neg len, entry]
  simp only [serving_store inside, Bind.bind, Except.bind, Pure.pure, Except.pure, serving_len]
  by_cases takes : opt.hasArg = 0
  · simp [takes, serving_grow, Block.push]
  · cases optarg with
    | none => simp [takes]
    | some text => simp [takes, Memory.store, inside, Memory.grow, Block.push]

/-- One recognised option: memory and list agree on how the loop goes on, and
the write goes to the plugin's own block. -/
theorem fillOption_refines (holds : block.Holds lib) (optInd : Nat) (optarg : Option CString) :
    (passOption lib copies optInd optarg = .error .failed ∧
      fillOption lib.longopts before.length (serving before block after copies) optInd optarg = .error .tooMany) ∨
    (passOption lib copies optInd optarg = .error .crashed ∧
      ∃ fault, fillOption lib.longopts before.length (serving before block after copies) optInd optarg =
        .error fault ∧ (fault = .badIndex ∨ fault = .nullArgument)) ∨
    ∃ opt copies', passOption lib copies optInd optarg =
        .ok ({ lib with optsToPass := lib.optsToPass ++ [opt] }, copies') ∧
      fillOption lib.longopts before.length (serving before block after copies) optInd optarg =
        .ok (serving before (block.push opt) after copies') ∧
      (block.push opt).Holds { lib with optsToPass := lib.optsToPass ++ [opt] } := by
  by_cases full : lib.optsToPassLen = lib.longopts.length
  · have len : block.len = lib.longopts.length := holds.len.trans full
    exact .inl ⟨by simp [passOption, full], by simp [fillOption, serving_len, len]⟩
  · have len : block.len ≠ lib.longopts.length := holds.len ▸ full
    cases entry : lib.longopts[optInd]? with
    | none =>
      refine .inr (.inl ⟨by simp [passOption, full, entry], .badIndex, ?_, .inl rfl⟩)
      simp [fillOption, serving_len, len, entry]
    | some opt =>
      rw [fillOption_entry holds full entry]
      by_cases takes : opt.hasArg = 0
      · refine .inr (.inr ⟨opt, copies, ?_, by simp [takes], holds.push full opt⟩)
        simp [passOption, full, entry, takes]
      · cases optarg with
        | none =>
          refine .inr (.inl ⟨?_, .nullArgument, by simp [takes], .inr rfl⟩)
          simp [passOption, full, entry, takes]
        | some text =>
          refine .inr (.inr ⟨{ opt with flag := .heap copies.length text }, copies ++ [copies.length], ?_,
            by simp [takes], holds.push full _⟩)
          simp [passOption, full, entry, takes]

/-- How the loop over memory ends, against the loop over lists: no way to end
is a write outside of a block. -/
def Agrees (filled : Except Fault Memory) (status : Status) (reached : Memory → Prop) : Prop :=
  match status with
  | .going => ∃ memory, filled = .ok memory ∧ reached memory
  | .failed => filled = .error .tooMany
  | .crashed => ∃ fault, filled = .error fault ∧ (fault = .badIndex ∨ fault = .nullArgument)

theorem fillResults_refines (holds : block.Holds lib) (results : List LongResult) (copies : List Nat) :
    Agrees (fillResults lib.longopts before.length results (serving before block after copies))
      (passResults results lib copies).1 (fun memory => ∃ filled,
        memory = serving before filled after (passResults results lib copies).2.2 ∧
          filled.Holds (passResults results lib copies).2.1) := by
  induction results generalizing block lib copies with
  | nil => exact ⟨_, rfl, block, rfl, holds⟩
  | cons result rest ih =>
    cases result with
    | other => exact ih holds copies
    | recognised optInd optarg =>
      rcases @fillOption_refines before after block lib copies holds optInd optarg with
        ⟨passed, filled⟩ | ⟨passed, fault, filled, kind⟩ | ⟨opt, copies', passed, filled, pushed⟩
      · simp [passResults, passed, fillResults, filled, Agrees, Bind.bind, Except.bind]
      · simpa [passResults, passed, fillResults, filled, Agrees, Bind.bind, Except.bind] using kind
      · simp only [passResults, passed, fillResults, filled, Bind.bind, Except.bind]
        exact ih pushed copies'

end Place

/-- The option loop over all plugins fills their blocks with the options of the
list model, each block from the front and none beyond its end. -/
theorem fillAll_refines (env : Env) (before blocks : List Block) (plugin : List Lib)
    (holds : List.Forall₂ Block.Holds blocks plugin) (copies : List Nat) :
    Agrees (fillAll env (plugin.map Lib.longopts) before.length ⟨before ++ blocks, copies⟩)
      (passAll env plugin before.length copies).1 (fun memory => ∃ filled,
        memory = ⟨before ++ filled, (passAll env plugin before.length copies).2.2⟩ ∧
          List.Forall₂ Block.Holds filled (passAll env plugin before.length copies).2.1) := by
  induction holds generalizing before copies with
  | nil => exact ⟨_, rfl, [], rfl, .nil⟩
  | @cons block lib blocks plugin here holds ih =>
    have own := @fillResults_refines before blocks block lib here (env.longResults before.length) copies
    simp only [List.map_cons, fillAll, passAll]
    generalize passResults (env.longResults before.length) lib copies = passed at own ⊢
    obtain ⟨status, lib', copies'⟩ := passed
    cases status with
    | failed =>
      have stopped : fillResults lib.longopts before.length (env.longResults before.length)
        (serving before block blocks copies) = .error .tooMany := own
      simp [stopped, Agrees, Bind.bind, Except.bind]
    | crashed =>
      obtain ⟨fault, stopped, kind⟩ := own
      simpa [stopped, Agrees, Bind.bind, Except.bind] using kind
    | going =>
      obtain ⟨memory, filled, block', rfl, held⟩ := own
      have later := ih (before ++ [block']) copies'
      simp only [List.length_append, List.length_singleton, List.append_assoc, List.singleton_append] at later
      simp only [filled, Bind.bind, Except.bind]
      generalize passAll env plugin (before.length + 1) copies' = rest at later ⊢
      obtain ⟨status, plugin', copies''⟩ := rest
      cases status with
      | failed => exact later
      | crashed => exact later
      | going =>
        obtain ⟨memory, filled, blocks', rfl, heldRest⟩ := later
        exact ⟨_, filled, block' :: blocks', rfl, .cons held heldRest⟩

def recognisedOptions (results : List LongResult) : List (Nat × Option CString) :=
  results.filterMap fun
    | .recognised optInd optarg => some (optInd, optarg)
    | .other => none

/-- An option as it reaches a plugin: the table entry, with a copy of its own
argument if it takes one. -/
def Handed (table : List Opt) (result : Nat × Option CString) (opt : Opt) : Prop :=
  ∃ entry, table[result.1]? = some entry ∧ opt.name = entry.name ∧ opt.hasArg = entry.hasArg ∧
    (entry.hasArg ≠ 0 → ∃ copy text, result.2 = some text ∧ opt.flag = .heap copy text)

/-- What `getopt_long_only` documents: an index of the table, and an argument
for an option that requires one. -/
def WellReturned (table : List Opt) (results : List LongResult) : Prop :=
  ∀ optInd optarg, LongResult.recognised optInd optarg ∈ results →
    ∃ entry, table[optInd]? = some entry ∧ (entry.hasArg = 1 → optarg ≠ none)

theorem passOption_handed (kinds : ∀ opt ∈ lib.longopts, opt.hasArg = 0 ∨ opt.hasArg = 1)
    (free : lib.optsToPassLen ≠ lib.longopts.length) (entry : lib.longopts[optInd]? = some opt)
    (argued : opt.hasArg = 1 → optarg ≠ none) (copies : List Nat) :
    ∃ last copies', passOption lib copies optInd optarg =
        .ok ({ lib with optsToPass := lib.optsToPass ++ [last] }, copies') ∧
      Handed lib.longopts (optInd, optarg) last := by
  have passing := passOption_passing lib copies optInd optarg
  generalize passOption lib copies optInd optarg = passed at passing ⊢
  cases passing with
  | full full => exact absurd full free
  | missing _ missing => cases missing.symm.trans entry
  | bare _ found takes bare =>
    cases found.symm.trans entry
    rcases kinds opt (List.mem_of_getElem? entry) with plain | required
    · exact absurd plain takes
    · exact absurd bare (argued required)
  | plain _ found plain =>
    cases found.symm.trans entry
    exact ⟨opt, copies, rfl, opt, entry, rfl, rfl, fun takes => absurd plain takes⟩
  | argument _ found takes given =>
    cases found.symm.trans entry
    exact ⟨_, _, rfl, opt, entry, rfl, rfl, fun _ => ⟨copies.length, _, given, rfl⟩⟩

/-- The loop of one plugin appends its recognised options, or stops because
there are more of them than places. -/
theorem passResults_handed (results : List LongResult) (lib : Lib) (copies : List Nat)
    (kinds : ∀ opt ∈ lib.longopts, opt.hasArg = 0 ∨ opt.hasArg = 1) (returned : WellReturned lib.longopts results)
    (room : lib.optsToPassLen ≤ lib.longopts.length) :
    (lib.optsToPassLen + (recognisedOptions results).length ≤ lib.longopts.length ∧
      ∃ new copies', passResults results lib copies =
          (.going, { lib with optsToPass := lib.optsToPass ++ new }, copies') ∧
        List.Forall₂ (Handed lib.longopts) (recognisedOptions results) new) ∨
    (lib.longopts.length < lib.optsToPassLen + (recognisedOptions results).length ∧
      (passResults results lib copies).1 = .failed) := by
  induction results generalizing lib copies with
  | nil => exact .inl ⟨by simpa [recognisedOptions] using room, [], copies, by simp [passResults], .nil⟩
  | cons result rest ih =>
    have returnedRest : WellReturned lib.longopts rest :=
      fun optInd optarg member => returned optInd optarg (List.mem_cons_of_mem _ member)
    cases result with
    | other => exact ih lib copies kinds returnedRest room
    | recognised optInd optarg =>
      have options : recognisedOptions (.recognised optInd optarg :: rest) =
          (optInd, optarg) :: recognisedOptions rest := rfl
      rw [options, List.length_cons]
      by_cases full : lib.optsToPassLen = lib.longopts.length
      · exact .inr ⟨by omega, by simp [passResults, passOption, full]⟩
      · obtain ⟨opt, entry, argued⟩ := returned optInd optarg List.mem_cons_self
        obtain ⟨last, more, passed, handed⟩ := passOption_handed kinds full entry argued copies
        have later := ih { lib with optsToPass := lib.optsToPass ++ [last] } more kinds returnedRest (by
          rw [Lib.optsToPassLen_append]
          exact lt_of_le_of_ne room full)
        rw [Lib.optsToPassLen_append] at later
        simp only [passResults, passed]
        rcases later with ⟨fits, new, copies', going, all⟩ | ⟨exceeds, failed⟩
        · refine .inl ⟨by simp only at fits; omega, last :: new, copies', ?_, .cons handed all⟩
          simpa using going
        · exact .inr ⟨by simp only at exceeds; omega, failed⟩

/-- No plugin, from index `i` on, is given more options than its table has. -/
def Fits (env : Env) (i : Nat) (plugin : List Lib) : Prop :=
  ∀ k lib, plugin[k]? = some lib → (recognisedOptions (env.longResults (i + k))).length ≤ lib.longopts.length

def AllHanded (env : Env) (i : Nat) (plugin after : List Lib) : Prop :=
  after.length = plugin.length ∧ ∀ k lib, plugin[k]? = some lib →
    ∃ done, after[k]? = some done ∧ done.longopts = lib.longopts ∧ done.ppfFunc = lib.ppfFunc ∧
      done.optsToPassLen = (recognisedOptions (env.longResults (i + k))).length ∧
      List.Forall₂ (Handed lib.longopts) (recognisedOptions (env.longResults (i + k))) done.optsToPass

theorem fits_cons (env : Env) (i : Nat) (lib : Lib) (rest : List Lib) :
    Fits env i (lib :: rest) ↔
      (recognisedOptions (env.longResults i)).length ≤ lib.longopts.length ∧ Fits env (i + 1) rest :=
  Loop.forall_place_cons
    (fun place (lib : Lib) => (recognisedOptions (env.longResults place)).length ≤ lib.longopts.length) i lib rest

theorem AllHanded.cons (own : List.Forall₂ (Handed lib.longopts) (recognisedOptions (env.longResults i)) opts)
    (all : AllHanded env (i + 1) rest after) :
    AllHanded env i (lib :: rest) ({ lib with optsToPass := opts } :: after) := by
  refine ⟨by simp [all.1], ?_⟩
  intro k other found
  cases k with
  | zero =>
    cases found
    exact ⟨_, rfl, rfl, rfl, own.length_eq.symm, own⟩
  | succ k =>
    have place : i + 1 + k = i + (k + 1) := by omega
    exact place ▸ all.2 k other found

/-- The loop over all plugins hands every option over to its plugin, or stops
at a plugin that is given too many. -/
theorem passAll_handed (env : Env) (plugin : List Lib) (i : Nat) (copies : List Nat)
    (fresh : ∀ lib ∈ plugin, lib.optsToPass = [])
    (kinds : ∀ lib ∈ plugin, ∀ opt ∈ lib.longopts, opt.hasArg = 0 ∨ opt.hasArg = 1)
    (returned : ∀ k lib, plugin[k]? = some lib → WellReturned lib.longopts (env.longResults (i + k))) :
    (Fits env i plugin ∧ ∃ after copies', passAll env plugin i copies = (.going, after, copies') ∧
      AllHanded env i plugin after) ∨
    (¬ Fits env i plugin ∧ (passAll env plugin i copies).1 = .failed) := by
  induction plugin generalizing i copies with
  | nil => exact .inl ⟨by simp [Fits], [], copies, rfl, rfl, by simp⟩
  | cons lib rest ih =>
    have empty : lib.optsToPass = [] := fresh lib List.mem_cons_self
    have unused : lib.optsToPassLen = 0 := by simp [Lib.optsToPassLen, empty]
    obtain ⟨returnedFirst, returnedRest⟩ := (Loop.forall_place_cons
      (fun place (lib : Lib) => WellReturned lib.longopts (env.longResults place)) i lib rest).mp returned
    have own := passResults_handed (env.longResults i) lib copies (kinds lib List.mem_cons_self) returnedFirst
      (by omega)
    rw [unused, Nat.zero_add, empty] at own
    rw [fits_cons]
    rcases own with ⟨room, opts, more, going, handed⟩ | ⟨exceeds, failed⟩
    · have later := ih (i + 1) more (fun other member => fresh other (List.mem_cons_of_mem _ member))
        (fun other member => kinds other (List.mem_cons_of_mem _ member)) returnedRest
      simp only [passAll, going]
      rcases later with ⟨fits, after, copies', goingRest, all⟩ | ⟨exceeds, failedRest⟩
      · refine .inl ⟨⟨room, fits⟩, _, copies', ?_, AllHanded.cons handed all⟩
        rw [goingRest]
        rfl
      · refine .inr ⟨fun fits => exceeds fits.2, ?_⟩
        exact failedRest
    · refine .inr ⟨fun fits => by omega, ?_⟩
      simp only [passAll]
      generalize passResults (env.longResults i) lib copies = passed at failed ⊢
      obtain ⟨status, lib', copies'⟩ := passed
      cases failed
      rfl

theorem passAll_opendir (env : Env) (opendir : CString → Option (List Dirent)) (plugin : List Lib) (i : Nat)
    (copies : List Nat) : passAll { env with opendir := opendir } plugin i copies = passAll env plugin i copies := by
  induction plugin generalizing i copies with
  | nil => rfl
  | cons lib rest ih => simp only [passAll, ih]

/-- The option loop as `main` runs it. If no plugin is given more options than
its table has, the search starts with each plugin's own options in its block;
otherwise `main` goes to its end whatever there is to search. Nothing is ever
written outside of a plugin's block. -/
theorem options_handed_over (env : Env) (opts : ShortOpts) (silent : opts.vflag = false)
    (working : opts.hflag = false) (folderWorking : CString) (vars : Vars) (plugin : List Lib)
    (fresh : ∀ lib ∈ plugin, lib.optsToPass = [])
    (kinds : ∀ lib ∈ plugin, ∀ opt ∈ lib.longopts, opt.hasArg = 0 ∨ opt.hasArg = 1)
    (returned : ∀ k lib, plugin[k]? = some lib → WellReturned lib.longopts (env.longResults k)) :
    (Fits env 0 plugin → ∃ after memory,
      fillAll env (plugin.map Lib.longopts) 0 ⟨plugin.map (fun lib => .zeroed lib.longopts.length), []⟩ = .ok memory ∧
        List.Forall₂ Block.Holds memory.blocks after ∧ AllHanded env 0 plugin after ∧
        ∀ fuel, runOptions env opts fuel folderWorking vars plugin =
          runSearch env opts fuel folderWorking { vars with copies := memory.copies } after) ∧
    (¬ Fits env 0 plugin →
      fillAll env (plugin.map Lib.longopts) 0 ⟨plugin.map (fun lib => .zeroed lib.longopts.length), []⟩ =
          .error .tooMany ∧
        ∃ last, ∀ fuel opendir, runOptions { env with opendir := opendir } opts fuel folderWorking vars plugin =
          .quiet (.atEnd last)) ∧
    fillAll env (plugin.map Lib.longopts) 0 ⟨plugin.map (fun lib => .zeroed lib.longopts.length), []⟩ ≠
      .error .outside := by
  have zeroed : List.Forall₂ Block.Holds (plugin.map (fun lib => .zeroed lib.longopts.length)) plugin := by
    rw [List.forall₂_map_left_iff, List.forall₂_same]
    exact fun lib member => .zeroed (fresh lib member)
  have refines := fillAll_refines env [] _ plugin zeroed []
  have handed := passAll_handed env plugin 0 [] fresh kinds (by simpa using returned)
  simp only [List.nil_append, List.length_nil] at refines
  rcases handed with ⟨fits, after, copies, going, all⟩ | ⟨exceeds, failed⟩
  · rw [going] at refines
    obtain ⟨memory, filled, blocks, rfl, held⟩ := refines
    refine ⟨fun _ => ⟨after, _, filled, held, all, ?_⟩, fun exceeds => absurd fits exceeds, by simp [filled]⟩
    intro fuel
    simp only [runOptions, silent, working, Bool.false_eq_true, ↓reduceIte, going]
  · rw [failed] at refines
    have stopped : fillAll env (plugin.map Lib.longopts) 0
      ⟨plugin.map (fun lib => .zeroed lib.longopts.length), []⟩ = .error .tooMany := refines
    refine ⟨fun fits => absurd fits exceeds, fun _ => ⟨stopped, ?_⟩, by simp [stopped]⟩
    generalize last : passAll env plugin 0 [] = passed at failed
    obtain ⟨status, plugin', copies⟩ := passed
    cases failed
    refine ⟨{ vars with plugin := vars.plugin.map (fun _ => plugin'), copies := copies }, ?_⟩
    intro fuel opendir
    simp only [runOptions, silent, working, Bool.false_eq_true, ↓reduceIte, passAll_opendir, last]

def samplePlugins : List Lib :=
  [⟨[], [⟨"n".toList, 1, .null, 0⟩], (Plugin.constant 1).lib.ppfFunc⟩,
    ⟨[], [⟨"m".toList, 0, .null, 0⟩], (Plugin.constant 1).lib.ppfFunc⟩]

theorem options_handed_over_once :
    ∃ (after : List Lib) (memory : Memory),
      List.Forall₂ Block.Holds memory.blocks after ∧ memory.blocks.map Block.len = [1, 1] ∧
      ∀ fuel, runOptions (sampleEnv twoLibraries (some 8) []) .unset fuel "w".toList ⟨2, none, none, [], []⟩
          samplePlugins =
        runSearch (sampleEnv twoLibraries (some 8) []) .unset fuel "w".toList ⟨2, none, none, [], memory.copies⟩
          after := by
  have returned : ∀ k lib, samplePlugins[k]? = some lib →
      WellReturned lib.longopts ((sampleEnv twoLibraries (some 8) []).longResults k) := by
    intro k lib found optInd optarg member
    cases List.mem_singleton.mp member
    obtain ⟨inside, rfl⟩ := List.getElem?_eq_some_iff.mp found
    have few : k < 2 := inside
    interval_cases k
    · exact ⟨_, rfl, by decide⟩
    · exact ⟨_, rfl, by decide⟩
  have fits : Fits (sampleEnv twoLibraries (some 8) []) 0 samplePlugins := by
    intro k lib found
    obtain ⟨inside, rfl⟩ := List.getElem?_eq_some_iff.mp found
    have few : k < 2 := inside
    interval_cases k
    · exact Nat.le_refl 1
    · exact Nat.le_refl 1
  obtain ⟨after, memory, filled, held, _, search⟩ := (options_handed_over (sampleEnv twoLibraries (some 8) [])
    .unset rfl rfl "w".toList ⟨2, none, none, [], []⟩ samplePlugins (by decide) (by decide) returned).1 fits
  have computed : fillAll (sampleEnv twoLibraries (some 8) []) (samplePlugins.map Lib.longopts) 0
      ⟨samplePlugins.map (fun lib => .zeroed lib.longopts.length), []⟩ =
    .ok ⟨[⟨[some ⟨"n".toList, 1, .heap 0 "1".toList, 0⟩], 1⟩, ⟨[some ⟨"m".toList, 0, .null, 0⟩], 1⟩], [0]⟩ := rfl
  cases filled.symm.trans computed
  exact ⟨after, _, held, rfl, search⟩

end PluginSearch
