import PluginSearch.Api
import PluginSearch.Basis.Loop
import PluginSearch.Basis.Memory

/-! `libnhhN3249`: search a file for the bytes of a number given in
hexadecimal (`0x`), binary (`0b`) or decimal notation. -/

namespace PluginSearch.BitSeq

open Numeral Memory Loop

def optBitSeq : CString := "bit-seq".toList

/-- The memory of a `long long` on a little-endian host, followed by whatever
lies behind that variable. -/
def patternImage (pattern : Int) (beyond : Nat → UInt8) (offset : Nat) : UInt8 :=
  if offset < 8 then UInt8.ofNat ((pattern % 2 ^ 64).toNat / 256 ^ offset % 256)
  else beyond (offset - 8)

/-- One turn of the loop of `bit_seq_match`; `fSize - pos` wraps as `size_t`. -/
def bitSeqTurn (buffer : List UInt8) (image : Nat → UInt8) (pSize : Nat) (fSize pos : UInt64) :
    Turn UInt64 Int :=
  if (fSize - pos).toNat ≥ pSize then
    if memcmp (fun i => buffer.getD (pos.toNat + i) 0) image pSize = 0 then .leave 1
    else .again (pos + 1)
  else .leave 0

def bitSeqMatch (buffer : List UInt8) (image : Nat → UInt8) (pSize : Nat) (fSize : UInt64) : Option Int :=
  run (bitSeqTurn buffer image pSize fSize) (fSize.toNat + 1) 0

/-- The base of a numeral, from its first two characters. -/
def numeralBase (pat : CString) : Nat :=
  if pat.take 2 = "0x".toList ∨ pat.take 2 = "0X".toList then 16
  else if pat.take 2 = "0b".toList ∨ pat.take 2 = "0B".toList then 2
  else 10

/-- The local variables of the option loop. `pat` points into the argument of
an option: the option's index and an offset. -/
structure Parse where
  pat : Option (Nat × Nat)
  patSize : Nat
  gotBitSeq : Bool
  pattern : Int
  inOpts : List Opt
  writes : List PluginEvent

def Parse.start (inOpts : List Opt) : Parse := ⟨none, 0, false, 0, inOpts, []⟩

def textAt (inOpts : List Opt) (pointer : Nat × Nat) : Option CString := do
  let opt ← inOpts[pointer.1]?
  match opt.flag with
  | .heap _ text => if pointer.2 ≤ text.length then some (text.drop pointer.2) else none
  | _ => none

def Flag.overwrite (offset : Nat) (written : CString) : Flag → Flag
  | .heap block text => .heap block (text.take offset ++ written)
  | flag => flag

/-- `sprintf` over the string at a pointer. -/
def Parse.sprintf (state : Parse) (pointer : Nat × Nat) (written : CString) : Parse :=
  { state with
    inOpts := state.inOpts.modify pointer.1
      (fun opt => { opt with flag := Flag.overwrite pointer.2 written opt.flag })
    writes := state.writes ++ [.wrote pointer.1 pointer.2 written] }

inductive Parsed where
  | rejected (state : Parse)
  | accepted (state : Parse)

/-- Convert the argument at a pointer, then measure it. A decimal argument is
rewritten in place, first in hexadecimal to be measured. -/
def convertAt (pointer : Nat × Nat) (state : Parse) : Option Parsed := do
  let text ← textAt state.inOpts pointer
  let base := numeralBase text
  let pointer := if base = 2 then (pointer.1, pointer.2 + 2) else pointer
  let text := if base = 2 then text.drop 2 else text
  let (pattern, endptr) := strtoll text base
  let state := { state with pat := some pointer, pattern := pattern, gotBitSeq := true }
  if endptr ≠ [] then
    return .rejected { state with gotBitSeq := false }
  else if base = 16 then
    return .accepted { state with
      pat := some (pointer.1, pointer.2 + 2)
      patSize := ((text.drop 2).length + 1) / 2 }
  else if base = 2 then
    return .accepted { state with patSize := (text.length + 7) / 8 }
  else
    let state := state.sprintf pointer (llx pattern)
    let hex ← textAt state.inOpts pointer
    let state := { state with patSize := (hex.length + 1) / 2 }
    return .accepted (state.sprintf pointer (lld pattern))

/-- The body of the option loop: an option of another name leaves `pat` where
the one before it put it. -/
def parseOption (index : Nat) (state : Parse) : Option Parsed := do
  let opt ← state.inOpts[index]?
  let pointer ← if opt.name = optBitSeq then some (index, 0) else state.pat
  convertAt pointer state

def parseOptions : List Nat → Parse → Option Parsed
  | [], state => some (.accepted state)
  | index :: rest, state => do
    match ← parseOption index state with
    | .rejected state => return .rejected state
    | .accepted state => parseOptions rest state

/-- `plugin_process_file`. The `EINVAL` returns leave without passing `END`,
where the descriptor is closed. -/
def pluginProcessFile (file : FileAccess) (inOpts : List Opt) (inOptsLen : Nat) : Option Outcome :=
  match file.openErrno with
  | some errno => some ⟨-1, errno, inOpts, []⟩
  | none =>
    match file.fstatErrno with
    | some errno => some ⟨-1, errno, inOpts, [.opened, .closed]⟩
    | none =>
      if file.content.length = 0 then some ⟨-1, .erange, inOpts, [.opened, .closed]⟩
      else if inOptsLen = 0 then some ⟨-1, .einval, inOpts, [.opened]⟩
      else do
        match ← parseOptions (List.range inOptsLen) (Parse.start inOpts) with
        | .rejected state => return ⟨-1, .einval, state.inOpts, .opened :: state.writes⟩
        | .accepted state =>
          if !state.gotBitSeq then return ⟨-1, .einval, state.inOpts, .opened :: state.writes⟩
          else
            match file.mmapErrno with
            | some errno => return ⟨-1, errno, state.inOpts, .opened :: state.writes ++ [.closed]⟩
            | none =>
              let ret ← bitSeqMatch file.content (patternImage state.pattern file.beyond) state.patSize
                (UInt64.ofNat file.content.length)
              return ⟨ret, .zero, state.inOpts, .opened :: state.writes ++
                [.mapped, .searched state.pattern state.patSize, .closed, .unmapped]⟩

end PluginSearch.BitSeq
