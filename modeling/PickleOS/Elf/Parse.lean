import PickleOS.Shared.Bytes
import PickleOS.Shared.Outcome

set_option autoImplicit false

namespace PickleOS.Elf

open Shared Shared.Outcome

/-- A byte slice. No object in memory has more than `isize::MAX` bytes. -/
structure Slice where
  bytes : List UInt8
  short : bytes.length < 2 ^ 63

namespace Slice

variable (data : Slice)

def len : UInt64 := UInt64.ofNat data.bytes.length

/-- The little-endian number in the `width` bytes from offset `off` on. -/
def field (off width : Nat) : Nat := Bytes.decode (Bytes.slice data.bytes off width)

theorem toNat_len : data.len.toNat = data.bytes.length := by
  have short := data.short
  simp only [len, UInt64.toNat_ofNat']
  omega

end Slice

inductive Fail where
  | err (message : String)
  | panic
  | diverges
  deriving DecidableEq

/-- The state is the list of indices at which the slice was read. -/
abbrev ParseM := EStateM Fail (List Nat)

/-- `data[i]`. -/
def byteAt (data : Slice) (i : UInt64) : ParseM UInt8 := fun reads =>
  match data.bytes[i.toNat]? with
  | some byte => .ok byte (i.toNat :: reads)
  | none => .error .panic reads

/-- `from_le_bytes([data[off], data[off + 1], ..])`. -/
def fromLeBytes (data : Slice) : UInt64 → Nat → ParseM Nat
  | _, 0 => pure 0
  | off, width + 1 => do
    let byte ← byteAt data off
    let rest ← fromLeBytes data (off + 1) width
    pure (byte.toNat + 256 * rest)

def u64At (data : Slice) (off : UInt64) : ParseM UInt64 := do
  let n ← fromLeBytes data off 8
  pure (UInt64.ofNat n)

def u32At (data : Slice) (off : UInt64) : ParseM UInt32 := do
  let n ← fromLeBytes data off 4
  pure (UInt32.ofNat n)

def u16At (data : Slice) (off : UInt64) : ParseM UInt16 := do
  let n ← fromLeBytes data off 2
  pure (UInt16.ofNat n)

def etExec : UInt16 := 2
def etDyn : UInt16 := 3
def emX8664 : UInt16 := 62
def ptLoad : UInt32 := 1
def ptDynamic : UInt32 := 2

def dtNull : UInt64 := 0
def dtNeeded : UInt64 := 1
def dtStrtab : UInt64 := 5
def dtSymtab : UInt64 := 6
def dtRela : UInt64 := 7
def dtRelasz : UInt64 := 8
def dtStrsz : UInt64 := 10

structure ElfHeader where
  entry : UInt64
  phoff : UInt64
  phnum : UInt16

structure Segment where
  vaddr : UInt64
  memsz : UInt64
  filesz : UInt64
  offset : UInt64
  flags : UInt32
  deriving DecidableEq

structure DynamicInfo where
  relaAddr : Option UInt64 := none
  relaSize : UInt64 := 0
  symtabAddr : Option UInt64 := none
  strtabAddr : Option UInt64 := none
  strtabSize : UInt64 := 0
  neededLibs : List String := []
  deriving DecidableEq

structure ElfBinary where
  entry : UInt64
  segments : List Segment
  dynamicInfo : DynamicInfo
  isDynamic : Bool
  deriving DecidableEq

structure Headers where
  segments : List Segment := []
  dynamicSegmentOffset : Option UInt64 := none
  dynamicSegmentSize : UInt64 := 0
  deriving DecidableEq

def programHeader (data : Slice) (off : UInt64) (found : Headers) : ParseM Headers := do
  let pType ← u32At data off
  if pType = ptDynamic then
    let pOffset ← u64At data (off + 8)
    let pFilesz ← u64At data (off + 32)
    pure { found with dynamicSegmentOffset := some pOffset, dynamicSegmentSize := pFilesz }
  else if pType ≠ ptLoad then
    pure found
  else
    let pFlags ← u32At data (off + 4)
    let pOffset ← u64At data (off + 8)
    let pVaddr ← u64At data (off + 16)
    let pFilesz ← u64At data (off + 32)
    let pMemsz ← u64At data (off + 40)
    let segment :=
      { vaddr := pVaddr, memsz := pMemsz, filesz := pFilesz, offset := pOffset, flags := pFlags }
    pure { found with segments := found.segments ++ [segment] }

/-- The loop over the headers `i`, `i + 1`, ..; `off + 56` wraps. -/
def programHeaders (data : Slice) (phoff : UInt64) : Nat → Nat → Headers → ParseM Headers
  | 0, _, found => pure found
  | remaining + 1, i, found => do
    let off := phoff + UInt64.ofNat i * 56
    if data.len < off + 56 then
      throw (.err "Program header out of bounds")
    let found ← programHeader data off found
    programHeaders data phoff remaining (i + 1) found

def DynamicInfo.record (info : DynamicInfo) (tag val : UInt64) : DynamicInfo :=
  if tag = dtRela then { info with relaAddr := some val }
  else if tag = dtRelasz then { info with relaSize := val }
  else if tag = dtSymtab then { info with symtabAddr := some val }
  else if tag = dtStrtab then { info with strtabAddr := some val }
  else if tag = dtStrsz then { info with strtabSize := val }
  else if tag = dtNeeded then { info with neededLibs := info.neededLibs ++ ["lib" ++ toString val.toNat] }
  else info

def dynamicEntries (data : Slice) (dynEnd : UInt64) : Nat → UInt64 → DynamicInfo → ParseM DynamicInfo
  | 0, _, _ => throw .diverges
  | fuel + 1, i, info =>
    if i + 16 ≤ dynEnd then do
      let tag ← u64At data i
      let val ← u64At data (i + 8)
      if tag = dtNull then pure info
      else dynamicEntries data dynEnd fuel (i + 16) (info.record tag val)
    else pure info

def dynamicSection (data : Slice) (found : Headers) : ParseM DynamicInfo :=
  match found.dynamicSegmentOffset with
  | none => pure {}
  | some dynStart =>
    let dynEnd := dynStart + found.dynamicSegmentSize
    -- Every entry that is read lies inside the slice, so this fuel is never used up.
    if dynEnd ≤ data.len then dynamicEntries data dynEnd (data.bytes.length + 1) dynStart {}
    else pure {}

def elfHeader (data : Slice) : ParseM (UInt16 × ElfHeader) := do
  if data.len < 64 then
    throw (.err "ELF file too small")
  let magic ← fromLeBytes data 0 4
  if magic ≠ Bytes.decode [0x7f, 0x45, 0x4c, 0x46] then
    throw (.err "Invalid ELF magic")
  let elfClass ← byteAt data 4
  if elfClass ≠ 2 then
    throw (.err "Not a 64-bit ELF")
  let encoding ← byteAt data 5
  if encoding ≠ 1 then
    throw (.err "Not little-endian")
  let eType ← u16At data 16
  let eMachine ← u16At data 18
  if eType ≠ etExec ∧ eType ≠ etDyn then
    throw (.err "Not an executable or shared object ELF")
  if eMachine ≠ emX8664 then
    throw (.err "Not x86-64")
  let entry ← u64At data 24
  let phoff ← u64At data 32
  let phnum ← u16At data 56
  pure (eType, { entry := entry, phoff := phoff, phnum := phnum })

def ElfBinary.parse (data : Slice) : ParseM ElfBinary := do
  let (eType, header) ← elfHeader data
  let found ← programHeaders data header.phoff header.phnum.toNat 0 {}
  let info ← dynamicSection data found
  pure
    { entry := header.entry
      segments := found.segments
      dynamicInfo := info
      isDynamic := eType = etDyn }

end PickleOS.Elf
