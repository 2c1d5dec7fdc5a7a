import PickleOS.Elf.Parse

set_option autoImplicit false

namespace PickleOS.Elf

open Shared Shared.Outcome

namespace Slice

variable (data : Slice)

def u64 (off : Nat) : UInt64 := UInt64.ofNat (data.field off 8)
def u32 (off : Nat) : UInt32 := UInt32.ofNat (data.field off 4)
def u16 (off : Nat) : UInt16 := UInt16.ofNat (data.field off 2)

def phoff : Nat := (data.u64 32).toNat
def phnum : Nat := (data.u16 56).toNat

def HasHeader : Prop :=
  64 ≤ data.bytes.length ∧ data.field 0 4 = Bytes.decode [0x7f, 0x45, 0x4c, 0x46] ∧
    data.bytes.getD 4 0 = 2 ∧ data.bytes.getD 5 0 = 1 ∧
    (data.u16 16 = etExec ∨ data.u16 16 = etDyn) ∧ data.u16 18 = emX8664

instance : Decidable data.HasHeader := by unfold HasHeader; infer_instance

end Slice

/-- The program header at offset `off`, read without a bounds test. -/
def Headers.add (data : Slice) (off : Nat) (found : Headers) : Headers :=
  if data.u32 off = ptDynamic then
    { found with dynamicSegmentOffset := some (data.u64 (off + 8)), dynamicSegmentSize := data.u64 (off + 32) }
  else if data.u32 off ≠ ptLoad then
    found
  else
    { found with
      segments := found.segments ++
        [{ vaddr := data.u64 (off + 16), memsz := data.u64 (off + 40), filesz := data.u64 (off + 32)
           offset := data.u64 (off + 8), flags := data.u32 (off + 4) }] }

def Headers.addMany (data : Slice) : Nat → Nat → Headers → Headers
  | 0, _, found => found
  | n + 1, off, found => addMany data n (off + 56) (found.add data off)

/-- Offset and size in the last `PT_DYNAMIC` header of the table. -/
def Slice.dynamicSegment (data : Slice) : Option (Nat × Nat) :=
  let found := Headers.addMany data data.phnum data.phoff {}
  found.dynamicSegmentOffset.map fun start => (start.toNat, found.dynamicSegmentSize.toNat)

/-- Every index that was read meanwhile lies in `[lo, hi)`. -/
def Added (lo hi : Nat) (reads last : List Nat) : Prop :=
  ∀ r ∈ last, r ∈ reads ∨ lo ≤ r ∧ r < hi

theorem Added.trans {lo hi : Nat} {reads middle last : List Nat} (first : Added lo hi reads middle)
    (second : Added lo hi middle last) : Added lo hi reads last := by
  intro r member
  cases second r member with
  | inl before => exact first r before
  | inr within => exact Or.inr within

theorem Added.refl (lo hi : Nat) (reads : List Nat) : Added lo hi reads reads := fun _ member => Or.inl member

theorem Added.widen {lo hi lo' hi' : Nat} {reads last : List Nat} (added : Added lo hi reads last)
    (low : lo' ≤ lo) (high : hi ≤ hi') : Added lo' hi' reads last := by
  intro r member
  cases added r member with
  | inl before => exact Or.inl before
  | inr within => exact Or.inr (by omega)

theorem toNat_add_ofNat (off : UInt64) (k : Nat) (small : off.toNat + k < 2 ^ 64) :
    (off + UInt64.ofNat k).toNat = off.toNat + k := by
  simp only [UInt64.toNat_add, UInt64.toNat_ofNat']
  omega

section Reading

variable (data : Slice) (off : UInt64) (reads : List Nat)

theorem ends_byteAt (inside : off.toNat < data.bytes.length) :
    Ends (byteAt data off) reads
      (fun byte last => byte = data.bytes.getD off.toNat 0 ∧ Added off.toNat (off.toNat + 1) reads last)
      fun _ _ => False := by
  have present : data.bytes[off.toNat]? = some data.bytes[off.toNat] := List.getElem?_eq_getElem inside
  simp only [Ends, byteAt, present]
  constructor
  · simp [List.getD, present]
  · intro r member
    cases List.mem_cons.mp member with
    | inl here => exact Or.inr (by omega)
    | inr before => exact Or.inl before

theorem byteAt_outside (outside : data.bytes.length ≤ off.toNat) :
    byteAt data off reads = .error .panic reads := by
  have absent : data.bytes[off.toNat]? = none := List.getElem?_eq_none outside
  simp only [byteAt, absent]

theorem field_succ (start width : Nat) (inside : start < data.bytes.length) :
    data.field start (width + 1) = (data.bytes.getD start 0).toNat + 256 * data.field (start + 1) width := by
  have split : data.bytes.drop start = data.bytes[start] :: data.bytes.drop (start + 1) :=
    List.drop_eq_getElem_cons inside
  have first : data.bytes.getD start 0 = data.bytes[start] := by simp [inside]
  simp only [Slice.field, Bytes.slice]
  rw [split, first, List.take_succ_cons, Bytes.decode]

theorem ends_fromLeBytes (width : Nat) (inside : off.toNat + width ≤ data.bytes.length) :
    Ends (fromLeBytes data off width) reads
      (fun n last => n = data.field off.toNat width ∧ Added off.toNat (off.toNat + width) reads last)
      fun _ _ => False := by
  induction width generalizing off reads with
  | zero =>
    simp only [fromLeBytes, ends_pure]
    exact ⟨by simp [Slice.field, Bytes.slice, Bytes.decode], Added.refl _ _ _⟩
  | succ width ih =>
    have short := data.short
    have next : (off + 1).toNat = off.toNat + 1 := toNat_add_ofNat off 1 (by omega)
    apply (ends_byteAt data off reads (by omega)).bind
    intro byte middle first
    apply (ih (off + 1) middle (by omega)).bind
    intro rest last second
    rw [next] at second
    constructor
    · rw [field_succ data _ _ (by omega), first.1, second.1]
    · exact (first.2.widen (Nat.le_refl _) (by omega)).trans (second.2.widen (by omega) (by omega))

theorem fromLeBytes_outside (width : Nat) (outside : data.bytes.length ≤ off.toNat) :
    fromLeBytes data off (width + 1) reads = .error .panic reads := by
  simp only [fromLeBytes, bind, EStateM.bind, byteAt_outside data off reads outside]

theorem ends_u64At (inside : off.toNat + 8 ≤ data.bytes.length) :
    Ends (u64At data off) reads
      (fun n last => n = data.u64 off.toNat ∧ Added off.toNat (off.toNat + 8) reads last)
      fun _ _ => False := by
  apply (ends_fromLeBytes data off reads 8 inside).bind
  intro n last read
  exact ⟨by rw [read.1]; rfl, read.2⟩

theorem ends_u32At (inside : off.toNat + 4 ≤ data.bytes.length) :
    Ends (u32At data off) reads
      (fun n last => n = data.u32 off.toNat ∧ Added off.toNat (off.toNat + 4) reads last)
      fun _ _ => False := by
  apply (ends_fromLeBytes data off reads 4 inside).bind
  intro n last read
  exact ⟨by rw [read.1]; rfl, read.2⟩

theorem ends_u16At (inside : off.toNat + 2 ≤ data.bytes.length) :
    Ends (u16At data off) reads
      (fun n last => n = data.u16 off.toNat ∧ Added off.toNat (off.toNat + 2) reads last)
      fun _ _ => False := by
  apply (ends_fromLeBytes data off reads 2 inside).bind
  intro n last read
  exact ⟨by rw [read.1]; rfl, read.2⟩

end Reading


theorem ends_programHeader (data : Slice) (off : UInt64) (found : Headers) (reads : List Nat)
    (inside : off.toNat + 56 ≤ data.bytes.length) :
    Ends (programHeader data off found) reads
      (fun result last => result = found.add data off.toNat ∧ Added off.toNat (off.toNat + 56) reads last)
      fun _ _ => False := by
  have short := data.short
  have at4 : (off + 4).toNat = off.toNat + 4 := toNat_add_ofNat off 4 (by omega)
  have at8 : (off + 8).toNat = off.toNat + 8 := toNat_add_ofNat off 8 (by omega)
  have at16 : (off + 16).toNat = off.toNat + 16 := toNat_add_ofNat off 16 (by omega)
  have at32 : (off + 32).toNat = off.toNat + 32 := toNat_add_ofNat off 32 (by omega)
  have at40 : (off + 40).toNat = off.toNat + 40 := toNat_add_ofNat off 40 (by omega)
  apply (ends_u32At data off reads (by omega)).bind
  intro pType r0 typed
  have base := typed.2.widen (Nat.le_refl _) (show off.toNat + 4 ≤ off.toNat + 56 by omega)
  rw [Headers.add, ← typed.1]
  by_cases dynamic : pType = ptDynamic
  · simp only [dynamic, if_true]
    apply (ends_u64At data (off + 8) r0 (by omega)).bind
    intro pOffset r1 first
    apply (ends_u64At data (off + 32) r1 (by omega)).bind
    intro pFilesz r2 second
    rw [at8] at first
    rw [at32] at second
    refine ⟨by rw [first.1, second.1], ?_⟩
    exact (base.trans (first.2.widen (by omega) (by omega))).trans (second.2.widen (by omega) (by omega))
  · simp only [dynamic, if_false]
    by_cases other : pType ≠ ptLoad
    · rw [if_pos other, if_pos other]
      exact ⟨rfl, base⟩
    · rw [if_neg other, if_neg other]
      apply (ends_u32At data (off + 4) r0 (by omega)).bind
      intro pFlags r1 flags
      apply (ends_u64At data (off + 8) r1 (by omega)).bind
      intro pOffset r2 offset
      apply (ends_u64At data (off + 16) r2 (by omega)).bind
      intro pVaddr r3 vaddr
      apply (ends_u64At data (off + 32) r3 (by omega)).bind
      intro pFilesz r4 filesz
      apply (ends_u64At data (off + 40) r4 (by omega)).bind
      intro pMemsz r5 memsz
      rw [at4] at flags
      rw [at8] at offset
      rw [at16] at vaddr
      rw [at32] at filesz
      rw [at40] at memsz
      refine ⟨by rw [flags.1, offset.1, vaddr.1, filesz.1, memsz.1], ?_⟩
      have low := (base.trans (flags.2.widen (by omega) (by omega))).trans
        (offset.2.widen (by omega) (by omega))
      have middle := (low.trans (vaddr.2.widen (by omega) (by omega))).trans
        (filesz.2.widen (by omega) (by omega))
      exact middle.trans (memsz.2.widen (by omega) (by omega))

theorem toNat_header (phoff : UInt64) (i : Nat) (small : phoff.toNat + 56 * i < 2 ^ 64) :
    (phoff + UInt64.ofNat i * 56).toNat = phoff.toNat + 56 * i := by
  have constant : (56 : UInt64).toNat = 56 := rfl
  simp only [UInt64.toNat_add, UInt64.toNat_mul, UInt64.toNat_ofNat', constant]
  omega

theorem ends_programHeaders (data : Slice) (phoff : UInt64) (remaining i : Nat) (found : Headers)
    (reads : List Nat) (unwrapped : remaining ≠ 0 → phoff.toNat + 56 * i + 56 < 2 ^ 64) :
    Ends (programHeaders data phoff remaining i found) reads
      (fun result last =>
        (remaining = 0 ∨ phoff.toNat + 56 * (i + remaining) ≤ data.bytes.length) ∧
          result = found.addMany data remaining (phoff.toNat + 56 * i) ∧
          Added (phoff.toNat + 56 * i) (phoff.toNat + 56 * (i + remaining)) reads last)
      (fun fail _ => (∃ message, fail = .err message) ∧ remaining ≠ 0 ∧
        data.bytes.length < phoff.toNat + 56 * (i + remaining)) := by
  -- Unless the first header to be read ends past the address space, every header is read or rejected.
  induction remaining generalizing i found reads with
  | zero => exact ⟨Or.inl rfl, rfl, Added.refl _ _ _⟩
  | succ remaining ih =>
    have short := data.short
    have bound := unwrapped (by omega)
    have here := toNat_header phoff i (by omega)
    have next : (phoff + UInt64.ofNat i * 56 + 56).toNat = phoff.toNat + 56 * i + 56 := by
      rw [← here]
      exact toNat_add_ofNat _ 56 (by omega)
    simp only [programHeaders, UInt64.lt_iff_toNat_lt, data.toNat_len, next]
    by_cases past : data.bytes.length < phoff.toNat + 56 * i + 56
    · simp only [past, if_true, ends_bind, ends_throw]
      exact ⟨⟨_, rfl⟩, by omega, by omega⟩
    · simp only [past, if_false]
      apply (ends_programHeader data _ found reads (by omega)).of_never.bind
      intro found' middle first
      rw [here] at first
      apply (ih (i + 1) found' middle (by omega)).imp
      · intro result last rest
        obtain ⟨fits, value, added⟩ := rest
        refine ⟨by omega, by rw [value, first.1]; rfl, ?_⟩
        exact (first.2.widen (by omega) (by omega)).trans (added.widen (by omega) (by omega))
      · intro fail last failed
        exact ⟨failed.1, by omega, by omega⟩

theorem programHeaders_wrapped (data : Slice) (phoff : UInt64) (remaining : Nat) (found : Headers)
    (reads : List Nat) (positive : remaining ≠ 0) (wraps : 2 ^ 64 ≤ phoff.toNat + 56)
    (long : 56 ≤ data.bytes.length) :
    programHeaders data phoff remaining 0 found reads = .error .panic reads := by
  have short := data.short
  obtain ⟨n, rfl⟩ := Nat.exists_eq_succ_of_ne_zero positive
  have here : phoff + UInt64.ofNat 0 * 56 = phoff := by simp
  have bound := phoff.toNat_lt
  have constant : (56 : UInt64).toNat = 56 := rfl
  have passes : ¬data.len < phoff + 56 := by
    simp only [UInt64.lt_iff_toNat_lt, data.toNat_len, UInt64.toNat_add, constant]
    omega
  have outside : programHeader data phoff found reads = .error .panic reads := by
    simp only [programHeader, u32At, bind, EStateM.bind, fromLeBytes_outside data phoff reads 3 (by omega)]
  simp only [programHeaders, here, passes, if_false, bind, EStateM.bind, outside]

end PickleOS.Elf
