import PickleOS.Elf.ParseBounds

set_option autoImplicit false

namespace PickleOS.Elf

open Shared Shared.Outcome

theorem ends_elfHeader (data : Slice) :
    Ends (elfHeader data) []
      (fun result last => data.HasHeader ∧ result.2.phoff.toNat = data.phoff ∧
        result.2.phnum.toNat = data.phnum ∧
        Added 0 64 [] last)
      (fun fail _ => (∃ message, fail = .err message) ∧ ¬data.HasHeader) := by
  simp only [elfHeader, UInt64.lt_iff_toNat_lt, data.toNat_len]
  by_cases short : data.bytes.length < 64
  · simp only [show (64 : UInt64).toNat = 64 from rfl, short, if_true, ends_bind, ends_throw]
    exact ⟨⟨_, rfl⟩, fun header => by have := header.1; omega⟩
  simp only [show (64 : UInt64).toNat = 64 from rfl, short, if_false]
  apply (ends_fromLeBytes data 0 [] 4 (by simp; omega)).of_never.bind
  intro magic r0 read0
  by_cases wrong : magic ≠ Bytes.decode [0x7f, 0x45, 0x4c, 0x46]
  · rw [if_pos wrong]
    exact ⟨⟨_, rfl⟩, fun header => wrong (read0.1.trans header.2.1)⟩
  rw [if_neg wrong]
  apply (ends_byteAt data 4 r0 (by simp; omega)).of_never.bind
  intro elfClass r1 read1
  by_cases wrongClass : elfClass ≠ 2
  · rw [if_pos wrongClass]
    exact ⟨⟨_, rfl⟩, fun header => wrongClass (read1.1.trans header.2.2.1)⟩
  rw [if_neg wrongClass]
  apply (ends_byteAt data 5 r1 (by simp; omega)).of_never.bind
  intro encoding r2 read2
  by_cases wrongEncoding : encoding ≠ 1
  · rw [if_pos wrongEncoding]
    exact ⟨⟨_, rfl⟩, fun header => wrongEncoding (read2.1.trans header.2.2.2.1)⟩
  rw [if_neg wrongEncoding]
  apply (ends_u16At data 16 r2 (by simp; omega)).of_never.bind
  intro eType r3 read3
  apply (ends_u16At data 18 r3 (by simp; omega)).of_never.bind
  intro eMachine r4 read4
  by_cases wrongType : eType ≠ etExec ∧ eType ≠ etDyn
  · rw [if_pos wrongType]
    refine ⟨⟨_, rfl⟩, fun header => ?_⟩
    cases header.2.2.2.2.1 with
    | inl exec => exact wrongType.1 (read3.1.trans exec)
    | inr dyn => exact wrongType.2 (read3.1.trans dyn)
  rw [if_neg wrongType]
  by_cases wrongMachine : eMachine ≠ emX8664
  · rw [if_pos wrongMachine]
    exact ⟨⟨_, rfl⟩, fun header => wrongMachine (read4.1.trans header.2.2.2.2.2)⟩
  rw [if_neg wrongMachine]
  apply (ends_u64At data 24 r4 (by simp; omega)).of_never.bind
  intro entry r5 read5
  apply (ends_u64At data 32 r5 (by simp; omega)).of_never.bind
  intro phoff r6 read6
  apply (ends_u16At data 56 r6 (by simp; omega)).of_never.bind
  intro phnum r7 read7
  simp only [ne_eq, not_not, not_and_or] at wrong wrongClass wrongEncoding wrongType wrongMachine
  refine ⟨⟨by omega, read0.1.symm.trans wrong, read1.1.symm.trans wrongClass, read2.1.symm.trans wrongEncoding,
    ?_, read4.1.symm.trans wrongMachine⟩, ?_, ?_, ?_⟩
  · rw [read3.1] at wrongType
    exact wrongType
  · rw [read6.1]
    rfl
  · rw [read7.1]
    rfl
  · have within (lo hi : Nat) (high : hi ≤ 64) {r s : List Nat} (added : Added lo hi r s) : Added 0 64 r s :=
      added.widen (Nat.zero_le _) high
    have checks := (within _ _ (by decide) read0.2).trans
      ((within _ _ (by decide) read1.2).trans (within _ _ (by decide) read2.2))
    have kinds := checks.trans ((within _ _ (by decide) read3.2).trans (within _ _ (by decide) read4.2))
    have table := (within _ _ (by decide) read6.2).trans (within _ _ (by decide) read7.2)
    exact kinds.trans ((within _ _ (by decide) read5.2).trans table)

theorem ends_dynamicEntries (data : Slice) (dynEnd i : UInt64) (fuel : Nat) (info : DynamicInfo)
    (reads : List Nat)
    (ordered : i.toNat ≤ dynEnd.toNat) (inside : dynEnd.toNat ≤ data.bytes.length)
    (enough : dynEnd.toNat < i.toNat + 16 * fuel) :
    Ends (dynamicEntries data dynEnd fuel i info) reads
      (fun _ last => Added i.toNat dynEnd.toNat reads last) fun _ _ => False := by
  have short := data.short
  induction fuel generalizing i info reads with
  | zero => omega
  | succ fuel ih =>
    have at8 : (i + 8).toNat = i.toNat + 8 := toNat_add_ofNat i 8 (by omega)
    have at16 : (i + 16).toNat = i.toNat + 16 := toNat_add_ofNat i 16 (by omega)
    simp only [dynamicEntries, UInt64.le_iff_toNat_le, at16]
    by_cases room : i.toNat + 16 ≤ dynEnd.toNat
    · rw [if_pos room]
      apply (ends_u64At data i reads (by omega)).bind
      intro tag r0 read0
      apply (ends_u64At data (i + 8) r0 (by omega)).bind
      intro val r1 read1
      rw [at8] at read1
      have entry := (read0.2.widen (Nat.le_refl _) (by omega)).trans (read1.2.widen (by omega) room)
      by_cases last : tag = dtNull
      · rw [if_pos last]
        exact entry.widen (Nat.le_refl _) (Nat.le_refl _)
      · rw [if_neg last]
        apply (ih (i + 16) (info.record tag val) r1 (by omega) (by omega)).imp
        · intro _ last rest
          exact entry.trans (rest.widen (by omega) (Nat.le_refl _))
        · exact fun _ _ never => never
    · rw [if_neg room]
      exact Added.refl _ _ _

/-- The loop over the dynamic entries starts where `i + 16` wraps and then passes its bound. -/
def DynamicWraps (data : Slice) (start size : Nat) : Prop :=
  2 ^ 64 - 16 ≤ start ∧ 16 ≤ size ∧ start + size - 2 ^ 64 ≤ data.bytes.length

instance (data : Slice) (start size : Nat) : Decidable (DynamicWraps data start size) := by
  unfold DynamicWraps
  infer_instance

theorem ends_dynamicSection (data : Slice) (found : Headers) (reads : List Nat)
    (safe : ∀ start, found.dynamicSegmentOffset = some start →
      ¬DynamicWraps data start.toNat found.dynamicSegmentSize.toNat) :
    Ends (dynamicSection data found) reads
      (fun _ last => last = reads ∨ ∃ start, found.dynamicSegmentOffset = some start ∧
        start.toNat + found.dynamicSegmentSize.toNat ≤ data.bytes.length ∧
        Added start.toNat (start.toNat + found.dynamicSegmentSize.toNat) reads last)
      fun _ _ => False := by
  have short := data.short
  cases present : found.dynamicSegmentOffset with
  | none =>
    simp only [dynamicSection, present]
    exact Or.inl rfl
  | some start =>
    have sum := UInt64.toNat_add start found.dynamicSegmentSize
    have sized := found.dynamicSegmentSize.toNat_lt
    have placed := start.toNat_lt
    have sixteen : (16 : UInt64).toNat = 16 := rfl
    simp only [dynamicSection, present, UInt64.le_iff_toNat_le, data.toNat_len]
    by_cases passes : (start + found.dynamicSegmentSize).toNat ≤ data.bytes.length
    · rw [if_pos passes]
      by_cases wraps : 2 ^ 64 ≤ start.toNat + found.dynamicSegmentSize.toNat
      · -- The end lies before the start, and the first entry does not fit below it.
        have unread := safe start present
        rw [DynamicWraps] at unread
        have empty : ¬start + 16 ≤ start + found.dynamicSegmentSize := by
          simp only [UInt64.le_iff_toNat_le, UInt64.toNat_add, sixteen]
          omega
        simp only [dynamicEntries, empty, if_false]
        exact Or.inl rfl
      · have total : (start + found.dynamicSegmentSize).toNat = start.toNat +
          found.dynamicSegmentSize.toNat := by
          omega
        apply (ends_dynamicEntries data (start + found.dynamicSegmentSize) start (data.bytes.length + 1)
          {} reads
          (by omega) passes (by omega)).imp
        · intro _ last added
          rw [total] at added
          exact Or.inr ⟨start, rfl, by omega, added⟩
        · exact fun _ _ never => never
    · rw [if_neg passes]
      exact Or.inl rfl

theorem dynamicSection_wrapped (data : Slice) (found : Headers) (reads : List Nat) {start : UInt64}
    (present : found.dynamicSegmentOffset = some start)
    (wraps : DynamicWraps data start.toNat found.dynamicSegmentSize.toNat) :
    dynamicSection data found reads = .error .panic reads := by
  have short := data.short
  obtain ⟨high, sized, passes⟩ := wraps
  have placed := start.toNat_lt
  have small := found.dynamicSegmentSize.toNat_lt
  have sixteen : (16 : UInt64).toNat = 16 := rfl
  have enters : start + found.dynamicSegmentSize ≤ data.len := by
    simp only [UInt64.le_iff_toNat_le, UInt64.toNat_add, data.toNat_len]
    omega
  have loops : start + 16 ≤ start + found.dynamicSegmentSize := by
    simp only [UInt64.le_iff_toNat_le, UInt64.toNat_add, sixteen]
    omega
  simp only [dynamicSection, present, enters, if_true, dynamicEntries, loops, u64At, bind, EStateM.bind,
    fromLeBytes_outside data start reads 7 (by omega)]

/-- The parts of the input that `parse` may look at. -/
inductive Slice.Belongs (data : Slice) (r : Nat) : Prop
  | header (inside : r < 64)
  | programHeader (i : Nat) (listed : i < data.phnum) (low : data.phoff + 56 * i ≤ r)
      (high : r < data.phoff + 56 * (i + 1))
  | dynamicEntry (start size : Nat) (last : data.dynamicSegment = some (start, size)) (low : start ≤ r)
      (high : r < start + size)

/-- `parse` returns, and on success it has read the header, the program headers and the dynamic
entries only, each of them inside the input. -/
def ParsedInside (data : Slice) : Prop :=
  Ends (ElfBinary.parse data) []
    (fun _ reads => (∀ i, i < data.phnum → data.phoff + 56 * (i + 1) ≤ data.bytes.length) ∧
      ∀ r ∈ reads, r < data.bytes.length ∧ data.Belongs r)
    fun fail _ => ∃ message, fail = .err message

/-- The bounds test on the first program header adds past the end of the address space. -/
def Slice.HeaderWraps (data : Slice) : Prop :=
  data.HasHeader ∧ data.phnum ≠ 0 ∧ 2 ^ 64 - 56 ≤ data.phoff

/-- All program headers are inside, and the last dynamic segment has a table that wraps. -/
def Slice.TableWraps (data : Slice) : Prop :=
  data.HasHeader ∧ data.phoff + 56 * data.phnum ≤ data.bytes.length ∧
    ∃ start size, data.dynamicSegment = some (start, size) ∧ DynamicWraps data start size

theorem Slice.parse_wraps (data : Slice) (wraps : data.HeaderWraps ∨ data.TableWraps) :
    ∃ reads, ElfBinary.parse data [] = .error .panic reads := by
  have header : data.HasHeader := by
    cases wraps with
    | inl first => exact first.1
    | inr table => exact table.1
  have long := header.1
  have ends := ends_elfHeader data
  simp only [ElfBinary.parse, bind, EStateM.bind]
  cases start : elfHeader data [] with
  | error fail last =>
    simp only [Ends, start] at ends
    exact absurd header ends.2
  | ok result last =>
    simp only [Ends, start] at ends
    obtain ⟨_, phoff, phnum, _⟩ := ends
    cases wraps with
    | inl first =>
      have panics := programHeaders_wrapped data result.2.phoff result.2.phnum.toNat {} last
        (by rw [phnum]; exact first.2.1) (by rw [phoff]; have := first.2.2; omega) (by omega)
      simp only [panics]
      exact ⟨_, rfl⟩
    | inr table =>
      obtain ⟨_, room, from', size, segment, overflow⟩ := table
      have short := data.short
      have scanned := ends_programHeaders data result.2.phoff result.2.phnum.toNat 0 {} last
        (by rw [phnum, phoff]; omega)
      rw [phoff, phnum] at scanned
      cases scan : programHeaders data result.2.phoff result.2.phnum.toNat 0 {} last with
      | error fail middle =>
        have failed := scanned.of_error (by rw [← phnum]; exact scan)
        omega
      | ok found middle =>
        have value := (scanned.of_ok (by rw [← phnum]; exact scan)).2.1
        rw [Nat.mul_zero, Nat.add_zero] at value
        simp only [Slice.dynamicSegment, ← value, Option.map_eq_some_iff, Prod.mk.injEq] at segment
        obtain ⟨pointer, present, rfl, rfl⟩ := segment
        simp only [scan, dynamicSection_wrapped data found middle present overflow]
        exact ⟨_, rfl⟩

theorem Slice.parsedInside_of_unwrapped (data : Slice) (first : ¬data.HeaderWraps) (table : ¬data.TableWraps) :
    ParsedInside data := by
  have short := data.short
  have failing : ∀ (fail : Fail) (last : List Nat), False → ∃ message, fail = .err message :=
    fun _ _ never => never.elim
  apply ((ends_elfHeader data).imp (fun _ _ done => done) fun _ _ failed => failed.1).bind
  intro result r0 read
  obtain ⟨header, phoff, phnum, top⟩ := read
  have long := header.1
  apply ((ends_programHeaders data result.2.phoff result.2.phnum.toNat 0 {} r0 ?_).imp
    (fun _ _ done => done) fun _ _ failed => failed.1).bind
  · intro found r1 scan
    obtain ⟨room, value, rows⟩ := scan
    simp only [phoff, phnum, Nat.mul_zero, Nat.add_zero, Nat.zero_add] at room value rows
    have segment : data.dynamicSegment =
        found.dynamicSegmentOffset.map fun start => (start.toNat, found.dynamicSegmentSize.toNat) := by
      rw [Slice.dynamicSegment, value]
    -- Without program headers there is no dynamic segment either.
    have none (zero : data.phnum = 0) : found.dynamicSegmentOffset = none := by
      rw [value, zero]
      rfl
    apply (ends_dynamicSection data found r1 ?_).of_never.bind
    · intro info r2 dynamic
      refine ⟨fun i listed => by omega, ?_⟩
      have early (r : Nat) (member : r ∈ r1) : r < data.bytes.length ∧ data.Belongs r := by
        cases rows r member with
        | inl before =>
          cases top r before with
          | inl never => simp at never
          | inr within => exact ⟨by omega, .header within.2⟩
        | inr within =>
          refine ⟨by omega, .programHeader ((r - data.phoff) / 56) (by omega) (by omega) (by omega)⟩
      intro r member
      cases dynamic with
      | inl same =>
        rw [same] at member
        exact early r member
      | inr entries =>
        obtain ⟨start, present, fits, added⟩ := entries
        cases added r member with
        | inl before => exact early r before
        | inr within =>
          exact ⟨by omega, .dynamicEntry start.toNat found.dynamicSegmentSize.toNat
            (by rw [segment, present]; rfl)
            within.1 within.2⟩
    · intro start present overflow
      have listed : data.phnum ≠ 0 := fun zero => by rw [none zero] at present; simp at present
      exact table ⟨header, by omega, _, _, by rw [segment, present]; rfl, overflow⟩
  · intro positive
    rw [phnum] at positive
    rw [phoff]
    have low : ¬2 ^ 64 - 56 ≤ data.phoff := fun high => first ⟨header, positive, high⟩
    omega

theorem parse_inside_iff (data : Slice) : ParsedInside data ↔ ¬(data.HeaderWraps ∨ data.TableWraps) := by
  constructor
  · intro inside wraps
    obtain ⟨reads, panics⟩ := data.parse_wraps wraps
    obtain ⟨message, failed⟩ := inside.of_error panics
    simp at failed
  · intro neither
    rw [not_or] at neither
    exact data.parsedInside_of_unwrapped neither.1 neither.2

/-- A bare x86-64 executable header: one program header, at the last byte of the address space. -/
def wrappingElf : Slice where
  bytes := [0x7f, 0x45, 0x4c, 0x46, 2, 1] ++ List.replicate 10 0 ++ [2, 0, 62, 0] ++ List.replicate 12 0 ++
    List.replicate 8 255 ++ List.replicate 16 0 ++ [1, 0] ++ List.replicate 6 0
  short := by decide

theorem parse_panics : ¬ParsedInside wrappingElf := by
  have header : wrappingElf.HasHeader := by decide
  have phoff : wrappingElf.phoff = 2 ^ 64 - 1 := by decide
  have phnum : wrappingElf.phnum = 1 := by decide
  have wraps : wrappingElf.HeaderWraps := ⟨header, by omega, by omega⟩
  obtain ⟨reads, panics⟩ := wrappingElf.parse_wraps (Or.inl wraps)
  intro inside
  obtain ⟨message, failed⟩ := inside.of_error panics
  simp at failed

end PickleOS.Elf
