import PickleOS.Elf.Relocations

set_option autoImplicit false

/-!
# The words of the relocations

The loader stores a word through the physical-memory window. What does not fit in the target's page
goes into the frame behind, whatever that is.
-/

namespace PickleOS.Elf

open Memory Shared Shared.Bytes Shared.Outcome Shared.Machine

def ElfBinary.Owns (bin : ElfBinary) (x : Mapper) (q : Nat) : Prop :=
  ∃ seg, seg ∈ bin.segments.map (Segment.based dynamicBase) ∧ seg.Maps x q

def frameOf (m : MemoryManager) (cr3 : Frame) (q : Nat) : Nat := (m.lookup cr3 3 q).frame

namespace Relocation

variable (r : Relocation) (P : Nat → Prop) (cr3 : Frame)

/-- Exactly the eight bytes at the target change, which are in pages of the program, to the value of
the relocation. In particular no byte changes of a frame that was in use `before`. -/
structure Stored (before m m' : MemoryManager) : Prop where
  own : ∀ i, i < 8 → P ((r.target + i) / 4096)
  word : ∀ i, i < 8 → some (m'.byte (frameOf m cr3 ((r.target + i) / 4096)) ((r.target + i) % 4096)) =
    (encode 8 r.value.toNat)[i]?
  rest : ∀ (f off : Nat), off < 4096 → (∀ i, i < 8 → f = frameOf m cr3 ((r.target + i) / 4096) →
    off ≠ (r.target + i) % 4096) →
    m'.byte f off = m.byte f off
  old : ∀ (f off : Nat), off < 4096 → ¬before.Fresh f → m'.byte f off = m.byte f off

/-- Whatever memory holds, the relocation is stored like this if it is done. -/
def Exact (x : Mapper) (before m : MemoryManager) : Prop :=
  ∀ byte m', relocate x cr3 (UInt64.ofNat r.target) r.value { m with byte } = .ok () m' →
    r.Stored P cr3 before { m with byte } m'

/-- The word is in a page of the program, or in two of them with frames one behind the other. -/
def Fits (m : MemoryManager) : Prop :=
  P (r.target / 4096) ∧
    (r.target % 4096 ≤ 4088 ∨ P (r.target / 4096 + 1) ∧
      frameOf m cr3 (r.target / 4096 + 1) = frameOf m cr3 (r.target / 4096) + 1)

end Relocation

section Stores

variable {x : Mapper} {before m m' : MemoryManager} {cr3 : Frame} {P : Nat → Prop} {target value : UInt64}

theorem relocate_ok {addr : Nat} {f : Frame} {flags : Flags} (fine : x.virtAddr target.toNat = some addr)
    (translated : x.translate m cr3 (addr / 4096) = some (f, flags)) :
    relocate x cr3 target value m = .ok () (writePhysical m (f * 4096 + addr % 4096)
      (encode 8 value.toNat)) := by
  unfold relocate LoadM.virtAddr
  rw [fine]
  simp only [Bind.bind, EStateM.bind, pure, EStateM.pure, get_apply, translated]
  rfl

theorem writePhysical_table (m : MemoryManager) (addr : Nat) (bytes : List UInt8) :
    writePhysical m addr bytes = { m with byte := (writePhysical m addr bytes).byte } := by
  induction bytes generalizing m addr with
  | nil => rfl
  | cons byte rest ih =>
    rw [writePhysical, ih]
    rfl

theorem writePhysical_byte (m : MemoryManager) (addr : Nat) (bytes : List UInt8)
    {f off : Nat} (small : off < 4096) :
    (writePhysical m addr bytes).byte f off =
      if addr ≤ f * 4096 + off ∧ f * 4096 + off < addr + bytes.length then
        bytes.getD (f * 4096 + off - addr) 0 else m.byte f off := by
  induction bytes generalizing m addr with
  | nil => rw [writePhysical, if_neg (by simp)]
  | cons byte rest ih =>
    have stored : (m.setByte (addr / 4096) (addr % 4096) byte).byte f off = if f * 4096 + off = addr then
      byte else m.byte f off := by
      rw [MemoryManager.setByte]
      by_cases frame : f = addr / 4096
      · subst frame
        rw [setPage_byte, Function.update_apply]
        exact if_congr (by omega) rfl rfl
      · rw [if_neg (by omega)]
        exact congrFun (Function.update_of_ne frame ..) off
    rw [writePhysical, ih, stored, List.length_cons]
    rcases Nat.lt_trichotomy (f * 4096 + off) addr with below | here | above
    · rw [if_neg (by omega), if_neg (by omega), if_neg (by omega)]
    · rw [if_neg (by omega), if_pos here, if_pos (by omega), here, Nat.sub_self]
      rfl
    · have inside : addr + 1 ≤ f * 4096 + off ∧ f * 4096 + off < addr + 1 + rest.length ↔
          addr ≤ f * 4096 + off ∧ f * 4096 + off < addr + (rest.length + 1) := by omega
      have index : f * 4096 + off - addr = f * 4096 + off - (addr + 1) + 1 := by omega
      rw [if_congr inside rfl rfl, if_neg (show ¬f * 4096 + off = addr by omega), index, List.getD_cons_succ]

end Stores

namespace Relocation

variable {x : Mapper} {before m m' : MemoryManager} {cr3 : Frame} {P : Nat → Prop} {r : Relocation}

theorem stored_of_fits (lodged : Lodged before cr3 P m)
    (pages : ∀ q, P q → q < 2 ^ 35 ∨ 2 ^ 52 - 2 ^ 35 ≤ q) (bound : r.target < 2 ^ 64)
    (fits : r.Fits P cr3 m) (done : relocate x cr3 (UInt64.ofNat r.target) r.value m = .ok () m') :
      r.Stored P cr3 before m m' := by
  obtain ⟨addr, f, flags, fine, translated, rfl⟩ := relocate_returned done
  obtain ⟨own, next⟩ := fits
  have page := pages _ own
  rw [UInt64.toNat_ofNat_of_lt' bound, x.virtAddr_same (by omega)] at fine
  obtain rfl := Option.some.inj fine
  obtain ⟨flags', translated'⟩ := lodged.translates x own
  rw [translated] at translated'
  obtain rfl : f = frameOf m cr3 (r.target / 4096) := congrArg Prod.fst (Option.some.inj translated')
  have length : (encode 8 r.value.toNat).length = 8 := encode_length 8 _
  have place (i : Nat) (small : i < 8) : P ((r.target + i) / 4096) ∧
      frameOf m cr3 ((r.target + i) / 4096) * 4096 + (r.target + i) % 4096 =
        frameOf m cr3 (r.target / 4096) * 4096 + r.target % 4096 + i := by
    by_cases here : r.target % 4096 + i < 4096
    · have same : (r.target + i) / 4096 = r.target / 4096 := by omega
      rw [same]
      exact ⟨own, by omega⟩
    · rcases next with whole | ⟨own', behind⟩
      · omega
      · have same : (r.target + i) / 4096 = r.target / 4096 + 1 := by omega
        rw [same, behind]
        exact ⟨own', by omega⟩
  have rest (g off : Nat) (small : off < 4096)
    (other : ∀ i, i < 8 → g = frameOf m cr3 ((r.target + i) / 4096) → off ≠ (r.target + i) % 4096) :
      (writePhysical m (frameOf m cr3 (r.target / 4096) * 4096 + r.target % 4096)
      (encode 8 r.value.toNat)).byte g off = m.byte g off := by
    rw [writePhysical_byte _ _ _ small, length, if_neg]
    rintro ⟨low, high⟩
    obtain ⟨i, reached⟩ := Nat.exists_eq_add_of_le low
    have at' := (place i (by omega)).2
    exact other i (by omega) (by omega) (by omega)
  refine ⟨fun i small => (place i small).1, fun i small => ?_, rest,
    fun g off small used => rest g off small fun i inside same => ?_⟩
  · rw [writePhysical_byte _ _ _ (Nat.mod_lt _ (by decide)), length, (place i small).2, if_pos (by omega),
      Nat.add_sub_cancel_left,
      List.getD_eq_getElem?_getD, List.getElem?_eq_getElem (by rw [length]; exact small)]
    rfl
  · obtain ⟨frame, _, _, mapped, new, _⟩ := lodged.mapped _ (place i inside).1
    rw [same, frameOf, mapped.leaf] at used
    exact absurd new used

theorem fits_of_exact (lodged : Lodged before cr3 P m)
    (pages : ∀ q, P q → q < 2 ^ 35 ∨ 2 ^ 52 - 2 ^ 35 ≤ q) (bound : r.target < 2 ^ 64)
    {byte : Frame → Nat → UInt8} (done : relocate x cr3 (UInt64.ofNat r.target) r.value
      { m with byte } = .ok () m')
    (exactly : r.Exact P cr3 x before m) : r.Fits P cr3 m := by
  have own := (exactly byte m' done).own
  have here : P (r.target / 4096) := own 0 (by decide)
  refine ⟨here, ?_⟩
  by_cases whole : r.target % 4096 ≤ 4088
  · exact .inl whole
  have page : (r.target + 7) / 4096 = r.target / 4096 + 1 := by omega
  have there := own 7 (by decide)
  rw [page] at there
  refine .inr ⟨there, ?_⟩
  by_contra other
  -- If no byte in memory is the last one of the word, it must have been stored behind the first page.
  let blank : MemoryManager := { m with byte := fun _ _ => (encode 8 r.value.toNat).getD 7 0 + 1 }
  have lodged' : Lodged before cr3 P blank := lodged.bytes _
  have frames (q : Nat) : frameOf blank cr3 q = frameOf m cr3 q :=
    congrArg Entry.frame (lookup_table (show blank.table = m.table from rfl) cr3 3 q)
  obtain ⟨flags, translated⟩ := lodged'.translates x here
  have canonical := pages _ here
  have fine : x.virtAddr (UInt64.ofNat r.target).toNat = some r.target := by
    rw [UInt64.toNat_ofNat_of_lt' bound, x.virtAddr_same (by omega)]
  have length : (encode 8 r.value.toNat).length = 8 := encode_length 8 _
  have last := (exactly _ _ (relocate_ok (m := blank) fine translated)).word 7 (by decide)
  rw [page, writePhysical_byte _ _ _ (Nat.mod_lt _ (by decide)), length, if_neg] at last
  · have value : (encode 8 r.value.toNat)[7]? = some ((encode 8 r.value.toNat).getD 7 0) := by
      rw [List.getD_eq_getElem?_getD, List.getElem?_eq_getElem (by rw [length]; decide)]
      rfl
    have never (b : UInt8) : b + 1 ≠ b := by simp
    rw [value] at last
    exact never _ (Option.some.inj last)
  · rw [frames, show (blank.lookup cr3 3 (r.target / 4096)).frame = frameOf m cr3 (r.target / 4096)
      from frames _]
    omega

end Relocation

theorem Applies.done {x : Mapper} {m m' : MemoryManager} {cr3 : Frame} {r : Relocation}
    {rels : List Relocation} (applies : Applies x cr3 rels m m')
    (member : r ∈ rels) :
    r.target < 2 ^ 64 ∧ ∃ byte m'', relocate x cr3 (UInt64.ofNat r.target) r.value
      { m with byte } = .ok () m'' := by
  induction applies with
  | nil => cases member
  | @cons target value rels m m₁ m' first rest ih =>
    cases member with
    | head => exact ⟨target.toNat_lt, m.byte, _, by rw [UInt64.ofNat_toNat]; exact first⟩
    | tail _ later =>
      obtain ⟨bound, byte, m'', done⟩ := ih later
      obtain ⟨_, _, _, -, -, same⟩ := relocate_returned first
      rw [same, writePhysical_table] at done
      exact ⟨bound, byte, m'', done⟩

theorem Segment.Maps.canonical {x : Mapper} {seg : Segment} {q : Nat} (maps : seg.Maps x q) :
    q < 2 ^ 35 ∨ 2 ^ 52 - 2 ^ 35 ≤ q := by
  obtain ⟨first, last, -, -, member⟩ := maps
  exact (x.rangeInclusive_documented _ _).canonical q member

/-- The relocations that are done change their own words only, whatever is in memory, if and only if
they are in pages of the program, and a word that goes over the end of a page finds the next page's
frame behind. -/
theorem relocations_exact_iff (x : Mapper) {boot : Frame → Owner} {start m m₁ m₂ : MemoryManager}
    (booted : Booted boot start)
    (run : Reaches (step x) (fun _ _ => True) start m) {bin : ElfBinary} {data : Slice} {cr3 : Frame}
    (dynamic : bin.isDynamic = true)
    (created : LoadM.createUserMapper m = .ok cr3 m₁)
    (segments : loadSegments x cr3 data DYNAMIC_LOAD_BASE bin.segments m₁ = .ok () m₂) :
    ∃ applied, applied <+: bin.relocations data dynamicBase ∧
      Applies x cr3 applied m₂ (final (bin.applyRelocations x data DYNAMIC_LOAD_BASE cr3) m₂) ∧
      (returned (bin.applyRelocations x data DYNAMIC_LOAD_BASE cr3) m₂ = some () →
        applied = bin.relocations data dynamicBase) ∧
      ((∀ r, r ∈ applied → r.Exact (bin.Owns x) cr3 x m m₂) ↔
        ∀ r, r ∈ applied → r.Fits (bin.Owns x) cr3 m₂) := by
  obtain ⟨level, leveled⟩ := run_leveled x booted run
  obtain ⟨level₁, raised, root₁⟩ := Raises.createUserMapper leveled (createUserMapper_returned created)
  have none : Lodged m cr3 (fun _ => False) m₁ := ⟨fun _ inside => inside.elim, fun _ _ inside => inside.elim⟩
  rw [show DYNAMIC_LOAD_BASE = dynamicBase.toNat from rfl, loadSegments_based] at segments
  have lodged : Lodged m cr3 (bin.Owns x) m₂ :=
    (loadSegments_lodged none raised.leveled root₁ (fun f fresh => raised.fresh fresh) segments).mono
      fun q own => .inr own
  have pages (q : Nat) (own : bin.Owns x q) : q < 2 ^ 35 ∨ 2 ^ 52 - 2 ^ 35 ≤ q := by
    obtain ⟨seg, -, maps⟩ := own
    exact maps.canonical
  have all : AppliesUpTo x cr3 (bin.relocations data dynamicBase)
    (bin.applyRelocations x data DYNAMIC_LOAD_BASE cr3) m₂ :=
    applyRelocations_applies dynamic
  obtain ⟨applied, front, applies, whole⟩ := all
  refine ⟨applied, front, applies, whole, fun exactly r member => ?_, fun fits r member byte m' done => ?_⟩
  · obtain ⟨bound, byte, m', done⟩ := applies.done member
    exact r.fits_of_exact lodged pages bound done (exactly r member)
  · have frames (q : Nat) : frameOf { m₂ with byte } cr3 q = frameOf m₂ cr3 q :=
      congrArg Entry.frame (lookup_table rfl cr3 3 q)
    refine r.stored_of_fits (lodged.bytes byte) pages (applies.done member).1 ?_ done
    unfold Relocation.Fits
    rw [frames, frames]
    exact fits r member

theorem relocations_exact_iff_once : relocatableBinary.relocations relocatableSlice dynamicBase =
    [⟨0x400000F8, 0x40000010⟩] ∧ ∃ m₁ m₂,
    LoadM.createUserMapper bare = .ok 256 m₁ ∧
      loadSegments .offsetPageTable 256 relocatableSlice DYNAMIC_LOAD_BASE relocatableBinary.segments m₁ =
        .ok () m₂ ∧
      ∀ r, r ∈ relocatableBinary.relocations relocatableSlice dynamicBase →
        r.Exact (relocatableBinary.Owns .offsetPageTable) 256 .offsetPageTable bare m₂ := by
  have evaluated : returned LoadM.createUserMapper bare = some 256 ∧
      returned (loadSegments .offsetPageTable 256 relocatableSlice DYNAMIC_LOAD_BASE relocatableBinary.segments)
        (final LoadM.createUserMapper bare) = some () ∧
      returned (relocatableBinary.applyRelocations .offsetPageTable relocatableSlice DYNAMIC_LOAD_BASE 256)
        (final (loadSegments .offsetPageTable 256 relocatableSlice DYNAMIC_LOAD_BASE relocatableBinary.segments)
          (final LoadM.createUserMapper bare)) = some () ∧
      relocatableBinary.relocations relocatableSlice dynamicBase = [⟨0x400000F8, 0x40000010⟩] := by
        decide +kernel
  obtain ⟨created, segments, relocates, listed⟩ := evaluated
  obtain ⟨_, -, -, whole, exactly⟩ :=
    relocations_exact_iff .offsetPageTable bare_booted .start rfl (ok_of_returned created)
      (ok_of_returned segments)
  rw [whole relocates] at exactly
  refine ⟨listed, _, _, ok_of_returned created, ok_of_returned segments, exactly.mpr fun r member => ?_⟩
  rw [listed] at member
  obtain rfl := List.mem_singleton.mp member
  have page : relocatableBinary.Owns .offsetPageTable (0x400000F8 / 4096) := by
    refine ⟨relocatableSegment.based dynamicBase, List.mem_singleton.mpr rfl, 0x40000000, 0x400000FF, ?_,
      ?_, ?_⟩
    · decide
    · decide
    · decide
  exact ⟨page, .inl (by decide)⟩

def straddlingFile : List UInt8 :=
  pack [(4, 0x464c457f), (1, 2), (1, 1), (10, 0), (2, 3), (2, 62), (4, 1), (8, 0), (8, 64), (8, 0),
    (4, 0), (2, 64), (2, 56), (2, 2), (6, 0)] ++
  pack [(4, 1), (4, 6), (8, 0), (8, 0), (8, 0), (8, 256), (8, 0x2000), (8, 0x1000)] ++
  pack [(4, 2), (4, 4), (8, 176), (8, 176), (8, 176), (8, 48), (8, 48), (8, 8)] ++
  pack [(8, 7), (8, 224), (8, 8), (8, 24), (8, 0), (8, 0)] ++ pack
    [(8, 0xFFC), (8, 8), (8, 0x1122334400000010), (8, 0)]

def straddlingSlice : Slice := ⟨straddlingFile, by simp [straddlingFile]⟩

def straddlingBinary : ElfBinary :=
  { relocatableBinary with segments := [{ relocatableSegment with memsz := 0x2000 }] }

def straddlingMemory : MemoryManager :=
  final (loadSegments .offsetPageTable 256 straddlingSlice DYNAMIC_LOAD_BASE straddlingBinary.segments)
    (final LoadM.createUserMapper bare)

def relocateStraddling : LoadM Unit :=
  straddlingBinary.applyRelocations .offsetPageTable straddlingSlice DYNAMIC_LOAD_BASE 256

/-- The upper half of the word is not on the second page, but in a frame that is not the program's. -/
theorem relocation_straddles : returned (ElfBinary.parse straddlingSlice) [] = some straddlingBinary ∧
    straddlingBinary.relocations straddlingSlice dynamicBase = [⟨0x40000FFC, 0x1122334440000010⟩] ∧ ∃ m₁ m₂,
      LoadM.createUserMapper bare = .ok 256 m₁ ∧
      loadSegments .offsetPageTable 256 straddlingSlice DYNAMIC_LOAD_BASE straddlingBinary.segments m₁ =
        .ok () straddlingMemory ∧
      straddlingBinary.applyRelocations .offsetPageTable straddlingSlice DYNAMIC_LOAD_BASE 256
        straddlingMemory = .ok () m₂ ∧
      (encode 8 0x1122334440000010)[4]? = some 0x44 ∧ readByte m₂ 256 (0x40000FFC + 4) = some 0 ∧
      (∀ q, straddlingBinary.Owns .offsetPageTable q → frameOf straddlingMemory 256 q ≠ 258) ∧
        straddlingMemory.byte 258 0 = 0 ∧ m₂.byte 258 0 = 0x44 := by
  have evaluated : returned (ElfBinary.parse straddlingSlice) [] = some straddlingBinary ∧
      straddlingBinary.relocations straddlingSlice dynamicBase = [⟨0x40000FFC, 0x1122334440000010⟩] ∧
      returned LoadM.createUserMapper bare = some 256 ∧
      returned (loadSegments .offsetPageTable 256 straddlingSlice DYNAMIC_LOAD_BASE straddlingBinary.segments)
        (final LoadM.createUserMapper bare) = some () ∧
      returned relocateStraddling straddlingMemory = some () ∧
      readByte (final relocateStraddling straddlingMemory) 256 (0x40000FFC + 4) = some 0 ∧
      (∀ q ∈ Mapper.offsetPageTable.rangeInclusive (0x40000000 / 4096) (0x40001FFF / 4096), frameOf straddlingMemory 256 q ≠ 258) ∧
      straddlingMemory.byte 258 0 = 0 ∧ (final relocateStraddling straddlingMemory).byte 258 0 = 0x44 :=
        by decide +kernel
  obtain ⟨parsed, listed, created, segments, relocates, reads, apart, before, after⟩ := evaluated
  refine ⟨parsed, listed, _, final relocateStraddling straddlingMemory, ok_of_returned created,
    ok_of_returned segments,
    ok_of_returned relocates, by decide, reads, ?_, before, after⟩
  rintro q ⟨seg, member, first, last, start, ending, inside⟩
  obtain rfl : seg = Segment.based dynamicBase { relocatableSegment with memsz := 0x2000 } :=
    List.mem_singleton.mp member
  obtain rfl : first = 0x40000000 := Option.some.inj (start.symm.trans (by decide))
  obtain rfl : last = 0x40001FFF := Option.some.inj (ending.symm.trans (by decide))
  exact apart q inside

end PickleOS.Elf
