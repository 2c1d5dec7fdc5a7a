import PickleOS.Elf.LoadExact
import PickleOS.Elf.ParseBounds
import PickleOS.Memory.Raises

set_option autoImplicit false

/-!
# Relocations

A program that is loaded at an address of the loader's has its words changed accordingly before it starts.
-/

namespace PickleOS.Elf

open Memory Shared Shared.Bytes Shared.Outcome Shared.Machine

def rX866464 : UInt32 := 1
def rX8664GlobDat : UInt32 := 6
def rX8664JumpSlot : UInt32 := 7
def rX8664Relative : UInt32 := 8

def LoadM.file {α : Type} (read : ParseM α) : LoadM α := fun m =>
  match read [] with
  | .ok value _ => .ok value m
  | .error fail _ => .error fail m

/-- `vaddr >= seg.vaddr && vaddr < seg.vaddr + seg.filesz`, where the sum wraps. -/
def Segment.covers (seg : Segment) (vaddr : UInt64) : Bool :=
  seg.vaddr ≤ vaddr && vaddr < seg.vaddr + seg.filesz

namespace ElfBinary

variable (bin : ElfBinary) (data : Slice) (baseAddr : UInt64)

/-- Where in the file the first segment that covers an address has it. -/
def fileOffset (vaddr : UInt64) : Option UInt64 :=
  (bin.segments.find? fun seg => seg.covers vaddr).map fun seg => seg.offset + (vaddr - seg.vaddr)

def lookupSymbol (symbolIndex : UInt32) : ParseM UInt64 :=
  if symbolIndex = 0 then pure 0
  else
    match bin.dynamicInfo.symtabAddr.bind bin.fileOffset with
    | none => pure 0
    | some symtabFileOffset =>
      let symEntryOffset := symtabFileOffset + symbolIndex.toUInt64 * 24
      if data.len < symEntryOffset + 24 then pure 0
      else do
        let stValue ← u64At data (symEntryOffset + 8)
        pure (if stValue = 0 then 0 else baseAddr + stValue)

/-- The value of a relocation; nothing where its type asks for none, or is not supported. -/
def relocationValue (rType rSym : UInt32) (rAddend : UInt64) : ParseM (Option UInt64) :=
  if rType = rX8664Relative then pure (some (baseAddr + rAddend))
  else if rType = rX8664GlobDat ∨ rType = rX8664JumpSlot then do
    let symVal ← bin.lookupSymbol data baseAddr rSym
    pure (some symVal)
  else if rType = rX866464 then do
    let symVal ← bin.lookupSymbol data baseAddr rSym
    pure (some (symVal + rAddend))
  else pure none

end ElfBinary

/-- Bytes are written one after the other from a physical address on. -/
def writePhysical (m : MemoryManager) : Nat → List UInt8 → MemoryManager
  | _, [] => m
  | addr, byte :: rest => writePhysical (m.setByte (addr / 4096) (addr % 4096) byte) (addr + 1) rest

def relocate (x : Mapper) (cr3 : Frame) (target value : UInt64) : LoadM Unit := do
  let targetVaddr ← LoadM.virtAddr x target.toNat
  let m ← get
  match x.translate m cr3 (targetVaddr / 4096) with
  | some (frame, _) => set (writePhysical m (frame * 4096 + targetVaddr % 4096) (encode 8 value.toNat))
  | none => throw (.err "relocation target not mapped")

namespace ElfBinary

variable (bin : ElfBinary) (data : Slice) (baseAddr : UInt64)

/-- The loop over so many relocations, from the one at `entryOffset` on. -/
def relocateFrom (x : Mapper) (cr3 : Frame) : Nat → UInt64 → LoadM Unit
  | 0, _ => pure ()
  | remaining + 1, entryOffset =>
    if data.len < entryOffset + 24 then pure ()
    else do
      let rOffset ← LoadM.file (u64At data entryOffset)
      let rInfo ← LoadM.file (u64At data (entryOffset + 8))
      let rAddend ← LoadM.file (u64At data (entryOffset + 16))
      let value ← LoadM.file (bin.relocationValue data baseAddr rInfo.toUInt32 (rInfo >>> 32).toUInt32 rAddend)
      match value with
      | none => pure ()
      | some value => relocate x cr3 (baseAddr + rOffset) value
      relocateFrom x cr3 remaining (entryOffset + 24)

def applyRelocations (x : Mapper) (data : Slice) (baseAddr : Nat) (cr3 : Frame) : LoadM Unit :=
  if bin.isDynamic = false then pure ()
  else
    match bin.dynamicInfo.relaAddr.bind bin.fileOffset with
    | none => pure ()
    | some relaStart =>
      bin.relocateFrom data (UInt64.ofNat baseAddr) x cr3 (bin.dynamicInfo.relaSize.toNat / 24) relaStart

end ElfBinary

/-- A word of a program that is changed before it starts. -/
structure Relocation where
  target : Nat
  value : UInt64
  deriving DecidableEq

namespace ElfBinary

variable (bin : ElfBinary) (data : Slice) (base : UInt64)

/-- What a symbol stands for, by the symbol table in the file; 0 where it is not defined there. -/
def symbolValue (index : UInt32) : UInt64 :=
  match bin.dynamicInfo.symtabAddr.bind bin.fileOffset with
  | none => 0
  | some start =>
    let entry := start + index.toUInt64 * 24
    let stValue := data.u64 (entry + 8).toNat
    if index = 0 ∨ data.len < entry + 24 ∨ stValue = 0 then 0 else base + stValue

/-- What a relocation of a type stores, by the symbol it names; nothing for a type that asks for
nothing. -/
def wordFor (rType rSym : UInt32) (rAddend : UInt64) : Option UInt64 :=
  if rType = rX8664Relative then some (base + rAddend)
  else if rType = rX8664GlobDat ∨ rType = rX8664JumpSlot then some (bin.symbolValue data base rSym)
  else if rType = rX866464 then some (bin.symbolValue data base rSym + rAddend)
  else none

/-- What the entry at an offset in the file asks for. -/
def relocationAt (entry : Nat) : Option Relocation :=
  let info := data.u64 (entry + 8)
  (bin.wordFor data base info.toUInt32 (info >>> 32).toUInt32 (data.u64 (entry + 16))).map fun value =>
    ⟨(base + data.u64 entry).toNat, value⟩

def relocations : List Relocation :=
  match bin.dynamicInfo.relaAddr.bind bin.fileOffset with
  | none => []
  | some start =>
    (List.range (min (bin.dynamicInfo.relaSize.toNat / 24)
    ((data.bytes.length - start.toNat) / 24))).filterMap fun i =>
      bin.relocationAt data base (start.toNat + 24 * i)

end ElfBinary

def relocated (rels : List Relocation) (image : Nat → UInt8) : Nat → UInt8 :=
  rels.foldl (fun image r => overlay image r.target (encode 8 r.value.toNat)) image


section Reading

variable {data : Slice} {m m' : MemoryManager}

theorem fromLeBytes_returned {width n : Nat} {off : UInt64} {reads last : List Nat}
    (done : fromLeBytes data off width reads = .ok n last) :
    (0 < width → off.toNat + width ≤ data.bytes.length) ∧ n = data.field off.toNat width := by
  induction width generalizing off n reads last with
  | zero =>
    cases done
    exact ⟨fun positive => absurd positive (Nat.lt_irrefl 0), by simp [Slice.field, slice, decode]⟩
  | succ width ih =>
    have short := data.short
    have inside : off.toNat < data.bytes.length := by
      by_contra outside
      rw [fromLeBytes_outside data off reads width (Nat.le_of_not_lt outside)] at done
      cases done
    obtain ⟨byte, middle, first, done₁⟩ := bind_returned done
    obtain ⟨rest, _, second, done₂⟩ := bind_returned done₁
    cases done₂
    have next : (off + 1).toNat = off.toNat + 1 := toNat_add_ofNat off 1 (by omega)
    have read := ends_byteAt data off reads inside
    rw [Ends, first] at read
    have more := ih second
    rw [next] at more
    refine ⟨fun _ => ?_, by rw [field_succ data _ _ inside, read.1, more.2]⟩
    by_cases last_byte : 0 < width
    · have fits := more.1 last_byte
      omega
    · omega

theorem u64At_returned {off value : UInt64} {reads last : List Nat}
    (done : u64At data off reads = .ok value last) :
    off.toNat + 8 ≤ data.bytes.length ∧ value = data.u64 off.toNat := by
  obtain ⟨n, _, read, done₁⟩ := bind_returned done
  cases done₁
  obtain ⟨inside, rfl⟩ := fromLeBytes_returned read
  exact ⟨inside (by decide), rfl⟩

namespace ElfBinary

variable {bin : ElfBinary} {base : UInt64} {reads last : List Nat}

theorem lookupSymbol_returned {index : UInt32}
    {value : UInt64} (done : bin.lookupSymbol data base index reads = .ok value last) :
    value = bin.symbolValue data base index := by
  unfold lookupSymbol at done
  unfold symbolValue
  by_cases undefined : index = 0
  · rw [if_pos undefined] at done
    cases done
    split
    next => rfl
    next => simp [undefined]
  · rw [if_neg undefined] at done
    cases found : bin.dynamicInfo.symtabAddr.bind bin.fileOffset with
    | none =>
      rw [found] at done
      cases done
      rfl
    | some start =>
      rw [found] at done
      dsimp only at done ⊢
      split at done
      next short =>
        cases done
        rw [if_pos (Or.inr (Or.inl short))]
      next fits =>
        obtain ⟨stValue, _, read, done₁⟩ := bind_returned done
        cases done₁
        obtain ⟨-, rfl⟩ := u64At_returned read
        simp only [undefined, fits, false_or]

theorem relocationValue_returned {rType rSym : UInt32} {rAddend : UInt64} {value : Option UInt64}
    (done : bin.relocationValue data base rType rSym rAddend reads = .ok value last) :
    value = bin.wordFor data base rType rSym rAddend := by
  unfold relocationValue at done
  unfold wordFor
  split at done
  next relative =>
    cases done
    rw [if_pos relative]
  next absolute =>
    rw [if_neg absolute]
    split at done
    next =>
      obtain ⟨symVal, _, looked, done₁⟩ := bind_returned done
      cases done₁
      rw [lookupSymbol_returned looked, if_pos ‹_›]
    next other =>
      rw [if_neg other]
      split at done
      next =>
        obtain ⟨symVal, _, looked, done₁⟩ := bind_returned done
        cases done₁
        rw [lookupSymbol_returned looked, if_pos ‹_›]
      next unsupported =>
        cases done
        rw [if_neg unsupported]

end ElfBinary

end Reading

section Writing

variable {x : Mapper} {before m m' : MemoryManager} {cr3 f : Frame} {page q off : Nat} {flags : Flags}
    {contents : Nat → UInt8}
  {P : Nat → Prop} {level level' : Frame → Option Nat} {target value : UInt64} {rels : List Relocation}

theorem writePhysical_page (m : MemoryManager) (f off : Nat) (bytes : List UInt8)
    (fits : off + bytes.length ≤ 4096) :
    writePhysical m (f * 4096 + off) bytes = m.setPage f (overlay (m.byte f) off bytes) := by
  induction bytes generalizing m off with
  | nil =>
    rw [writePhysical, overlay_nil]
    exact congrArg (fun byte => { m with byte }) (Function.update_eq_self f m.byte).symm
  | cons byte rest ih =>
    rw [List.length_cons] at fits
    have frame : (f * 4096 + off) / 4096 = f := by omega
    have offset : (f * 4096 + off) % 4096 = off := by omega
    have first : Function.update (m.byte f) off byte = overlay (m.byte f) off [byte] := by
      funext j
      by_cases here : j = off
      · subst here
        simp [overlay]
      · rw [Function.update_of_ne here, overlay, if_neg]
        simp only [List.length_singleton]
        omega
    have later := ih (m.setByte f off byte) (off + 1) (by omega)
    have joined : overlay (overlay (m.byte f) off [byte]) (off + 1) rest = overlay (m.byte f)
      off (byte :: rest) :=
      overlay_append (m.byte f) off [byte] rest
    rw [MemoryManager.setByte, setPage_byte, first, joined] at later
    rw [writePhysical, frame, offset, Nat.add_assoc, MemoryManager.setByte, first]
    exact later.trans (congrArg (fun byte => { m with byte }) (Function.update_idem ..))

/-- The pages are the program's, each with a frame that nobody had before and nobody gets again. -/
structure Lodged (before : MemoryManager) (cr3 : Frame) (P : Nat → Prop) (m : MemoryManager) : Prop where
  mapped : ∀ q, P q → ∃ frame flags, flags.present = true ∧ Mapped m cr3 q ⟨frame, flags⟩ ∧
  before.Fresh frame ∧ ¬m.Fresh frame
  apart : ∀ q q', P q → P q' → (m.lookup cr3 3 q).frame = (m.lookup cr3 3 q').frame → q = q'

theorem Flags.used (present : flags.present = true) : ¬Entry.IsUnused ⟨f, flags⟩ := fun unused => by
  have absent := congrArg Flags.present (Entry.unused_flags unused)
  rw [present] at absent
  cases absent

namespace Lodged

theorem kept (lodged : Lodged before cr3 P m) (leveled : Leveled level m) (root : level cr3 = some 0)
    (deepens : Deepens level m level' m') : Lodged before cr3 P m' where
  mapped q inside := by
    obtain ⟨frame, flags, present, mapped, new, old⟩ := lodged.mapped q inside
    exact ⟨frame, flags, present, mapped.kept (Flags.used present) leveled root deepens, new,
      fun later => old (later.grows deepens.grows)⟩
  apart q q' inside inside' same := by
    obtain ⟨_, _, present, mapped, _⟩ := lodged.mapped q inside
    obtain ⟨_, _, present', mapped', _⟩ := lodged.mapped q' inside'
    rw [(mapped.kept (Flags.used present) leveled root deepens).leaf,
      (mapped'.kept (Flags.used present') leveled root deepens).leaf] at same
    refine lodged.apart q q' inside inside' ?_
    rwa [mapped.leaf, mapped'.leaf]

theorem add (lodged : Lodged before cr3 P m) (leveled : Leveled level m) (root : level cr3 = some 0)
    (deepens : Deepens level m level' m')
    (present : flags.present = true) (mapped : Mapped m' cr3 page ⟨f, flags⟩) (new : before.Fresh f)
    (free : m.Fresh f)
    (old : ¬m'.Fresh f) :
    Lodged before cr3 (fun q => P q ∨ q = page) m' where
  mapped q inside := by
    rcases inside with there | rfl
    · exact (lodged.kept leveled root deepens).mapped q there
    · exact ⟨f, flags, present, mapped, new, old⟩
  apart := by
    have other (q : Nat) (there : P q) : (m'.lookup cr3 3 q).frame ≠ f := by
      obtain ⟨_, _, present', mapped', _, old'⟩ := lodged.mapped q there
      rw [(mapped'.kept (Flags.used present') leveled root deepens).leaf]
      rintro rfl
      exact old' free
    rintro q q' (there | rfl) (there' | rfl) same
    · exact (lodged.kept leveled root deepens).apart q q' there there' same
    · rw [mapped.leaf] at same
      exact absurd same (other q there)
    · rw [mapped.leaf] at same
      exact absurd same.symm (other q' there')
    · rfl

theorem mono {P' : Nat → Prop} (lodged : Lodged before cr3 P m) (fewer : ∀ q, P' q → P q) :
    Lodged before cr3 P' m :=
  ⟨fun q inside => lodged.mapped q (fewer q inside),
    fun q q' inside inside' => lodged.apart q q' (fewer q inside) (fewer q' inside')⟩

theorem setPage (lodged : Lodged before cr3 P m) (f : Frame) (contents : Nat → UInt8) :
    Lodged before cr3 P (m.setPage f contents) where
  mapped q inside := by
    obtain ⟨frame, flags, present, mapped, new, old⟩ := lodged.mapped q inside
    exact ⟨frame, flags, present, mapped.of_table rfl, new, old⟩
  apart q q' inside inside' same :=
    lodged.apart q q' inside inside' (by rwa [lookup_table rfl, lookup_table rfl] at same)

theorem translates (lodged : Lodged before cr3 P m) (x : Mapper) {q : Nat} (inside : P q) :
    ∃ flags, x.translate m cr3 q = some ((m.lookup cr3 3 q).frame, flags) := by
  obtain ⟨f, flags, present, mapped, new, old⟩ := lodged.mapped _ inside
  have translates := x.translate_documented m cr3 q
  generalize x.translate m cr3 q = result at translates ⊢
  cases translates with
  | small _ => exact ⟨_, rfl⟩
  | huge upper _ huge =>
    have small := (mapped.way _ upper).small
    rw [huge] at small
    cases small
  | notMapped unused _ =>
    rw [mapped.leaf] at unused
    exact absurd unused (Flags.used present)

end Lodged

theorem Lodged.bytes (lodged : Lodged before cr3 P m) (byte : Frame → Nat → UInt8) :
    Lodged before cr3 P { m with byte } where
  mapped q inside := by
    obtain ⟨frame, flags, present, mapped, new, old⟩ := lodged.mapped q inside
    exact ⟨frame, flags, present, mapped.of_table rfl, new, old⟩
  apart q q' inside inside' same :=
    lodged.apart q q' inside inside' (by rwa [lookup_table rfl, lookup_table rfl] at same)

/-- Only bytes of new frames change, and in the program's pages those that are relocated. -/
structure Rewrites (before : MemoryManager) (cr3 : Frame) (P : Nat → Prop) (rels : List Relocation)
    (m m' : MemoryManager) : Prop where
  same : m' = { m with byte := m'.byte }
  bytes : ∀ f, ¬before.Fresh f → m'.byte f = m.byte f
  sits : ∀ q flags contents, P q → Sits m cr3 q flags contents → Sits m' cr3 q flags (relocated rels contents)

theorem Rewrites.refl : Rewrites before cr3 P [] m m := ⟨rfl, fun _ _ => rfl, fun _ _ _ _ sits => sits⟩

theorem Rewrites.cons {r : Relocation} {rels : List Relocation}
    {m'' : MemoryManager} (first : Rewrites before cr3 P [r] m m')
    (rest : Rewrites before cr3 P rels m' m'') : Rewrites before cr3 P (r :: rels) m m'' where
  same := by
    rw [rest.same, first.same]
  bytes f old := (rest.bytes f old).trans (first.bytes f old)
  sits q flags contents inside sits := rest.sits q flags _ inside (first.sits q flags contents inside sits)

theorem relocate_returned (done : relocate x cr3 target value m = .ok () m') :
    ∃ addr f flags, x.virtAddr target.toNat = some addr ∧
    x.translate m cr3 (addr / 4096) = some (f, flags) ∧
      m' = writePhysical m (f * 4096 + addr % 4096) (encode 8 value.toNat) := by
  obtain ⟨addr, _, fine, done₁⟩ := bind_returned done
  obtain ⟨extended, same⟩ := virtAddr_returned fine
  rw [same] at done₁
  obtain ⟨m₁, m₂, got, done₂⟩ := bind_returned done₁
  obtain ⟨rfl, rfl⟩ : m = m₁ ∧ m = m₂ := by
    cases got
    exact ⟨rfl, rfl⟩
  cases translated : x.translate m cr3 (addr / 4096) with
  | none =>
    simp only [translated] at done₂
    cases done₂
  | some found =>
    simp only [translated] at done₂
    cases done₂
    exact ⟨addr, found.1, found.2, extended, translated, rfl⟩

theorem relocate_failed {fail : Fail} (failed : relocate x cr3 target value m = .error fail m') : m' = m := by
  unfold relocate LoadM.virtAddr at failed
  cases fine : x.virtAddr target.toNat with
  | none =>
    rw [fine] at failed
    cases failed
    rfl
  | some addr =>
    rw [fine] at failed
    simp only [Bind.bind, EStateM.bind, pure, EStateM.pure, get_apply] at failed
    cases translated : x.translate m cr3 (addr / 4096) with
    | none =>
      simp only [translated] at failed
      cases failed
      rfl
    | some found =>
      simp only [translated] at failed
      cases failed

theorem relocate_rewrites (lodged : Lodged before cr3 P m) (inside : P (target.toNat / 4096))
    (canonical : Canonical target.toNat) (whole : target.toNat % 4096 ≤ 4088)
    (done : relocate x cr3 target value m = .ok () m') :
    Rewrites before cr3 P [⟨target.toNat, value⟩] m m' := by
  obtain ⟨addr, f, flags, extended, translated, rfl⟩ := relocate_returned done
  have fits : target.toNat < 2 ^ 47 ∨ 2 ^ 64 - 2 ^ 47 ≤ target.toNat := canonical
  rw [x.virtAddr_same fits] at extended
  obtain rfl := Option.some.inj extended
  obtain ⟨frame, _, _, mapped, new, old⟩ := lodged.mapped _ inside
  obtain ⟨_, translated'⟩ := lodged.translates x inside
  rw [translated, mapped.leaf] at translated'
  obtain rfl : f = frame := congrArg Prod.fst (Option.some.inj translated')
  have length : (encode 8 value.toNat).length = 8 := encode_length 8 _
  rw [writePhysical_page m f _ _ (by omega)]
  have apart {g : Frame} (other : g ≠ f) :
      (m.setPage f (overlay (m.byte f) (target.toNat % 4096) (encode 8 value.toNat))).byte g = m.byte g :=
        Function.update_of_ne other ..
  refine ⟨rfl, fun g older => apart fun here => older (here ▸ new), fun q flags' contents inside' sits => ?_⟩
  obtain ⟨frame, mapped', old', held⟩ := sits
  refine ⟨frame, mapped'.of_table rfl, old', fun j small => ?_⟩
  simp only [relocated, List.foldl_cons, List.foldl_nil, overlay, length]
  by_cases here : q = target.toNat / 4096
  · subst here
    have same : frame = f := congrArg Entry.frame (mapped'.leaf.symm.trans mapped.leaf)
    subst same
    have place : target.toNat ≤ target.toNat / 4096 * 4096 + j ∧
      target.toNat / 4096 * 4096 + j < target.toNat + 8 ↔
        target.toNat % 4096 ≤ j ∧ j < target.toNat % 4096 + 8 := by omega
    rw [setPage_byte]
    simp only [overlay, length, place, held j small]
    split
    next =>
      congr 1
      omega
    next => rfl
  · have other : frame ≠ f := by
      rintro rfl
      exact here (lodged.apart q _ inside' inside (by rw [mapped'.leaf, mapped.leaf]))
    rw [if_neg (by omega)]
    rw [apart other, held j small]

/-- The loader does these relocations, one after the other. -/
inductive Applies (x : Mapper) (cr3 : Frame) : List Relocation → MemoryManager → MemoryManager → Prop
  | nil (m : MemoryManager) : Applies x cr3 [] m m
  | cons {target value : UInt64} {rels : List Relocation} {m m' m'' : MemoryManager}
      (first : relocate x cr3 target value m = .ok () m') (rest : Applies x cr3 rels m' m'') :
      Applies x cr3 (⟨target.toNat, value⟩ :: rels) m m''

/-- Up to the end, or up to where it fails, the loader does these relocations. -/
def AppliesUpTo (x : Mapper) (cr3 : Frame) (rels : List Relocation) (action : LoadM Unit)
    (m : MemoryManager) : Prop :=
  ∃ applied, applied <+: rels ∧ Applies x cr3 applied m (final action m) ∧
  (returned action m = some () → applied = rels)

namespace AppliesUpTo

theorem done : AppliesUpTo x cr3 [] (pure ()) m := ⟨[], List.prefix_rfl, .nil m, fun _ => rfl⟩

theorem file {α : Type} {read : ParseM α} {f : α → LoadM Unit}
    (next : ∀ value reads, read [] = .ok value reads → AppliesUpTo x cr3 rels (f value) m) :
    AppliesUpTo x cr3 rels (LoadM.file read >>= f) m := by
  cases reading : read [] with
  | ok value reads =>
    have went : (LoadM.file read >>= f) m = f value m := by
      simp only [Bind.bind, EStateM.bind, LoadM.file, reading]
    unfold AppliesUpTo final returned
    rw [went]
    exact next value reads reading
  | error fail reads =>
    have stopped : (LoadM.file read >>= f) m = .error fail m := by
      simp only [Bind.bind, EStateM.bind, LoadM.file, reading]
    refine ⟨[], List.nil_prefix, ?_, fun returns => ?_⟩
    · unfold final
      rw [stopped]
      exact .nil m
    · unfold returned at returns
      rw [stopped] at returns
      cases returns

theorem relocate {f : Unit → LoadM Unit} (next : ∀ m', Elf.relocate x cr3 target value m = .ok () m' →
    AppliesUpTo x cr3 rels (f ()) m') :
    AppliesUpTo x cr3 (⟨target.toNat, value⟩ :: rels) (Elf.relocate x cr3 target value >>= f) m := by
  cases storing : Elf.relocate x cr3 target value m with
  | ok _ m' =>
    have went : (Elf.relocate x cr3 target value >>= f) m = f () m' := by
      simp only [Bind.bind, EStateM.bind, storing]
    obtain ⟨applied, front, applies, whole⟩ := next m' storing
    refine ⟨_ :: applied, List.cons_prefix_cons.mpr ⟨rfl, front⟩, .cons storing ?_, fun returns => ?_⟩
    · unfold final at applies ⊢
      rwa [went]
    · unfold returned at whole returns
      rw [went] at returns
      rw [whole returns]
  | error fail m' =>
    obtain rfl := relocate_failed storing
    have stopped : (Elf.relocate x cr3 target value >>= f) m' = .error fail m' := by
      simp only [Bind.bind, EStateM.bind, storing]
    refine ⟨[], List.nil_prefix, ?_, fun returns => ?_⟩
    · unfold final
      rw [stopped]
      exact .nil m'
    · unfold returned at returns
      rw [stopped] at returns
      cases returns

end AppliesUpTo

theorem relocateFrom_applies {bin : ElfBinary} {data : Slice} {base : UInt64} {count : Nat} {start : UInt64} :
    AppliesUpTo x cr3 ((List.range (min count ((data.bytes.length - start.toNat) / 24))).filterMap
      fun i => bin.relocationAt data base (start.toNat + 24 * i))
        (bin.relocateFrom data base x cr3 count start) m := by
  induction count generalizing m start with
  | zero =>
    rw [Nat.zero_min]
    exact .done
  | succ count ih =>
    have short := data.short
    have bound := start.toNat_lt
    have sum : (start + 24).toNat = (start.toNat + 24) % 2 ^ 64 := UInt64.toNat_add start 24
    unfold ElfBinary.relocateFrom
    split
    next behind =>
      rw [UInt64.lt_iff_toNat_lt, data.toNat_len, sum] at behind
      have none : (data.bytes.length - start.toNat) / 24 = 0 := by omega
      rw [none, Nat.min_zero]
      exact .done
    next ahead =>
      refine .file fun rOffset _ read => .file fun rInfo _ read₁ => .file fun rAddend _ read₂ =>
        .file fun value _ asked => ?_
      obtain ⟨within, rfl⟩ := u64At_returned read
      obtain ⟨-, rfl⟩ := u64At_returned read₁
      obtain ⟨-, rfl⟩ := u64At_returned read₂
      have meant := ElfBinary.relocationValue_returned asked
      rw [UInt64.lt_iff_toNat_lt, data.toNat_len, sum] at ahead
      have next : (start + 24).toNat = start.toNat + 24 := by omega
      have info_at : (start + 8).toNat = start.toNat + 8 := toNat_add_ofNat start 8 (by omega)
      have addend_at : (start + 16).toNat = start.toNat + 16 := toNat_add_ofNat start 16 (by omega)
      have counted : min (count + 1) ((data.bytes.length - start.toNat) / 24) =
          min count ((data.bytes.length - (start.toNat + 24)) / 24) + 1 := by omega
      have later (i : Nat) : start.toNat + 24 * (i + 1) = start.toNat + 24 + 24 * i := by omega
      rw [info_at, addend_at] at meant
      rw [counted, List.range_succ_eq_map, List.filterMap_cons, List.filterMap_map]
      simp only [Function.comp_def, Nat.succ_eq_add_one, later, Nat.mul_zero, Nat.add_zero,
        ElfBinary.relocationAt, ← meant]
      cases value with
      | none =>
        simp only [Option.map_none]
        rw [← next]
        exact ih
      | some value =>
        simp only [Option.map_some]
        rw [← next]
        exact .relocate fun _ _ => ih

theorem Applies.rewrites (applies : Applies x cr3 rels m m') (lodged : Lodged before cr3 P m)
    (targets : ∀ r, r ∈ rels → P (r.target / 4096) ∧ Canonical r.target ∧ r.target % 4096 ≤ 4088) :
      Rewrites before cr3 P rels m m' := by
  induction applies with
  | nil => exact .refl
  | @cons target value rels m m₁ m' first rest ih =>
    obtain ⟨inside, canonical, whole⟩ := targets _ List.mem_cons_self
    have rewrites := relocate_rewrites lodged inside canonical whole first
    have lodged₁ : Lodged before cr3 P m₁ := by
      rw [rewrites.same]
      exact lodged.bytes _
    exact rewrites.cons (ih lodged₁ fun r member => targets r (List.mem_cons_of_mem _ member))

end Writing

section Loading

variable {x : Mapper} {data : Slice} {before m m' : MemoryManager} {cr3 : Frame} {P : Nat → Prop}
    {level : Frame → Option Nat}
  {seg : Segment}

def Segment.based (base : UInt64) (seg : Segment) : Segment := { seg with vaddr := base + seg.vaddr }

theorem loadPages_based {base : UInt64} {v : Nat} {pages : List Nat} :
    loadPages x cr3 data (seg.based base) v pages = loadPages x cr3 data seg v pages := by
  induction pages with
  | nil => rfl
  | cons page rest ih =>
    simp only [loadPages, ih]
    rfl

theorem loadSegments_based {base : UInt64} {segs : List Segment} :
    loadSegments x cr3 data base.toNat segs = loadSegments x cr3 data 0 (segs.map (Segment.based base)) := by
  induction segs with
  | nil => rfl
  | cons seg rest ih =>
    have address : (0 + (base + seg.vaddr).toNat) % 2 ^ 64 = (base.toNat + seg.vaddr.toNat) % 2 ^ 64 := by
      rw [UInt64.toNat_add, Nat.zero_add, Nat.mod_mod]
    simp only [List.map_cons, loadSegments, loadPages_based, ih]
    rw [show (seg.based base).vaddr = base + seg.vaddr from rfl, address]
    rfl

theorem loadPage_lodged {v page : Nat} (lodged : Lodged before cr3 P m) (leveled : Leveled level m)
    (root : level cr3 = some 0)
    (grown : ∀ f, m.Fresh f → before.Fresh f) (done : loadPage x cr3 data seg v page m = .ok () m') :
    Lodged before cr3 (fun q => P q ∨ q = page) m' := by
  obtain ⟨f, m₁, fresh, done₁⟩ := bind_returned done
  obtain ⟨_, m₂, mapped, done₂⟩ := bind_returned done₁
  obtain ⟨_, m₃, zeroed, done₃⟩ := bind_returned done₂
  cases zeroed
  obtain ⟨level', deepens, mapped, free, old⟩ :=
    mapped_fresh leveled root rfl rfl (allocateFrame_returned fresh) (mapTo_returned mapped)
  have added := lodged.add leveled root deepens rfl mapped (grown f free) free old
  cases copied : seg.fileBytes data v page with
  | error fail =>
    rw [copied] at done₃
    cases done₃
  | ok copy =>
    rw [copied] at done₃
    obtain ⟨destOff, bytes⟩ := copy
    cases done₃
    exact (added.setPage f _).setPage f _

theorem loadPages_lodged {v : Nat} {pages : List Nat} (lodged : Lodged before cr3 P m)
    (leveled : Leveled level m) (root : level cr3 = some 0)
    (grown : ∀ f, m.Fresh f → before.Fresh f) (done : loadPages x cr3 data seg v pages m = .ok () m') :
    Lodged before cr3 (fun q => P q ∨ q ∈ pages) m' := by
  induction pages generalizing P level m with
  | nil =>
    cases done
    exact lodged.mono fun q member => member.resolve_right List.not_mem_nil
  | cons page rest ih =>
    obtain ⟨_, m₁, first, done₁⟩ := bind_returned done
    obtain ⟨level₁, _, _, deepens, _⟩ := loadPage_sits leveled root first
    have added := loadPage_lodged lodged leveled root grown first
    have later := ih added deepens.leveled (deepens.serves _ _ root)
      (fun f fresh => grown f (fresh.grows deepens.grows)) done₁
    refine later.mono fun q member => ?_
    rw [List.mem_cons, ← or_assoc] at member
    exact member

/-- A page of a segment whose addresses are all canonical, and in the same half. -/
def Segment.HasPage (seg : Segment) (q : Nat) : Prop :=
  seg.vaddr.toNat + seg.memsz.toNat < 2 ^ 64 ∧ seg.InOneHalf ∧ ∃ k, k < seg.memsz.toNat ∧
  (seg.vaddr.toNat + k) / 4096 = q

/-- The loader maps this page for the segment. -/
def Segment.Maps (x : Mapper) (seg : Segment) (q : Nat) : Prop :=
  ∃ first last, x.virtAddr seg.vaddr.toNat = some first ∧
    x.virtAddr (((seg.vaddr.toNat + seg.memsz.toNat) % 2 ^ 64 + (2 ^ 64 - 1)) % 2 ^ 64) = some last ∧
      q ∈ x.rangeInclusive (first / 4096) (last / 4096)

theorem Segment.HasPage.maps {q : Nat} (page : seg.HasPage q) : seg.Maps x q := by
  obtain ⟨noWrap, half, k, inside, rfl⟩ := page
  rw [Segment.InOneHalf] at half
  have end_addr : ((seg.vaddr.toNat + seg.memsz.toNat) % 2 ^ 64 + (2 ^ 64 - 1)) % 2 ^
    64 = seg.vaddr.toNat + seg.memsz.toNat - 1 := by omega
  refine ⟨_, _, x.virtAddr_same (by omega), by rw [end_addr]; exact x.virtAddr_same (by omega), ?_⟩
  rw [(x.rangeInclusive_documented _ _).half (by omega) (by omega), List.mem_range'_1]
  omega

theorem loadSegments_lodged {segs : List Segment} (lodged : Lodged before cr3 P m)
    (leveled : Leveled level m) (root : level cr3 = some 0)
    (grown : ∀ f, m.Fresh f → before.Fresh f) (done : loadSegments x cr3 data 0 segs m = .ok () m') :
    Lodged before cr3 (fun q => P q ∨ ∃ seg, seg ∈ segs ∧ seg.Maps x q) m' := by
  induction segs generalizing P level m with
  | nil =>
    cases done
    refine lodged.mono fun q member => member.resolve_right ?_
    rintro ⟨_, member, _⟩
    exact List.not_mem_nil member
  | cons seg rest ih =>
    have base : (0 + seg.vaddr.toNat) % 2 ^ 64 = seg.vaddr.toNat := by
      rw [Nat.zero_add]
      exact Nat.mod_eq_of_lt seg.vaddr.toNat_lt
    simp only [loadSegments, base] at done
    obtain ⟨first, _, fine, done₁⟩ := bind_returned done
    obtain ⟨start, rfl⟩ := virtAddr_returned fine
    obtain ⟨last, _, fine', done₂⟩ := bind_returned done₁
    obtain ⟨ending, rfl⟩ := virtAddr_returned fine'
    obtain ⟨_, m₁, loaded, done₃⟩ := bind_returned done₂
    obtain ⟨level₁, deepens⟩ := loadPages_deepens leveled root loaded
    have lodged₁ := loadPages_lodged lodged leveled root grown loaded
    have later := ih lodged₁ deepens.leveled (deepens.serves _ _ root)
      (fun f fresh => grown f (fresh.grows deepens.grows)) done₃
    refine later.mono ?_
    rintro q (there | ⟨seg', member, maps⟩)
    · exact .inl (.inl there)
    · rcases List.mem_cons.mp member with rfl | elsewhere
      · obtain ⟨first', last', start', ending', inside⟩ := maps
        rw [start] at start'
        rw [ending] at ending'
        cases start'
        cases ending'
        exact .inl (.inr inside)
      · exact .inr ⟨seg', elsewhere, maps⟩

end Loading

def dynamicBase : UInt64 := UInt64.ofNat DYNAMIC_LOAD_BASE

/-- Each relocation changes a word of the program that does not go over the end of its page. -/
def ElfBinary.RelocatesItself (bin : ElfBinary) (data : Slice) : Prop :=
  ∀ r, r ∈ bin.relocations data dynamicBase →
    (∃ seg, seg ∈ bin.segments ∧ (seg.based dynamicBase).HasPage (r.target / 4096)) ∧ r.target % 4096 ≤ 4088

theorem Segment.HasPage.canonical {seg : Segment} {addr : Nat} (page : seg.HasPage (addr / 4096)) :
    Canonical addr := by
  obtain ⟨noWrap, half, k, inside, same⟩ := page
  rw [Segment.InOneHalf] at half
  rw [Canonical]
  omega

theorem applyRelocations_applies {x : Mapper} {m : MemoryManager} {cr3 : Frame} {bin : ElfBinary}
    {data : Slice} (dynamic : bin.isDynamic = true) :
    AppliesUpTo x cr3 (bin.relocations data dynamicBase)
      (bin.applyRelocations x data DYNAMIC_LOAD_BASE cr3) m := by
  unfold ElfBinary.applyRelocations ElfBinary.relocations
  rw [dynamic, if_neg (by decide)]
  cases bin.dynamicInfo.relaAddr.bind bin.fileOffset with
  | none => exact .done
  | some relaStart => exact relocateFrom_applies

theorem applyRelocations_rewrites {x : Mapper} {before m m' : MemoryManager} {cr3 : Frame}
    {P : Nat → Prop} {bin : ElfBinary} {data : Slice}
    (dynamic : bin.isDynamic = true) (lodged : Lodged before cr3 P m)
    (targets : ∀ r, r ∈ bin.relocations data dynamicBase → P (r.target / 4096) ∧ Canonical r.target ∧
      r.target % 4096 ≤ 4088)
    (done : bin.applyRelocations x data DYNAMIC_LOAD_BASE cr3 m = .ok () m') :
    Rewrites before cr3 P (bin.relocations data dynamicBase) m m' := by
  have all : AppliesUpTo x cr3 (bin.relocations data dynamicBase)
    (bin.applyRelocations x data DYNAMIC_LOAD_BASE cr3) m :=
    applyRelocations_applies dynamic
  obtain ⟨applied, -, applies, whole⟩ := all
  unfold final returned at *
  rw [done] at applies whole
  rw [whole rfl] at applies
  exact applies.rewrites lodged targets

theorem load_relocated (x : Mapper) {boot : Frame → Owner} {start m m' : MemoryManager}
    (booted : Booted boot start)
    (run : Reaches (step x) (fun _ _ => True) start m) {bin : ElfBinary} {data : Slice}
    (dynamic : bin.isDynamic = true)
    (itself : bin.RelocatesItself data) {args envs : List (List UInt8)} {entry sp : Nat}
    (loaded : bin.load x (bin.applyRelocations x) data args envs m = .ok (entry, sp) m') :
    (∀ f, ¬m.Fresh f → m'.byte f = m.byte f) ∧ ∃ cr3, m'.userPageTables = m.userPageTables ++ [cr3] ∧
      ∀ seg, seg ∈ bin.segments.map (Segment.based dynamicBase) →
        seg.vaddr.toNat + seg.memsz.toNat < 2 ^ 64 → seg.InOneHalf →
        ∀ k, k < seg.memsz.toNat → readByte m' cr3 (seg.vaddr.toNat + k) =
          some (relocated (bin.relocations data dynamicBase) (seg.byteAt data) (seg.vaddr.toNat + k)) := by
  obtain ⟨level, leveled⟩ := run_leveled x booted run
  obtain ⟨cr3, m₁, made, done₁⟩ := bind_returned loaded
  have made := createUserMapper_returned made
  obtain ⟨level₁, created, root₁⟩ := Raises.createUserMapper leveled made
  have leveled₁ := created.leveled
  have grown (f : Frame) (fresh : m₁.Fresh f) : m.Fresh f := created.fresh fresh
  simp only [dynamic, if_true] at done₁
  obtain ⟨_, m₂, segments, done₂⟩ := bind_returned done₁
  rw [show DYNAMIC_LOAD_BASE = dynamicBase.toNat from rfl, loadSegments_based] at segments
  obtain ⟨level₂, deepens, stands⟩ := loadSegments_stands leveled₁ root₁ segments
  have root₂ := deepens.serves _ _ root₁
  have none : Lodged m cr3 (fun _ => False) m₁ := ⟨fun _ inside => inside.elim, fun _ _ inside => inside.elim⟩
  have lodged := loadSegments_lodged none leveled₁ root₁ grown segments
  obtain ⟨_, m₃, changed, done₃⟩ := bind_returned done₂
  have rewrites := applyRelocations_rewrites dynamic lodged (fun r member => by
    obtain ⟨⟨seg, listed, page⟩, whole⟩ := itself r member
    exact ⟨.inr ⟨_, List.mem_map_of_mem listed, page.maps⟩, page.canonical, whole⟩) changed
  have leveled₃ : Leveled level₂ m₃ := by
    have leveled₂ := deepens.leveled
    rw [rewrites.same]
    exact ⟨leveled₂.distinct, leveled₂.fresh, leveled₂.kernel, leveled₂.roots, leveled₂.entries⟩
  obtain ⟨top, m₄, stack, done₄⟩ := bind_returned done₃
  obtain ⟨level₄, more, which⟩ := mapStack_deepens leveled₃ root₂ stack
  obtain ⟨userSp, _, seeded, done₅⟩ := bind_returned done₄
  obtain ⟨f, contents, rfl, rfl⟩ := seedStack_returned seeded
  have fresh : m₃.Fresh f := by
    rcases which with none | ⟨g, same, fresh⟩
    · cases none
    · cases same
      exact fresh
  have written := more.setPage fresh contents
  obtain ⟨_, _, stored, done₆⟩ := bind_returned done₅
  cases stored
  obtain ⟨_, _, fine, done₇⟩ := bind_returned done₆
  obtain ⟨-, rfl⟩ := virtAddr_returned fine
  obtain ⟨_, _, fine', done₈⟩ := bind_returned done₇
  obtain ⟨-, rfl⟩ := virtAddr_returned fine'
  cases done₈
  have earlier (g : Frame) (later : m₃.Fresh g) : m₂.Fresh g := by
    rw [rewrites.same] at later
    exact later
  have spaces : m₃.userPageTables = m₂.userPageTables := by rw [rewrites.same]
  refine ⟨fun g old => ?_, cr3, ?_, fun seg member noWrap half k inside => ?_⟩
  · have old₁ : ¬m₁.Fresh g := fun later => old (grown g later)
    have old₂ : ¬m₂.Fresh g := fun later => old₁ (later.grows deepens.grows)
    exact (written.bytes g fun later => old₂ (earlier g later)).trans
      ((rewrites.bytes g old).trans ((deepens.bytes g old₁).trans (created.bytes g old)))
  · exact congrArg (· ++ [cr3]) (written.grows.spaces.trans
      (spaces.trans ((createUserMapper_fresh made).1.trans deepens.grows).spaces))
  · have sits := rewrites.sits _ _ _ (.inr ⟨seg, member,
      Segment.HasPage.maps ⟨noWrap, half, k, inside, rfl⟩⟩) (stands seg member noWrap half k inside).1
    exact ((sits.kept rfl leveled₃ root₂ written).store cr3).reads (half.canonical inside) rfl rfl

def relocatableFile : List UInt8 :=
  pack [(4, 0x464c457f), (1, 2), (1, 1), (10, 0), (2, 3), (2, 62), (4, 1), (8, 0), (8, 64), (8, 0),
    (4, 0), (2, 64), (2, 56), (2, 2), (6, 0)] ++
  pack [(4, 1), (4, 6), (8, 0), (8, 0), (8, 0), (8, 256), (8, 256), (8, 0x1000)] ++
  pack [(4, 2), (4, 4), (8, 176), (8, 176), (8, 176), (8, 48), (8, 48), (8, 8)] ++
  pack [(8, 7), (8, 224), (8, 8), (8, 24), (8, 0), (8, 0)] ++ pack [(8, 248), (8, 8), (8, 0x10), (8, 0)]

def relocatableSlice : Slice := ⟨relocatableFile, by simp [relocatableFile]⟩

def relocatableSegment : Segment where
  vaddr := 0
  memsz := 256
  filesz := 256
  offset := 0
  flags := 6

def relocatableBinary : ElfBinary where
  entry := 0
  segments := [relocatableSegment]
  dynamicInfo := { relaAddr := some 224, relaSize := 24 }
  isDynamic := true

theorem load_relocated_word : returned (ElfBinary.parse relocatableSlice) [] = some relocatableBinary ∧
    ∃ start m' cr3,
    relocatableBinary.load .offsetPageTable (relocatableBinary.applyRelocations .offsetPageTable)
      relocatableSlice [] [] bare = .ok start m' ∧
      m'.userPageTables = [cr3] ∧ ∀ k, k < 8 →
        readByte m' cr3 (0x400000F8 + k) = (encode 8 0x40000010)[k]? := by
  have evaluated : returned (ElfBinary.parse relocatableSlice) [] = some relocatableBinary ∧
      returned (relocatableBinary.load .offsetPageTable
        (relocatableBinary.applyRelocations .offsetPageTable) relocatableSlice [] [])
        bare = some (0x40000000, 0x7FFF_FFFF_EFD0) ∧
      relocatableBinary.relocations relocatableSlice dynamicBase = [⟨0x400000F8, 0x40000010⟩] := by
        decide +kernel
  obtain ⟨parsed, returns, only⟩ := evaluated
  have loaded := ok_of_returned returns
  have itself : relocatableBinary.RelocatesItself relocatableSlice := by
    intro r member
    rw [only] at member
    obtain rfl := List.mem_singleton.mp member
    exact ⟨⟨_, List.mem_singleton.mpr rfl, by decide, .inl (by decide), 0, by decide, by decide⟩, by decide⟩
  obtain ⟨-, cr3, spaces, reads⟩ := load_relocated .offsetPageTable bare_booted .start rfl itself loaded
  refine ⟨parsed, _, _, cr3, loaded, spaces, fun k small => ?_⟩
  have read := reads _ (List.mem_singleton.mpr rfl) (by decide) (.inl (by decide)) (248 + k)
    (show 248 + k < 256 by omega)
  rw [only] at read
  have word : ∀ k, k < 8 → some (relocated [⟨0x400000F8, 0x40000010⟩]
    ((relocatableSegment.based dynamicBase).byteAt relocatableSlice)
      (0x40000000 + (248 + k))) = (encode 8 0x40000010)[k]? := by decide
  rw [← word k small, show 0x400000F8 + k = 0x40000000 + (248 + k) by omega]
  exact read

end PickleOS.Elf
