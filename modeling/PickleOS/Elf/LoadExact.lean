import PickleOS.Elf.Load
import PickleOS.Memory.Levels
import PickleOS.Memory.Ring0

set_option autoImplicit false

namespace PickleOS.Elf

open Memory Shared Shared.Bytes Shared.Outcome Shared.Machine

/-- What a program reads at an address, which must be canonical. -/
def readByte (m : MemoryManager) (cr3 : Frame) (addr : Nat) : Option UInt8 :=
  if Canonical addr then (m.access userRead cr3 (addr / 4096)).map fun f => m.byte f (addr % 4096) else none

def executable (flags : Flags) : Bool := !flags.noExecute

structure Segment.Loaded (seg : Segment) (data : Slice) (m : MemoryManager) (cr3 : Frame) : Prop where
  bytes : ∀ k, k < seg.memsz.toNat → ∃ byte, readByte m cr3 (seg.vaddr.toNat + k) = some byte ∧
    if k < seg.filesz.toNat then data.bytes[seg.offset.toNat + k]? = some byte else byte = 0
  writable : ∀ k f, k < seg.memsz.toNat → m.access Flags.writable cr3 ((seg.vaddr.toNat + k) / 4096) =
    some f → seg.flags &&& pfW ≠ 0
  executable : ∀ k f, k < seg.memsz.toNat → m.access executable cr3 ((seg.vaddr.toNat + k) / 4096) =
    some f → seg.flags &&& pfX ≠ 0

def LoadMeets (bin : ElfBinary) (data : Slice) (m m' : MemoryManager) : Prop :=
  ∃ cr3, m'.userPageTables = m.userPageTables ++ [cr3] ∧
    ∀ seg, seg ∈ bin.segments → seg.vaddr.toNat + seg.memsz.toNat < 2 ^ 64 → seg.Loaded data m' cr3

namespace Segment

variable (seg : Segment)

/-- All addresses of the segment are canonical, and in the same half. -/
def InOneHalf : Prop := seg.vaddr.toNat + seg.memsz.toNat ≤ 2 ^ 47 ∨ 2 ^ 64 - 2 ^ 47 ≤ seg.vaddr.toNat

/-- The loop copies the file byte for this address: neither the end of the file bytes nor that of the page
wraps. -/
def Copies (addr : Nat) : Prop :=
  seg.vaddr.toNat ≤ addr ∧ addr < seg.vaddr.toNat + seg.filesz.toNat ∧
    seg.vaddr.toNat + seg.filesz.toNat < 2 ^ 64 ∧ addr / 4096 < 2 ^ 52 - 1

instance (addr : Nat) : Decidable (seg.Copies addr) := inferInstanceAs (Decidable (_ ∧ _))

/-- A segment that is loaded right if it is loaded: file bytes that are not copied are zeros anyway. -/
def Loadable (data : Slice) : Prop :=
  0 < seg.memsz.toNat → seg.vaddr.toNat + seg.memsz.toNat < 2 ^ 64 → seg.InOneHalf ∧
    ∀ k, k < seg.memsz.toNat → k < seg.filesz.toNat → ¬seg.Copies (seg.vaddr.toNat + k) →
      data.bytes[seg.offset.toNat + k]? = some 0

def byteAt (data : Slice) (addr : Nat) : UInt8 :=
  if seg.Copies addr then data.bytes.getD (seg.offset.toNat + (addr - seg.vaddr.toNat)) 0 else 0

/-- Below an address, all bytes that are copied are in the file. -/
def Within (data : Slice) (limit : Nat) : Prop :=
  ∀ addr, addr < limit → seg.Copies addr → seg.offset.toNat + (addr - seg.vaddr.toNat) < data.bytes.length

end Segment

variable {x : Mapper} {level : Frame → Option Nat} {data : Slice} {seg : Segment} {m m' : MemoryManager}
    {cr3 f : Frame} {page : Nat}
  {flags : Flags} {contents : Nat → UInt8}

/-- The copy into a page, in numbers: `v`, `z` and `o` are the segment's address, size in the file and
offset. -/
theorem copy_window {v z o c e start page length : Nat} (address : v < 2 ^ 64) (size : z < 2 ^ 64)
    (position : o < 2 ^ 64)
    (space : page < 2 ^ 52) (short : length < 2 ^ 63) (first : c = max (page * 4096) v)
    (last : e = min ((page * 4096 + 4096) % 2 ^ 64) ((v + z) % 2 ^ 64)) (meet : c < e)
    (file : start = (o + (c - v)) % 2 ^ 64)
    (fits : ¬length < (start + (e - c)) % 2 ^ 64) (ordered : ¬(start + (e - c)) % 2 ^ 64 < start)
    (before : v < page * 4096 → o + (page * 4096 - 1 - v) < length) :
    v + z < 2 ^ 64 ∧ page < 2 ^ 52 - 1 ∧ e = min (page * 4096 + 4096) (v + z) ∧ start = o + (c - v) ∧
    start + (e - c) ≤ length := by
  have noWrap : v + z < 2 ^ 64 := by omega
  have room : page < 2 ^ 52 - 1 := by omega
  rw [Nat.mod_eq_of_lt noWrap, Nat.mod_eq_of_lt (by omega)] at last
  have here : o + (c - v) < 2 ^ 64 := by omega
  rw [Nat.mod_eq_of_lt here] at file
  refine ⟨noWrap, room, last, file, ?_⟩
  omega

theorem fileBytes_page {destOff : Nat} {bytes : List UInt8}
    (got : seg.fileBytes data seg.vaddr.toNat page = .ok (destOff, bytes))
    (space : page < 2 ^ 52) (before : seg.Within data (page * 4096)) :
    seg.Within data (page * 4096 + 4096) ∧
      ∀ j, j < 4096 → overlay (fun _ => 0) destOff bytes j = seg.byteAt data (page * 4096 + j) := by
  have short := data.short
  have vaddr := seg.vaddr.toNat_lt
  have filesz := seg.filesz.toNat_lt
  have offset := seg.offset.toNat_lt
  -- A page into which no byte of the file goes.
  have none (nothing : ∀ addr, page * 4096 ≤ addr → addr < page * 4096 + 4096 → ¬seg.Copies addr)
      (empty : bytes = []) : seg.Within data (page * 4096 + 4096) ∧
        ∀ j, j < 4096 → overlay (fun _ => 0) destOff bytes j = seg.byteAt data (page * 4096 + j) := by
    subst empty
    refine ⟨fun addr below copies => ?_, fun j small => ?_⟩
    · by_cases earlier : addr < page * 4096
      · exact before addr earlier copies
      · exact absurd copies (nothing addr (by omega) below)
    · rw [overlay_nil, Segment.byteAt, if_neg (nothing _ (by omega) (by omega))]
  simp only [Segment.fileBytes] at got
  split at got
  next nonempty =>
    generalize first : max (page * 4096) seg.vaddr.toNat = c at got
    generalize last : min ((page * 4096 + 4096) % 2 ^ 64)
      ((seg.vaddr.toNat + seg.filesz.toNat) % 2 ^ 64) = e at got
    split at got
    next meet =>
      generalize file : (seg.offset.toNat + (c - seg.vaddr.toNat)) % 2 ^ 64 = start at got
      split at got
      next => cases got
      next fits =>
        split at got
        next => cases got
        next ordered =>
          cases got
          obtain ⟨noWrap, room, ending, starting, inside⟩ :=
            copy_window vaddr filesz offset space short first.symm last.symm meet file.symm fits ordered
              fun later =>
              before (page * 4096 - 1) (by omega) ⟨by omega, by omega, by omega, by omega⟩
          refine ⟨fun addr below copies => ?_, fun j small => ?_⟩
          · by_cases earlier : addr < page * 4096
            · exact before addr earlier copies
            · obtain ⟨low, high, _, _⟩ := copies
              omega
          · have copied : seg.Copies (page * 4096 + j) ↔ c - page * 4096 ≤ j ∧
              j < c - page * 4096 + (e - c) := by
              rw [Segment.Copies]
              omega
            have length : (slice data.bytes start (e - c)).length = e - c := by
              rw [slice, List.length_take, List.length_drop]
              omega
            simp only [overlay, Segment.byteAt, length, copied]
            split
            next within =>
              rw [slice, List.getD_eq_getElem?_getD, List.getElem?_take_of_lt (by omega),
                List.getElem?_drop, ← List.getD_eq_getElem?_getD]
              have index : start + (j - (c - page * 4096)) = seg.offset.toNat +
                (page * 4096 + j - seg.vaddr.toNat) := by omega
              rw [index]
            next => rfl
    next apart =>
      cases got
      refine none (fun addr low high copies => ?_) rfl
      obtain ⟨above, below, noWrap, room⟩ := copies
      rw [Nat.mod_eq_of_lt noWrap, Nat.mod_eq_of_lt (by omega)] at last
      omega
  next empty =>
    cases got
    refine none (fun addr low high copies => ?_) rfl
    have range := copies.2.1
    have start := copies.1
    omega

/-- The user's page with these rights, whose frame nobody gets again, holds the bytes for its
addresses. -/
def Sits (m : MemoryManager) (cr3 : Frame) (page : Nat) (flags : Flags) (contents : Nat → UInt8) : Prop :=
  ∃ frame, Mapped m cr3 page ⟨frame, flags⟩ ∧ ¬m.Fresh frame ∧ ∀ j, j < 4096 →
    m.byte frame j = contents (page * 4096 + j)

theorem Sits.kept {level' : Frame → Option Nat} (sits : Sits m cr3 page flags contents)
    (present : flags.present = true)
    (leveled : Leveled level m) (root : level cr3 = some 0) (deepens : Deepens level m level' m') :
      Sits m' cr3 page flags contents := by
  obtain ⟨frame, mapped, old, bytes⟩ := sits
  have used : ¬Entry.IsUnused ⟨frame, flags⟩ := fun unused => by
    have absent := congrArg Flags.present (Entry.unused_flags unused)
    rw [present] at absent
    cases absent
  refine ⟨frame, mapped.kept used leveled root deepens, fun fresh => old (fresh.grows deepens.grows),
    fun j small => ?_⟩
  rw [deepens.bytes frame old, bytes j small]

section Returned

theorem allocateFrame_returned {message : String} (done : LoadM.allocateFrame message m = .ok f m') :
    m.allocateFrame = (some f, m') := by
  unfold LoadM.allocateFrame at done
  split at done
  next fresh =>
    cases done
    exact fresh
  next => cases done

theorem mapTo_returned {message : String} (done : LoadM.mapTo x cr3 page f flags message m = .ok () m') :
    x.mapTo m cr3 page f flags = (.ok (), m') := by
  unfold LoadM.mapTo at done
  split at done
  next ok =>
    cases done
    exact ok
  next => cases done

theorem virtAddr_returned {addr value : Nat} (done : LoadM.virtAddr x addr m = .ok value m') :
    x.virtAddr addr = some value ∧ m' = m := by
  rw [LoadM.virtAddr] at done
  cases fine : x.virtAddr addr with
  | none =>
    rw [fine] at done
    cases done
  | some start =>
    rw [fine] at done
    cases done
    exact ⟨rfl, rfl⟩

theorem createUserMapper_returned (done : LoadM.createUserMapper m = .ok cr3 m') :
    m.createUserMapper = some (cr3, m') := by
  unfold LoadM.createUserMapper at done
  split at done
  next made =>
    cases done
    exact made
  next => cases done

end Returned

theorem mapped_fresh {m₁ m₂ : MemoryManager} (leveled : Leveled level m) (root : level cr3 = some 0)
    (present : flags.present = true)
    (user : flags.user = true) (fresh : m.allocateFrame = (some f, m₁))
    (mapped : x.mapTo m₁ cr3 page f flags = (.ok (), m₂)) :
    ∃ level', Deepens level m level' m₂ ∧ Mapped m₂ cr3 page ⟨f, flags⟩ ∧ m.Fresh f ∧ ¬m₂.Fresh f := by
  have maps := x.mapTo_documented m₁ cr3 page f flags
  rw [mapped] at maps
  have first := Deepens.allocate leveled fresh
  obtain ⟨level', second, mapped⟩ := maps.deepens first.leveled root
  exact ⟨level', first.trans second, mapped rfl present user, fresh_allocated fresh,
    fun later => leveled.taken fresh (later.grows second.grows)⟩

theorem loadPage_sits {v : Nat} (leveled : Leveled level m) (root : level cr3 = some 0)
    (done : loadPage x cr3 data seg v page m = .ok () m') :
    ∃ level' destOff bytes, Deepens level m level' m' ∧ seg.fileBytes data v page = .ok (destOff, bytes) ∧
      Sits m' cr3 page seg.pageFlags fun addr => overlay (fun _ => 0) destOff bytes (addr - page * 4096) := by
  obtain ⟨f, m₁, fresh, done⟩ := bind_returned done
  obtain ⟨_, m₂, mapped, done⟩ := bind_returned done
  obtain ⟨_, m₃, zeroed, done⟩ := bind_returned done
  cases zeroed
  obtain ⟨level', deepens, mapped, free, old⟩ :=
    mapped_fresh leveled root rfl rfl (allocateFrame_returned fresh) (mapTo_returned mapped)
  cases copied : seg.fileBytes data v page with
  | error fail =>
    rw [copied] at done
    cases done
  | ok copy =>
    rw [copied] at done
    obtain ⟨destOff, bytes⟩ := copy
    cases done
    have zeros : (m₂.zeroPage f).byte f = fun _ => 0 := setPage_byte ..
    refine ⟨level', destOff, bytes, (deepens.setPage free _).setPage free _, rfl, f, mapped.of_table rfl,
      old, fun j small => ?_⟩
    dsimp only
    rw [Nat.add_sub_cancel_left, setPage_byte, zeros]

theorem loadPages_deepens {v : Nat} {pages : List Nat} (leveled : Leveled level m) (root : level cr3 = some 0)
    (done : loadPages x cr3 data seg v pages m = .ok () m') : ∃ level', Deepens level m level' m' := by
  induction pages generalizing level m with
  | nil =>
    cases done
    exact ⟨level, .refl leveled⟩
  | cons page rest ih =>
    obtain ⟨_, m₁, first, done⟩ := bind_returned done
    obtain ⟨level₁, _, _, deepens, _, _⟩ := loadPage_sits leveled root first
    obtain ⟨level₂, more⟩ := ih deepens.leveled (deepens.serves _ _ root) done
    exact ⟨level₂, deepens.trans more⟩

theorem loadPages_sits {count : Nat} (leveled : Leveled level m) (root : level cr3 = some 0)
    (space : page + count ≤ 2 ^ 52)
    (before : seg.Within data (page * 4096)) (done :
      loadPages x cr3 data seg seg.vaddr.toNat (List.range' page count) m = .ok () m') :
    seg.Within data ((page + count) * 4096) ∧
      ∀ q, page ≤ q → q < page + count → Sits m' cr3 q seg.pageFlags (seg.byteAt data) := by
  induction count generalizing level m page with
  | zero => exact ⟨before, fun q low high => absurd high (by omega)⟩
  | succ count ih =>
    rw [List.range'_succ] at done
    obtain ⟨_, m₁, first, done⟩ := bind_returned done
    obtain ⟨level₁, destOff, bytes, deepens, copied, sits⟩ := loadPage_sits leveled root first
    obtain ⟨within, same⟩ := fileBytes_page copied (by omega) before
    have root₁ := deepens.serves _ _ root
    obtain ⟨level₂, more⟩ := loadPages_deepens deepens.leveled root₁ done
    obtain ⟨within', others⟩ := ih deepens.leveled root₁ (by omega) (by rwa [Nat.add_mul, Nat.one_mul]) done
    refine ⟨by rwa [Nat.add_assoc, Nat.add_comm 1 count] at within', fun q low high => ?_⟩
    by_cases here : q = page
    · subst here
      obtain ⟨frame, mapped, old, held⟩ := sits
      refine Sits.kept ⟨frame, mapped, old, fun j small => ?_⟩ rfl deepens.leveled root₁ more
      rw [held j small, ← same j small]
      dsimp only
      rw [Nat.add_sub_cancel_left]
    · exact others q (by omega) (by omega)

/-- The user's pages hold what belongs to the segment, and what was copied was there to copy. -/
def Segment.Stands (seg : Segment) (data : Slice) (m : MemoryManager) (cr3 : Frame) : Prop :=
  ∀ k, k < seg.memsz.toNat → Sits m cr3 ((seg.vaddr.toNat + k) / 4096) seg.pageFlags (seg.byteAt data) ∧
    (seg.Copies (seg.vaddr.toNat + k) → seg.offset.toNat + k < data.bytes.length)

theorem Segment.Stands.kept {level' : Frame → Option Nat} (stands : seg.Stands data m cr3)
    (leveled : Leveled level m)
    (root : level cr3 = some 0) (deepens : Deepens level m level' m') : seg.Stands data m' cr3 :=
  fun k inside => ⟨(stands k inside).1.kept rfl leveled root deepens, (stands k inside).2⟩

theorem loadSegment_stands {first last : Nat} (leveled : Leveled level m) (root : level cr3 = some 0)
    (noWrap : seg.vaddr.toNat + seg.memsz.toNat < 2 ^ 64) (half : seg.InOneHalf)
    (start : x.virtAddr seg.vaddr.toNat = some first)
    (ending : x.virtAddr (((seg.vaddr.toNat + seg.memsz.toNat) % 2 ^ 64 + (2 ^ 64 - 1)) % 2 ^ 64) =
      some last)
    (done : loadPages x cr3 data seg seg.vaddr.toNat (x.rangeInclusive (first / 4096) (last / 4096))
    m = .ok () m') :
    seg.Stands data m' cr3 := by
  intro k inside
  have end_addr : ((seg.vaddr.toNat + seg.memsz.toNat) % 2 ^ 64 + (2 ^ 64 - 1)) % 2 ^
    64 = seg.vaddr.toNat + seg.memsz.toNat - 1 := by omega
  have first_canonical : seg.vaddr.toNat < 2 ^ 47 ∨ 2 ^ 64 - 2 ^ 47 ≤ seg.vaddr.toNat := by
    rw [Segment.InOneHalf] at half
    omega
  have last_canonical : seg.vaddr.toNat + seg.memsz.toNat - 1 < 2 ^ 47 ∨
    2 ^ 64 - 2 ^ 47 ≤ seg.vaddr.toNat + seg.memsz.toNat - 1 := by
    rw [Segment.InOneHalf] at half
    omega
  rw [x.virtAddr_same first_canonical] at start
  rw [end_addr, x.virtAddr_same last_canonical] at ending
  obtain rfl := Option.some.inj start
  obtain rfl := Option.some.inj ending
  rw [Segment.InOneHalf] at half
  rw [(x.rangeInclusive_documented _ _).half (by omega) (by omega)] at done
  have before : seg.Within data (seg.vaddr.toNat / 4096 * 4096) := fun addr below copies => by
    have above := copies.1
    omega
  obtain ⟨within, sits⟩ := loadPages_sits leveled root (by omega) before done
  refine ⟨sits _ (by omega) (by omega), fun copies => ?_⟩
  have within_here := within (seg.vaddr.toNat + k) (by omega) copies
  rwa [Nat.add_sub_cancel_left] at within_here

theorem loadSegments_stands {segs : List Segment} (leveled : Leveled level m) (root : level cr3 = some 0)
    (done : loadSegments x cr3 data 0 segs m = .ok () m') : ∃ level', Deepens level m level' m' ∧
      ∀ seg, seg ∈ segs → seg.vaddr.toNat + seg.memsz.toNat < 2 ^ 64 → seg.InOneHalf →
        seg.Stands data m' cr3 := by
  induction segs generalizing level m with
  | nil =>
    cases done
    exact ⟨level, .refl leveled, fun _ member => absurd member List.not_mem_nil⟩
  | cons seg rest ih =>
    have base : (0 + seg.vaddr.toNat) % 2 ^ 64 = seg.vaddr.toNat := by
      rw [Nat.zero_add]
      exact Nat.mod_eq_of_lt seg.vaddr.toNat_lt
    simp only [loadSegments, base] at done
    obtain ⟨first, _, fine, done₁⟩ := bind_returned done
    obtain ⟨start, rfl⟩ := virtAddr_returned fine
    obtain ⟨last, _, fine', done₂⟩ := bind_returned done₁
    obtain ⟨ending, rfl⟩ := virtAddr_returned fine'
    obtain ⟨_, m₁, loaded, done₃⟩ := bind_returned done₂
    obtain ⟨level₁, deepens⟩ := loadPages_deepens leveled root loaded
    have root₁ := deepens.serves _ _ root
    obtain ⟨level₂, more, others⟩ := ih deepens.leveled root₁ done₃
    refine ⟨level₂, deepens.trans more, fun seg' member noWrap half => ?_⟩
    rcases List.mem_cons.mp member with rfl | later
    · exact (loadSegment_stands leveled root noWrap half start ending loaded).kept deepens.leveled root₁ more
    · exact others seg' later noWrap half

theorem mapStack_deepens {places : List Nat} {top top' : Option Frame} (leveled : Leveled level m)
    (root : level cr3 = some 0)
    (done : mapStack x cr3 places top m = .ok top' m') :
    ∃ level', Deepens level m level' m' ∧ (top' = top ∨ ∃ f, top' = some f ∧ m.Fresh f) := by
  induction places generalizing level m top with
  | nil =>
    cases done
    exact ⟨level, .refl leveled, .inl rfl⟩
  | cons i rest ih =>
    obtain ⟨addr, _, fine, done₁⟩ := bind_returned done
    obtain ⟨-, rfl⟩ := virtAddr_returned fine
    obtain ⟨f, m₁, fresh, done₂⟩ := bind_returned done₁
    obtain ⟨_, m₂, mapped, done₃⟩ := bind_returned done₂
    obtain ⟨_, m₃, zeroed, done₄⟩ := bind_returned done₃
    cases zeroed
    obtain ⟨level₁, deepens, -, free, -⟩ :=
      mapped_fresh leveled root rfl rfl (allocateFrame_returned fresh) (mapTo_returned mapped)
    have zeroed := deepens.setPage free fun _ => 0
    obtain ⟨level₂, more, which⟩ := ih zeroed.leveled (zeroed.serves _ _ root) done₄
    refine ⟨level₂, zeroed.trans more, ?_⟩
    rcases which with same | ⟨g, same, later⟩
    · rw [same]
      split
      · exact .inr ⟨f, rfl, free⟩
      · exact .inl rfl
    · exact .inr ⟨g, same, later.grows zeroed.grows⟩

theorem seedStack_returned {top : Option Frame} {args envs : List (List UInt8)} {sp : Nat}
    (done : seedStack top args envs m = .ok sp m') : ∃ f contents, top = some f ∧
      m' = m.setPage f contents := by
  cases top with
  | none => cases done
  | some f =>
    obtain ⟨_, m₁, written, done₁⟩ := bind_returned done
    cases written
    cases result : (setupUserStack false topPageUserBase 4096 args envs).1 with
    | error e =>
      simp only [Option.isNone_some, result] at done₁
      cases done₁
    | ok sp =>
      simp only [Option.isNone_some, result] at done₁
      cases done₁
      exact ⟨f, _, rfl, rfl⟩

theorem Sits.store (sits : Sits m cr3 page flags contents) (r : Frame) :
    Sits (m.storeUserMapper r) cr3 page flags contents := by
  obtain ⟨frame, mapped, old, bytes⟩ := sits
  exact ⟨frame, mapped.of_table rfl, old, bytes⟩

theorem load_stands {applyRelocations : Slice → Nat → Frame → LoadM Unit} {bin : ElfBinary}
    {args envs : List (List UInt8)}
    {entry sp : Nat} (leveled : Leveled level m) (static : bin.isDynamic = false)
    (loaded : bin.load x applyRelocations data args envs m = .ok (entry, sp) m') :
    ∃ cr3, m'.userPageTables = m.userPageTables ++ [cr3] ∧
      ∀ seg, seg ∈ bin.segments → seg.vaddr.toNat + seg.memsz.toNat < 2 ^ 64 → seg.InOneHalf →
        seg.Stands data m' cr3 := by
  obtain ⟨cr3, m₁, made, done₁⟩ := bind_returned loaded
  have made := createUserMapper_returned made
  obtain ⟨level₁, leveled₁, -, root₁⟩ := leveled.createUserMapper made
  simp only [static, Bool.false_eq_true, if_false] at done₁
  obtain ⟨_, m₂, segments, done₂⟩ := bind_returned done₁
  obtain ⟨level₂, deepens, stands⟩ := loadSegments_stands leveled₁ root₁ segments
  have root₂ := deepens.serves _ _ root₁
  obtain ⟨top, m₃, stack, done₃⟩ := bind_returned done₂
  obtain ⟨level₃, more, which⟩ := mapStack_deepens deepens.leveled root₂ stack
  obtain ⟨userSp, _, seeded, done₄⟩ := bind_returned done₃
  obtain ⟨f, contents, rfl, rfl⟩ := seedStack_returned seeded
  -- The top page of the stack is new, so that writing there touches no segment.
  have fresh : m₂.Fresh f := by
    rcases which with none | ⟨g, same, fresh⟩
    · cases none
    · cases same
      exact fresh
  have written := more.setPage fresh contents
  obtain ⟨_, _, stored, done₅⟩ := bind_returned done₄
  cases stored
  obtain ⟨_, _, fine, done₆⟩ := bind_returned done₅
  obtain ⟨-, rfl⟩ := virtAddr_returned fine
  obtain ⟨_, _, fine', done₇⟩ := bind_returned done₆
  obtain ⟨-, rfl⟩ := virtAddr_returned fine'
  cases done₇
  refine ⟨cr3, ?_, fun seg member noWrap half k inside => ?_⟩
  · have spaces := (((createUserMapper_fresh made).1.trans deepens.grows).trans written.grows).spaces
    exact congrArg (· ++ [cr3]) spaces
  · obtain ⟨sits, within⟩ := (stands seg member noWrap half).kept deepens.leveled root₂ written k inside
    exact ⟨sits.store cr3, within⟩

theorem Segment.InOneHalf.canonical {k : Nat} (half : seg.InOneHalf) (inside : k < seg.memsz.toNat) :
    Canonical (seg.vaddr.toNat + k) := by
  rw [Segment.InOneHalf] at half
  rw [Canonical]
  omega

theorem Segment.outside (positive : 0 < seg.memsz.toNat) (split : ¬seg.InOneHalf) :
    ∃ k, k < seg.memsz.toNat ∧ ¬Canonical (seg.vaddr.toNat + k) := by
  rw [Segment.InOneHalf] at split
  refine ⟨2 ^ 47 - seg.vaddr.toNat, by omega, ?_⟩
  rw [Canonical]
  omega

theorem Sits.reads {addr : Nat} (sits : Sits m cr3 (addr / 4096) flags contents) (canonical : Canonical addr)
    (present : flags.present = true) (user : flags.user = true) :
      readByte m cr3 addr = some (contents addr) := by
  obtain ⟨frame, mapped, -, bytes⟩ := sits
  have offset : addr / 4096 * 4096 + addr % 4096 = addr := Nat.div_add_mod' addr 4096
  rw [readByte, if_pos canonical, mapped.reads present user, Option.map_some,
    bytes _ (Nat.mod_lt _ (by decide)), offset]

theorem Segment.Stands.loaded (stands : seg.Stands data m cr3) (half : seg.InOneHalf)
    (zeros : ∀ k, k < seg.memsz.toNat → k < seg.filesz.toNat → ¬seg.Copies (seg.vaddr.toNat + k) →
      data.bytes[seg.offset.toNat + k]? = some 0) : seg.Loaded data m cr3 where
  bytes k inside := by
    obtain ⟨sits, within⟩ := stands k inside
    refine ⟨_, sits.reads (half.canonical inside) rfl rfl, ?_⟩
    rw [Segment.byteAt]
    by_cases copies : seg.Copies (seg.vaddr.toNat + k)
    · have backed : k < seg.filesz.toNat := by
        have range := copies.2.1
        omega
      rw [if_pos copies, if_pos backed, Nat.add_sub_cancel_left, List.getD_eq_getElem?_getD,
        List.getElem?_eq_getElem (within copies), Option.getD_some]
    · rw [if_neg copies]
      split
      next backed => exact zeros k inside backed copies
      next => rfl
  writable k f inside reached := by
    obtain ⟨_, mapped, _⟩ := (stands k inside).1
    exact of_decide_eq_true (mapped.right reached)
  executable k f inside reached := by
    obtain ⟨_, mapped, _⟩ := (stands k inside).1
    have right := mapped.right reached
    simp only [PickleOS.Elf.executable, Segment.pageFlags, Bool.not_eq_true', decide_eq_false_iff_not] at right
    exact right

/-- A static binary that is loaded is loaded right if no segment leaves its half of the address
space, and the file bytes whose end wraps, or that belong into the last page, are zeros. -/
theorem load_exact_iff (x : Mapper) (applyRelocations : Slice → Nat → Frame → LoadM Unit) {boot : Frame → Owner}
    {start : MemoryManager} (booted : Booted boot start)
    (run : Reaches (step x) (fun _ _ => True) start m) {bin : ElfBinary}
    (static : bin.isDynamic = false) {args envs : List (List UInt8)} {entry sp : Nat}
    (loaded : bin.load x applyRelocations data args envs m = .ok (entry, sp) m') :
    LoadMeets bin data m m' ↔ ∀ seg, seg ∈ bin.segments → seg.Loadable data := by
  obtain ⟨level, leveled⟩ := run_leveled x booted run
  obtain ⟨cr3, spaces, stands⟩ := load_stands leveled static loaded
  constructor
  · rintro ⟨cr3', spaces', meets⟩ seg member positive noWrap
    obtain rfl : cr3 = cr3' := by simpa using List.append_cancel_left (spaces.symm.trans spaces')
    have fine := meets seg member noWrap
    have half : seg.InOneHalf := by
      by_contra split
      obtain ⟨k, inside, hole⟩ := Segment.outside positive split
      obtain ⟨byte, read, _⟩ := fine.bytes k inside
      rw [readByte, if_neg hole] at read
      cases read
    refine ⟨half, fun k inside backed left => ?_⟩
    obtain ⟨byte, read, meant⟩ := fine.bytes k inside
    rw [if_pos backed] at meant
    have zero := (stands seg member noWrap half k inside).1.reads (half.canonical inside) rfl rfl
    rw [Segment.byteAt, if_neg left, read] at zero
    rwa [Option.some.inj zero] at meant
  · intro loadable
    refine ⟨cr3, spaces, fun seg member noWrap => ?_⟩
    by_cases positive : 0 < seg.memsz.toNat
    · obtain ⟨half, zeros⟩ := loadable seg member positive noWrap
      exact (stands seg member noWrap half).loaded half zeros
    · exact ⟨fun k inside => absurd inside (by omega), fun k _ inside => absurd inside (by omega),
        fun k _ inside => absurd inside (by omega)⟩

def executableFile (vaddr filesz memsz : Nat) : List UInt8 :=
  pack [(4, 0x464c457f), (1, 2), (1, 1), (10, 0), (2, 2), (2, 62), (4, 1), (8, 0x400000), (8, 64), (8, 0),
    (4, 0), (2, 64), (2, 56),
    (2, 1), (6, 0)] ++
  pack [(4, 1), (4, 5), (8, 0), (8, vaddr), (8, vaddr), (8, filesz), (8, memsz), (8, 0x1000)]

def executableSlice (vaddr filesz memsz : UInt64) : Slice :=
  ⟨executableFile vaddr.toNat filesz.toNat memsz.toNat, by simp [executableFile]⟩

def executableBinary (vaddr filesz memsz : UInt64) : ElfBinary where
  entry := 0x400000
  segments := [{ vaddr := vaddr, memsz := memsz, filesz := filesz, offset := 0, flags := 5 }]
  dynamicInfo := {}
  isDynamic := false

def loadPlain (bin : ElfBinary) (data : Slice) : LoadM (Nat × Nat) :=
  bin.load .offsetPageTable (fun _ _ _ => pure ()) data [] []

theorem load_exact_small : returned (ElfBinary.parse (executableSlice 0x400000 120 0x1000))
    [] = some (executableBinary 0x400000 120 0x1000) ∧
    ∃ start m', loadPlain (executableBinary 0x400000 120 0x1000) (executableSlice 0x400000 120 0x1000)
      bare = .ok start m' ∧
      LoadMeets (executableBinary 0x400000 120 0x1000) (executableSlice 0x400000 120 0x1000) bare m' := by
  have evaluated :
      returned (ElfBinary.parse (executableSlice 0x400000 120 0x1000))
        [] = some (executableBinary 0x400000 120 0x1000) ∧
      returned (loadPlain (executableBinary 0x400000 120 0x1000) (executableSlice 0x400000 120 0x1000)) bare =
        some (0x400000, 0x7FFF_FFFF_EFD0) := by decide +kernel
  obtain ⟨parsed, returns⟩ := evaluated
  have loaded := ok_of_returned returns
  refine ⟨parsed, _, _, loaded, (load_exact_iff _ _ bare_booted .start rfl loaded).mpr fun seg member _ _ => ?_⟩
  obtain rfl := List.mem_singleton.mp member
  refine ⟨.inl (by decide), fun k inside backed left => absurd ?_ left⟩
  have vaddr : (0x400000 : UInt64).toNat = 0x400000 := rfl
  have filesz : (120 : UInt64).toNat = 120 := rfl
  have memsz : (0x1000 : UInt64).toNat = 0x1000 := rfl
  simp only [filesz, memsz] at inside backed
  simp only [Segment.Copies, vaddr, filesz]
  omega

def overlongSlice : Slice := executableSlice 0x400000 (0 - 0x400000) 0x1000
def overlongBinary : ElfBinary := executableBinary 0x400000 (0 - 0x400000) 0x1000

/-- Where the end of the file bytes wraps, none is copied, and none is missed either. -/
theorem load_leaves_out : returned (ElfBinary.parse overlongSlice) [] = some overlongBinary ∧
    ∃ start m', loadPlain overlongBinary overlongSlice bare = .ok start m' ∧
    ¬LoadMeets overlongBinary overlongSlice bare m' := by
  have evaluated : returned (ElfBinary.parse overlongSlice) [] = some overlongBinary ∧
      returned (loadPlain overlongBinary overlongSlice) bare = some (0x400000, 0x7FFF_FFFF_EFD0) ∧
      (final (loadPlain overlongBinary overlongSlice) bare).userPageTables = [256] ∧
      readByte (final (loadPlain overlongBinary overlongSlice) bare) 256 0x400000 = some 0 ∧
      overlongSlice.bytes[0]? = some 0x7f := by decide +kernel
  obtain ⟨parsed, returns, spaces, reads, magic⟩ := evaluated
  refine ⟨parsed, _, _, ok_of_returned returns, ?_⟩
  rintro ⟨cr3, spaces', meets⟩
  obtain rfl : 256 = cr3 := by simpa [bare] using spaces.symm.trans spaces'
  have fine := meets _ (List.mem_singleton.mpr rfl) (by decide)
  obtain ⟨byte, read, meant⟩ := fine.bytes 0 (by decide)
  obtain rfl := Option.some.inj (reads.symm.trans read)
  rw [if_pos (by decide)] at meant
  cases magic.symm.trans meant

end PickleOS.Elf
