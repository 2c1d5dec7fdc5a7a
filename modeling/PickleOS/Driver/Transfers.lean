import PickleOS.Driver.Ahci
import PickleOS.Shared.Words

set_option autoImplicit false

/-!
# What a transfer comes to

A command moves as many bytes as its PRD has room for, whatever the drive has for it.
-/

namespace PickleOS.Driver.Ahci

open Shared Shared.Bytes Shared.Outcome Shared.Sectors Dma

variable {mmio : Mmio} {h : Hba} {base clbPhys dataPhys : UInt64} {byteCount : UInt32}

/-- The registers let every command pass. -/
structure Responsive (mmio : Mmio) (base : UInt64) : Prop where
  ready : ∀ h, ∃ h', waitNotBusy mmio base 1000 h = .ok true h'
  retires : ∀ h, ∃ h', waitRetired mmio base 2000 h = .ok true h'
  status : ∀ now, ∃ tfd, mmio.read now (base + portTfd) = .ok tfd ∧ tfd &&& tfdErr = 0
  interrupts : ∀ now, ∃ is, mmio.read now (base + portIs) = .ok is
  writes : ∀ now addr value, addr = base + portIs ∨ addr = base + portCi → mmio.write now addr value = .ok ()

section Encoding

theorem halves_toNat (x : UInt64) : (x &&& 0xFFFFFFFF).toUInt32.toNat + (x >>> 32).toUInt32.toNat * 2 ^
    32 = x.toNat := by
  have bound := x.toNat_lt
  have mask (n : Nat) : n &&& 4294967295 = n % 2 ^ 32 := Nat.and_two_pow_sub_one_eq_mod n 32
  simp [Nat.shiftRight_eq_div_pow, mask]
  omega

theorem mask_byte (n : Nat) : n &&& 255 = n % 2 ^ 8 := Nat.and_two_pow_sub_one_eq_mod n 8

theorem regH2d_lba (command : UInt8) (lba : UInt64) (count : UInt16) :
    (regH2d command lba count).lba = lba.toNat % 2 ^ 48 := by
  simp [FisRegH2d.lba, regH2d, Nat.shiftRight_eq_div_pow, mask_byte]
  omega

theorem regH2d_sectors (command : UInt8) (lba : UInt64) {count : UInt16} (nonzero : count ≠ 0) :
    (regH2d command lba count).sectors = count.toNat := by
  have bound := count.toNat_lt
  have positive : count.toNat ≠ 0 := fun zero => nonzero (UInt16.toNat_inj.mp zero)
  simp [FisRegH2d.sectors, regH2d, Nat.shiftRight_eq_div_pow, mask_byte]
  split <;> omega

theorem or_one_of_odd {n : Nat} (odd : n % 2 = 1) : n ||| 1 = n := by
  refine Nat.eq_of_testBit_eq fun i => ?_
  cases i with
  | zero => simp [odd]
  | succ i =>
    have none : Nat.testBit 1 (i + 1) = false := by simp [Nat.testBit_succ]
    rw [Nat.testBit_or, none, Bool.or_false]

theorem prdEntry_address (dataPhys : UInt64) (byteCount : UInt32) :
    (prdEntry dataPhys byteCount).address = dataPhys.toNat :=
  halves_toNat dataPhys

theorem prdEntry_bytes (dataPhys : UInt64) (byteCount : UInt32) (even : byteCount.toNat % 2 = 0)
    (positive : 0 < byteCount.toNat) :
    (prdEntry dataPhys byteCount).bytes = (byteCount.toNat - 1) % 2 ^ 22 + 1 := by
  have sub : (byteCount - 1).toNat = byteCount.toNat - 1 := by
    rw [UInt32.toNat_sub_of_le _ _ (by rw [UInt32.le_iff_toNat_le]; exact positive)]
    rfl
  rw [Prd.bytes, prdEntry, UInt32.toNat_or, sub, show UInt32.toNat 1 = 1 from rfl, or_one_of_odd (by omega)]

theorem commandHeader_address (ctPhys : UInt64) (dir : Direction) :
    (commandHeader ctPhys byteCount dir).address = ctPhys.toNat :=
  halves_toNat ctPhys

theorem commandHeader_isWrite (ctPhys : UInt64) (dir : Direction) :
    (commandHeader ctPhys byteCount dir).isWrite = decide (dir = .write) := by
  cases dir <;> simp [CommandHeader.isWrite, commandHeader] <;> decide

end Encoding

section Rules

theorem require_ends {holds : Bool} {message : String} {returns : Unit → Hba → Prop}
    {fails : String → Hba → Prop} :
    Ends (require holds message) h returns fails ↔ if holds then returns () h else fails message h := by
  cases holds <;> rfl

theorem marked_ends {α : Type} {body : DriverM α} {returns : α → Hba → Prop} {fails : String → Hba → Prop}
    (ends : Ends body { h with dma := h.dma.mark.2 }
    (fun a h' => returns a { h' with dma := h'.dma.resetTo h.dma.mark.1 })
      fun e h' => fails e { h' with dma := h'.dma.resetTo h.dma.mark.1 }) :
        Ends (marked body) h returns fails := by
  simp only [Ends, marked] at *
  cases result : body { h with dma := h.dma.mark.2 } with
  | ok a h' =>
    rw [result] at ends
    exact ends
  | error e h' =>
    rw [result] at ends
    exact ends

theorem readU32_ends (mmio : Mmio) (addr : UInt64) (h : Hba) :
    Ends (readU32 mmio addr) h (fun value h' => mmio.read h.now addr = .ok value ∧
    h' = { h with now := h.now + 1 })
      (fun e _ => mmio.read h.now addr = .error e) := by
  unfold Ends readU32
  cases mmio.read h.now addr with
  | ok value => exact ⟨rfl, rfl⟩
  | error e => rfl

theorem writeU32_ends (mmio : Mmio) (addr : UInt64) (value : UInt32) (h : Hba) :
    Ends (writeU32 mmio addr value) h (fun _ h' => h' = { h with now := h.now + 1 })
      (fun e _ => mmio.write h.now addr value = .error e) := by
  unfold Ends writeU32
  cases mmio.write h.now addr value with
  | ok => rfl
  | error e => rfl

/-- Only time goes by. -/
def Hba.Waited (h h' : Hba) : Prop := ∃ now, h' = { h with now := now }

theorem Hba.Waited.refl (h : Hba) : h.Waited h := ⟨h.now, rfl⟩

theorem Hba.Waited.trans {h h' h'' : Hba} (first : h.Waited h') (second : h'.Waited h'') : h.Waited h'' := by
  obtain ⟨_, rfl⟩ := first
  obtain ⟨now, rfl⟩ := second
  exact ⟨now, rfl⟩

theorem readU32_waited {addr : UInt64} {value : UInt32}
    {h' : Hba} (read : readU32 mmio addr h = .ok value h') : h.Waited h' :=
  ⟨_, ((readU32_ends mmio addr h).of_ok read).2⟩

theorem Hba.Waited.dma {h' : Hba} (waited : h.Waited h') : h'.dma = h.dma := by
  obtain ⟨_, rfl⟩ := waited
  rfl

theorem waitNotBusy_ends (mmio : Mmio) (base : UInt64) (tries : Nat) (h : Hba) :
    Ends (waitNotBusy mmio base tries) h (fun _ h' => h.Waited h') (fun _ _ => False) := by
  induction tries generalizing h with
  | zero => exact .refl h
  | succ tries ih =>
    simp only [Ends, waitNotBusy]
    cases read : readU32 mmio (base + portTfd) h with
    | error e h' =>
      unfold readU32 at read
      split at read
      next => cases read
      next =>
        cases read
        exact ⟨_, rfl⟩
    | ok tfd h' =>
      by_cases idle : tfd &&& (tfdBsy ||| tfdDrq) = 0
      · simp only [idle, if_true]
        exact readU32_waited read
      · simp only [idle, if_false]
        exact (ih h').imp (fun _ _ later => (readU32_waited read).trans later) fun _ _ never => never

theorem waitRetired_ends (mmio : Mmio) (base : UInt64) (tries : Nat) (h : Hba) :
    Ends (waitRetired mmio base tries) h (fun _ h' => h.Waited h') (fun _ _ => True) := by
  induction tries generalizing h with
  | zero => exact .refl h
  | succ tries ih =>
    refine ((readU32_ends mmio (base + portCi) h).imp (fun _ _ read => read) fun _ _ _ => trivial).bind ?_
    rintro ci _ ⟨_, rfl⟩
    split
    next => exact ⟨_, rfl⟩
    next =>
      refine ((readU32_ends mmio (base + portTfd) _).imp (fun _ _ read => read) fun _ _ _ => trivial).bind ?_
      rintro tfd _ ⟨_, rfl⟩
      split
      next => exact ⟨_, rfl⟩
      next => exact (ih _).imp (fun _ _ later => Hba.Waited.trans ⟨_, rfl⟩ later) fun _ _ _ => trivial

end Rules

section Pool

/-- The bytes of whole pages. -/
def roundUp (size : Nat) : Nat := (size + 4095) / 4096 * 4096

def Free (a : DmaAllocator) (bytes : Nat) : Prop := a.nextOffset.toNat + bytes ≤ dmaPoolSize.toNat

/-- The physical address of what is handed out next. -/
def top (a : DmaAllocator) : Nat := dmaPoolPhysBase.toNat + a.nextOffset.toNat

/-- Zeroed memory of the pool has been handed out. -/
structure Granted (h : Hba) (bytes : Nat) (r : UInt64 × UInt64) (h' : Hba) : Prop where
  room : Free h.dma bytes
  virt : physOf r.1 = top h.dma
  phys : r.2.toNat = top h.dma
  memory : h'.memory = overlay h.memory (top h.dma) (List.replicate bytes 0)
  disk : h'.disk = h.disk
  driveSectorSize : h'.driveSectorSize = h.driveSectorSize
  even : h'.dma.Even
  next : h'.dma.nextOffset.toNat = h.dma.nextOffset.toNat + bytes

theorem allocDma_ends (size : Nat) (message : String) (even : h.dma.Even) (small : size < 2 ^ 32) :
    Ends (allocDma size message) h (Granted h (roundUp size)) (fun _ _ => ¬Free h.dma (roundUp size)) := by
  have low := even.low
  have pool : dmaPoolSize.toNat = 8388608 := rfl
  have whole : (UInt64.ofNat size).toNat = size := by simp; omega
  have pages : wholePages (UInt64.ofNat size) = roundUp size := by rw [wholePages, whole, roundUp]
  have short : roundUp size < 2 ^ 33 := by
    rw [roundUp]
    omega
  have rounded := @DmaAllocator.rounded_toNat (UInt64.ofNat size)
    (by rw [pages]; exact Nat.lt_trans short (by decide))
  rw [pages] at rounded
  have sum : (h.dma.nextOffset + (UInt64.ofNat size + pageSize - 1) / pageSize * pageSize).toNat =
      h.dma.nextOffset.toNat + roundUp size := by
    rw [UInt64.toNat_add, rounded]
    omega
  simp only [Ends, allocDma, even.allocDma]
  by_cases large : h.dma.nextOffset + (UInt64.ofNat size + pageSize - 1) / pageSize * pageSize > dmaPoolSize
  · simp only [large, if_true]
    rw [gt_iff_lt, UInt64.lt_iff_toNat_lt, sum] at large
    exact Nat.not_le_of_gt large
  · simp only [large, if_false]
    rw [gt_iff_lt, UInt64.lt_iff_toNat_lt, sum, Nat.not_lt] at large
    have virt : physOf (dmaPoolVirtBase + h.dma.nextOffset) = top h.dma := by
      rw [physOf, UInt64.add_comm dmaPoolVirtBase, UInt64.add_sub_cancel, UInt64.add_comm, even.phys, top]
    refine ⟨large, virt, even.phys, ?_, rfl, rfl, ⟨even.size, ?_, ?_⟩, sum⟩
    · dsimp only
      rw [virt, rounded]
    · dsimp only
      rw [sum, roundUp, Nat.add_mul_mod_self_right, even.aligned]
    · dsimp only
      rw [sum]
      exact large

end Pool

section Commands

-- A computation is taken apart by its rules, and not run.
attribute [local irreducible] Ends

/-- What the controller finds when the doorbell rings. -/
structure Prepared (h : Hba) (clbPhys : UInt64) (byteCount : UInt32) (dir : Direction) (fis : FisRegH2d)
    (prd : Prd) (s : Hba) : Prop where
  room : Free h.dma 4096
  even : s.dma.Even
  next : s.dma.nextOffset.toNat = h.dma.nextOffset.toNat + 4096
  memory : s.memory = overlay h.memory (top h.dma) (List.replicate 4096 0)
  disk : s.disk = h.disk
  driveSectorSize : s.driveSectorSize = h.driveSectorSize
  command : ∃ ctPhys, s.lists clbPhys.toNat = commandHeader ctPhys byteCount dir ∧
  s.tables ctPhys.toNat = ⟨fis, prd⟩

theorem Granted.prepared {virt ctPhys : UInt64} {h₁ : Hba} (granted : Granted h 4096 (virt, ctPhys) h₁)
    (clbPhys : UInt64)
    (byteCount : UInt32) (dir : Direction) (fis : FisRegH2d) (prd : Prd) (now : Nat) :
    Prepared h clbPhys byteCount dir fis prd { h₁ with
      lists := Function.update h₁.lists clbPhys.toNat (commandHeader ctPhys byteCount dir)
      tables := Function.update h₁.tables ctPhys.toNat ⟨fis, prd⟩
      now := now } where
  room := granted.room
  even := granted.even
  next := granted.next
  memory := granted.memory
  disk := granted.disk
  driveSectorSize := granted.driveSectorSize
  command := ⟨ctPhys, Function.update_self .., Function.update_self ..⟩

theorem Granted.waited {bytes : Nat} {r : UInt64 × UInt64} {h' h₁ : Hba} (waited : h.Waited h')
    (granted : Granted h' bytes r h₁) :
    Granted h bytes r h₁ := by
  obtain ⟨_, rfl⟩ := waited
  obtain ⟨room, virt, phys, memory, disk, driveSectorSize, even, next⟩ := granted
  exact ⟨room, virt, phys, memory, disk, driveSectorSize, even, next⟩

theorem ready_ends (mmio : Mmio) (base : UInt64) (h : Hba) :
    Ends (waitNotBusy mmio base 1000) h (fun ready h' => h.Waited h' ∧
    (Responsive mmio base → ready = true)) (fun _ _ => False) := by
  refine ((waitNotBusy_ends mmio base 1000 h).and (.self _ h)).imp ?_ fun _ _ never => never.1
  rintro ready h' ⟨waited, result⟩
  refine ⟨waited, fun responsive => ?_⟩
  obtain ⟨_, ready⟩ := responsive.ready h
  rw [result] at ready
  cases ready
  rfl

theorem retired_ends (mmio : Mmio) (base : UInt64) (h : Hba) :
    Ends (waitRetired mmio base 2000) h (fun completed h' => h.Waited h' ∧
    (Responsive mmio base → completed = true))
      (fun _ _ => ¬Responsive mmio base) := by
  refine ((waitRetired_ends mmio base 2000 h).and (.self _ h)).imp ?_ ?_
  · rintro completed h' ⟨waited, result⟩
    refine ⟨waited, fun responsive => ?_⟩
    obtain ⟨_, retires⟩ := responsive.retires h
    rw [result] at retires
    cases retires
    rfl
  · rintro _ _ ⟨_, result⟩ responsive
    obtain ⟨_, retires⟩ := responsive.retires h
    rw [result] at retires
    cases retires

theorem issueCommand_ends (mmio : Mmio) (abarPhys clbPhys : UInt64) (portIndex command : UInt8)
    (lba : UInt64) (count : UInt16)
    (dataPhys : UInt64) (byteCount : UInt32) (dir : Direction) (even : h.dma.Even) :
    Ends (issueCommand mmio abarPhys clbPhys portIndex command lba count dataPhys byteCount dir) h
      (fun _ h' => ∃ s, Prepared h clbPhys byteCount dir (regH2d command lba count)
        (if byteCount > 0 then prdEntry dataPhys byteCount else {}) s ∧ (s.execute clbPhys.toNat).Waited h')
      (fun _ _ => Responsive mmio (portBase abarPhys portIndex) → ¬Free h.dma 4096) := by
  -- Each access to a register passes if the controller is responsive, and fails the command otherwise.
  unfold issueCommand
  dsimp only
  refine ((ready_ends mmio (portBase abarPhys portIndex) h).imp (fun _ _ ready => ready) fun _ _ never =>
    never.elim).bind ?_
  rintro ready h' ⟨waited, passes⟩
  rw [ends_bind, require_ends]
  split
  next =>
    have granted := allocDma_ends (h := h') 256 "dma alloc (command table) failed" (waited.dma ▸ even)
      (by omega)
    have page : roundUp 256 = 4096 := by decide
    simp only [page] at granted
    refine (granted.imp (fun _ _ granted => granted.waited waited) fun _ _ full _ => waited.dma ▸ full).bind ?_
    rintro ⟨_, ctPhys⟩ h₁ granted
    rw [ends_bind, ends_modify]
    refine ((readU32_ends mmio _ _).imp (fun _ _ read => read) ?_).bind ?_
    · intro e _ failed responsive
      obtain ⟨is, read⟩ := responsive.interrupts h₁.now
      rw [read] at failed
      cases failed
    rintro is _ ⟨_, rfl⟩
    refine ((writeU32_ends mmio _ _ _).imp (fun _ _ written => written) ?_).bind ?_
    · intro e _ failed responsive
      rw [responsive.writes _ _ _ (.inl rfl)] at failed
      cases failed
    rintro _ _ rfl
    refine ((writeU32_ends mmio _ _ _).imp (fun _ _ written => written) ?_).bind ?_
    · intro e _ failed responsive
      rw [responsive.writes _ _ _ (.inr rfl)] at failed
      cases failed
    rintro _ _ rfl
    rw [ends_bind, ends_modify]
    refine ((retired_ends mmio _ _).imp (fun _ _ retired => retired) fun _ _ stuck responsive =>
      absurd responsive stuck).bind ?_
    rintro completed h₂ ⟨waited, passes'⟩
    rw [ends_bind, require_ends]
    split
    next =>
      refine ((readU32_ends mmio _ _).imp (fun _ _ read => read) ?_).bind ?_
      · intro e _ failed responsive
        obtain ⟨tfd, read, _⟩ := responsive.status h₂.now
        rw [read] at failed
        cases failed
      rintro tfd _ ⟨read, rfl⟩
      rw [require_ends]
      split
      next =>
        exact ⟨_, granted.prepared clbPhys byteCount dir _ _ _, waited.trans ⟨_, rfl⟩⟩
      next error =>
        intro responsive
        obtain ⟨tfd', read', clean⟩ := responsive.status h₂.now
        rw [read] at read'
        cases read'
        exact absurd (decide_eq_true clean) error
    next stuck => exact fun responsive => absurd (passes' responsive) stuck
  next busy => exact fun responsive => absurd (passes responsive) busy

variable {s : Hba} {command : UInt8} {lba : UInt64} {count : UInt16} {prd : Prd}

/-- As many bytes as the sectors have, and as the PRD has room for. -/
def movedBytes (s : Hba) (count : UInt16) (prd : Prd) : Nat := min (count.toNat * s.driveSectorSize) prd.bytes

theorem Prepared.execute {dir : Direction} (prepared :
    Prepared h clbPhys byteCount dir (regH2d command lba count) prd s)
    (data : byteCount > 0) (nonzero : count ≠ 0) : s.execute clbPhys.toNat =
      if command = ataCmdReadDmaExt ∧ dir ≠ .write then
        { s with memory :=
          overlay s.memory prd.address (load s.driveSectorSize s.disk (lba.toNat % 2 ^ 48)
            (movedBytes s count prd)) }
      else if command = ataCmdWriteDmaExt ∧ dir = .write then
        let data := (List.range' prd.address (movedBytes s count prd)).map s.memory
        { s with disk := store s.driveSectorSize s.disk (lba.toNat % 2 ^ 48) data }
      else s := by
  obtain ⟨ctPhys, header, table⟩ := prepared.command
  have prdtl : (commandHeader ctPhys byteCount dir).prdtl ≠ 0 := by simp [commandHeader, data]
  have regH2d_command : (regH2d command lba count).command = command := rfl
  simp only [Hba.execute, header, commandHeader_address, table, CommandHeader.moved, prdtl, if_false,
    regH2d_sectors _ _ nonzero,
    regH2d_lba, commandHeader_isWrite, regH2d_command, movedBytes, decide_eq_true_eq, Bool.not_eq_true',
      decide_eq_false_iff_not]

/-- A transfer of sectors that the driver takes to have 512 bytes each. -/
def Room (h : Hba) (count : UInt16) (tables : Nat) : Prop :=
  Free h.dma (roundUp (count.toNat * sectorSize) + tables * 4096)

/-- How much of it the command moves. -/
def Hba.transferred (h : Hba) (count : UInt16) : Nat :=
  min (count.toNat * h.driveSectorSize) ((count.toNat * sectorSize - 1) % 2 ^ 22 + 1)

theorem sectors_small (count : UInt16) : count.toNat * sectorSize < 2 ^ 32 := by
  have bound := count.toNat_lt
  rw [sectorSize]
  omega

theorem sectors_toNat (count : UInt16) : (UInt32.ofNat (count.toNat * sectorSize)).toNat = count.toNat *
    sectorSize := by
  rw [UInt32.toNat_ofNat', Nat.mod_eq_of_lt (sectors_small count)]

theorem sectors_positive (nonzero : count ≠ 0) : 0 < count.toNat * sectorSize := by
  have positive : count.toNat ≠ 0 := fun zero => nonzero (UInt16.toNat_inj.mp zero)
  rw [sectorSize]
  omega

theorem sectors_data (nonzero : count ≠ 0) : UInt32.ofNat (count.toNat * sectorSize) > 0 := by
  rw [gt_iff_lt, UInt32.lt_iff_toNat_lt, sectors_toNat]
  exact sectors_positive nonzero

theorem movedBytes_eq (dataPhys : UInt64) (nonzero : count ≠ 0) (same : s.driveSectorSize = h.driveSectorSize) :
    movedBytes s count (prdEntry dataPhys (UInt32.ofNat (count.toNat * sectorSize))) = h.transferred count := by
  have positive := sectors_positive nonzero
  have bytes := prdEntry_bytes dataPhys (UInt32.ofNat (count.toNat * sectorSize))
  rw [sectors_toNat] at bytes
  rw [movedBytes, bytes _ positive, same, Hba.transferred]
  rw [sectorSize]
  omega

/-- The first bytes of a buffer come from the drive, as far as the command moved any, and the others
are 0. -/
structure Fetched (h : Hba) (lba : UInt64) (count : UInt16) (buf buf' : List UInt8) : Prop where
  length : count.toNat * sectorSize ≤ buf.length
  room : Room h count 1
  same : buf'.length = buf.length
  bytes : ∀ k, buf'[k]? = if k < count.toNat * sectorSize then
    some (if k < h.transferred count then byteFrom h.driveSectorSize h.disk (lba.toNat % 2 ^ 48) k else 0)
      else buf[k]?

theorem mark_even {a : DmaAllocator} (even : a.Even) : a.mark.2.Even := ⟨even.size, even.aligned, even.low⟩

theorem free_mono {a : DmaAllocator} {bytes more : Nat} (fewer : bytes ≤ more) (free : Free a more) :
    Free a bytes :=
  Nat.le_trans (Nat.add_le_add_left fewer _) free

theorem Granted.free {bytes more : Nat} {r : UInt64 × UInt64} {h' : Hba} (granted : Granted h bytes r h') :
    Free h'.dma more ↔ Free h.dma (bytes + more) := by
  unfold Free
  rw [granted.next, Nat.add_assoc]

theorem Prepared.fetched {virt : UInt64} {h₁ h₂ : Hba}
    {size : Nat} (granted : Granted h (roundUp size) (virt, dataPhys) h₁)
    (prepared : Prepared h₁ clbPhys byteCount .read (regH2d ataCmdReadDmaExt lba count)
    (prdEntry dataPhys byteCount) s)
    (data : byteCount > 0) (nonzero : count ≠ 0) (waited : (s.execute clbPhys.toNat).Waited h₂) {k : Nat}
    (inside : k < size) :
    h₂.memory (physOf virt + k) = if k < movedBytes s count (prdEntry dataPhys byteCount) then
      byteFrom h.driveSectorSize h.disk (lba.toNat % 2 ^ 48) k else 0 := by
  have start : (prdEntry dataPhys byteCount).address = top h.dma :=
    (prdEntry_address dataPhys byteCount).trans granted.phys
  have virt_start : physOf virt = top h.dma := granted.virt
  have executed := prepared.execute data nonzero
  rw [if_pos ⟨rfl, by decide⟩] at executed
  obtain ⟨_, rfl⟩ := waited
  rw [executed]
  dsimp only
  rw [start, virt_start, overlay_add, load_length]
  split
  next moved =>
    rw [getD_load moved, prepared.driveSectorSize, prepared.disk, granted.driveSectorSize, granted.disk]
  next =>
    -- The command table lies behind the buffer.
    have pages : size ≤ roundUp size := by
      rw [roundUp]
      omega
    have below : top h.dma + k < top h₁.dma := by
      rw [top, top, granted.next]
      omega
    rw [prepared.memory, overlay_below _ _ _ below, granted.memory, overlay_add, List.length_replicate,
      if_pos (by omega)]
    rw [List.getD_replicate _ (by omega)]

theorem readSectors_ends (mmio : Mmio) {a : Controller} {abarPhys : UInt64} {portIndex : UInt8}
    (context : a.portContext portIndex = some (abarPhys, clbPhys)) (lba : UInt64) (nonzero : count ≠ 0)
    (buf : List UInt8) (even : h.dma.Even) :
    Ends (readSectors a mmio portIndex lba count buf) h (fun r _ => Fetched h lba count buf r.2)
      (fun _ _ => Responsive mmio (portBase abarPhys portIndex) →
        ¬(count.toNat * sectorSize ≤ buf.length ∧ Room h count 1)) := by
  have bound := sectors_small count
  rw [readSectors, if_neg nonzero]
  dsimp only
  rw [ends_bind, require_ends]
  split
  next enough =>
    rw [knownPort, context]
    dsimp only
    rw [ends_bind, ends_pure]
    dsimp only
    refine marked_ends ?_
    have start := mark_even even
    refine ((allocDma_ends (h := { h with dma := h.dma.mark.2 }) _ "dma alloc (read buffer) failed"
      start bound).imp
      (fun _ _ granted => granted) ?_).bind ?_
    · intro _ _ full _ both
      exact full (free_mono (Nat.le_add_right ..) both.2)
    rintro ⟨dataVirt, dataPhys⟩ h₁ granted
    refine ((issueCommand_ends mmio abarPhys clbPhys portIndex ataCmdReadDmaExt lba count dataPhys _ .read
      granted.even).imp
      (fun _ _ issued => issued) ?_).bind ?_
    · intro _ _ full responsive both
      exact full responsive (granted.free.mpr both.2)
    rintro _ h₂ ⟨s, prepared, waited⟩
    rw [ends_bind, ends_get, ends_pure]
    rw [if_pos (sectors_data nonzero)] at prepared
    have length : ((List.range' (physOf dataVirt) (count.toNat * sectorSize)).map h₂.memory).length =
      count.toNat * sectorSize := by simp
    refine ⟨of_decide_eq_true enough, granted.free.mp prepared.room, splice_length .., fun k => ?_⟩
    rw [getElem?_splice _ _ _ _ (by rw [length, Nat.zero_add]; exact of_decide_eq_true enough), length]
    simp only [Nat.zero_le, true_and, Nat.zero_add]
    split
    next inside =>
      have fetched := prepared.fetched granted (sectors_data nonzero) nonzero waited inside
      rw [movedBytes_eq (h := h) dataPhys nonzero
        (prepared.driveSectorSize.trans granted.driveSectorSize)] at fetched
      simp [inside, fetched]
    next => rfl
  next short => exact fun _ both => short (decide_eq_true both.1)

theorem execute_dma (s : Hba) (clb : Nat) : (s.execute clb).dma = s.dma := by
  simp only [Hba.execute]
  split
  next => rfl
  next => split <;> rfl

theorem Prepared.free {dir : Direction} {fis : FisRegH2d} {h' : Hba}
    {more : Nat} (prepared : Prepared h clbPhys byteCount dir fis prd s)
    (waited : (s.execute clbPhys.toNat).Waited h') : Free h'.dma more ↔ Free h.dma (4096 + more) := by
  unfold Free
  rw [waited.dma, execute_dma, prepared.next, Nat.add_assoc]

theorem Prepared.execute_flush {dir : Direction}
    (prepared : Prepared h clbPhys byteCount dir (regH2d ataCmdFlushCacheExt lba count) prd s) :
    s.execute clbPhys.toNat = s := by
  obtain ⟨ctPhys, header, table⟩ := prepared.command
  have flush : (regH2d ataCmdFlushCacheExt lba count).command = ataCmdFlushCacheExt := rfl
  have other : ataCmdFlushCacheExt ≠ ataCmdReadDmaExt ∧ ataCmdFlushCacheExt ≠ ataCmdWriteDmaExt := by decide
  simp only [Hba.execute, header, commandHeader_address, table, flush, other, false_and, if_false]

theorem Prepared.written {virt : UInt64} {h₁ h₂ : Hba} {buf : List UInt8} {size : Nat}
    (granted : Granted h (roundUp size) (virt, dataPhys) h₁)
    (prepared : Prepared { h₁ with memory := overlay h₁.memory (physOf virt) (buf.take size) }
    clbPhys byteCount .write
      (regH2d ataCmdWriteDmaExt lba count) (prdEntry dataPhys byteCount) s)
    (data : byteCount > 0) (nonzero : count ≠ 0) (waited : (s.execute clbPhys.toNat).Waited h₂)
    (enough : size ≤ buf.length)
    (inside : movedBytes s count (prdEntry dataPhys byteCount) ≤ size) :
    h₂.disk = store h.driveSectorSize h.disk (lba.toNat % 2 ^ 48)
      (buf.take (movedBytes s count (prdEntry dataPhys byteCount))) ∧
      h₂.driveSectorSize = h.driveSectorSize := by
  have start : (prdEntry dataPhys byteCount).address = top h.dma :=
    (prdEntry_address dataPhys byteCount).trans granted.phys
  have virt_start : physOf virt = top h.dma := granted.virt
  have executed := prepared.execute data nonzero
  rw [if_neg (by decide), if_pos ⟨rfl, rfl⟩] at executed
  have drive : s.driveSectorSize = h.driveSectorSize := prepared.driveSectorSize.trans granted.driveSectorSize
  have disk : s.disk = h.disk := prepared.disk.trans granted.disk
  have moved : (List.range' (top h.dma) (movedBytes s count (prdEntry dataPhys byteCount))).map s.memory =
      buf.take (movedBytes s count (prdEntry dataPhys byteCount)) := by
    have pages : size ≤ roundUp size := by
      rw [roundUp]
      omega
    refine List.ext_getElem (by simp only [List.length_map, List.length_range', List.length_take]; omega)
      fun k short _ => ?_
    rw [List.length_map, List.length_range'] at short
    have below : top h.dma + k < top h₁.dma := by
      rw [top, top, granted.next]
      omega
    have here : s.memory (top h.dma + k) = overlay h₁.memory (physOf virt) (buf.take size) (top h.dma + k) := by
      rw [prepared.memory]
      dsimp only
      rw [overlay_below _ _ _ below]
    have length : (buf.take size).length = size := by rw [List.length_take, Nat.min_eq_left enough]
    rw [List.getElem_map, List.getElem_range', Nat.one_mul, here, virt_start, overlay_add, length,
      if_pos (by omega)]
    rw [List.getElem_take, List.getD_eq_getElem?_getD, List.getElem?_take, if_pos (by omega),
      List.getElem?_eq_getElem (by omega),
      Option.getD_some]
  obtain ⟨_, rfl⟩ := waited
  rw [executed]
  exact ⟨by rw [start, drive, disk, moved], drive⟩

/-- As many bytes of a buffer are on the drive as the command moved. -/
structure Stored (h : Hba) (lba : UInt64) (count : UInt16) (buf : List UInt8) (h' : Hba) : Prop where
  length : count.toNat * sectorSize ≤ buf.length
  room : Room h count 2
  disk : h'.disk = store h.driveSectorSize h.disk (lba.toNat % 2 ^ 48) (buf.take (h.transferred count))

theorem transferred_le (nonzero : count ≠ 0) : h.transferred count ≤ count.toNat * sectorSize := by
  have positive := sectors_positive nonzero
  rw [Hba.transferred]
  omega

theorem writeSectors_ends (mmio : Mmio) {a : Controller} {abarPhys : UInt64} {portIndex : UInt8}
    (context : a.portContext portIndex = some (abarPhys, clbPhys)) (lba : UInt64) (nonzero : count ≠ 0)
    (buf : List UInt8) (even : h.dma.Even) :
    Ends (writeSectors a mmio portIndex lba count buf) h (fun _ h' => Stored h lba count buf h')
      (fun _ _ => Responsive mmio (portBase abarPhys portIndex) →
        ¬(count.toNat * sectorSize ≤ buf.length ∧ Room h count 2)) := by
  have bound := sectors_small count
  rw [writeSectors, if_neg nonzero]
  dsimp only
  rw [ends_bind, require_ends]
  split
  next enough =>
    rw [knownPort, context]
    dsimp only
    rw [ends_bind, ends_pure]
    dsimp only
    refine marked_ends ?_
    have start := mark_even even
    refine ((allocDma_ends (h := { h with dma := h.dma.mark.2 }) _ "dma alloc (write buffer) failed"
      start bound).imp
      (fun _ _ granted => granted) ?_).bind ?_
    · intro _ _ full _ both
      exact full (free_mono (Nat.le_add_right ..) both.2)
    rintro ⟨dataVirt, dataPhys⟩ h₁ granted
    rw [ends_bind, ends_modify]
    have written := issueCommand_ends
      (h := { h₁ with memory := overlay h₁.memory (physOf dataVirt) (buf.take (count.toNat * sectorSize))
      }) mmio
      abarPhys clbPhys portIndex ataCmdWriteDmaExt lba count dataPhys
        (UInt32.ofNat (count.toNat * sectorSize)) .write granted.even
    refine (written.imp (fun _ _ issued => issued) ?_).bind ?_
    · intro _ _ full responsive both
      exact full responsive (granted.free.mpr (free_mono (by omega) both.2))
    rintro _ h₂ ⟨s, prepared, waited⟩
    rw [if_pos (sectors_data nonzero)] at prepared
    have even₂ : h₂.dma.Even := by
      rw [waited.dma, execute_dma]
      exact prepared.even
    refine ((issueCommand_ends mmio abarPhys clbPhys portIndex ataCmdFlushCacheExt 0 0 0 0 .none even₂).imp
      (fun _ _ issued => issued) ?_).bind ?_
    · intro _ _ full responsive both
      exact full responsive ((prepared.free waited).mpr (granted.free.mpr (free_mono (by omega) both.2)))
    rintro _ h₃ ⟨s', flushed, waited'⟩
    rw [ends_pure]
    have drive := prepared.driveSectorSize.trans granted.driveSectorSize
    have moved := movedBytes_eq (h := h) dataPhys nonzero drive
    have written := prepared.written granted (sectors_data nonzero) nonzero waited (of_decide_eq_true enough)
      (by rw [moved]; exact transferred_le nonzero)
    rw [moved] at written
    have room := granted.free.mp ((prepared.free waited).mp flushed.room)
    refine ⟨of_decide_eq_true enough, room, ?_⟩
    obtain ⟨_, rfl⟩ := waited'
    rw [flushed.execute_flush]
    exact flushed.disk.trans written.1
  next short => exact fun _ both => short (decide_eq_true both.1)

end Commands

end PickleOS.Driver.Ahci
