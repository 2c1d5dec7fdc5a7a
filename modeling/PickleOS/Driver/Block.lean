import PickleOS.Driver.Transfers

set_option autoImplicit false

/-!
# Block devices

A request is cut into chunks for the 16-bit count of a command. The driver below takes a sector to
have 512 bytes, and the device goes by the size that IDENTIFY has reported.
-/

namespace PickleOS.Driver.Block

open Shared Shared.Machine Shared.Bytes Shared.Outcome Shared.Sectors Ahci Dma

structure DriveInfo where
  sectors : UInt64
  sectorSize : UInt32

def word (identity : Nat → UInt8) (i : Nat) : UInt16 :=
  (identity (i * 2)).toUInt16 ||| (identity (i * 2 + 1)).toUInt16 <<< 8

def parseIdentify (identity : Nat → UInt8) : DriveInfo where
  sectors := (word identity 100).toUInt64 ||| (word identity 101).toUInt64 <<< 16 |||
    (word identity 102).toUInt64 <<< 32 |||
    (word identity 103).toUInt64 <<< 48
  sectorSize :=
    if word identity 106 &&& (1 : UInt16) <<< 14 ≠ 0 then
      let sizeBytes := ((word identity 117).toUInt32 ||| (word identity 118).toUInt32 <<< 16) * 2
      if sizeBytes = 0 ∨ sizeBytes &&& (sizeBytes - 1) ≠ 0 then 512 else sizeBytes
    else 512

inductive BlockError where
  | outOfRange
  | badBuffer
  | deviceError (message : String)
  | unsupported

structure AhciBlockDevice where
  port : UInt8
  blockSize : Nat
  blockCount : UInt64
  small : blockSize < 2 ^ 32

/-- A device as `block::init` registers it. -/
def AhciBlockDevice.ofIdentify (port : UInt8) (identity : Nat → UInt8) : AhciBlockDevice where
  port := port
  blockSize := (parseIdentify identity).sectorSize.toNat
  blockCount := (parseIdentify identity).sectors
  small := (parseIdentify identity).sectorSize.toNat_lt

structure Reading where
  hba : Hba
  buf : List UInt8

def u16Max : Nat := 65535

variable (a : Controller) (mmio : Mmio) (dev : AhciBlockDevice) (lba : UInt64) (count : UInt32)

def validate (bufLen : Nat) : Except BlockError Unit :=
  if count = 0 then .error .badBuffer
  else if bufLen ≠ count.toNat * dev.blockSize then .error .badBuffer
  else if 2 ^ 64 ≤ lba.toNat + count.toNat then .error .outOfRange
  else if dev.blockCount.toNat < lba.toNat + count.toNat then .error .outOfRange
  else .ok ()

def readLoop (done : Nat) (r : Reading) : EStateM.Result BlockError Reading Unit :=
  if done < count.toNat then
    let chunk := min (count.toNat - done) u16Max
    let off := done * dev.blockSize
    let len := chunk * dev.blockSize
    if r.buf.length < off + len then .error .badBuffer r
    else
      match readSectors a mmio dev.port (lba + UInt64.ofNat done) (UInt16.ofNat chunk)
        (slice r.buf off len) r.hba with
      | .error e h => .error (.deviceError e) { r with hba := h }
      | .ok (_, part) h => readLoop (done + chunk) { hba := h, buf := splice r.buf off part }
  else .ok () r
termination_by count.toNat - done
decreasing_by
  simp only [u16Max]
  omega

def readBlocks : EStateM BlockError Reading Unit := fun r =>
  match validate dev lba count r.buf.length with
  | .error e => .error e r
  | .ok () => readLoop a mmio dev lba count 0 r

def writeLoop (buf : List UInt8) (done : Nat) (h : Hba) : EStateM.Result BlockError Hba Unit :=
  if done < count.toNat then
    let chunk := min (count.toNat - done) u16Max
    let off := done * dev.blockSize
    let len := chunk * dev.blockSize
    if buf.length < off + len then .error .badBuffer h
    else
      match writeSectors a mmio dev.port (lba + UInt64.ofNat done) (UInt16.ofNat chunk)
        (slice buf off len) h with
      | .error e h => .error (.deviceError e) h
      | .ok _ h => writeLoop buf (done + chunk) h
  else .ok () h
termination_by count.toNat - done
decreasing_by
  simp only [u16Max]
  omega

def writeBlocks (buf : List UInt8) : EStateM BlockError Hba Unit := fun h =>
  match validate dev lba count buf.length with
  | .error e => .error e h
  | .ok () => writeLoop a mmio dev lba count buf 0 h

section Requests

variable {a mmio dev lba count} {r : Reading} {h : Hba} {buf : List UInt8} {abarPhys clbPhys : UInt64}

theorem validate_ok (nonzero : count ≠ 0) (inside : lba.toNat + count.toNat ≤ dev.blockCount.toNat)
    {bufLen : Nat}
    (length : bufLen = count.toNat * dev.blockSize) : validate dev lba count bufLen = .ok () := by
  have bound := dev.blockCount.toNat_lt
  rw [validate, if_neg nonzero, if_neg (by simpa using length), if_neg (by omega), if_neg (by omega)]

theorem slice_all {len : Nat} (length : buf.length = len) : slice buf 0 len = buf := by
  rw [slice, List.drop_zero, ← length, List.take_length]

theorem splice_all (buf : List UInt8) {part : List UInt8} (same : part.length = buf.length) :
    splice buf 0 part = part := by
  rw [splice, List.take_zero, List.nil_append, Nat.zero_add, same, List.drop_length, List.append_nil,
    ← same, List.take_length]

theorem chunk_toNat {chunk : Nat} (few : chunk ≤ u16Max) : (UInt16.ofNat chunk).toNat = chunk := by
  rw [UInt16.toNat_ofNat']
  simp only [u16Max] at few
  omega

theorem count_positive (nonzero : count ≠ 0) : count.toNat ≠ 0 := fun zero => nonzero (UInt32.toNat_inj.mp zero)

theorem chunk_nonzero (nonzero : count ≠ 0) (few : count.toNat ≤ u16Max) : UInt16.ofNat count.toNat ≠ 0 := by
  intro zero
  have whole := chunk_toNat few
  rw [zero] at whole
  exact count_positive nonzero whole.symm

theorem no_room (h : Hba) (tables : Nat) : ¬Room h (UInt16.ofNat u16Max) tables := by
  have chunk := chunk_toNat (Nat.le_refl u16Max)
  have pool : dmaPoolSize.toNat = 8388608 := rfl
  rw [Room, Free, chunk, roundUp, u16Max, sectorSize, pool]
  omega

theorem readBlocks_ends (mmio : Mmio) (lba : UInt64) (count : UInt32)
    (context : a.portContext dev.port = some (abarPhys, clbPhys))
    (nonzero : count ≠ 0)
    (inside : lba.toNat + count.toNat ≤ dev.blockCount.toNat)
    (length : r.buf.length = count.toNat * dev.blockSize)
    (even : r.hba.dma.Even) (few : count.toNat ≤ u16Max) :
    Ends (readBlocks a mmio dev lba count) r (fun _ r' => Fetched r.hba lba (UInt16.ofNat count.toNat)
      r.buf r'.buf)
      (fun _ _ => Responsive mmio (portBase abarPhys dev.port) →
        ¬((UInt16.ofNat count.toNat).toNat * sectorSize ≤ r.buf.length ∧
        Room r.hba (UInt16.ofNat count.toNat) 1)) := by
  have positive := count_positive nonzero
  have chunk := chunk_nonzero nonzero few
  have once : min (count.toNat - 0) u16Max = count.toNat := by omega
  have ends := readSectors_ends mmio context lba chunk r.buf even
  unfold Ends readBlocks
  rw [validate_ok nonzero inside length]
  dsimp only
  rw [readLoop, if_pos (Nat.pos_of_ne_zero positive)]
  have whole_buf : slice r.buf 0 (count.toNat * dev.blockSize) = r.buf := slice_all length
  have enough : ¬r.buf.length < count.toNat * dev.blockSize := by omega
  have start : lba + UInt64.ofNat 0 = lba := UInt64.add_zero lba
  simp only [once, Nat.zero_mul, Nat.zero_add, enough, if_false, whole_buf, start]
  cases result : readSectors a mmio dev.port lba (UInt16.ofNat count.toNat) r.buf r.hba with
  | error e h => exact ends.of_error result
  | ok value h =>
    have fetched := ends.of_ok result
    obtain ⟨n, part⟩ := value
    dsimp only
    rw [readLoop, if_neg (Nat.lt_irrefl _), splice_all r.buf fetched.same]
    exact fetched

theorem readBlocks_fetched (context : a.portContext dev.port = some (abarPhys, clbPhys))
    (nonzero : count ≠ 0)
    (inside : lba.toNat + count.toNat ≤ dev.blockCount.toNat)
    (length : r.buf.length = count.toNat * dev.blockSize)
    (even : r.hba.dma.Even) (few : count.toNat ≤ u16Max) {r' : Reading}
    (read : readBlocks a mmio dev lba count r = .ok () r') :
    Fetched r.hba lba (UInt16.ofNat count.toNat) r.buf r'.buf :=
  (readBlocks_ends mmio lba count context nonzero inside length even few).of_ok read

theorem readBlocks_many (context : a.portContext dev.port = some (abarPhys, clbPhys))
    (even : r.hba.dma.Even) (many : u16Max < count.toNat)
    (r' : Reading) : readBlocks a mmio dev lba count r ≠ .ok () r' := by
  have once : min (count.toNat - 0) u16Max = u16Max := by omega
  have chunk : UInt16.ofNat u16Max ≠ 0 := by decide
  have ends := readSectors_ends mmio context (lba + UInt64.ofNat 0)
    chunk (slice r.buf 0 (u16Max * dev.blockSize)) even
  intro done
  unfold readBlocks at done
  split at done
  next => cases done
  next =>
    rw [readLoop, if_pos (by omega)] at done
    simp only [once, Nat.zero_mul, Nat.zero_add] at done
    split at done
    next => cases done
    next =>
      split at done
      next => cases done
      next result => exact no_room r.hba 1 (ends.of_ok result).room

theorem writeBlocks_ends (mmio : Mmio) (context : a.portContext dev.port = some (abarPhys, clbPhys))
    (nonzero : count ≠ 0)
    (inside : lba.toNat + count.toNat ≤ dev.blockCount.toNat)
    (length : buf.length = count.toNat * dev.blockSize)
    (even : h.dma.Even) (few : count.toNat ≤ u16Max) :
    Ends (writeBlocks a mmio dev lba count buf) h (fun _ h' => Stored h lba (UInt16.ofNat count.toNat) buf h')
      (fun _ _ => Responsive mmio (portBase abarPhys dev.port) →
        ¬((UInt16.ofNat count.toNat).toNat * sectorSize ≤ buf.length ∧
        Room h (UInt16.ofNat count.toNat) 2)) := by
  have positive := count_positive nonzero
  have chunk := chunk_nonzero nonzero few
  have once : min (count.toNat - 0) u16Max = count.toNat := by omega
  have ends := writeSectors_ends mmio context lba chunk buf even
  unfold Ends writeBlocks
  rw [validate_ok nonzero inside length]
  dsimp only
  rw [writeLoop, if_pos (Nat.pos_of_ne_zero positive)]
  have whole_buf : slice buf 0 (count.toNat * dev.blockSize) = buf := slice_all length
  have enough : ¬buf.length < count.toNat * dev.blockSize := by omega
  have start : lba + UInt64.ofNat 0 = lba := UInt64.add_zero lba
  simp only [once, Nat.zero_mul, Nat.zero_add, enough, if_false, whole_buf, start]
  cases result : writeSectors a mmio dev.port lba (UInt16.ofNat count.toNat) buf h with
  | error e h' => exact ends.of_error result
  | ok value h' =>
    dsimp only
    rw [writeLoop, if_neg (Nat.lt_irrefl _)]
    exact ends.of_ok result

theorem writeBlocks_many (context : a.portContext dev.port = some (abarPhys, clbPhys)) (even : h.dma.Even)
    (many : u16Max < count.toNat)
    (h' : Hba) : writeBlocks a mmio dev lba count buf h ≠ .ok () h' := by
  have once : min (count.toNat - 0) u16Max = u16Max := by omega
  have chunk : UInt16.ofNat u16Max ≠ 0 := by decide
  have ends := writeSectors_ends mmio context (lba + UInt64.ofNat 0)
    chunk (slice buf 0 (u16Max * dev.blockSize)) even
  intro done
  unfold writeBlocks at done
  split at done
  next => cases done
  next =>
    rw [writeLoop, if_pos (by omega)] at done
    simp only [once, Nat.zero_mul, Nat.zero_add] at done
    split at done
    next => cases done
    next =>
      split at done
      next => cases done
      next result => exact no_room h 2 (ends.of_ok result).room

end Requests

section Exact

/-- Whatever lies on the drive and in the buffer, what is read is what the drive has, and a
controller that lets every command pass lets the request pass. -/
def ReadMeets (a : Controller) (abarPhys : UInt64) (dev : AhciBlockDevice) (lba : UInt64) (count : UInt32)
    (pool : DmaAllocator) : Prop :=
  ∀ mmio r, r.hba.dma = pool → r.hba.driveSectorSize = dev.blockSize →
    r.buf.length = count.toNat * dev.blockSize →
    (∀ r', readBlocks a mmio dev lba count r = .ok () r' →
      ∀ j, j < r.buf.length → r'.buf[j]? = some (byteFrom dev.blockSize r.hba.disk lba.toNat j)) ∧
    (Responsive mmio (portBase abarPhys dev.port) → ∃ r', readBlocks a mmio dev lba count r = .ok () r')

def WriteMeets (a : Controller) (abarPhys : UInt64) (dev : AhciBlockDevice) (lba : UInt64)
    (count : UInt32) (pool : DmaAllocator) : Prop :=
  ∀ mmio h buf, h.dma = pool → h.driveSectorSize = dev.blockSize → buf.length = count.toNat * dev.blockSize →
    (∀ h', writeBlocks a mmio dev lba count buf h = .ok () h' →
      (∀ j, j < buf.length → byteFrom dev.blockSize h'.disk lba.toNat j = buf.getD j 0) ∧
      ∀ sector k, ¬(lba.toNat ≤ sector ∧ sector < lba.toNat + count.toNat) →
        h'.disk sector k = h.disk sector k) ∧
    (Responsive mmio (portBase abarPhys dev.port) → ∃ h', writeBlocks a mmio dev lba count buf h = .ok () h')

/-- Sectors of 512 bytes with addresses of 48 bits, at most 4 MiB of them, and a pool that has room
for these and for the command tables. -/
structure Fits (dev : AhciBlockDevice) (lba : UInt64) (count : UInt32) (pool : DmaAllocator)
    (tables : Nat) : Prop where
  size : dev.blockSize = sectorSize
  bytes : count.toNat ≤ 8192
  address : lba.toNat < 2 ^ 48
  room : Free pool (roundUp (count.toNat * sectorSize) + tables * 4096)

variable {a : Controller} {mmio : Mmio} {dev : AhciBlockDevice} {lba : UInt64} {count : UInt32}
    {pool : DmaAllocator}
  {abarPhys clbPhys : UInt64} {tables : Nat}

theorem Fits.few (fits : Fits dev lba count pool tables) : count.toNat ≤ u16Max :=
  Nat.le_trans fits.bytes (by decide)

theorem Fits.transferred (fits : Fits dev lba count pool tables) (nonzero : count ≠ 0)
    {h : Hba} (drive : h.driveSectorSize = dev.blockSize) :
    h.transferred (UInt16.ofNat count.toNat) = count.toNat * sectorSize := by
  have positive := count_positive nonzero
  have bytes := fits.bytes
  rw [Hba.transferred, chunk_toNat fits.few, drive, fits.size, sectorSize]
  omega

theorem Fits.reads (fits : Fits dev lba count pool 1)
    (context : a.portContext dev.port = some (abarPhys, clbPhys))
    (nonzero : count ≠ 0)
    (inside : lba.toNat + count.toNat ≤ dev.blockCount.toNat) (even : pool.Even) :
      ReadMeets a abarPhys dev lba count pool := by
  rintro mmio r rfl drive length
  have ends := readBlocks_ends mmio lba count context nonzero inside length even fits.few
  have chunk := chunk_toNat fits.few
  constructor
  · intro r' done j small
    have here : j < count.toNat * sectorSize := by rwa [length, fits.size] at small
    rw [(ends.of_ok done).bytes, chunk, fits.transferred nonzero drive, drive,
      Nat.mod_eq_of_lt fits.address, if_pos here, if_pos here]
  · intro responsive
    cases result : readBlocks a mmio dev lba count r with
    | ok _ r' => exact ⟨r', rfl⟩
    | error e r' =>
      refine absurd ⟨?_, ?_⟩ (ends.of_error result responsive)
      · rw [chunk, length, fits.size]
      · rw [Room, chunk]
        exact fits.room

theorem Fits.writes (fits : Fits dev lba count pool 2)
    (context : a.portContext dev.port = some (abarPhys, clbPhys))
    (nonzero : count ≠ 0)
    (inside : lba.toNat + count.toNat ≤ dev.blockCount.toNat) (even : pool.Even) :
      WriteMeets a abarPhys dev lba count pool := by
  rintro mmio h buf rfl drive length
  have ends := writeBlocks_ends mmio context nonzero inside length even fits.few
  have chunk := chunk_toNat fits.few
  constructor
  · intro h' done
    have disk := (ends.of_ok done).disk
    have all : buf.take (h.transferred (UInt16.ofNat count.toNat)) = buf := by
      rw [fits.transferred nonzero drive, ← fits.size, ← length, List.take_length]
    rw [all, drive, Nat.mod_eq_of_lt fits.address] at disk
    rw [disk]
    refine ⟨fun j small => byteFrom_store (by rw [fits.size]; decide) buf small, fun sector k off => ?_⟩
    exact store_elsewhere buf (Nat.le_of_eq length) off k
  · intro responsive
    cases result : writeBlocks a mmio dev lba count buf h with
    | ok _ h' => exact ⟨h', rfl⟩
    | error e h' =>
      refine absurd ⟨?_, ?_⟩ (ends.of_error result responsive)
      · rw [chunk, length, fits.size]
      · rw [Room, chunk]
        exact fits.room

/-- Every register reads as 0. -/
def idle : Mmio where
  read _ _ := .ok 0
  write _ _ _ := .ok ()

theorem idle_responsive (base : UInt64) : Responsive idle base where
  ready h := ⟨_, by simp [waitNotBusy, readU32, idle]; rfl⟩
  retires h := ⟨_, by simp [waitRetired, readU32, idle, bind, EStateM.bind]; rfl⟩
  status _ := ⟨0, rfl, by simp⟩
  interrupts _ := ⟨0, rfl⟩
  writes _ _ _ _ := rfl

theorem idle_reads (lba : UInt64) (count : UInt32)
    {r : Reading} (context : a.portContext dev.port = some (abarPhys, clbPhys))
    (nonzero : count ≠ 0)
    (inside : lba.toNat + count.toNat ≤ dev.blockCount.toNat)
    (length : r.buf.length = count.toNat * dev.blockSize) (even : r.hba.dma.Even)
    (few : count.toNat ≤ u16Max) (enough : sectorSize ≤ dev.blockSize)
    (room : Free r.hba.dma (roundUp (count.toNat * sectorSize) + 1 * 4096)) :
    ∃ r', readBlocks a idle dev lba count r = .ok () r' ∧
    Fetched r.hba lba (UInt16.ofNat count.toNat) r.buf r'.buf := by
  have ends := readBlocks_ends idle lba count context nonzero inside length even few
  cases result : readBlocks a idle dev lba count r with
  | ok _ r' => exact ⟨r', rfl, ends.of_ok result⟩
  | error e r' =>
    refine absurd ⟨?_, ?_⟩ (ends.of_error result (idle_responsive _))
    · rw [chunk_toNat few, length]
      exact Nat.mul_le_mul_left _ enough
    · rw [Room, chunk_toNat few]
      exact room

/-- A drive with some contents, and nothing in the pool. -/
def blank (pool : DmaAllocator) (size : Nat) (disk : Nat → Nat → UInt8) : Hba where
  dma := pool
  memory _ := 0
  lists _ := commandHeader 0 0 .none
  tables _ := ⟨regH2d 0 0 0, {}⟩
  driveSectorSize := size
  disk := disk
  now := 0

theorem ReadMeets.fetched (meets : ReadMeets a abarPhys dev lba count pool)
    (context : a.portContext dev.port = some (abarPhys, clbPhys))
    (nonzero : count ≠ 0) (inside : lba.toNat + count.toNat ≤ dev.blockCount.toNat) (even : pool.Even)
    (disk : Nat → Nat → UInt8) :
    count.toNat ≤ u16Max ∧ ∃ buf', Fetched (blank pool dev.blockSize disk) lba (UInt16.ofNat count.toNat)
      (List.replicate (count.toNat * dev.blockSize) 0) buf' ∧
      ∀ j, j < count.toNat * dev.blockSize → buf'[j]? = some (byteFrom dev.blockSize disk lba.toNat j) := by
  have length : (List.replicate (count.toNat * dev.blockSize) (0 : UInt8)).length = count.toNat *
    dev.blockSize := List.length_replicate
  obtain ⟨exactly, never⟩ :=
    meets idle ⟨blank pool dev.blockSize disk, List.replicate (count.toNat * dev.blockSize) 0⟩ rfl rfl length
  obtain ⟨r', done⟩ := never (idle_responsive _)
  have few : count.toNat ≤ u16Max := by
    by_contra many
    exact readBlocks_many context even (Nat.lt_of_not_le many) r' done
  have read := exactly r' done
  rw [length] at read
  exact ⟨few, r'.buf, readBlocks_fetched context nonzero inside length even few done, read⟩

theorem ReadMeets.fits (meets : ReadMeets a abarPhys dev lba count pool)
    (context : a.portContext dev.port = some (abarPhys, clbPhys))
    (nonzero : count ≠ 0) (inside : lba.toNat + count.toNat ≤ dev.blockCount.toNat) (even : pool.Even) :
      Fits dev lba count pool 1 := by
  -- A drive full of ones, of which the rest of the buffer is told apart.
  obtain ⟨few, buf', fetched, read⟩ := meets.fetched context nonzero inside even fun _ _ => 1
  have positive := count_positive nonzero
  have chunk := chunk_toNat few
  obtain ⟨length, room, _, bytes⟩ := fetched
  rw [List.length_replicate] at length
  rw [Room] at room
  rw [chunk] at length room bytes
  have all (j : Nat) (small : j < count.toNat * dev.blockSize) :
      j < count.toNat * sectorSize ∧ j < (blank pool dev.blockSize fun _ _ => 1).transferred
        (UInt16.ofNat count.toNat) := by
    have one := (bytes j).symm.trans (read j small)
    split at one
    next here =>
      refine ⟨here, ?_⟩
      by_contra beyond
      rw [if_neg beyond] at one
      cases one
    next =>
      rw [List.getElem?_replicate, if_pos small] at one
      cases one
  have size : dev.blockSize = sectorSize := by
    refine Nat.le_antisymm ?_ (Nat.le_of_mul_le_mul_left length (Nat.pos_of_ne_zero positive))
    by_contra larger
    have beyond : count.toNat * sectorSize < count.toNat * dev.blockSize :=
      Nat.mul_lt_mul_of_pos_left (by omega) (by omega)
    exact Nat.lt_irrefl _ (all _ beyond).1
  rw [size] at all
  have last := (all (count.toNat * sectorSize - 1) (by rw [sectorSize]; omega)).2
  rw [Hba.transferred, chunk] at last
  have few_bytes : count.toNat ≤ 8192 := by
    have cut := (Nat.lt_min.mp last).2
    rw [sectorSize] at cut
    omega
  refine ⟨size, few_bytes, ?_, room⟩
  -- A drive with other contents where the address needs more than 48 bits.
  by_contra high
  obtain ⟨_, buf'', ⟨_, _, _, bytes'⟩, read'⟩ := meets.fetched context nonzero inside even fun sector _ =>
    if sector < 2 ^ 48 then 0 else 1
  have here : 0 < count.toNat * dev.blockSize := by
    rw [size, sectorSize]
    omega
  have first := (bytes' 0).symm.trans (read' 0 here)
  have low : lba.toNat % 2 ^ 48 < 2 ^ 48 := Nat.mod_lt _ (by decide)
  rw [chunk, if_pos (by rwa [size] at here)] at first
  simp only [byteFrom, blank, Nat.zero_div, Nat.add_zero, low, high, if_true, if_false, ite_self,
    Option.some.injEq] at first
  cases first

theorem WriteMeets.stored (meets : WriteMeets a abarPhys dev lba count pool)
    (context : a.portContext dev.port = some (abarPhys, clbPhys))
    (nonzero : count ≠ 0) (inside : lba.toNat + count.toNat ≤ dev.blockCount.toNat) (even : pool.Even) :
    count.toNat ≤ u16Max ∧ ∃ h', Stored (blank pool dev.blockSize fun _ _ => 0) lba (UInt16.ofNat count.toNat)
      (List.replicate (count.toNat * dev.blockSize) 1) h' ∧
      ∀ j, j < count.toNat * dev.blockSize → byteFrom dev.blockSize h'.disk lba.toNat j = 1 := by
  have length : (List.replicate (count.toNat * dev.blockSize) (1 : UInt8)).length = count.toNat *
    dev.blockSize := List.length_replicate
  obtain ⟨exactly, never⟩ :=
    meets idle (blank pool dev.blockSize fun _ _ => 0) (List.replicate (count.toNat * dev.blockSize) 1)
      rfl rfl length
  obtain ⟨h', done⟩ := never (idle_responsive _)
  have few : count.toNat ≤ u16Max := by
    by_contra many
    exact writeBlocks_many context even (Nat.lt_of_not_le many) h' done
  have ends := writeBlocks_ends (h := blank pool dev.blockSize fun _ _ => 0)
    idle context nonzero inside length even few
  refine ⟨few, h', ends.of_ok done, fun j small => ?_⟩
  rw [(exactly h' done).1 j (by rwa [length]), List.getD_replicate _ small]

theorem WriteMeets.fits (meets : WriteMeets a abarPhys dev lba count pool)
    (context : a.portContext dev.port = some (abarPhys, clbPhys))
    (nonzero : count ≠ 0) (inside : lba.toNat + count.toNat ≤ dev.blockCount.toNat) (even : pool.Even) :
      Fits dev lba count pool 2 := by
  -- Ones are written to a drive full of zeros.
  obtain ⟨few, h', ⟨length, room, disk⟩, written⟩ := meets.stored context nonzero inside even
  have positive := count_positive nonzero
  have chunk := chunk_toNat few
  rw [List.length_replicate] at length
  rw [Room] at room
  rw [chunk] at length room
  have large : sectorSize ≤ dev.blockSize := Nat.le_of_mul_le_mul_left length (Nat.pos_of_ne_zero positive)
  have sized : 0 < dev.blockSize := Nat.lt_of_lt_of_le (by decide) large
  have here : 0 < count.toNat * dev.blockSize := Nat.mul_pos (Nat.pos_of_ne_zero positive) sized
  have least := List.length_take_le ((blank pool dev.blockSize fun _ _ => 0).transferred
    (UInt16.ofNat count.toNat))
    (List.replicate (count.toNat * dev.blockSize) (1 : UInt8))
  have drive : (blank pool dev.blockSize fun _ _ => 0).driveSectorSize = dev.blockSize := rfl
  rw [disk, drive] at written
  generalize (List.replicate (count.toNat * dev.blockSize) (1 : UInt8)).take _ = data at least written
  rw [Hba.transferred, chunk] at least
  have cut := (Nat.le_min.mp least).2
  have blank_disk : (blank pool dev.blockSize fun _ _ => 0).disk = fun _ _ => 0 := rfl
  rw [blank_disk] at written
  have address : lba.toNat < 2 ^ 48 := by
    by_contra high
    have first := written 0 here
    have far : 2 ^ 48 ≤ (lba.toNat - lba.toNat % 2 ^ 48) * dev.blockSize :=
      Nat.le_trans (by omega) (Nat.le_mul_of_pos_right _ sized)
    rw [byteFrom, Nat.zero_div, Nat.add_zero, Nat.zero_mod, store, if_neg (by omega)] at first
    cases first
  rw [Nat.mod_eq_of_lt address] at written
  have all : count.toNat * dev.blockSize ≤ data.length := by
    by_contra beyond
    have last := written (count.toNat * dev.blockSize - 1) (by omega)
    have zero : (1 : UInt8) = 0 := last.symm.trans (byteFrom_store_beyond data (by omega))
    cases zero
  have sectors : 0 < count.toNat * sectorSize := Nat.mul_pos (Nat.pos_of_ne_zero positive) (by decide)
  have small : dev.blockSize ≤ sectorSize := by
    refine Nat.le_of_mul_le_mul_left ?_ (Nat.pos_of_ne_zero positive)
    omega
  have size := Nat.le_antisymm small large
  rw [size] at all
  refine ⟨size, ?_, address, room⟩
  rw [sectorSize] at all cut
  omega

/-- Requests within a device are exact, and are not refused for what they are, if and only if they fit. -/
theorem transfer_exact_iff {s : State} (run : Reaches Dma.step (fun _ _ => True) .initial s)
    (registered : a.portContext dev.port = some (abarPhys, clbPhys)) (nonzero : count ≠ 0)
    (inside : lba.toNat + count.toNat ≤ dev.blockCount.toNat) :
    ReadMeets a abarPhys dev lba count s.allocator ∧ WriteMeets a abarPhys dev lba count s.allocator ↔
      Fits dev lba count s.allocator 2 := by
  have steady : Steady s := run.invariant .initial fun _ _ _ steady _ taken => steady.step taken
  constructor
  · rintro ⟨_, writes⟩
    exact writes.fits registered nonzero inside steady.even
  · intro fits
    have fits' : Fits dev lba count s.allocator 1 :=
      ⟨fits.size, fits.bytes, fits.address, free_mono (by omega) fits.room⟩
    exact ⟨fits'.reads registered nonzero inside steady.even, fits.writes registered nonzero inside steady.even⟩

end Exact

section Drives

def smallSectors : Nat → UInt8 := fun i => if i = 202 then 16 else 0

def largeSectors : Nat → UInt8 :=
  fun i => if i = 202 then 16 else if i = 213 then 0x50 else if i = 235 then 8 else 0

def onePort : Controller := { abarPhys := some 0xFEBF0000, ports := [(0, 0x4000000)] }

def portAreas : List Action := [.allocDma none 1024, .allocDma none 256]

theorem portAreas_taken : ∃ s, replay Dma.step (fun _ _ => True) .initial portAreas = some s ∧
    s.allocator.nextOffset = 8192 := by
  have result : (replay Dma.step (fun _ _ => True) .initial portAreas).map
    (·.allocator.nextOffset) = some 8192 := by decide
  exact Option.map_eq_some_iff.mp result

theorem transfer_exact_small : ∃ s, replay Dma.step (fun _ _ => True) .initial portAreas = some s ∧
    ReadMeets onePort 0xFEBF0000 (.ofIdentify 0 smallSectors) 100 8 s.allocator ∧
    WriteMeets onePort 0xFEBF0000 (.ofIdentify 0 smallSectors) 100 8 s.allocator := by
  obtain ⟨s, done, next⟩ := portAreas_taken
  refine ⟨s, done, (transfer_exact_iff (.of_replay (fun _ _ fine => fine) .start done) rfl (by decide)
    (by decide)).mpr
    ⟨by decide, by decide, by decide, ?_⟩⟩
  rw [Free, next]
  decide

/-- One block of a drive with large sectors is read, and the rest of the buffer is left. 8193 blocks
of 512 bytes are read, and what is past 512 bytes is 0. 16384 blocks are refused. -/
theorem transfer_cut : ∃ s, replay Dma.step (fun _ _ => True) .initial portAreas = some s ∧
    (∃ r', readBlocks onePort idle (.ofIdentify 0 largeSectors)
    0 1 ⟨blank s.allocator 4096 fun _ _ => 1, List.replicate 4096 0⟩ = .ok () r' ∧
      r'.buf[512]? = some 0) ∧
    (∃ r', readBlocks onePort idle (.ofIdentify 0 smallSectors) 0 8193
      ⟨blank s.allocator 512 fun _ _ => 1, List.replicate (8193 * 512) 0⟩ = .ok () r' ∧ r'.buf[512]? = some 0) ∧
    (∀ r', readBlocks onePort idle (.ofIdentify 0 smallSectors) 0 16384
      ⟨blank s.allocator 512 fun _ _ => 1, List.replicate (16384 * 512) 0⟩ ≠ .ok () r') ∧
    ¬ReadMeets onePort 0xFEBF0000 (.ofIdentify 0 largeSectors) 0 1 s.allocator ∧
    ¬ReadMeets onePort 0xFEBF0000 (.ofIdentify 0 smallSectors) 0 8193 s.allocator ∧
    ¬ReadMeets onePort 0xFEBF0000 (.ofIdentify 0 smallSectors) 0 16384 s.allocator := by
  obtain ⟨s, done, next⟩ := portAreas_taken
  have reached : Reaches Dma.step (fun _ _ => True) .initial s := .of_replay (fun _ _ fine => fine) .start done
  have steady : Steady s := reached.invariant .initial fun _ _ _ steady _ taken => steady.step taken
  have known : onePort.portContext 0 = some (0xFEBF0000, 0x4000000) := rfl
  have large : (AhciBlockDevice.ofIdentify 0 largeSectors).blockSize = 4096 := by decide
  have small : (AhciBlockDevice.ofIdentify 0 smallSectors).blockSize = 512 := by decide
  refine ⟨s, done, ?_, ?_, fun r' read => ?_, fun meets => ?_, fun meets => ?_, fun meets => ?_⟩
  · have room : Free s.allocator (roundUp ((1 : UInt32).toNat * sectorSize) + 1 * 4096) := by
      rw [Free, next]
      decide
    have length : (List.replicate 4096 (0 : UInt8)).length = (1 : UInt32).toNat *
      (AhciBlockDevice.ofIdentify 0 largeSectors).blockSize := by
      rw [List.length_replicate, large]
      rfl
    obtain ⟨r', read, fetched⟩ :=
      idle_reads 0 1 (r := ⟨blank s.allocator 4096 fun _ _ => 1, List.replicate 4096 0⟩) known (by decide)
      (by decide) length steady.even (by decide) (by rw [large]; decide) room
    refine ⟨r', read, ?_⟩
    rw [fetched.bytes, if_neg (by decide), List.getElem?_replicate, if_pos (by decide)]
  · have room : Free s.allocator (roundUp ((8193 : UInt32).toNat * sectorSize) + 1 * 4096) := by
      rw [Free, next]
      decide
    have length : (List.replicate (8193 * 512) (0 : UInt8)).length =
        (8193 : UInt32).toNat * (AhciBlockDevice.ofIdentify 0 smallSectors).blockSize := by
      rw [List.length_replicate, small]
      rfl
    obtain ⟨r', read, fetched⟩ :=
      idle_reads 0 8193 (r := ⟨blank s.allocator 512 fun _ _ => 1, List.replicate (8193 * 512) 0⟩)
        known (by decide)
      (by decide) length steady.even (by decide) (by rw [small]; decide) room
    have cut : (blank s.allocator 512 fun _ _ => 1).transferred
      (UInt16.ofNat (8193 : UInt32).toNat) = 512 := rfl
    refine ⟨r', read, ?_⟩
    rw [fetched.bytes, if_pos (by decide), cut, if_neg (by decide)]
  · have length : (List.replicate (16384 * 512) (0 : UInt8)).length =
        (16384 : UInt32).toNat * (AhciBlockDevice.ofIdentify 0 smallSectors).blockSize := by
      rw [List.length_replicate, small]
      rfl
    have room : Free s.allocator (roundUp ((UInt16.ofNat (16384 : UInt32).toNat).toNat * sectorSize) + 1 *
      4096) :=
      (readBlocks_fetched known (by decide) (by decide) length steady.even (by decide) read).room
    have sectors : (16384 : UInt32).toNat = 16384 := rfl
    have used : (8192 : UInt64).toNat = 8192 := rfl
    have pool : dmaPoolSize.toNat = 8388608 := rfl
    rw [Free, next, sectors, chunk_toNat (show 16384 ≤ u16Max by decide), used, pool, roundUp, sectorSize]
      at room
    omega
  · have fits := meets.fits known (by decide) (by decide) steady.even
    exact absurd (large.symm.trans fits.size) (by decide)
  · have fits := meets.fits known (by decide) (by decide) steady.even
    exact absurd fits.bytes (by decide)
  · have fits := meets.fits known (by decide) (by decide) steady.even
    exact absurd fits.bytes (by decide)

end Drives

end PickleOS.Driver.Block
