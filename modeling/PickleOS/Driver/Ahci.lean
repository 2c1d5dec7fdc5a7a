import PickleOS.Driver.Dma
import PickleOS.Shared.Outcome
import PickleOS.Shared.Sectors

set_option autoImplicit false

/-!
# Commands of the AHCI driver

The controller executes a command when its doorbell rings, exactly as the command says. What its
registers say meanwhile, and whether they can be accessed at all, is left open.
-/

namespace PickleOS.Driver.Ahci

open Shared Shared.Bytes Shared.Outcome Shared.Sectors Dma

def portIs : UInt64 := 0x10
def portTfd : UInt64 := 0x20
def portCi : UInt64 := 0x38

def fisTypeRegH2d : UInt8 := 0x27

def ataCmdIdentify : UInt8 := 0xEC
def ataCmdReadDmaExt : UInt8 := 0x25
def ataCmdWriteDmaExt : UInt8 := 0x35
def ataCmdFlushCacheExt : UInt8 := 0xEA

def sectorSize : Nat := 512

def tfdBsy : UInt32 := (1 : UInt32) <<< 7
def tfdDrq : UInt32 := (1 : UInt32) <<< 3
def tfdErr : UInt32 := 1

inductive Direction where
  | none
  | read
  | write
  deriving DecidableEq

structure CommandHeader where
  flags : UInt16
  prdtl : UInt16
  prdbc : UInt32
  ctba : UInt32
  ctbau : UInt32

structure FisRegH2d where
  fisType : UInt8
  flags : UInt8
  command : UInt8
  featureLo : UInt8 := 0
  lbaLo : UInt8
  lbaMid : UInt8
  lbaHi : UInt8
  device : UInt8
  lbaLoExp : UInt8
  lbaMidExp : UInt8
  lbaHiExp : UInt8
  featureHi : UInt8 := 0
  countLo : UInt8
  countHi : UInt8
  icc : UInt8 := 0
  control : UInt8 := 0

structure Prd where
  dba : UInt32 := 0
  dbau : UInt32 := 0
  reserved : UInt32 := 0
  dbc : UInt32 := 0

structure CommandTable where
  fis : FisRegH2d
  prd : Prd

/-- What the registers answer to each access. -/
structure Mmio where
  read : Nat → UInt64 → Except String UInt32
  write : Nat → UInt64 → UInt32 → Except String Unit

/-- The DMA pool with what lies in it, and the drive at the port. The command lists and tables of
the pool are kept apart from its other bytes. -/
structure Hba where
  dma : DmaAllocator
  memory : Nat → UInt8
  lists : Nat → CommandHeader
  tables : Nat → CommandTable
  driveSectorSize : Nat
  disk : Nat → Nat → UInt8
  -- The accesses to registers so far.
  now : Nat

section Execution

-- A count of 0 stands for 65536 sectors.
def FisRegH2d.sectors (fis : FisRegH2d) : Nat :=
  let count := fis.countLo.toNat + fis.countHi.toNat * 2 ^ 8
  if count = 0 then 65536 else count

def FisRegH2d.lba (fis : FisRegH2d) : Nat :=
  fis.lbaLo.toNat + fis.lbaMid.toNat * 2 ^ 8 + fis.lbaHi.toNat * 2 ^ 16 + fis.lbaLoExp.toNat * 2 ^ 24 +
    fis.lbaMidExp.toNat * 2 ^ 32 + fis.lbaHiExp.toNat * 2 ^ 40

def Prd.address (prd : Prd) : Nat := prd.dba.toNat + prd.dbau.toNat * 2 ^ 32

-- Bits 21:0, so that there are 4 MiB at most.
def Prd.bytes (prd : Prd) : Nat := prd.dbc.toNat % 2 ^ 22 + 1

def CommandHeader.address (header : CommandHeader) : Nat := header.ctba.toNat + header.ctbau.toNat * 2 ^ 32

def CommandHeader.moved (header : CommandHeader) (table : CommandTable) (driveSectorSize : Nat) : Nat :=
  if header.prdtl = 0 then 0 else min (table.fis.sectors * driveSectorSize) table.prd.bytes

def CommandHeader.isWrite (header : CommandHeader) : Bool := header.flags &&& ((1 : UInt16) <<< 6) ≠ 0

/-- The command in slot 0 of a command list. -/
def Hba.execute (h : Hba) (clb : Nat) : Hba :=
  let header := h.lists clb
  let table := h.tables header.address
  let moved := header.moved table h.driveSectorSize
  if table.fis.command = ataCmdReadDmaExt ∧ !header.isWrite then
    { h with memory := overlay h.memory table.prd.address (load h.driveSectorSize h.disk table.fis.lba moved) }
  else if table.fis.command = ataCmdWriteDmaExt ∧ header.isWrite then
    { h with disk := store h.driveSectorSize h.disk table.fis.lba ((List.range'
      table.prd.address moved).map h.memory) }
  else h

end Execution

abbrev DriverM := EStateM String Hba

def require (holds : Bool) (message : String) : DriverM Unit := if holds then pure () else throw message

section Pool

/-- The mapping that `dma::init` sets up. -/
def physOf (virt : UInt64) : Nat := (virt - dmaPoolVirtBase + dmaPoolPhysBase).toNat

/-- What is allocated is zeroed. -/
def allocDma (size : Nat) (message : String) : DriverM (UInt64 × UInt64) := fun h =>
  match h.dma.allocDma (UInt64.ofNat size) with
  | (some (virt, phys, rounded), dma) =>
    .ok (virt, phys)
      { h with dma := dma, memory := overlay h.memory (physOf virt) (List.replicate rounded.toNat 0) }
  | (none, dma) => .error message { h with dma := dma }

/-- `dma::mark` before, and `dma::reset_to` on every way out. -/
def marked {α : Type} (body : DriverM α) : DriverM α := fun h =>
  match body { h with dma := h.dma.mark.2 } with
  | .ok a h' => .ok a { h' with dma := h'.dma.resetTo h.dma.mark.1 }
  | .error e h' => .error e { h' with dma := h'.dma.resetTo h.dma.mark.1 }

end Pool

section Registers

variable (mmio : Mmio)

def readU32 (addr : UInt64) : DriverM UInt32 := fun h =>
  match mmio.read h.now addr with
  | .ok value => .ok value { h with now := h.now + 1 }
  | .error e => .error e { h with now := h.now + 1 }

def writeU32 (addr : UInt64) (value : UInt32) : DriverM Unit := fun h =>
  match mmio.write h.now addr value with
  | .ok () => .ok () { h with now := h.now + 1 }
  | .error e => .error e { h with now := h.now + 1 }

def waitNotBusy (portBase : UInt64) : Nat → DriverM Bool
  | 0 => pure false
  | tries + 1 => fun h =>
    match readU32 mmio (portBase + portTfd) h with
    | .ok tfd h => if tfd &&& (tfdBsy ||| tfdDrq) = 0 then .ok true h else waitNotBusy portBase tries h
    | .error _ h => .ok false h

/-- Step 7 of `issue_command`: whether `PORT_CI` clears in time. -/
def waitRetired (portBase : UInt64) : Nat → DriverM Bool
  | 0 => pure false
  | tries + 1 => do
    let ci ← readU32 mmio (portBase + portCi)
    if ci &&& 1 = 0 then pure true
    else do
      let tfd ← readU32 mmio (portBase + portTfd)
      if tfd &&& tfdErr ≠ 0 then pure false else waitRetired portBase tries

end Registers

/-- `CONTROLLER` and `PORTS`. -/
structure Controller where
  abarPhys : Option UInt64
  ports : List (UInt8 × UInt64)

def Controller.portContext (a : Controller) (portIndex : UInt8) : Option (UInt64 × UInt64) :=
  a.abarPhys.bind fun abar => (a.ports.find? fun p => p.1 == portIndex).map fun p => (abar, p.2)

def commandHeader (ctPhys : UInt64) (byteCount : UInt32) (dir : Direction) : CommandHeader where
  flags := if dir = .write then (5 : UInt16) ||| (1 : UInt16) <<< 6 else 5
  prdtl := if byteCount > 0 then 1 else 0
  prdbc := 0
  ctba := (ctPhys &&& 0xFFFFFFFF).toUInt32
  ctbau := (ctPhys >>> 32).toUInt32

def regH2d (command : UInt8) (lba : UInt64) (sectorCount : UInt16) : FisRegH2d where
  fisType := fisTypeRegH2d
  flags := 0x80
  command := command
  lbaLo := (lba &&& 0xFF).toUInt8
  lbaMid := ((lba >>> 8) &&& 0xFF).toUInt8
  lbaHi := ((lba >>> 16) &&& 0xFF).toUInt8
  lbaLoExp := ((lba >>> 24) &&& 0xFF).toUInt8
  lbaMidExp := ((lba >>> 32) &&& 0xFF).toUInt8
  lbaHiExp := ((lba >>> 40) &&& 0xFF).toUInt8
  device := if command = ataCmdIdentify then 0 else (1 : UInt8) <<< 6
  countLo := (sectorCount &&& 0xFF).toUInt8
  countHi := ((sectorCount >>> 8) &&& 0xFF).toUInt8

def prdEntry (dataPhys : UInt64) (byteCount : UInt32) : Prd where
  dba := (dataPhys &&& 0xFFFFFFFF).toUInt32
  dbau := (dataPhys >>> 32).toUInt32
  dbc := (byteCount - 1) ||| 1

def portBase (abarPhys : UInt64) (portIndex : UInt8) : UInt64 := abarPhys + 0x100 + portIndex.toUInt64 * 0x80

def issueCommand (mmio : Mmio) (abarPhys clbPhys : UInt64) (portIndex command : UInt8) (lba : UInt64)
    (sectorCount : UInt16)
    (dataPhys : UInt64) (byteCount : UInt32) (dir : Direction) : DriverM Unit := do
  let portBase := portBase abarPhys portIndex
  let ready ← waitNotBusy mmio portBase 1000
  require ready "port busy before command"
  let (_, ctPhys) ← allocDma 256 "dma alloc (command table) failed"
  let header := commandHeader ctPhys byteCount dir
  let table : CommandTable :=
    ⟨regH2d command lba sectorCount, if byteCount > 0 then prdEntry dataPhys byteCount else {}⟩
  modify fun h =>
    { h with
      lists := Function.update h.lists clbPhys.toNat header
      tables := Function.update h.tables ctPhys.toNat table }
  let is ← readU32 mmio (portBase + portIs)
  writeU32 mmio (portBase + portIs) is
  writeU32 mmio (portBase + portCi) 1
  modify (·.execute clbPhys.toNat)
  let completed ← waitRetired mmio portBase 2000
  require completed "command timeout"
  let tfd ← readU32 mmio (portBase + portTfd)
  require (tfd &&& tfdErr = 0) "command failed (TFD error bit set)"

def knownPort (a : Controller) (portIndex : UInt8) : DriverM (UInt64 × UInt64) :=
  match a.portContext portIndex with
  | some context => pure context
  | none => throw "unknown AHCI port"

/-- The buffer comes back with what was read in its first bytes. -/
def readSectors (a : Controller) (mmio : Mmio) (portIndex : UInt8) (lba : UInt64) (count : UInt16)
    (buf : List UInt8) :
    DriverM (Nat × List UInt8) :=
  if count = 0 then pure (0, buf)
  else do
    let bytes := count.toNat * sectorSize
    require (bytes ≤ buf.length) "buffer too small for requested sector count"
    let (abarPhys, clbPhys) ← knownPort a portIndex
    marked do
      let (dataVirt, dataPhys) ← allocDma bytes "dma alloc (read buffer) failed"
      issueCommand mmio abarPhys clbPhys portIndex ataCmdReadDmaExt lba count dataPhys
        (UInt32.ofNat bytes) .read
      let h ← get
      pure (bytes, splice buf 0 ((List.range' (physOf dataVirt) bytes).map h.memory))

def writeSectors (a : Controller) (mmio : Mmio) (portIndex : UInt8) (lba : UInt64) (count : UInt16)
    (buf : List UInt8) : DriverM Nat :=
  if count = 0 then pure 0
  else do
    let bytes := count.toNat * sectorSize
    require (bytes ≤ buf.length) "buffer too small for requested sector count"
    let (abarPhys, clbPhys) ← knownPort a portIndex
    marked do
      let (dataVirt, dataPhys) ← allocDma bytes "dma alloc (write buffer) failed"
      modify fun h => { h with memory := overlay h.memory (physOf dataVirt) (buf.take bytes) }
      issueCommand mmio abarPhys clbPhys portIndex ataCmdWriteDmaExt lba count dataPhys
        (UInt32.ofNat bytes) .write
      issueCommand mmio abarPhys clbPhys portIndex ataCmdFlushCacheExt 0 0 0 0 .none
      pure bytes

end PickleOS.Driver.Ahci
