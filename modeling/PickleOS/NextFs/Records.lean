import PickleOS.NextFs.Device
import PickleOS.Shared.Utf8
import Mathlib.Data.List.OfFn
import Mathlib.Data.Fintype.Pi
import Mathlib.Tactic.FinCases
import Mathlib.Data.List.TakeWhile

set_option autoImplicit false

namespace PickleOS.NextFs

open Shared

/-- ASCII "NXFS" in little-endian. -/
def magicNumber : UInt32 := 0x5346584E

abbrev directPtrs : Nat := 9

instance : NeZero directPtrs := ⟨by decide⟩

abbrev ptrsPerBlock : Nat := 128

abbrev inodesPerBlock : Nat := 8

abbrev entriesPerBlock : Nat := 8

abbrev maxNameLen : Nat := 60

abbrev recordSize : Nat := 64

def rootInode : UInt32 := 1

def defaultFileMode : UInt16 := 0o644

def defaultDirMode : UInt16 := 0o755

def mayRead : UInt16 := 0o4

def mayWrite : UInt16 := 0o2

/-- Field `k` of an unpacked record. -/
private def field (fields : List Nat) (k : Nat) : Nat := fields.getD k 0

private theorem field_ofFn {n : Nat} (front : List Nat) (f : Fin n → Nat) (back : List Nat) (k : Fin n)
    {fields : List Nat} {position : Nat} (whole : fields = front ++ (List.ofFn f ++ back))
    (offset : position = front.length + k) : field fields position = f k := by
  have inside : (k : Nat) < (List.ofFn f).length := by simp
  subst whole offset
  simp [field, List.getElem?_append_right, List.getElem?_append_left inside]

private theorem truncated_ofFn {n : Nat} (width : Nat) (f : Fin n → Nat) (fits : ∀ k, f k < 256 ^ width) :
    (List.ofFn fun k => (width, f k)).map (fun entry => entry.2 % 256 ^ entry.1) = List.ofFn f := by
  rw [List.map_ofFn]
  congr 1
  funext k
  exact Nat.mod_eq_of_lt (fits k)

private theorem truncated_byte (x : UInt8) : x.toNat % 256 ^ 1 = x.toNat := Nat.mod_eq_of_lt x.toNat_lt

private theorem truncated_half (x : UInt16) : x.toNat % 256 ^ 2 = x.toNat := Nat.mod_eq_of_lt x.toNat_lt

private theorem truncated_word (x : UInt32) : x.toNat % 256 ^ 4 = x.toNat := Nat.mod_eq_of_lt x.toNat_lt

private theorem truncated_long (x : UInt64) : x.toNat % 256 ^ 8 = x.toNat := Nat.mod_eq_of_lt x.toNat_lt

structure Superblock where
  magic : UInt32
  blockSize : UInt32
  totalBlocks : UInt32
  inodeCount : UInt32
  freeBlocks : UInt32
  freeInodes : UInt32
  bitmapStart : UInt32
  inodeTableStart : UInt32
  dataStart : UInt32
  reserved : Fin 472 → UInt8

namespace Superblock

def fields (sb : Superblock) : List (Nat × Nat) :=
  [(4, sb.magic.toNat), (4, sb.blockSize.toNat), (4, sb.totalBlocks.toNat), (4, sb.inodeCount.toNat),
    (4, sb.freeBlocks.toNat), (4, sb.freeInodes.toNat), (4, sb.bitmapStart.toNat),
    (4, sb.inodeTableStart.toNat), (4, sb.dataStart.toNat)] ++
    List.ofFn fun k => (1, (sb.reserved k).toNat)

def widths : List Nat := List.replicate 9 4 ++ List.replicate 472 1

/-- The packed record in a zeroed block; its 508 bytes leave the last four zero. -/
def toBytes (sb : Superblock) : Block := Block.ofBytes (Bytes.pack sb.fields)

def fromBytes (block : Block) : Superblock :=
  let f := Bytes.unpack widths (block.slice 0 508)
  { magic := .ofNat (field f 0)
    blockSize := .ofNat (field f 1)
    totalBlocks := .ofNat (field f 2)
    inodeCount := .ofNat (field f 3)
    freeBlocks := .ofNat (field f 4)
    freeInodes := .ofNat (field f 5)
    bitmapStart := .ofNat (field f 6)
    inodeTableStart := .ofNat (field f 7)
    dataStart := .ofNat (field f 8)
    reserved := fun k => .ofNat (field f (9 + k)) }

def isValid (sb : Superblock) : Bool :=
  sb.magic = magicNumber && sb.blockSize = 512

theorem fields_widths (sb : Superblock) : sb.fields.map Prod.fst = widths := by
  have tail : (List.ofFn fun k => (1, (sb.reserved k).toNat)).map Prod.fst = List.replicate 472 1 := by
    rw [List.map_ofFn, ← List.ofFn_const]
    rfl
  simp only [fields, widths, List.map_append, tail]
  rfl

theorem pack_length (sb : Superblock) : (Bytes.pack sb.fields).length = 508 := by
  rw [Bytes.pack_length, fields_widths]
  simp only [widths, List.sum_append, List.sum_replicate]
  rfl

theorem fromBytes_toBytes (sb : Superblock) : fromBytes sb.toBytes = sb := by
  have bytes : sb.toBytes.slice 0 508 = Bytes.pack sb.fields := by
    have whole := Block.slice_splice_same Block.zero 0 (Bytes.pack sb.fields) (by rw [pack_length]; omega)
    rwa [pack_length] at whole
  unfold fromBytes
  have unpacked : Bytes.unpack widths (sb.toBytes.slice 0 508) =
      [sb.magic.toNat, sb.blockSize.toNat, sb.totalBlocks.toNat, sb.inodeCount.toNat,
        sb.freeBlocks.toNat, sb.freeInodes.toNat, sb.bitmapStart.toNat, sb.inodeTableStart.toNat,
        sb.dataStart.toNat] ++ (List.ofFn (fun k => (sb.reserved k).toNat) ++ []) := by
    rw [bytes, ← fields_widths sb, Bytes.unpack_pack, fields, List.map_append,
      truncated_ofFn 1 _ fun k => UInt8.toNat_lt _]
    simp only [List.map_cons, List.map_nil, truncated_word, List.append_nil]
  generalize Bytes.unpack widths (sb.toBytes.slice 0 508) = f at unpacked
  have reserved (k : Fin 472) : field f (9 + k) = (sb.reserved k).toNat := field_ofFn _ _ _ k unpacked rfl
  subst unpacked
  simp only [reserved, UInt8.ofNat_toNat]
  simp only [field, List.cons_append, List.getD_cons_zero, List.getD_cons_succ, UInt32.ofNat_toNat]

end Superblock

structure Inode where
  inodeType : UInt8
  pad : UInt8
  mode : UInt16
  size : UInt64
  uid : UInt16
  gid : UInt16
  mtime : UInt32
  direct : Fin directPtrs → UInt32
  indirect : UInt32
  reserved : Fin 4 → UInt8
  deriving DecidableEq

namespace Inode

def empty : Inode :=
  { inodeType := 0, pad := 0, mode := 0, size := 0, uid := 0, gid := 0, mtime := 0
    direct := fun _ => 0, indirect := 0, reserved := fun _ => 0 }

def newFile : Inode := { empty with inodeType := 1, mode := defaultFileMode }

def newDir : Inode := { empty with inodeType := 2, mode := defaultDirMode }

def isFree (v : Inode) : Bool := v.inodeType = 0

def isFile (v : Inode) : Bool := v.inodeType = 1

def isDir (v : Inode) : Bool := v.inodeType = 2

/-- Whether `(uid, gid)` has all of the access bits `want`; uid 0 bypasses the check. -/
def permits (v : Inode) (uid gid want : UInt16) : Bool :=
  if uid = 0 then true
  else
    let granted :=
      if v.uid = uid then (v.mode >>> 6) &&& 0o7
      else if v.gid = gid then (v.mode >>> 3) &&& 0o7
      else v.mode &&& 0o7
    (granted &&& want) = want

def fields (v : Inode) : List (Nat × Nat) :=
  [(1, v.inodeType.toNat), (1, v.pad.toNat), (2, v.mode.toNat), (8, v.size.toNat), (2, v.uid.toNat),
    (2, v.gid.toNat), (4, v.mtime.toNat)] ++
    (List.ofFn (fun k => (4, (v.direct k).toNat)) ++
      ((4, v.indirect.toNat) :: List.ofFn fun k => (1, (v.reserved k).toNat)))

def widths : List Nat := [1, 1, 2, 8, 2, 2, 4] ++ (List.replicate 9 4 ++ (4 :: List.replicate 4 1))

def toBytes (v : Inode) : List UInt8 := Bytes.pack v.fields

def fromBytes (bytes : List UInt8) : Inode :=
  let f := Bytes.unpack widths bytes
  { inodeType := .ofNat (field f 0)
    pad := .ofNat (field f 1)
    mode := .ofNat (field f 2)
    size := .ofNat (field f 3)
    uid := .ofNat (field f 4)
    gid := .ofNat (field f 5)
    mtime := .ofNat (field f 6)
    direct := fun k => .ofNat (field f (7 + k))
    indirect := .ofNat (field f 16)
    reserved := fun k => .ofNat (field f (17 + k)) }

theorem fields_widths (v : Inode) : v.fields.map Prod.fst = widths := by
  simp [fields, widths, List.ofFn_succ]

theorem toBytes_length (v : Inode) : v.toBytes.length = 64 := by
  rw [toBytes, Bytes.pack_length, fields_widths]
  decide

theorem fromBytes_toBytes (v : Inode) : fromBytes v.toBytes = v := by
  unfold fromBytes
  have unpacked : Bytes.unpack widths v.toBytes =
      [v.inodeType.toNat, v.pad.toNat, v.mode.toNat, v.size.toNat, v.uid.toNat, v.gid.toNat,
        v.mtime.toNat] ++ (List.ofFn (fun k => (v.direct k).toNat) ++
        (v.indirect.toNat :: List.ofFn fun k => (v.reserved k).toNat)) := by
    rw [toBytes, ← fields_widths v, Bytes.unpack_pack, fields, List.map_append, List.map_append,
      truncated_ofFn 4 _ fun k => UInt32.toNat_lt _]
    simp only [List.map_cons, List.map_nil, truncated_ofFn 1 _ fun k => UInt8.toNat_lt _, truncated_word,
      truncated_byte, truncated_half, truncated_long]
  generalize Bytes.unpack widths v.toBytes = f at unpacked
  have direct (k : Fin 9) : field f (7 + k) = (v.direct k).toNat := field_ofFn _ _ _ k unpacked rfl
  have indirect : field f 16 = v.indirect.toNat := by simp [field, unpacked]
  have reserved (k : Fin 4) : field f (17 + k) = (v.reserved k).toNat := by
    fin_cases k <;> simp [field, unpacked]
  simp only [direct, indirect, reserved, UInt8.ofNat_toNat, UInt32.ofNat_toNat]
  subst unpacked
  simp [field]

end Inode

structure DirEntry where
  inode : UInt32
  name : Fin maxNameLen → UInt8
  deriving DecidableEq

namespace DirEntry

/-- At most 59 bytes of the name are stored, so that it ends in a NUL. -/
def new (inode : UInt32) (name : List UInt8) : DirEntry :=
  { inode := inode
    name := fun k => if k.val < min name.length (maxNameLen - 1) then name.getD k 0 else 0 }

def isUsed (entry : DirEntry) : Bool := entry.inode ≠ 0

/-- The bytes before the first NUL; the empty name where they are not UTF-8. -/
def nameStr (entry : DirEntry) : List UInt8 :=
  let bytes := (List.ofFn entry.name).takeWhile (· ≠ 0)
  if Utf8.valid bytes then bytes else []

def nameMatches (entry : DirEntry) (name : List UInt8) : Bool := entry.nameStr = name

def fields (entry : DirEntry) : List (Nat × Nat) :=
  (4, entry.inode.toNat) :: List.ofFn fun k => (1, (entry.name k).toNat)

def widths : List Nat := 4 :: List.replicate maxNameLen 1

def toBytes (entry : DirEntry) : List UInt8 := Bytes.pack entry.fields

def fromBytes (bytes : List UInt8) : DirEntry :=
  let f := Bytes.unpack widths bytes
  { inode := .ofNat (field f 0)
    name := fun k => .ofNat (field f (1 + k)) }

theorem fields_widths (entry : DirEntry) : entry.fields.map Prod.fst = widths := by
  have tail : (List.ofFn fun k => (1, (entry.name k).toNat)).map Prod.fst = List.replicate maxNameLen 1 := by
    rw [List.map_ofFn, ← List.ofFn_const]
    rfl
  simp only [fields, widths, List.map_cons, tail]

theorem toBytes_length (entry : DirEntry) : entry.toBytes.length = 64 := by
  rw [toBytes, Bytes.pack_length, fields_widths]
  decide

theorem fromBytes_toBytes (entry : DirEntry) : fromBytes entry.toBytes = entry := by
  unfold fromBytes
  have unpacked : Bytes.unpack widths entry.toBytes =
      [entry.inode.toNat] ++ (List.ofFn (fun k => (entry.name k).toNat) ++ []) := by
    rw [toBytes, ← fields_widths entry, Bytes.unpack_pack, fields, List.map_cons,
      truncated_ofFn 1 _ fun k => UInt8.toNat_lt _, List.append_nil]
    simp only [truncated_word, List.singleton_append]
  generalize Bytes.unpack widths entry.toBytes = f at unpacked
  have name (k : Fin maxNameLen) : field f (1 + k) = (entry.name k).toNat := field_ofFn _ _ _ k unpacked rfl
  subst unpacked
  simp only [name, UInt8.ofNat_toNat]
  simp [field]

theorem nameStr_plain (entry : DirEntry) : (0 : UInt8) ∉ entry.nameStr := by
  simp only [nameStr]
  split
  · intro member
    simpa using List.mem_takeWhile_imp member
  · simp

theorem nameStr_new (inode : UInt32) {name : List UInt8} (short : name.length < maxNameLen)
    (plain : (0 : UInt8) ∉ name) (text : Utf8.valid name = true) : (new inode name).nameStr = name := by
  -- A stored name reads back as itself if it fits and has no NUL byte.
  have stored : List.ofFn (new inode name).name = name ++ List.replicate (maxNameLen - name.length) 0 := by
    apply List.ext_getElem
    · simp only [List.length_ofFn, List.length_append, List.length_replicate]
      omega
    · intro k hleft hright
      simp only [List.getElem_ofFn, new, List.getElem_append]
      by_cases inside : k < name.length
      · rw [if_pos (by simp only [maxNameLen] at short ⊢; omega), dif_pos inside]
        simp [inside]
      · rw [if_neg (by omega), dif_neg inside, List.getElem_replicate]
  have positive : 0 < maxNameLen - name.length := by omega
  have kept : (List.ofFn (new inode name).name).takeWhile (· ≠ 0) = name := by
    obtain ⟨n, successor⟩ := Nat.exists_eq_succ_of_ne_zero positive.ne'
    rw [stored, List.takeWhile_append_of_pos fun byte member => by
      simpa using fun zero : byte = 0 => plain (zero ▸ member), successor]
    simp [List.replicate_succ]
  rw [nameStr, kept]
  exact if_pos text

end DirEntry

namespace Block

private theorem record_splice (block : Block) (slot j : Nat) (bytes : List UInt8) (length : bytes.length = 64)
    (inside : slot < 8) :
    (block.splice (slot * 64) bytes).slice (j * 64) 64 = if j = slot then bytes else block.slice (j * 64)
    64 := by
  split
  next same =>
    subst same
    have whole := slice_splice_same block (j * 64) bytes (by omega)
    rwa [length] at whole
  next different => exact slice_splice_disjoint _ _ _ _ _ (by omega) (by omega)

def inode (block : Block) (slot : Nat) : Inode := Inode.fromBytes (block.slice (slot * 64) 64)

def setInode (block : Block) (slot : Nat) (v : Inode) : Block := block.splice (slot * 64) v.toBytes

def entry (block : Block) (slot : Nat) : DirEntry := DirEntry.fromBytes (block.slice (slot * 64) 64)

def setEntry (block : Block) (slot : Nat) (entry : DirEntry) : Block := block.splice (slot * 64) entry.toBytes

theorem inode_setInode (block : Block) (slot j : Nat) (v : Inode) (inside : slot < 8) :
    (block.setInode slot v).inode j = if j = slot then v else block.inode j := by
  rw [inode, setInode, record_splice _ _ _ _ v.toBytes_length inside]
  split
  · exact v.fromBytes_toBytes
  · rfl

theorem setInode_setInode (block : Block) {slot : Nat} (v w : Inode) (inside : slot < 8) :
    (block.setInode slot v).setInode slot w = block.setInode slot w := by
  apply Block.ext
  apply Bytes.splice_splice_same
  · rw [v.toBytes_length, w.toBytes_length]
  · rw [v.toBytes_length, block.length_eq]
    simp only [blockSize]
    omega

theorem entry_setEntry (block : Block) (slot j : Nat) (e : DirEntry) (inside : slot < 8) :
    (block.setEntry slot e).entry j = if j = slot then e else block.entry j := by
  rw [entry, setEntry, record_splice _ _ _ _ e.toBytes_length inside]
  split
  · exact e.fromBytes_toBytes
  · rfl

theorem entry_zero (slot : Nat) (inside : slot < 8) : (zero.entry slot).isUsed = false := by
  rw [entry, slice_zero _ _ (by omega)]
  decide

theorem inode_zero (slot : Nat) (inside : slot < 8) : zero.inode slot = Inode.empty := by
  rw [inode, slice_zero _ _ (by omega), Inode.fromBytes]
  simp only [field, Bytes.unpack_zero]
  rfl

end Block

end PickleOS.NextFs
