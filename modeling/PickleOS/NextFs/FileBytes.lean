import PickleOS.NextFs.Altering
import PickleOS.Shared.Sparse

set_option autoImplicit false

namespace PickleOS.NextFs

open Shared Shared.Outcome

namespace Block

def byte (block : Block) (k : Nat) : UInt8 := block.bytes.getD k 0

@[simp] theorem byte_zero (k : Nat) : zero.byte k = 0 := by
  simp only [byte, zero, List.getD_eq_getElem?_getD, List.getElem?_replicate]
  split <;> rfl

theorem byte_splice (block : Block) (off : Nat) (data : List UInt8) (room : off + data.length ≤ 512) (k : Nat) :
    (block.splice off data).byte k = Bytes.overlay block.byte off data k :=
  Bytes.getD_splice off block.bytes data (by simpa only [block.length_eq] using room) k

theorem slice_eq_map (block : Block) (off n : Nat) (room : off + n ≤ 512) :
    block.slice off n = (List.range' off n).map block.byte :=
  Bytes.slice_eq_map off block.bytes n (by simpa only [block.length_eq] using room)

end Block

/-- The byte at a file position: 0 in a hole and past the last block a file can have. -/
def Volume.byteAt (s : Volume) (v : Inode) (p : Nat) : UInt8 :=
  let number := v.pointer s.device.data (p / 512)
  if number = 0 then 0 else (s.device.data number.toNat).byte (p % 512)

section

variable {s t : Volume} {v w : Inode} {p : Nat}

theorem byteAt_hole (hole : v.pointer s.device.data (p / 512) = 0) : s.byteAt v p = 0 := by
  rw [Volume.byteAt, if_pos hole]

theorem byteAt_past (past : 137 * 512 ≤ p) : s.byteAt v p = 0 :=
  byteAt_hole (v.pointer_past s.device.data (by omega))

theorem byteAt_held {k : Fin 137} {b : Nat} (index : p / 512 = k)
    (held : v.holds s.device.data (.data k) = some b) :
    s.byteAt v p = (s.device.data b).byte (p % 512) := by
  obtain ⟨filled, rfl⟩ := Inode.holds_data_some.mp held
  rw [Volume.byteAt, index, if_neg filled]

theorem byteAt_of_pointers (direct : w.direct = v.direct) (indirect : w.indirect = v.indirect) :
    s.byteAt w = s.byteAt v := by
  have pointer (k : Nat) : w.pointer s.device.data k = v.pointer s.device.data k := by
    simp only [Inode.pointer, direct, indirect]
  funext p
  simp only [Volume.byteAt, pointer]

theorem byteAt_congr (same : ∀ q b, v.holds s.device.data q = some b → t.device.data b = s.device.data b) :
    t.byteAt v = s.byteAt v := by
  funext p
  have pointer := v.pointer_congr (fun b held => same .indirect b held) (p / 512)
  by_cases hole : v.pointer s.device.data (p / 512) = 0
  · rw [byteAt_hole hole, byteAt_hole (pointer.trans hole)]
  · have inside : p / 512 < 137 := by
      by_contra past
      exact hole (v.pointer_past _ (by omega))
    rw [Volume.byteAt, Volume.byteAt, pointer,
      same (.data ⟨p / 512, inside⟩) _ (Inode.holds_data_some.mpr ⟨hole, rfl⟩)]

theorem byteAt_setInode (placed : Placed s v) {i : Nat} (inside : i < s.layout.inodeCount) (x : Inode) :
    (s.setInode i x).byteAt v = s.byteAt v :=
  byteAt_congr fun _ _ held => Volume.data_setInode placed.layout (placed.inData held).1 inside x

/-! ### Reading -/

theorem getInodeBlock_pointer (placed : Placed s v)
    {k : Nat} {number : UInt32} (found : s.getInodeBlock v k = .ok number) :
    number = v.pointer s.device.data k := by
  by_cases inside : k < 137
  · rw [getInodeBlock_eq placed inside] at found
    cases found
    rfl
  · rw [getInodeBlock_past placed (by omega)] at found
    split at found
    · cases found
      exact (v.pointer_past _ (by omega)).symm
    · cases found

/-- The bytes that a read from position `pos` on is to return. The code computes the block index modulo `2
^ 32`. -/
def Volume.bytesFrom (s : Volume) (v : Inode) (pos n : Nat) : List UInt8 :=
  (List.range' pos n).map fun q => s.byteAt v (q % 2 ^ 41)

theorem bytesFrom_chunk {pos chunk : Nat} (fits : pos % 512 + chunk ≤ 512) {number : UInt32}
    (pointer : number = v.pointer s.device.data (pos / 512 % 2 ^ 32)) :
    s.bytesFrom v pos chunk =
      if number = 0 then List.replicate chunk 0 else (s.device.data number.toNat).slice (pos % 512) chunk := by
  have place (k : Nat) (inside : k < chunk) :
      (pos + k) % 2 ^ 41 / 512 = pos / 512 % 2 ^ 32 ∧ (pos + k) % 2 ^ 41 % 512 = pos % 512 + k := by omega
  rw [Volume.bytesFrom, List.range'_eq_map_range, List.map_map]
  split
  next hole =>
    rw [List.eq_replicate_iff]
    refine ⟨by simp, fun byte member => ?_⟩
    obtain ⟨k, inside, rfl⟩ := List.mem_map.mp member
    have index := (place k (List.mem_range.mp inside)).1
    exact byteAt_hole (by rw [index, ← pointer, hole])
  next filled =>
    rw [Block.slice_eq_map _ _ _ fits, List.range'_eq_map_range, List.map_map]
    refine List.map_congr_left fun k member => ?_
    obtain ⟨index, offset⟩ := place k (List.mem_range.mp member)
    simp only [Function.comp_apply, Volume.byteAt, index, offset, ← pointer, if_neg filled]

theorem bytesFrom_append (pos first second : Nat) :
    s.bytesFrom v pos first ++ s.bytesFrom v (pos + first) second = s.bytesFrom v pos (first + second) := by
  rw [Volume.bytesFrom, Volume.bytesFrom, ← List.map_append, List.range'_append_1, Volume.bytesFrom]

theorem readChunks_next (placed : Placed s v) {pos n chunk : Nat} (some : n ≠ 0)
    (size : chunk = min n (512 - pos % 512)) :
    s.readChunks v pos n =
      match s.getInodeBlock v (pos / 512 % 2 ^ 32) with
      | .error fail => .error fail
      | .ok _ => (s.readChunks v (pos + chunk) (n - chunk)).map (s.bytesFrom v pos chunk ++ ·) := by
  -- One round of the loop.
  rw [Volume.readChunks, if_neg some]
  simp only [blockSize, ← size]
  cases block : s.getInodeBlock v (pos / 512 % 2 ^ 32) with
  | error fail => rfl
  | ok number =>
    have pointer := getInodeBlock_pointer placed block
    rw [bytesFrom_chunk (by omega) pointer]
    simp only [bind, Except.bind]
    split
    next hole => cases s.readChunks v (pos + chunk) (n - chunk) <;> rfl
    next filled =>
      rw [Device.read_ok (getInodeBlock_device placed block filled)]
      cases s.readChunks v (pos + chunk) (n - chunk) <;> rfl

theorem readChunks_ok (placed : Placed s v) {pos n : Nat}
    {bytes : List UInt8} (done : s.readChunks v pos n = .ok bytes) :
    bytes = s.bytesFrom v pos n := by
  induction n using Nat.strong_induction_on generalizing pos bytes with
  | _ n ih =>
    by_cases none : n = 0
    · rw [none, Volume.readChunks, if_pos rfl] at done
      cases done
      rw [none]
      rfl
    · rw [readChunks_next placed none rfl] at done
      split at done
      · cases done
      · cases rest : s.readChunks v (pos + min n (512 - pos % 512)) (n - min n (512 - pos % 512)) with
        | error fail =>
          rw [rest] at done
          cases done
        | ok tail =>
          rw [rest] at done
          cases done
          have whole : min n (512 - pos % 512) + (n - min n (512 - pos % 512)) = n := by omega
          have joined :=
            bytesFrom_append (s := s) (v := v) pos (min n (512 - pos % 512)) (n - min n (512 - pos % 512))
          rw [whole] at joined
          rw [ih _ (by omega) rest]
          exact joined

theorem readChunks_reached (placed : Placed s v)
    {pos n : Nat} (reached : pos + n ≤ 137 * 512 ∨ v.indirect = 0) :
    s.readChunks v pos n = .ok (s.bytesFrom v pos n) := by
  have block : ∀ k, k < 137 ∨ v.indirect = 0 → ∃ number, s.getInodeBlock v k = .ok number := by
    intro k inside
    by_cases low : k < 137
    · exact ⟨_, getInodeBlock_eq placed low⟩
    · exact ⟨0, by rw [getInodeBlock_past placed (by omega), if_pos (inside.resolve_left low)]⟩
  obtain ⟨bytes, done⟩ : ∃ bytes, s.readChunks v pos n = .ok bytes := by
    induction n using Nat.strong_induction_on generalizing pos with
    | _ n ih =>
      by_cases none : n = 0
      · exact ⟨[], by rw [none, Volume.readChunks, if_pos rfl]⟩
      · obtain ⟨number, found⟩ := block (pos / 512 % 2 ^ 32) (reached.imp_left fun fits => by omega)
        have next : pos + min n (512 - pos % 512) + (n - min n (512 - pos % 512)) ≤ 137 * 512 ∨
          v.indirect = 0 :=
          reached.imp_left fun fits => by omega
        obtain ⟨tail, rest⟩ := ih (n - min n (512 - pos % 512)) (by omega) next
        rw [readChunks_next placed none rfl, found, rest]
        exact ⟨_, rfl⟩
  rw [done, readChunks_ok placed done]

theorem readChunks_total (placed : Placed s v) {pos n : Nat} (fits : pos + n ≤ 137 * 512) :
    s.readChunks v pos n = .ok (s.bytesFrom v pos n) :=
  readChunks_reached placed (.inl fits)

theorem readChunks_past (placed : Placed s v) {pos n : Nat} (before : pos ≤ 137 * 512)
    (past : 137 * 512 < pos + n)
    (indirect : v.indirect ≠ 0) : s.readChunks v pos n = .error (.fs .noSpace) := by
  induction n using Nat.strong_induction_on generalizing pos with
  | _ n ih =>
    rw [readChunks_next placed (by omega) rfl]
    by_cases inside : pos < 137 * 512
    · have next : pos + min n (512 - pos % 512) ≤ 137 * 512 := by omega
      have rest := ih (n - min n (512 - pos % 512)) (by omega) next (by omega)
      rw [getInodeBlock_eq placed (by omega), rest]
      rfl
    · rw [getInodeBlock_past placed (by omega), if_neg indirect]

/-- What a read gets at a position. Behind the last pointer a file with an indirect block cannot be
read. -/
def Volume.stored (s : Volume) (v : Inode) (p : Nat) : Except Fail UInt8 :=
  if p % 2 ^ 41 / 512 < 137 ∨ v.indirect = 0 then .ok (s.byteAt v (p % 2 ^ 41)) else .error (.fs .noSpace)

theorem stored_hole (hole : s.byteAt v (p % 2 ^ 41) = 0) {b : UInt8} (found : s.stored v p = .ok b) :
    b = 0 := by
  unfold Volume.stored at found
  split at found
  · rw [hole] at found
    cases found
    rfl
  · cases found

theorem readChunks_stored (placed : Placed s v) (pos n : Nat) :
    s.readChunks v pos n = (List.range' pos n).mapM (s.stored v) := by
  induction n using Nat.strong_induction_on generalizing pos with
  | _ n ih =>
    by_cases none : n = 0
    · rw [none, Volume.readChunks, if_pos rfl]
      rfl
    · obtain ⟨chunk, size⟩ : ∃ chunk, chunk = min n (512 - pos % 512) := ⟨_, rfl⟩
      have whole : List.range' pos n = List.range' pos chunk ++ List.range' (pos + chunk) (n - chunk) := by
        rw [List.range'_append_1, Nat.add_sub_cancel' (by omega)]
      have index (q : Nat) (member : q ∈ List.range' pos chunk) : q % 2 ^ 41 / 512 = pos / 512 % 2 ^ 32 := by
        rw [List.mem_range'_1] at member
        omega
      rw [readChunks_next placed none size, ih _ (by omega), whole, List.mapM_append]
      by_cases low : pos / 512 % 2 ^ 32 < 137 ∨ v.indirect = 0
      · have first : (List.range' pos chunk).mapM (s.stored v) = .ok (s.bytesFrom v pos chunk) :=
          Checked.mapM_ok _ fun q member => if_pos (by rwa [index q member])
        have block : ∃ number, s.getInodeBlock v (pos / 512 % 2 ^ 32) = .ok number := by
          by_cases inside : pos / 512 % 2 ^ 32 < 137
          · exact ⟨_, getInodeBlock_eq placed inside⟩
          · exact ⟨0, by rw [getInodeBlock_past placed (by omega), if_pos (low.resolve_left inside)]⟩
        obtain ⟨number, found⟩ := block
        rw [first, found]
        cases (List.range' (pos + chunk) (n - chunk)).mapM (s.stored v) <;> rfl
      · -- The first position of the chunk already stops the read.
        obtain ⟨more, some⟩ : ∃ more, chunk = more + 1 := ⟨chunk - 1, by omega⟩
        rw [not_or] at low
        have stops : s.stored v pos = .error (.fs .noSpace) :=
          if_neg (by rw [index pos (by rw [List.mem_range'_1]; omega)]; exact not_or.mpr low)
        rw [getInodeBlock_past placed (by omega), if_neg low.2, some, List.range'_succ, List.mapM_cons, stops]
        rfl

/-! ### Writing -/

theorem Wrote.byteAt {k off : Nat} {bytes : List UInt8} (wrote : Wrote k off bytes s v t w)
    (working : Working s v)
    (room : off + bytes.length ≤ 512) : t.byteAt w = Bytes.overlay (s.byteAt v) (k * 512 + off) bytes := by
  funext p
  obtain ⟨b, held, content⟩ := wrote.content
  by_cases here : p / 512 = k
  · have before : (if v.pointer s.device.data k = 0 then Block.zero else s.device.data b).byte
      (p % 512) = s.byteAt v p := by
      split
      next hole => rw [Block.byte_zero, byteAt_hole (here ▸ hole)]
      next filled =>
        have place : v.holds s.device.data (.data ⟨k, wrote.inside⟩) = some (v.pointer s.device.data k).toNat :=
          Inode.holds_data_some.mpr ⟨filled, rfl⟩
        have same := Option.some.inj (held.symm.trans (wrote.grown.keeps _ _ place))
        rw [byteAt_held here place, same]
    have covered : off ≤ p % 512 ∧ p % 512 < off + bytes.length ↔ k * 512 + off ≤ p ∧
      p < k * 512 + off + bytes.length := by
      omega
    have index : p % 512 - off = p - (k * 512 + off) := by omega
    rw [byteAt_held here held, content, Block.byte_splice _ _ _ room, Bytes.overlay, Bytes.overlay,
      before, index]
    simp only [covered]
  · rw [Bytes.overlay, if_neg (by omega)]
    by_cases inside : p / 512 < 137
    · cases old : v.holds s.device.data (.data ⟨p / 512, inside⟩) with
      | none =>
        have new : w.holds t.device.data (.data ⟨p / 512, inside⟩) = none := by
          rw [Option.eq_none_iff_forall_ne_some]
          intro c filled
          exact here (wrote.grown.within _ c old filled)
        rw [byteAt_hole (Inode.holds_data_none.mp old), byteAt_hole (Inode.holds_data_none.mp new)]
      | some c =>
        have data : t.device.data c = s.device.data c := by
          refine wrote.grown.frame c (working.backed old).2 (fun indirect => ?_) fun j held' touched => ?_
          · cases working.exclusive old indirect
          · cases working.exclusive old held'
            exact here touched
        rw [byteAt_held rfl old, byteAt_held rfl (wrote.grown.keeps _ c old), data]
    · rw [byteAt_past (by omega), byteAt_past (by omega)]

theorem Grown.byteAt_old {touched : Nat → Prop} {u : Volume} (grown : Grown touched s v t w) {p : Nat}
    (same : u.byteAt w p = s.byteAt v p) : u.byteAt v p = s.byteAt v p := by
  -- What a grown inode does not lack is where it was in the record before.
  by_cases lacks : v.Lacks (p / 512)
  · rw [byteAt_hole (lacks.hole _), byteAt_hole (lacks.hole _)]
  · have pointer : w.pointer u.device.data (p / 512) = v.pointer u.device.data (p / 512) := by
      by_cases low : p / 512 < 9
      · rw [Inode.pointer_direct _ _ low, Inode.pointer_direct _ _ low]
        exact grown.kept_direct fun hole => lacks ((Inode.lacks_direct low).mpr hole)
      · have indirect : v.indirect ≠ 0 := fun hole => lacks ((Inode.lacks_indirect low).mpr hole)
        have kept := grown.kept_indirect indirect
        rw [Inode.pointer_entry _ _ low indirect, Inode.pointer_entry _ _ low (kept ▸ indirect), kept]
    rw [← same, Volume.byteAt, Volume.byteAt, pointer]

/-- A write went through: it has put its bytes in place, at the block indices that the code computes
modulo `2 ^ 32`. -/
structure Stored (pos : Nat) (data : List UInt8) (s : Volume) (v : Inode) (t : Volume) (w : Inode) : Prop where
  written : Written pos data.length s v t w
  fits : data ≠ [] → pos % 2 ^ 41 + data.length ≤ 137 * 512
  bytes : t.byteAt w = Bytes.overlay (s.byteAt v) (pos % 2 ^ 41) data

theorem ends_storeChunks (working : Working s v) (pos : Nat) (data : List UInt8) :
    Ends (writeChunks v pos data) s
      (fun w t => (data ≠ [] → pos % 2 ^ 41 + data.length ≤ 137 * 512) ∧
        t.byteAt w = Bytes.overlay (s.byteAt v) (pos % 2 ^ 41) data)
      (fun _ t => ∀ p, p < pos % 2 ^ 41 → t.byteAt v p = s.byteAt v p) := by
  induction size : data.length using Nat.strong_induction_on generalizing s v pos data with
  | _ n ih =>
    subst size
    rw [writeChunks]
    split
    next empty =>
      subst empty
      exact ⟨fun filled => (filled rfl).elim, (Bytes.overlay_nil _ _).symm⟩
    next filled =>
      have nonempty : 0 < data.length := List.length_pos_iff.mpr filled
      have index : pos % 2 ^ 64 / 512 % 2 ^ 32 = pos / 512 % 2 ^ 32 := by omega
      have offset : pos % 2 ^ 64 % 512 = pos % 512 := by omega
      have start : pos / 512 % 2 ^ 32 * 512 + pos % 512 = pos % 2 ^ 41 := by omega
      simp only [blockSize, index, offset]
      obtain ⟨chunk, length⟩ : ∃ chunk, chunk = min data.length (512 - pos % 512) := ⟨_, rfl⟩
      rw [← length, ends_bind]
      have taken : (data.take chunk).length = chunk := by
        rw [List.length_take]
        omega
      refine (ends_writeChunk working _ _ _).imp ?_ ?_
      · intro w t wrote
        have first := wrote.inside
        have bytes := wrote.byteAt working (by omega)
        rw [start] at bytes
        have later : (pos + chunk) % 2 ^ 41 = pos % 2 ^ 41 + chunk := by omega
        refine (ih _ (by rw [List.length_drop]; omega) (wrote.grown.working working) (pos + chunk)
          (data.drop chunk) rfl).imp
          ?_ ?_
        · rintro x u ⟨fits, rest⟩
          constructor
          · intro _
            by_cases more : data.drop chunk = []
            · rw [List.drop_eq_nil_iff] at more
              omega
            · have := fits more
              rw [List.length_drop] at this
              omega
          · have joined := Bytes.overlay_append (s.byteAt v) (pos % 2 ^ 41) (data.take chunk) (data.drop chunk)
            rw [taken, List.take_append_drop] at joined
            rw [rest, later, bytes, joined]
        · intro _ u kept p below
          refine wrote.grown.byteAt_old ?_
          rw [kept p (by omega), bytes, Bytes.overlay, if_neg (by omega)]
      · intro _ t stuck p _
        exact congrFun (byteAt_congr stuck.data) p

theorem ends_storeInodeData (working : Working s v) (now : UInt32) (offset : Nat) (data : List UInt8) :
    Ends (writeInodeData now v offset data) s
      (fun r t => ∃ w, Stored offset data s v t w ∧
        r = (w.extended now (offset + data.length) data.length, data.length))
      (fun fail t => (fail = .fs .notFile ∧ t = s ∧ v.isFile = false ∧ v.isDir = false) ∨
        Stuck (Touches offset data.length) s v fail t ∧ ∀ p, p < offset % 2 ^ 41 →
          t.byteAt v p = s.byteAt v p) := by
  rw [writeInodeData]
  split
  next other =>
    simp only [Bool.and_eq_true, Bool.not_eq_true'] at other
    exact Or.inl ⟨rfl, rfl, other.1, other.2⟩
  next =>
    rw [ends_bind]
    refine ((ends_writeChunks working offset data).and (ends_storeChunks working offset data)).imp ?_
      fun _ _ => Or.inr
    rintro w t ⟨written, fits, bytes⟩
    refine ⟨w, ⟨written, fits, bytes⟩, ?_⟩
    simp only [Inode.extended]
    split <;> split <;> rfl

theorem ends_storeAt (ok : s.layout.Ok) (now : UInt32) {inodeNum : UInt32} (offset : Nat) (data : List UInt8)
    (inside : s.layout.InTable inodeNum.toNat) (file : (s.inode inodeNum.toNat).isFile = true)
    (working : Working s (s.inode inodeNum.toNat)) :
    Ends (writeAt now inodeNum offset data) s
      (fun n t => n = data.length ∧ ∃ u w, Stored offset data s (s.inode inodeNum.toNat) u w ∧
        t = u.setInode inodeNum.toNat (w.extended now (offset + data.length) data.length))
      (fun fail t => Stuck (Touches offset data.length) s (s.inode inodeNum.toNat) fail t ∧
        ∀ p, p < offset % 2 ^ 41 → t.byteAt (s.inode inodeNum.toNat) p = s.byteAt (s.inode inodeNum.toNat)
          p) := by
  rw [writeAt, ends_bind, ends_observe, readInode_ok ok inside]
  dsimp only
  rw [ends_bind]
  refine (ends_storeInodeData working now offset data).imp ?_ ?_
  · rintro pair u ⟨w, stored, rfl⟩
    have layout := stored.written.grown.layout
    dsimp only
    rw [ends_bind, ends_writeInode (layout ▸ ok) (layout ▸ inside), ends_pure]
    exact ⟨rfl, u, w, stored, rfl⟩
  · rintro fail t (⟨_, _, notFile, _⟩ | outcome)
    · rw [file] at notFile
      cases notFile
    · exact outcome

theorem Stored.byteAt {offset : Nat} {data : List UInt8} (stored : Stored offset data s v t w)
    (working : Working s v) {i : Nat}
    (inside : i < s.layout.inodeCount) (now : UInt32) (stop n : Nat) :
    (t.setInode i (w.extended now stop n)).byteAt (w.extended now stop n) =
      Bytes.overlay (s.byteAt v) (offset % 2 ^ 41) data := by
  have grown := stored.written.grown
  rw [byteAt_of_pointers (w := w.extended now stop n) (v := w) rfl rfl,
    byteAt_setInode (grown.working working).placed (grown.layout ▸ inside), stored.bytes]

end

end PickleOS.NextFs
