import PickleOS.NextFs.Operations

set_option autoImplicit false

namespace PickleOS.NextFs

open Shared Shared.Outcome

/-- A file has blocks only at indices its size covers. Truncation to zero keeps block 0. -/
structure Inode.Shaped (v : Inode) (data : Nat → Block) : Prop where
  size : v.size.toNat ≤ 137 * 512
  covers : ∀ k b, v.holds data (.data k) = some b → k.val = 0 ∨ k.val * 512 < v.size.toNat
  reaches : ∀ b, v.holds data .indirect = some b → 9 * 512 < v.size.toNat

theorem Inode.Shaped.congr {v w : Inode} {data data' : Nat → Block} (shaped : v.Shaped data)
    (holds : w.holds data' = v.holds data) (size : w.size = v.size) : w.Shaped data' := by
  refine ⟨size ▸ shaped.size, ?_, ?_⟩
  · intro k b held
    rw [holds] at held
    rw [size]
    exact shaped.covers k b held
  · intro b held
    rw [holds] at held
    rw [size]
    exact shaped.reaches b held

def Volume.inodesInUse (s : Volume) : Nat := Bitmap.count s.inodeBitmap true 0 (8 * s.inodeBitmap.length)

def Volume.Census (s : Volume) : Prop := s.sb.freeInodes.toNat + s.inodesInUse = s.layout.inodeCount

/-- A volume on which bitmaps, counters and inodes account for every block and inode. -/
structure Exact (s : Volume) : Prop where
  synced : Synced s
  covered : s.Covered s.Occupied
  counted : s.Counted
  census : s.Census
  shaped : ∀ i, s.Occupied i → (s.inode i).isFile = true → (s.inode i).Shaped s.device.data

theorem inodeBitmap_setInode (s : Volume) (i : Nat) (v : Inode) :
    (s.setInode i v).inodeBitmap = s.inodeBitmap := rfl

theorem freeInodes_setInode (s : Volume) (i : Nat) (v : Inode) :
    (s.setInode i v).sb.freeInodes = s.sb.freeInodes := rfl

@[simp] theorem counted_setInode (s : Volume) (i : Nat) (v : Inode) : (s.setInode i v).Counted ↔
  s.Counted := Iff.rfl

@[simp] theorem counted_takeInode (s : Volume) (i : Nat) : (s.takeInode i).Counted ↔ s.Counted := by
  rw [Volume.Counted, Volume.layout_takeInode]
  exact Iff.rfl

@[simp] theorem counted_dropInode (s : Volume) (i : Nat) : (s.dropInode i).Counted ↔ s.Counted := by
  rw [Volume.Counted, Volume.layout_dropInode]
  exact Iff.rfl

theorem census_takeInode {s : Volume} (ok : s.layout.Ok) {i : Nat} (next : s.nextInode = some i)
    (census : s.Census) :
    (s.takeInode i).Census := by
  obtain ⟨_, inside, unmarked, available⟩ := Volume.nextInode_some ok next
  have bound : i / 8 < s.inodeBitmap.length := ok.inode_bit inside
  have positive : s.sb.freeInodes.toNat ≠ 0 := fun zero => available (UInt32.toNat_inj.mp zero)
  have clear : Bitmap.test s.inodeBitmap i ≠ true := by simpa [Volume.marked] using unmarked
  have taken := @Bitmap.count_put s.inodeBitmap true 0 (8 * s.inodeBitmap.length) i (Nat.zero_le i)
    (by omega) bound clear
  rw [Volume.Census, Volume.layout_takeInode, Volume.inodesInUse]
  simp only [Volume.Census, Volume.inodesInUse] at census
  simp only [Volume.takeInode, Bitmap.put_length, taken]
  rw [UInt32.toNat_sub_of_le _ _ (by rw [UInt32.le_iff_toNat_le]; exact Nat.one_le_iff_ne_zero.mpr positive)]
  have one : (1 : UInt32).toNat = 1 := rfl
  omega

theorem census_dropInode {s : Volume} (ok : s.layout.Ok) {i : Nat} (inside : i < s.layout.inodeCount)
    (marked : s.marked i = true) (census : s.Census) : (s.dropInode i).Census := by
  have bound : i / 8 < s.inodeBitmap.length := ok.inode_bit inside
  have dropped := @Bitmap.count_put_not s.inodeBitmap true 0 (8 * s.inodeBitmap.length) i (Nat.zero_le i)
    (by omega) bound marked
  have small := s.layout.inodeCount_lt
  rw [Volume.Census, Volume.layout_dropInode, Volume.inodesInUse]
  simp only [Volume.Census, Volume.inodesInUse] at census
  simp only [Volume.dropInode, Bitmap.put_length]
  rw [Bool.not_true] at dropped
  rw [UInt32.toNat_add]
  have one : (1 : UInt32).toNat = 1 := rfl
  rw [one, Nat.mod_eq_of_lt (by omega)]
  omega

namespace Exact

variable {s t u : Volume} {i : Nat} {touched : Nat → Prop} {w x : Inode}

theorem owned (exact : Exact s) : s.Owned s.Occupied := exact.synced.owned

theorem ok (exact : Exact s) : s.layout.Ok := exact.synced.layout

theorem census_same (exact : Exact s) (layout : t.layout = s.layout) (bitmap : t.inodeBitmap = s.inodeBitmap)
    (free : t.sb.freeInodes = s.sb.freeInodes) : t.Census := by
  have census := exact.census
  simp only [Volume.Census, Volume.inodesInUse, layout, bitmap, free] at census ⊢
  exact census

theorem shaped_other (exact : Exact s) (apart : Apart s.Occupied i s t) {j : Nat} (different : j ≠ i)
    (occupied : s.Occupied j) (file : (t.inode j).isFile = true) : (t.inode j).Shaped t.device.data := by
  have same := apart.inode j different occupied
  refine (exact.shaped j occupied (same ▸ file)).congr (apart.holds different occupied) ?_
  rw [same]

theorem patch {k : Fin 137} {b : Nat} (exact : Exact s) (here : s.Occupied i) (dir : (s.inode i).isDir = true)
    (held : (s.inode i).holds s.device.data (.data k) = some b) (block : Block) :
      Exact (s.setBlock b block) := by
  have grown := Grown.write (exact.owned.working here) held block
  have synced := exact.synced.grown here grown
  have occupied : (s.setBlock b block).Occupied = s.Occupied :=
    occupied_congr grown.layout fun j inside => by rw [grown.inode exact.ok inside.2]
  refine ⟨synced, ?_, grown.counted exact.counted,
    exact.census_same grown.layout grown.inodes grown.freeInodes, ?_⟩
  · rw [occupied]
    exact (Volume.Covered.grown_iff exact.owned exact.covered here grown).mpr rfl
  · intro j busy file
    rw [occupied] at busy
    by_cases same : j = i
    · subst same
      rw [grown.inode exact.ok here.1.2] at file
      simp only [Inode.isDir, Inode.isFile, decide_eq_true_eq] at dir file
      simp [dir] at file
    · exact exact.shaped_other (exact.owned.apart here grown) same busy file

theorem store (exact : Exact s) (here : s.Occupied i) (grown : Grown touched s (s.inode i) u w)
    (direct : x.direct = w.direct) (indirect : x.indirect = w.indirect)
    (type : x.inodeType = (s.inode i).inodeType)
    (shape : (s.inode i).isFile = true → x.Shaped u.device.data) : Exact (u.setInode i x) := by
  have synced := exact.synced.store here grown direct indirect type
  have layout : (u.setInode i x).layout = s.layout := grown.layout
  have occupied : (u.setInode i x).Occupied = s.Occupied := by
    refine occupied_congr layout fun j inside => ?_
    rw [Volume.inode_setInode]
    split
    next same => rw [type, same]
    next => rw [grown.inode exact.ok inside.2]
  refine ⟨synced, ?_, ?_, exact.census_same layout grown.inodes grown.freeInodes, ?_⟩
  · rw [occupied]
    exact covered_store exact.owned here grown direct indirect exact.covered
  · exact grown.counted exact.counted
  · intro j busy file
    rw [occupied] at busy
    by_cases same : j = i
    · subst same
      have record : (u.setInode j x).inode j = x := by rw [Volume.inode_setInode, if_pos rfl]
      have holds := holds_store exact.owned here grown direct indirect
      rw [record] at file holds ⊢
      have wasFile : (s.inode j).isFile = true := by
        rw [Inode.isFile, ← type]
        exact file
      refine (shape wasFile).congr ?_ rfl
      rw [holds]
      exact (Inode.holds_of_pointers direct indirect _).symm
    · exact exact.shaped_other (apart_store exact.owned here grown x) same busy file

theorem shaped_empty {v : Inode} (direct : ∀ k, v.direct k = 0) (indirect : v.indirect = 0) (size : v.size = 0)
    (data : Nat → Block) : v.Shaped data := by
  have none := Inode.holds_of_empty direct indirect data
  exact ⟨by simp [size], fun k b held => by simp [none] at held, fun b held => by simp [none] at held⟩

theorem stageFile (exact : Exact s) (next : s.nextInode = some i) (now : UInt32) :
    Exact (s.stageFile now i) := by
  have synced := exact.synced.stageFile next now
  have occupied := occupied_stageFile exact.ok next now
  have free := exact.synced.next_free next
  refine ⟨synced, ?_, ?_, ?_, ?_⟩
  · rw [occupied]
    exact covered_stageFile exact.owned next exact.covered now fun busy => (free busy).elim
  · simpa [Volume.stageFile] using exact.counted
  · exact census_takeInode exact.ok next exact.census
  · intro j busy file
    by_cases same : j = i
    · rw [Volume.stageFile, Volume.inode_setInode, if_pos same]
      exact shaped_empty (fun _ => rfl) rfl rfl _
    · rw [occupied] at busy
      have before := busy.resolve_left same
      have record : (s.stageFile now i).inode j = s.inode j := by
        rw [Volume.stageFile, Volume.inode_setInode, if_neg same, Volume.inode_takeInode]
      rw [record] at file ⊢
      refine (exact.shaped j before file).congr (Inode.holds_congr _ fun b held => ?_) rfl
      have data := (exact.owned.sound.backed before held).1.1
      have inside := (Volume.nextInode_some exact.ok next).2.1
      rw [Volume.stageFile, Volume.data_setInode (by simpa using exact.ok) (by simpa using data)
        (by simpa using inside)]
      rfl

theorem stageDir {b : Nat} (exact : Exact s) (next : s.nextInode = some i) (found : s.nextFree = some b)
    (now parent : UInt32) : Exact (s.stageDir now i b parent) := by
  have synced := exact.synced.stageDir next found now parent
  have occupied := occupied_stageDir exact.ok next found now parent
  have free := exact.synced.next_free next
  have apart := apart_stageDir exact.owned next found now parent
  refine ⟨synced, ?_, ?_, ?_, ?_⟩
  · rw [occupied]
    exact covered_stageDir exact.owned next exact.covered found now parent fun busy => (free busy).elim
  · -- The block is counted as if the bare inode of a directory had taken it.
    have bare : Working (s.takeInode i) Inode.newDir := by
      have empty := Inode.holds_of_empty (v := Inode.newDir) (fun _ => rfl) rfl
      exact ⟨by simpa using exact.ok, fun held => by simp [empty] at held, fun held => by simp [empty] at held⟩
    have nextBlock : (s.takeInode i).nextFree = some b := by
      rw [← found]
      simp only [Volume.nextFree, Volume.layout_takeInode]
      rfl
    have value := target_nextFree exact.ok found
    have grown : Grown (fun _ => True) (s.takeInode i) Inode.newDir ((s.takeInode i).takeBlock b)
        { Inode.newDir with direct := Function.update Inode.newDir.direct ⟨0, by decide⟩ (UInt32.ofNat b) } :=
      Grown.take bare nextBlock (p := .data ⟨0, by decide⟩) (Inode.holds_of_empty (fun _ => rfl) rfl _ _)
        rfl rfl rfl
        (Inode.holds_direct _ _ (by decide) _ value) (fun _ _ _ => rfl) (fun _ _ => trivial) (by simp)
    exact grown.counted ((counted_takeInode s i).mpr exact.counted)
  · have census := census_takeInode exact.ok next exact.census
    simp only [Volume.Census, Volume.inodesInUse, Volume.stageDir, Volume.layout_setInode,
      Volume.layout_setBlock,
      Volume.layout_takeBlock] at census ⊢
    exact census
  · intro j busy file
    have inside := busy.1
    rw [layout_stageDir] at inside
    by_cases same : j = i
    · rw [inode_stageDir exact.ok found now parent inside.2, if_pos same] at file
      simp [Volume.newDirInode, Inode.newDir, Inode.isFile] at file
    · rw [occupied] at busy
      exact exact.shaped_other apart same (busy.resolve_left same) file

theorem erase (exact : Exact s) (here : s.Occupied i) : Exact (s.erase i) := by
  have synced := exact.synced.erase here
  have occupied := exact.synced.occupied_erase here
  have apart := apart_erase exact.owned here
  have working := exact.owned.working here
  have marked : s.marked i = true := (exact.synced.marked i).mpr here
  refine ⟨synced, ?_, ?_, ?_, ?_⟩
  · rw [occupied]
    exact covered_erase exact.owned here exact.covered
  · have released := Volume.counted_release exact.ok
      (Inode.nodup_blocks fun p q b first second => working.exclusive first second) (fun b member => by
        obtain ⟨p, held⟩ := Inode.mem_blocks.mp member
        exact working.backed held) exact.counted
    rwa [Volume.erase, counted_dropInode, counted_setInode]
  · have released : ((s.release ((s.inode i).blocks s.device.data)).setInode i
        { (s.inode i).clear 0 9 with indirect := 0, inodeType := 0, size := 0 }).Census :=
      exact.census_same (by simp) (by rw [inodeBitmap_setInode, Volume.inodeBitmap_release])
        (by rw [freeInodes_setInode, Volume.freeInodes_release])
    rw [Volume.erase]
    refine census_dropInode (by simpa using exact.ok) (by simpa using here.1.2) ?_ released
    rw [Volume.marked_setInode, Volume.marked, Volume.inodeBitmap_release]
    exact marked
  · intro j busy file
    rw [occupied] at busy
    exact exact.shaped_other apart busy.1 busy.2 file

theorem freedBy_zero {v : Inode} (data : Nat → Block) (positive : 0 < v.size.toNat) :
    v.freedBy data 0 =
      targets (v.pointer data) 1 (min 9 ((lastBlock v.size.toNat + 1) % 2 ^ 32) - 1) ++
        if v.indirect = 0 then []
        else targets (v.pointer data) 9 (min 128
          (((lastBlock v.size.toNat + 2 ^ 32 - 9) % 2 ^ 32 + 1) % 2 ^ 32)) ++
          [v.indirect.toNat] := by
  rw [Inode.freedBy, if_neg (by omega)]
  rfl

theorem nodup_freedBy {v : Inode} {data : Nat → Block}
    (exclusive : ∀ p q b, v.holds data p = some b → v.holds data q = some b → p = q) :
      (v.freedBy data 0).Nodup := by
  by_cases positive : 0 < v.size.toNat
  · rw [freedBy_zero data positive]
    split
    · rw [List.append_nil]
      refine nodup_targets fun a c b _ highA _ highC left right => ?_
      have same := exclusive (.data ⟨a, by omega⟩) (.data ⟨c, by omega⟩) b left right
      simpa using same
    next indirect => exact Inode.nodup_ranges exclusive (by omega) (by omega) indirect
  · rw [Inode.freedBy, if_pos (by omega)]
    exact List.nodup_nil

theorem cut_first {v : Inode} {data : Nat → Block} :
    (v.cut 0).holds data (.data 0) = v.holds data (.data 0) := by
  -- Truncation to zero keeps block 0.
  classical
  by_cases positive : 0 < v.size.toNat
  · have kept : ¬v.Cleared 0 (0 : Fin 137).val := by
      rintro ⟨low, _⟩
      simp [lastBlock] at low
    rw [Inode.holds, Inode.holds, Inode.pointer_cut positive, if_neg kept]
  · rw [Inode.holds_longer (by omega)]

theorem freed_or_first {v : Inode} {data : Nat → Block} (shaped : v.Shaped data) {p : Place} {b : Nat}
    (held : v.holds data p = some b) : b ∈ v.freedBy data 0 ∨ p = .data 0 := by
  -- Truncation to zero forgets no block of a file: it is freed, or it is block 0.
  have small := shaped.size
  have last : lastBlock v.size.toNat = (v.size.toNat - 1) / 512 := by
    unfold lastBlock
    split
    next empty => simp [empty]
    next =>
      simp only [blockSize]
      omega
  cases p with
  | data k =>
    by_cases first : k.val = 0
    · exact Or.inr (by rw [show k = 0 from Fin.ext first])
    · have inside := (shaped.covers k b held).resolve_left first
      left
      rw [freedBy_zero data (by omega)]
      by_cases low : k.val < 9
      · exact List.mem_append_left _ (mem_targets.mpr ⟨k, by omega, by omega, held⟩)
      · have indirect : v.indirect ≠ 0 := by
          intro hole
          simp [Inode.holds, Inode.pointer_hole _ _ low hole] at held
        rw [if_neg indirect]
        exact List.mem_append_right _ (List.mem_append_left _ (mem_targets.mpr ⟨k, by omega, by omega, held⟩))
  | indirect =>
    have reach := shaped.reaches b held
    obtain ⟨indirect, number⟩ := target_eq_some.mp held
    left
    rw [freedBy_zero data (by omega), if_neg indirect]
    exact List.mem_append_right _ (List.mem_append_right _ (List.mem_singleton.mpr number.symm))

theorem shaped_cut {v : Inode} {data : Nat → Block}
    (exclusive : ∀ p q b, v.holds data p = some b → v.holds data q = some b → p = q) (shaped : v.Shaped data) :
    (v.cut 0).Shaped data := by
  have first : ∀ {p b}, (v.cut 0).holds data p = some b → p = .data 0 := by
    intro p b held
    have gone := Inode.cut_gone exclusive (clean_zero v data) held
    exact (freed_or_first shaped (Inode.holds_of_cut held)).resolve_left gone
  have size : (v.cut 0).size = 0 := by
    rw [Inode.cut]
    split <;> rfl
  refine ⟨by simp [size], ?_, ?_⟩
  · intro k b held
    cases first held
    exact Or.inl rfl
  · intro b held
    cases first held

theorem cut (exact : Exact s) (here : s.Occupied i) (file : (s.inode i).isFile = true) :
    Exact (s.emptied i) := by
  -- A file is truncated to zero.
  have working := exact.owned.working here
  have exclusive : ∀ p q b, (s.inode i).holds s.device.data p = some b →
      (s.inode i).holds s.device.data q = some b → p = q := fun p q b => working.exclusive
  have shaped := exact.shaped i here file
  have own : ∀ b ∈ (s.inode i).freedBy s.device.data 0, ∃ p, (s.inode i).holds s.device.data p = some b :=
    fun b => Inode.freedBy_own
  have total : ∀ b ∈ (s.inode i).freedBy s.device.data 0, b < s.layout.total := by
    intro b freed
    obtain ⟨p, held⟩ := own b freed
    exact (working.backed held).1.2
  have apart := exact.synced.apart_emptied here
  have holds := exact.synced.holds_emptied here
  have occupied := exact.synced.occupied_emptied here
  refine ⟨exact.synced.emptied here, ?_, ?_, ?_, ?_⟩
  · rw [occupied]
    refine Volume.Covered.change exact.covered apart (fun _ _ => Iff.rfl) ?_
    intro b _ used
    rw [Volume.emptied, Volume.used_setInode, Volume.used_release exact.ok total] at used
    by_cases mine : ∃ p, (s.inode i).holds s.device.data p = some b
    · obtain ⟨p, held⟩ := mine
      have first := (freed_or_first shaped held).resolve_left used.2
      refine Or.inr ⟨p, here, ?_⟩
      rw [holds, first, cut_first, ← first]
      exact held
    · exact Or.inl ⟨used.1, fun _ p held => mine ⟨p, held⟩⟩
  · rw [Volume.emptied, counted_setInode]
    refine Volume.counted_release exact.ok (nodup_freedBy exclusive) ?_ exact.counted
    intro b freed
    obtain ⟨p, held⟩ := own b freed
    exact working.backed held
  · refine exact.census_same apart.layout ?_ ?_
    · rw [Volume.emptied, inodeBitmap_setInode, Volume.inodeBitmap_release]
    · rw [Volume.emptied, freeInodes_setInode, Volume.freeInodes_release]
  · intro j busy isFile
    rw [occupied] at busy
    by_cases same : j = i
    · subst same
      have record : (s.emptied j).inode j = (s.inode j).cut 0 := by rw [Volume.inode_emptied, if_pos rfl]
      rw [record] at holds ⊢
      exact (shaped_cut exclusive shaped).congr holds rfl
    · exact exact.shaped_other apart same busy isFile

theorem kept : Kept Exact where
  synced := synced
  patch exact here dir held block := exact.patch here dir held block
  append exact here dir grown direct indirect type := by
    refine exact.store here grown direct indirect type fun file => ?_
    simp only [Inode.isDir, Inode.isFile, decide_eq_true_eq] at dir file
    simp [dir] at file
  stageFile exact next now := exact.stageFile next now
  stageDir exact next found now parent := exact.stageDir next found now parent
  erase exact here := exact.erase here

theorem size_extended {v : Inode} (now : UInt32) {stop n : Nat} (small : stop < 2 ^ 64) :
    (v.extended now stop n).size.toNat = max v.size.toNat stop := by
  simp only [Inode.extended, Nat.mod_eq_of_lt small]
  split
  · rw [UInt64.toNat_ofNat_of_lt' small]
    omega
  · omega

theorem shaped_extended {v : Inode} {now : UInt32} {offset n : Nat} (shaped : v.Shaped s.device.data)
    (written : Written offset n s v t w) (bound : offset + n ≤ 137 * 512) :
    (w.extended now (offset + n) n).Shaped t.device.data := by
  -- A file that has grown by a write within the range of its block pointers.
  have size : (w.extended now (offset + n) n).size.toNat = max v.size.toNat (offset + n) := by
    rw [size_extended now (by omega), written.grown.rest]
  have holds : (w.extended now (offset + n) n).holds t.device.data = w.holds t.device.data :=
    Inode.holds_of_pointers rfl rfl _
  have position : offset / 512 % 2 ^ 32 = offset / 512 := Nat.mod_eq_of_lt (by omega)
  refine ⟨?_, ?_, ?_⟩
  · rw [size]
    have := shaped.size
    omega
  · intro k b held
    rw [holds] at held
    rw [size]
    cases old : v.holds s.device.data (.data k) with
    | some c =>
      have := shaped.covers k c old
      omega
    | none =>
      obtain ⟨_, _, high⟩ := written.grown.within k b old held
      rw [position] at high
      omega
  · intro b held
    rw [holds] at held
    rw [size]
    cases old : v.holds s.device.data .indirect with
    | some c =>
      have := shaped.reaches c old
      omega
    | none =>
      obtain ⟨k, ⟨_, _, high⟩, far, _⟩ := written.grown.through b old held
      rw [position, Nat.div_add_mod'] at high
      have reach : 9 * 512 < offset + n := (Nat.mul_le_mul_right 512 far).trans_lt high
      exact reach.trans_le (Nat.le_max_right _ _)

theorem writeAt {now inodeNum : UInt32} {offset n : Nat} {data : List UInt8} (exact : Exact s)
    (file : (s.inode inodeNum.toNat).isFile = true) (bound : offset + data.length ≤ 137 * 512)
    (done : NextFs.writeAt now inodeNum offset data s = .ok n t) : Exact t := by
  obtain ⟨inside, _, _, u, w, written, rfl⟩ := (ends_writeAt exact.ok now inodeNum offset data fun inside _ =>
    exact.owned.working (Synced.fileOccupied inside file)).of_ok done
  have here := Synced.fileOccupied inside file
  refine exact.store here written.grown rfl rfl ?_ fun _ =>
    shaped_extended (exact.shaped _ here file) written bound
  simp only [Inode.extended]
  rw [written.grown.rest]

theorem length_written {n : Nat} {v : Inode} (written : Written 0 n s v t w) : 0 + n ≤ 137 * 512 := by
  -- A write that went through from position 0 fits into the block pointers.
  by_contra long
  have touched : Touches 0 n 137 := ⟨by omega, by omega, by omega⟩
  have := written.inside 137 touched
  omega

theorem writeFile {now inodeNum : UInt32} {data : List UInt8} (exact : Exact s)
    (done : NextFs.writeFile now inodeNum data s = .ok () t) : Exact t := by
  obtain ⟨here, file, u, w, written, rfl⟩ := exact.synced.writeFile_ok done
  have cut := exact.cut here file
  have record : (s.emptied inodeNum.toNat).inode inodeNum.toNat = (s.inode inodeNum.toNat).cut 0 := by
    rw [Volume.inode_emptied, if_pos rfl]
  have busy : (s.emptied inodeNum.toNat).Occupied inodeNum.toNat := by rwa [exact.synced.occupied_emptied here]
  have shape := cut.shaped _ busy (by rw [record, Inode.isFile, Inode.inodeType_cut]; exact file)
  refine cut.store busy written.grown rfl rfl ?_ fun _ => shaped_extended shape written (length_written written)
  simp only [Inode.extended]
  rw [written.grown.rest]

end Exact

end PickleOS.NextFs
