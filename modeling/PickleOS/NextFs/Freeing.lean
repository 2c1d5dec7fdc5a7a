import PickleOS.NextFs.Writing

set_option autoImplicit false

namespace PickleOS.NextFs

open Shared Shared.Outcome

namespace Volume

def release (s : Volume) (bs : List Nat) : Volume := bs.foldl dropBlock s

@[simp] theorem release_nil (s : Volume) : s.release [] = s := rfl

@[simp] theorem release_cons (s : Volume) (b : Nat) (bs : List Nat) :
    s.release (b :: bs) = (s.dropBlock b).release bs := rfl

theorem release_append (s : Volume) (bs cs : List Nat) : s.release (bs ++ cs) = (s.release bs).release cs :=
  List.foldl_append

@[simp] theorem layout_release (s : Volume) (bs : List Nat) : (s.release bs).layout = s.layout := by
  induction bs generalizing s with
  | nil => rfl
  | cons b bs ih => rw [release_cons, ih, layout_dropBlock]

@[simp] theorem device_release (s : Volume) (bs : List Nat) : (s.release bs).device = s.device := by
  induction bs generalizing s with
  | nil => rfl
  | cons b bs ih => rw [release_cons, ih, device_dropBlock]

@[simp] theorem inode_release (s : Volume) (bs : List Nat) : (s.release bs).inode = s.inode := by
  funext i
  simp [inode]

@[simp] theorem inodeBitmap_release (s : Volume) (bs : List Nat) :
  (s.release bs).inodeBitmap = s.inodeBitmap := by
  induction bs generalizing s with
  | nil => rfl
  | cons b bs ih => exact (ih (s.dropBlock b)).trans rfl

@[simp] theorem freeInodes_release (s : Volume) (bs : List Nat) :
    (s.release bs).sb.freeInodes = s.sb.freeInodes := by
  induction bs generalizing s with
  | nil => rfl
  | cons b bs ih => exact (ih (s.dropBlock b)).trans rfl

theorem used_release {s : Volume} (ok : s.layout.Ok)
    {bs : List Nat} (inside : ∀ b ∈ bs, b < s.layout.total) (c : Nat) :
    (s.release bs).used c = true ↔ s.used c = true ∧ c ∉ bs := by
  induction bs generalizing s with
  | nil => simp
  | cons b bs ih =>
    have tail : ∀ c ∈ bs, c < (s.dropBlock b).layout.total := fun c member => by
      simpa using inside c (List.mem_cons_of_mem b member)
    rw [release_cons, ih (by simpa using ok) tail, used_dropBlock ok (inside b List.mem_cons_self)]
    split
    next same => simp [same]
    next different => simp [different]

theorem counted_release {s : Volume} (ok : s.layout.Ok) {bs : List Nat} (distinct : bs.Nodup)
    (inside : ∀ b ∈ bs, s.layout.InData b ∧ s.used b = true) (counted : s.Counted) :
      (s.release bs).Counted := by
  -- Every block freed once keeps the counter in step.
  induction bs generalizing s with
  | nil => exact counted
  | cons b bs ih =>
    obtain ⟨fresh, distinct⟩ := List.nodup_cons.mp distinct
    obtain ⟨data, used⟩ := inside b List.mem_cons_self
    have bound : b / 8 < s.blockBitmap.length := ok.inData_bit data.2
    have window : b < s.layout.dataStart + (s.layout.total - s.layout.dataStart) := by
      have := data.1
      have := data.2
      omega
    have taken : Bitmap.test s.blockBitmap b ≠ true := by simpa [Volume.used] using used
    have freed := Bitmap.count_put data.1 window bound taken
    have small : Bitmap.count (Bitmap.put s.blockBitmap b true) true s.layout.dataStart
        (s.layout.total - s.layout.dataStart) < 2 ^ 32 := by
      have length := List.countP_le_length (p :=
        fun k => Bitmap.test (Bitmap.put s.blockBitmap b true) k == true)
        (l := List.range' s.layout.dataStart (s.layout.total - s.layout.dataStart))
      rw [List.length_range'] at length
      have := s.layout.total_lt
      unfold Bitmap.count
      omega
    rw [release_cons]
    apply ih (by simpa using ok) distinct
    · intro c member
      obtain ⟨data', used'⟩ := inside c (List.mem_cons_of_mem b member)
      have different : c ≠ b := by
        rintro rfl
        exact fresh member
      rw [layout_dropBlock, used_dropBlock ok data.2, if_neg different]
      exact ⟨data', used'⟩
    · rw [Counted, layout_dropBlock]
      simp only [Counted] at counted
      simp only [dropBlock]
      rw [UInt32.toNat_add, counted]
      have one : (1 : UInt32).toNat = 1 := rfl
      rw [one, freed, Nat.mod_eq_of_lt (freed ▸ small)]

end Volume

/-- Targets of the pointers at indices `i, .., i + n - 1`. -/
def targets (pointer : Nat → UInt32) (i n : Nat) : List Nat :=
  (List.range' i n).filterMap fun k => target (pointer k)

theorem mem_targets {pointer : Nat → UInt32} {i n b : Nat} :
    b ∈ targets pointer i n ↔ ∃ k, i ≤ k ∧ k < i + n ∧ target (pointer k) = some b := by
  simp only [targets, List.mem_filterMap, List.mem_range'_1, and_assoc]

theorem targets_succ (pointer : Nat → UInt32) (i n : Nat) :
    targets pointer i (n + 1) = (target (pointer i)).toList ++ targets pointer (i + 1) n := by
  rw [targets, List.range'_succ, List.filterMap_cons]
  cases target (pointer i) <;> rfl

theorem targets_congr {pointer pointer' : Nat → UInt32} {i n : Nat}
    (same : ∀ k, i ≤ k → k < i + n → pointer k = pointer' k) : targets pointer i n = targets pointer' i n := by
  apply List.filterMap_congr
  intro k member
  rw [List.mem_range'_1] at member
  rw [same k member.1 member.2]

theorem nodup_targets {pointer : Nat → UInt32} {i n : Nat}
    (distinct : ∀ j k b, i ≤ j → j < i + n → i ≤ k → k < i + n →
      target (pointer j) = some b → target (pointer k) = some b → j = k) : (targets pointer i n).Nodup := by
  induction n generalizing i with
  | zero => simp [targets]
  | succ n ih =>
    rw [targets_succ, List.nodup_append]
    refine ⟨?_, ih fun j k b lowJ highJ lowK highK =>
      distinct j k b (by omega) (by omega) (by omega) (by omega), ?_⟩
    · cases target (pointer i) <;> simp
    · intro b first c second same
      rw [Option.mem_toList] at first
      obtain ⟨k, low, high, found⟩ := mem_targets.mp second
      have := distinct i k b (by omega) (by omega) (by omega) (by omega) first (same ▸ found)
      omega

/-- The direct pointers at indices `i, .., i + n - 1` set to 0. -/
def Inode.clear (v : Inode) (i n : Nat) : Inode :=
  { v with direct := fun k => if i ≤ k.val ∧ k.val < i + n then 0 else v.direct k }

theorem Inode.clear_none (v : Inode) (i : Nat) : v.clear i 0 = v := by
  have same : ∀ k : Fin 9, ¬(i ≤ k.val ∧ k.val < i + 0) := fun k => by omega
  simp only [clear, if_neg (same _)]

section Clear

variable {v : Inode} {i n : Nat} (index : i < 9)

theorem Inode.clear_hole (hole : v.direct ⟨i, index⟩ = 0) : v.clear i (n + 1) = v.clear (i + 1) n := by
  simp only [clear, mk.injEq, true_and, and_true]
  funext k
  by_cases same : k = ⟨i, index⟩
  · simp [same, hole]
  · have different : k.val ≠ i := fun h => same (Fin.ext h)
    have range : (i ≤ k.val ∧ k.val < i + (n + 1)) ↔ i + 1 ≤ k.val ∧ k.val < i + 1 + n := by omega
    simp only [range]

theorem Inode.clear_freed :
    ({ v with direct := Function.update v.direct ⟨i, index⟩ 0 } : Inode).clear (i + 1)
    n = v.clear i (n + 1) := by
  simp only [clear, mk.injEq, true_and, and_true]
  funext k
  by_cases same : k = ⟨i, index⟩
  · simp [same]
  · have different : k.val ≠ i := fun h => same (Fin.ext h)
    have range : (i ≤ k.val ∧ k.val < i + (n + 1)) ↔ i + 1 ≤ k.val ∧ k.val < i + 1 + n := by omega
    simp only [range, Function.update_of_ne same]

end Clear

section

variable {s : Volume} (ok : s.layout.Ok)

include ok

theorem ends_freePointers {buf : Block} {i n : Nat}
    (inside : ∀ k b, i ≤ k → k < i + n → target (buf.pointer k) = some b → b < s.layout.total)
    (returns : Unit → Volume → Prop) (fails : Fail → Volume → Prop) (room : n = 0 ∨ i + n ≤ 128) :
    Ends (freePointers buf i n) s returns fails ↔ returns () (s.release (targets buf.pointer i n)) := by
  induction n generalizing i s with
  | zero => rfl
  | succ n ih =>
    have index : i < ptrsPerBlock := by
      simp only [ptrsPerBlock]
      omega
    rw [freePointers, if_pos index, targets_succ]
    by_cases hole : buf.pointer i = 0
    · rw [if_neg (not_not_intro hole), hole]
      dsimp only
      rw [ih ok (fun k b low high => inside k b (by omega) (by omega)) (by omega)]
      rfl
    · have here : target (buf.pointer i) = some (buf.pointer i).toNat := target_eq_some.mpr ⟨hole, rfl⟩
      have bound := inside i _ (le_refl i) (by omega) here
      rw [if_pos hole, here, ends_bind, ends_freeBlock ok bound,
        ih (by simpa using ok) (fun k b low high => by simpa using inside k b (by omega) (by omega)) (by omega)]
      rfl

theorem freePointers_past {buf : Block} {i n : Nat}
    (inside : ∀ k b, k < 128 → target (buf.pointer k) = some b → b < s.layout.total)
    (positive : 0 < n) (past : 128 < i + n) (returns : Unit → Volume → Prop) :
    Ends (freePointers buf i n) s returns (fun fail _ => fail = .panic) := by
  induction n generalizing i s with
  | zero => omega
  | succ n ih =>
    rw [freePointers]
    split
    next index =>
      simp only [ptrsPerBlock] at index
      by_cases hole : buf.pointer i = 0
      · rw [if_neg (not_not_intro hole)]
        exact ih ok inside (by omega) (by omega)
      · have here : target (buf.pointer i) = some (buf.pointer i).toNat := target_eq_some.mpr ⟨hole, rfl⟩
        rw [if_pos hole, ends_bind, ends_freeBlock ok (inside i _ index here)]
        exact ih (by simpa using ok) (by simpa using inside) (by omega) (by omega)
    next => rfl

theorem ends_freeDirects {v : Inode} {i n : Nat} (data : Nat → Block)
    (inside : ∀ k b, i ≤ k → k < i + n → target (v.pointer data k) = some b → b < s.layout.total)
    (room : n = 0 ∨ i + n ≤ 9) (returns : Inode → Volume → Prop) (fails : Fail → Volume → Prop) :
    Ends (freeDirects v i n) s returns fails ↔
      returns (v.clear i n) (s.release (targets (v.pointer data) i n)) := by
  induction n generalizing i s v with
  | zero =>
    rw [Inode.clear_none]
    rfl
  | succ n ih =>
    have index : i < directPtrs := by
      simp only [directPtrs]
      omega
    have value := v.pointer_direct data index
    rw [freeDirects, dif_pos index, targets_succ, value]
    by_cases hole : v.direct ⟨i, index⟩ = 0
    · rw [if_neg (not_not_intro hole), hole,
        ih ok (fun k b low high => inside k b (by omega) (by omega)) (by omega), Inode.clear_hole index hole]
      rfl
    · have here : target (v.pointer data i) = some (v.direct ⟨i, index⟩).toNat := by
        rw [value, target_eq_some]
        exact ⟨hole, rfl⟩
      have bound := inside i _ (le_refl i) (by omega) here
      have others : ∀ k, i + 1 ≤ k → k < i + 1 + n →
          ({ v with direct := Function.update v.direct ⟨i, index⟩ 0 } : Inode).pointer
            data k = v.pointer data k := by
        intro k low high
        have below : k < 9 := by omega
        rw [Inode.pointer_direct _ _ below, Inode.pointer_direct _ _ below]
        exact Function.update_of_ne (by simp; omega) _ _
      rw [← value] at here
      rw [if_pos hole, ← value, here, ends_bind, ends_freeBlock ok (value ▸ bound),
        ih (by simpa using ok) _ (by omega), Inode.clear_freed index, targets_congr others, value]
      · rfl
      · intro k b low high found
        rw [others k low high] at found
        simpa using inside k b (by omega) (by omega) found

end

theorem targets_shift {pointer pointer' : Nat → UInt32} (d : Nat) {i n : Nat}
    (same : ∀ k, i ≤ k → pointer k = pointer' (k + d)) : targets pointer i n = targets pointer' (i + d) n := by
  induction n generalizing i with
  | zero => rfl
  | succ n ih =>
    rw [targets_succ, targets_succ, same i le_rfl, ih fun k low => same k (by omega)]
    congr 2
    omega

namespace Inode

variable {v : Inode} {data : Nat → Block}

theorem targets_entries (indirect : v.indirect ≠ 0) (i n : Nat) :
    targets (data v.indirect.toNat).pointer i n = targets (v.pointer data) (i + 9) n := by
  -- The entries of the indirect block are the pointers of the indices from 9 on.
  apply targets_shift 9
  intro k _
  rw [v.pointer_entry data (show ¬k + 9 < 9 by omega) indirect, Nat.add_sub_cancel]

/-- Blocks that `truncate` to `newSize` marks free. -/
def freedBy (v : Inode) (data : Nat → Block) (newSize : Nat) : List Nat :=
  if v.size.toNat ≤ newSize then []
  else
    let oldLast := lastBlock v.size.toNat
    let newLast := lastBlock newSize
    let first := (newLast + 1) % 2 ^ 32
    targets (v.pointer data) first (min 9 ((oldLast + 1) % 2 ^ 32) - first) ++
      if v.indirect = 0 then []
      else if newLast < 9 then
        targets (v.pointer data) 9 (min 128 (((oldLast + 2 ^ 32 - 9) % 2 ^ 32 + 1) % 2 ^ 32)) ++
          [v.indirect.toNat]
      else targets (v.pointer data) (newLast + 1) (oldLast - newLast)

/-- The in-memory inode after `truncate` to `newSize`. -/
def cut (v : Inode) (newSize : Nat) : Inode :=
  if v.size.toNat ≤ newSize then { v with size := UInt64.ofNat newSize }
  else
    let first := (lastBlock newSize + 1) % 2 ^ 32
    { v.clear first (min 9 ((lastBlock v.size.toNat + 1) % 2 ^ 32) - first) with
      size := UInt64.ofNat newSize
      indirect := if lastBlock newSize < 9 then 0 else v.indirect }

end Inode

theorem Placed.pointer_total {s : Volume} {v : Inode} (placed : Placed s v) {k b : Nat} (inside : k < 137)
    (found : target (v.pointer s.device.data k) = some b) : b < s.layout.total :=
  (placed.inData (p := .data ⟨k, inside⟩) found).2

section

variable {s : Volume} {v : Inode} (placed : Placed s v)

include placed

theorem ends_freeEntries (indirect : v.indirect ≠ 0) (cs : List Nat) {i n : Nat} (room : n = 0 ∨ i + n ≤ 128)
    (returns : Unit → Volume → Prop) (fails : Fail → Volume → Prop) :
    Ends (do
        let buf ← readBlock v.indirect.toNat
        freePointers buf i n) (s.release cs) returns fails ↔
      returns () (s.release (cs ++ targets (v.pointer s.device.data) (i + 9) n)) := by
  have ok : (s.release cs).layout.Ok := by simpa using placed.layout
  have device : v.indirect.toNat < (s.release cs).layout.blockCount := by
    rw [Volume.layout_release]
    exact placed.indirect_device indirect
  rw [ends_bind, ends_readBlock device, Volume.device_release, ends_freePointers ok _ _ _ room,
    Inode.targets_entries indirect, Volume.release_append]
  intro k b _ high found
  rw [Volume.layout_release]
  apply placed.pointer_total (show k + 9 < 137 by omega)
  rwa [v.pointer_entry _ (show ¬k + 9 < 9 by omega) indirect]

theorem freeEntries_past (indirect : v.indirect ≠ 0) (cs : List Nat) {i n : Nat} (positive : 0 < n)
    (past : 128 < i + n) (returns : Unit → Volume → Prop) :
    Ends (do
        let buf ← readBlock v.indirect.toNat
        freePointers buf i n) (s.release cs) returns (fun fail _ => fail = .panic) := by
  have ok : (s.release cs).layout.Ok := by simpa using placed.layout
  have device : v.indirect.toNat < (s.release cs).layout.blockCount := by
    rw [Volume.layout_release]
    exact placed.indirect_device indirect
  rw [ends_bind, ends_readBlock device, Volume.device_release]
  apply freePointers_past ok _ positive past
  intro k b high found
  rw [Volume.layout_release]
  apply placed.pointer_total (show k + 9 < 137 by omega)
  rwa [v.pointer_entry _ (show ¬k + 9 < 9 by omega) indirect]

theorem ends_dropIndirect (indirect : v.indirect ≠ 0) (cs : List Nat)
    (returns : Unit → Volume → Prop) (fails : Fail → Volume → Prop) :
    Ends (freeBlock v.indirect) (s.release cs) returns fails ↔
      returns () (s.release (cs ++ [v.indirect.toNat])) := by
  have ok : (s.release cs).layout.Ok := by simpa using placed.layout
  have data := placed.inData (p := .indirect) (target_eq_some.mpr ⟨indirect, rfl⟩)
  rw [ends_freeBlock ok (by rw [Volume.layout_release]; exact data.2), Volume.release_append]
  rfl

theorem ends_freeInodeBlocks (returns : Inode → Volume → Prop) (fails : Fail → Volume → Prop) :
    Ends (freeInodeBlocks v) s returns fails ↔
      returns { v.clear 0 9 with indirect := 0 }
        (s.release (targets (v.pointer s.device.data) 0 9 ++
          if v.indirect = 0 then [] else targets (v.pointer s.device.data) 9 128 ++ [v.indirect.toNat])) := by
  have below : ∀ k b, 0 ≤ k → k < 0 + 9 → target (v.pointer s.device.data k) = some b → b < s.layout.total :=
    fun k b _ high => placed.pointer_total (by omega)
  rw [freeInodeBlocks, ends_bind, ends_freeDirects placed.layout s.device.data below (Or.inr le_rfl)]
  by_cases indirect : v.indirect = 0
  · have same : ({ v.clear 0 9 with indirect := 0 } : Inode) = v.clear 0 9 := by
      simp only [Inode.clear, indirect]
    rw [if_neg (not_not_intro (show (v.clear 0 directPtrs).indirect = 0 from indirect)), ends_pure,
      if_pos indirect,
      List.append_nil, same]
  · have field : (v.clear 0 directPtrs).indirect = v.indirect := rfl
    have entries := ends_freeEntries placed indirect (targets (v.pointer s.device.data) 0 9) (i := 0)
      (n := 128) (Or.inr le_rfl)
    simp only [ends_bind] at entries
    rw [if_neg indirect, field, if_pos indirect]
    simp only [ends_bind]
    rw [entries, ends_dropIndirect placed indirect, ends_pure, List.append_assoc]

theorem ends_truncateInode (newSize : Nat) :
    Ends (truncateInode v newSize) s
      (fun w t => w = v.cut newSize ∧ t = s.release (v.freedBy s.device.data newSize))
      (fun fail _ => fail = .panic ∧ 9 ≤ lastBlock newSize) := by
  rw [truncateInode]
  by_cases longer : newSize ≥ v.size.toNat
  · rw [if_pos longer, ends_pure, Inode.cut, Inode.freedBy, if_pos longer, if_pos longer]
    exact ⟨rfl, rfl⟩
  rw [if_neg longer, Inode.cut, Inode.freedBy, if_neg longer, if_neg longer]
  have bound : lastBlock newSize < 2 ^ 32 := by
    unfold lastBlock
    split <;> omega
  generalize lastBlock v.size.toNat = oldLast
  generalize lastBlock newSize = newLast at *
  have room : min 9 ((oldLast + 1) % 2 ^ 32) - (newLast + 1) % 2 ^ 32 = 0 ∨
      (newLast + 1) % 2 ^ 32 + (min 9 ((oldLast + 1) % 2 ^ 32) - (newLast + 1) % 2 ^ 32) ≤ 9 := by omega
  have below : ∀ k b, (newLast + 1) % 2 ^ 32 ≤ k →
      k < (newLast + 1) % 2 ^ 32 + (min 9 ((oldLast + 1) % 2 ^ 32) - (newLast + 1) % 2 ^ 32) →
      target (v.pointer s.device.data k) = some b → b < s.layout.total :=
    fun k b low high => placed.pointer_total (by omega)
  simp only [directPtrs, ptrsPerBlock]
  rw [ends_bind, ends_freeDirects placed.layout s.device.data below room]
  have field (i n : Nat) : (v.clear i n).indirect = v.indirect := rfl
  simp only [field]
  by_cases hole : v.indirect = 0
  · simp [hole, Inode.clear]
  by_cases short : newLast < 9
  · have start : ¬newLast ≥ 9 := by omega
    have entries := ends_freeEntries placed hole (targets (v.pointer s.device.data) ((newLast + 1) % 2 ^ 32)
      (min 9 ((oldLast + 1) % 2 ^ 32) - (newLast + 1) % 2 ^ 32)) (i := 0)
      (n := min 128 (((oldLast + 2 ^ 32 - 9) % 2 ^ 32 + 1) % 2 ^ 32)) (by omega)
    simp only [ends_bind] at entries
    simp only [short, hole, start, ne_eq, not_false_iff, and_self, or_true, if_true, if_false, ends_bind,
      Nat.sub_zero, entries, ends_dropIndirect placed hole, ends_pure, List.append_assoc, Nat.zero_add]
  · have start : newLast ≥ 9 := by omega
    simp only [short, hole, start, ne_eq, not_false_iff, and_true, if_true, if_false]
    by_cases reach : oldLast ≥ 9
    · have count : oldLast - 9 + 1 - (newLast - 9 + 1) = oldLast - newLast := by omega
      rw [if_pos reach, count]
      by_cases past : 0 < oldLast - newLast ∧ 128 < newLast - 9 + 1 + (oldLast - newLast)
      · have panics := fun cs => freeEntries_past placed hole cs past.1 past.2
        simp only [ends_bind] at panics ⊢
        exact panics _ _
      · have entries := fun cs => ends_freeEntries placed hole cs (i := newLast - 9 + 1)
          (n := oldLast - newLast)
          (by omega)
        have index : newLast - 9 + 1 + 9 = newLast + 1 := by omega
        simp only [ends_bind, index] at entries ⊢
        rw [entries, ends_pure, ends_pure]
        exact ⟨rfl, rfl⟩
    · have none : oldLast - newLast = 0 := by omega
      rw [if_neg reach, none]
      simp only [ends_bind, ends_pure]
      exact ⟨rfl, by simp [targets]⟩

end

end PickleOS.NextFs
