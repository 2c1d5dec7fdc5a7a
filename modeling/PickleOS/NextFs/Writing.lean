import PickleOS.NextFs.Growth

set_option autoImplicit false

namespace PickleOS.NextFs

open Shared Shared.Outcome

namespace Inode

/-- The inode record itself has no pointer on the way to block `k`, so that allocating it changes
the record. -/
def Lacks (v : Inode) (k : Nat) : Prop :=
  if h : k < directPtrs then v.direct ⟨k, h⟩ = 0 else v.indirect = 0

theorem lacks_direct {v : Inode} {k : Nat} (h : k < 9) : v.Lacks k ↔ v.direct ⟨k, h⟩ = 0 := by
  rw [Lacks, dif_pos h]

theorem lacks_indirect {v : Inode} {k : Nat} (h : ¬k < 9) : v.Lacks k ↔ v.indirect = 0 := by
  rw [Lacks, dif_neg h]

theorem Lacks.hole {v : Inode} {k : Nat} (lacks : v.Lacks k) (data : Nat → Block) : v.pointer data k = 0 := by
  by_cases low : k < 9
  · rw [pointer_direct _ _ low, ← lacks_direct low]
    exact lacks
  · rw [pointer_hole _ _ low ((lacks_indirect low).mp lacks)]

theorem holds_data_none {v : Inode} {data : Nat → Block} {k : Fin 137} :
    v.holds data (.data k) = none ↔ v.pointer data k = 0 := target_eq_none

theorem holds_data_some {v : Inode} {data : Nat → Block} {k : Fin 137} {b : Nat} :
    v.holds data (.data k) = some b ↔ v.pointer data k ≠ 0 ∧ (v.pointer data k).toNat = b := target_eq_some

theorem holds_indirect_none {v : Inode} {data : Nat → Block} : v.holds data .indirect = none ↔ v.indirect = 0 :=
  target_eq_none

end Inode

section

variable {s : Volume} {v : Inode}

theorem Placed.indirect_device (placed : Placed s v) (indirect : v.indirect ≠ 0) :
    v.indirect.toNat < s.layout.blockCount :=
  placed.layout.inData_device (placed.inData (p := .indirect) (target_eq_some.mpr ⟨indirect, rfl⟩))

theorem getInodeBlock_eq (placed : Placed s v) {k : Nat} (inside : k < 137) :
    s.getInodeBlock v k = .ok (v.pointer s.device.data k) := by
  rw [Volume.getInodeBlock]
  split
  next low => rw [Inode.pointer_direct _ _ low]
  next high =>
    split
    next hole => rw [Inode.pointer_hole _ _ high hole]
    next indirect =>
      have device : v.indirect.toNat < s.device.blockCount := placed.indirect_device indirect
      have room : ¬k - directPtrs ≥ ptrsPerBlock := by
        simp only [directPtrs, ptrsPerBlock] at *
        omega
      simp only [Device.read_ok device, bind, Except.bind, if_neg room, Inode.pointer_entry _ _ high indirect]

theorem getInodeBlock_past (placed : Placed s v) {k : Nat} (outside : 137 ≤ k) :
    s.getInodeBlock v k = if v.indirect = 0 then .ok 0 else .error (.fs .noSpace) := by
  have high : ¬k < directPtrs := by
    simp only [directPtrs]
    omega
  rw [Volume.getInodeBlock, dif_neg high]
  split
  next => rfl
  next indirect =>
    have device : v.indirect.toNat < s.device.blockCount := placed.indirect_device indirect
    have past : k - directPtrs ≥ ptrsPerBlock := by
      simp only [directPtrs, ptrsPerBlock] at *
      omega
    simp only [Device.read_ok device, bind, Except.bind, if_pos past]

end

theorem target_nextFree {s : Volume} (ok : s.layout.Ok) {b : Nat} (found : s.nextFree = some b) :
    target (UInt32.ofNat b) = some b := by
  -- The next block the allocator hands out is a pointer that refers to it.
  obtain ⟨inside, _⟩ := Volume.nextFree_some ok found
  exact target_ofNat (inside.pos ok) (inside.2.trans s.layout.total_lt)

structure Allocated (k : Nat) (s : Volume) (v : Inode) (number : UInt32) (t : Volume) (w : Inode) : Prop where
  inside : k < 137
  grown : Grown (· = k) s v t w
  held : w.holds t.device.data (.data ⟨k, inside⟩) = some number.toNat
  space : s.nextFree.isSome = true
  record : w = v ↔ ¬v.Lacks k

/-- Growing stopped for want of space; `w` is the in-memory inode at that moment. -/
def Stuck (touched : Nat → Prop) (s : Volume) (v : Inode) (fail : Fail) (t : Volume) : Prop :=
  fail = .fs .noSpace ∧ ∃ w, Grown touched s v t w ∧
    (w = v ↔ ¬(s.nextFree.isSome = true ∧ ∃ k, touched k ∧ k < 137 ∧ v.Lacks k))

theorem stuck_refl {touched : Nat → Prop} {s : Volume} {v : Inode}
    (none : ¬(s.nextFree.isSome = true ∧ ∃ k, touched k ∧ k < 137 ∧ v.Lacks k)) :
    Stuck touched s v (.fs .noSpace) s :=
  ⟨rfl, v, Grown.refl _ _ _, by simp only [true_iff]; exact none⟩

/-- Growing stopped at its only index. No block that the inode had before has changed. -/
structure StuckAt (k : Nat) (s : Volume) (v : Inode) (fail : Fail) (t : Volume) : Prop where
  stuck : Stuck (· = k) s v fail t
  cause : k < 137 → v.Lacks k ∨ s.nextFree = none
  data : ∀ p b, v.holds s.device.data p = some b → t.device.data b = s.device.data b

section Allocation

variable {s : Volume} {v : Inode} {k : Nat}

theorem ends_alloc_direct (working : Working s v) (low : k < 9) (hole : v.pointer s.device.data k = 0) :
    Ends (allocInodeBlock v k) s (fun r t => Allocated k s v r.2 t r.1) (StuckAt k s v) := by
  have lacks : v.direct ⟨k, low⟩ = 0 := by rw [← hole, Inode.pointer_direct _ _ low]
  rw [allocInodeBlock, dif_pos (show k < directPtrs from low), ends_bind, ends_allocBlock working.layout]
  cases found : s.nextFree with
  | none => exact ⟨stuck_refl (by simp [found]), fun _ => Or.inr found, fun _ _ _ => rfl⟩
  | some b =>
    have value := target_nextFree working.layout found
    have holds := v.holds_direct s.device.data low (UInt32.ofNat b) value
    have inside : k < 137 := by omega
    have number : (UInt32.ofNat b).toNat = b := (target_eq_some.mp value).2
    refine ⟨inside, ?_, ?_, by simp [found], ?_⟩
    · refine Grown.take working found (p := .data ⟨k, inside⟩) (Inode.holds_data_none.mpr hole) rfl rfl rfl
        holds (fun _ _ _ => rfl) ?_ (by simp)
      intro j same
      cases same
      rfl
    · exact (congrFun holds _).trans (by rw [Function.update_self, number])
    · rw [Inode.lacks_direct low]
      constructor
      · intro same
        have entry := congrFun (congrArg Inode.direct same) ⟨k, low⟩
        simp only [Function.update_self, lacks] at entry
        simp [entry] at value
      · intro filled
        exact (filled lacks).elim

theorem ends_alloc_entry (working : Working s v) (low : ¬k < 9) (inside : k < 137) (indirect : v.indirect ≠ 0)
    (hole : v.pointer s.device.data k = 0) :
    Ends (do
        let dataBlock ← allocBlock
        let buf ← readBlock v.indirect.toNat
        writeBlock v.indirect.toNat (buf.setPointer (k - directPtrs) dataBlock)
        pure (v, dataBlock)) s
      (fun r t => r.1 = v ∧ s.nextFree.isSome = true ∧ Grown (· = k) s v t v ∧
        v.holds t.device.data (.data ⟨k, inside⟩) = some r.2.toNat)
      (fun fail t => fail = .fs .noSpace ∧ t = s ∧ s.nextFree = none) := by
  -- The data block of an index behind an existing indirect block.
  rw [ends_bind, ends_allocBlock working.layout]
  cases found : s.nextFree with
  | none => exact ⟨rfl, rfl, rfl⟩
  | some b =>
    dsimp only
    have value := target_nextFree working.layout found
    have number : (UInt32.ofNat b).toNat = b := (target_eq_some.mp value).2
    have device : v.indirect.toNat < (s.takeBlock b).layout.blockCount := by
      rw [Volume.layout_takeBlock]
      exact working.placed.indirect_device indirect
    have holds := v.holds_entry s.device.data indirect low inside (UInt32.ofNat b) value
    rw [ends_bind, ends_readBlock device, ends_bind, ends_writeBlock device, ends_pure]
    refine ⟨rfl, rfl, ?_, ?_⟩
    · refine Grown.take working found (p := .data ⟨k, inside⟩) (Inode.holds_data_none.mpr hole) rfl rfl rfl
        holds ?_ ?_ (by simp)
      · intro c _ notIndirect
        apply Function.update_of_ne
        rintro rfl
        exact notIndirect (target_eq_some.mpr ⟨indirect, rfl⟩)
      · intro j same
        cases same
        rfl
    · exact (congrFun holds _).trans (by rw [Function.update_self, number])

theorem ends_alloc_indirect (working : Working s v) (low : ¬k < 9) (inside : k < 137)
    (hole : v.pointer s.device.data k = 0) :
    Ends (allocInodeBlock v k) s (fun r t => Allocated k s v r.2 t r.1) (StuckAt k s v) := by
  have range : ¬k - directPtrs ≥ ptrsPerBlock := by
    simp only [directPtrs, ptrsPerBlock]
    omega
  rw [allocInodeBlock, dif_neg (show ¬k < directPtrs from low)]
  dsimp only
  rw [if_neg range, ends_bind]
  by_cases indirect : v.indirect = 0
  · rw [if_pos indirect, ends_bind, ends_allocBlock working.layout]
    cases found : s.nextFree with
    | none => exact ⟨stuck_refl (by simp [found]), fun _ => Or.inr found, fun _ _ _ => rfl⟩
    | some b =>
      dsimp only
      have value := target_nextFree working.layout found
      have number : (UInt32.ofNat b).toNat = b := (target_eq_some.mp value).2
      have data := (Volume.nextFree_some working.layout found).1
      have device : (UInt32.ofNat b).toNat < (s.takeBlock b).layout.blockCount := by
        rw [Volume.layout_takeBlock, number]
        exact working.layout.inData_device data
      have zeroed : (s.takeBlock b).setBlock (UInt32.ofNat b).toNat Block.zero =
          (s.takeBlock b).setBlock b Block.zero := by rw [number]
      rw [ends_bind, ends_writeBlock device, ends_pure, zeroed]
      -- The new indirect block is zeroed, so it adds no place but its own.
      have holds := v.holds_indirect s.device.data indirect (UInt32.ofNat b) value
      have first : Grown (· = k) s v ((s.takeBlock b).setBlock b Block.zero)
        { v with indirect := UInt32.ofNat b } := by
        refine Grown.take working found (p := .indirect) (Inode.holds_indirect_none.mpr indirect) rfl rfl rfl
          holds ?_ (by simp) fun _ => ⟨k, rfl, by omega, inside⟩
        intro c different _
        exact Function.update_of_ne different _ _
      have changed : ({ v with indirect := UInt32.ofNat b } : Inode) ≠ v := by
        intro same
        rw [show UInt32.ofNat b = v.indirect from congrArg Inode.indirect same, indirect] at value
        simp at value
      have empty : ({ v with indirect := UInt32.ofNat b } : Inode).pointer
          ((s.takeBlock b).setBlock b Block.zero).device.data k = 0 := by
        rw [← Inode.holds_data_none (k := ⟨k, inside⟩)]
        refine (congrFun holds _).trans ?_
        rw [Function.update_of_ne (by simp)]
        exact Inode.holds_data_none.mpr hole
      refine (ends_alloc_entry (first.working working) low inside (target_eq_some.mp value).1 empty).imp ?_ ?_
      · rintro ⟨w, n⟩ t ⟨rfl, space, grown, held⟩
        refine ⟨inside, first.trans grown, held, by simp [found], ?_⟩
        simp [changed, Inode.lacks_indirect low, indirect]
      · rintro fail t ⟨rfl, rfl, _⟩
        refine ⟨⟨rfl, _, first, ?_⟩, fun _ => Or.inl ((Inode.lacks_indirect low).mpr indirect), ?_⟩
        · simp [changed, found, inside, Inode.lacks_indirect low, indirect]
        · intro p c held
          refine Function.update_of_ne ?_ _ _
          rintro rfl
          have unused := (Volume.nextFree_some working.layout found).2.1
          simp [(working.backed held).2] at unused
  · rw [if_neg indirect, ends_pure]
    refine (ends_alloc_entry working low inside indirect hole).imp ?_ ?_
    · rintro ⟨w, n⟩ t ⟨rfl, space, grown, held⟩
      exact ⟨inside, grown, held, space, by simp [Inode.lacks_indirect low, indirect]⟩
    · rintro fail t ⟨rfl, rfl, full⟩
      exact ⟨stuck_refl (by simp [full]), fun _ => Or.inr full, fun _ _ _ => rfl⟩

theorem ends_allocInodeBlock (working : Working s v) (hole : k < 137 → v.pointer s.device.data k = 0) :
    Ends (allocInodeBlock v k) s (fun r t => Allocated k s v r.2 t r.1) (StuckAt k s v) := by
  by_cases low : k < 9
  · exact ends_alloc_direct working low (hole (by omega))
  by_cases inside : k < 137
  · exact ends_alloc_indirect working low inside (hole inside)
  · have range : k - directPtrs ≥ ptrsPerBlock := by
      simp only [directPtrs, ptrsPerBlock]
      omega
    rw [allocInodeBlock, dif_neg (show ¬k < directPtrs from low)]
    dsimp only
    rw [if_pos range, ends_throw]
    exact ⟨stuck_refl (by simp [inside]), fun below => (inside below).elim, fun _ _ _ => rfl⟩

end Allocation

/-- One block of a file has been written: `bytes` from offset `off` on, over zeros if it is new. -/
structure Wrote (k off : Nat) (bytes : List UInt8) (s : Volume) (v : Inode) (t : Volume) (w : Inode) :
    Prop where
  inside : k < 137
  grown : Grown (· = k) s v t w
  content : ∃ b, w.holds t.device.data (.data ⟨k, inside⟩) = some b ∧
    t.device.data b = (if v.pointer s.device.data k = 0 then Block.zero else s.device.data b).splice off bytes
  space : v.pointer s.device.data k = 0 → s.nextFree.isSome = true
  free : v.pointer s.device.data k ≠ 0 → t.nextFree = s.nextFree
  record : w = v ↔ ¬v.Lacks k

theorem ends_overwrite {s : Volume} {v : Inode} {k : Fin 137} (working : Working s v) {number : UInt32}
    (held : v.holds s.device.data (.data k) = some number.toNat) (off : Nat) (bytes : List UInt8)
    (returns : Inode → Volume → Prop) (fails : Fail → Volume → Prop) :
    Ends (do
        let buf ← readBlock number.toNat
        writeBlock number.toNat (buf.splice off bytes)
        pure v) s returns fails ↔
      returns v (s.setBlock number.toNat ((s.device.data number.toNat).splice off bytes)) := by
  have device := working.layout.inData_device (working.backed held).1
  rw [ends_bind, ends_readBlock device, ends_bind, ends_writeBlock device, ends_pure]

theorem ends_writeChunk {s : Volume} {v : Inode} (working : Working s v) (k off : Nat) (bytes : List UInt8) :
    Ends (writeChunk v k off bytes) s (fun w t => Wrote k off bytes s v t w) (StuckAt k s v) := by
  rw [writeChunk, ends_bind, ends_observe]
  by_cases outside : 137 ≤ k
  · have stuck : ¬(s.nextFree.isSome = true ∧ ∃ j, j = k ∧ j < 137 ∧ v.Lacks j) := by
      rintro ⟨_, j, rfl, inside, _⟩
      omega
    rw [getInodeBlock_past working.placed outside]
    by_cases indirect : v.indirect = 0
    · rw [if_pos indirect]
      dsimp only
      rw [if_pos rfl, ends_bind, ends_bind]
      refine (ends_allocInodeBlock working fun inside => by omega).imp ?_ fun _ _ stuck => stuck
      intro r t allocated
      have := allocated.inside
      omega
    · rw [if_neg indirect]
      exact ⟨stuck_refl stuck, fun inside => by omega, fun _ _ _ => rfl⟩
  · have inside : k < 137 := by omega
    rw [getInodeBlock_eq working.placed inside]
    dsimp only
    by_cases hole : v.pointer s.device.data k = 0
    · rw [if_pos hole, ends_bind, ends_bind]
      refine (ends_allocInodeBlock working fun _ => hole).imp ?_ fun _ _ stuck => stuck
      rintro ⟨w, number⟩ t allocated
      have working' := allocated.grown.working working
      have device := working'.layout.inData_device (working'.backed allocated.held).1
      have zeroed : Grown (· = k) t w (t.setBlock number.toNat Block.zero) w :=
        Grown.write working' allocated.held _
      dsimp only
      rw [ends_bind, ends_writeBlock device, ends_pure]
      dsimp only
      rw [ends_overwrite (zeroed.working working') (zeroed.keeps _ _ allocated.held)]
      have written : Grown (· = k) _ w _ w :=
        Grown.write (zeroed.working working') (zeroed.keeps _ _ allocated.held)
          (((t.setBlock number.toNat Block.zero).device.data number.toNat).splice off bytes)
      refine ⟨inside, allocated.grown.trans (zeroed.trans written), ⟨number.toNat, ?_, ?_⟩,
        fun _ => allocated.space,
        fun filled => (filled hole).elim, allocated.record⟩
      · exact written.keeps _ _ (zeroed.keeps _ _ allocated.held)
      · simp [hole]
    · have held : v.holds s.device.data (.data ⟨k, inside⟩) = some (v.pointer s.device.data k).toNat :=
        Inode.holds_data_some.mpr ⟨hole, rfl⟩
      rw [if_neg hole, ends_bind, ends_pure]
      dsimp only
      rw [ends_overwrite working held]
      have written : Grown (· = k) s v _ v := Grown.write working held
        ((s.device.data (v.pointer s.device.data k).toNat).splice off bytes)
      refine ⟨inside, written, ⟨_, written.keeps _ _ held, ?_⟩, fun empty => (hole empty).elim,
        fun _ => rfl, ?_⟩
      · simp [hole]
      · simp only [true_iff]
        exact fun lacks => hole (lacks.hole _)

/-- The block indices that a write of `n` bytes at file position `pos` visits, unless it stops early. -/
def Touches (pos n k : Nat) : Prop :=
  0 < n ∧ pos / 512 % 2 ^ 32 ≤ k ∧ k * 512 < pos / 512 % 2 ^ 32 * 512 + pos % 512 + n

theorem touches_first {pos n : Nat} (some : 0 < n) : Touches pos n (pos / 512 % 2 ^ 32) := by
  unfold Touches
  omega

theorem touches_next {pos n k : Nat} (below : pos / 512 % 2 ^ 32 < 137) (more : 512 - pos % 512 < n) :
    Touches pos n k ↔ k = pos / 512 % 2 ^ 32 ∨ Touches (pos + (512 - pos % 512)) (n - (512 - pos % 512)) k := by
  have position : (pos + (512 - pos % 512)) / 512 = pos / 512 + 1 ∧
    (pos + (512 - pos % 512)) % 512 = 0 := by omega
  have index : (pos + (512 - pos % 512)) / 512 % 2 ^ 32 = pos / 512 % 2 ^ 32 + 1 := by omega
  simp only [Touches, index, position.2]
  omega

theorem touches_only {pos n k : Nat} (some : 0 < n) (last : n ≤ 512 - pos % 512) :
    Touches pos n k ↔ k = pos / 512 % 2 ^ 32 := by
  unfold Touches
  omega

/-- Writing went through: every index it visits is in range, and the inode has only grown there. -/
structure Written (pos n : Nat) (s : Volume) (v : Inode) (t : Volume) (w : Inode) : Prop where
  grown : Grown (Touches pos n) s v t w
  inside : ∀ k, Touches pos n k → k < 137

theorem Wrote.stuck {k off : Nat} {bytes : List UInt8} {s t u : Volume} {v w : Inode} {fail : Fail}
    {touched : Nat → Prop} (wrote : Wrote k off bytes s v t w) (stuck : Stuck touched t w fail u)
    (later : ∀ j, touched j → k < j) : Stuck (fun j => j = k ∨ touched j) s v fail u := by
  obtain ⟨rfl, x, grown, record⟩ := stuck
  have whole := (wrote.grown.weaken fun _ => Or.inl).trans (grown.weaken fun _ => Or.inr)
  refine ⟨rfl, x, whole, ?_⟩
  by_cases lacks : v.Lacks k
  · have changed : x ≠ v := by
      rintro rfl
      exact wrote.record.mp (wrote.grown.antisymm grown) lacks
    have space := wrote.space (lacks.hole _)
    simp only [changed, space, true_and, false_iff, not_not]
    exact ⟨k, Or.inl rfl, wrote.inside, lacks⟩
  · obtain rfl := wrote.record.mpr lacks
    rw [record]
    by_cases hole : w.pointer s.device.data k = 0
    · -- An entry of an existing indirect block was filled in; no later index changes the record.
      have high : ¬k < 9 := by
        intro low
        rw [Inode.lacks_direct low] at lacks
        exact lacks (by rw [← hole, Inode.pointer_direct _ _ low])
      have recorded : ∀ j, k ≤ j → ¬w.Lacks j := by
        intro j above
        rw [Inode.lacks_indirect high] at lacks
        rwa [Inode.lacks_indirect (by omega)]
      constructor
      · rintro _ ⟨_, j, rfl | inside, _, missing⟩
        · exact lacks missing
        · exact recorded j (later j inside).le missing
      · rintro _ ⟨_, j, inside, _, missing⟩
        exact recorded j (later j inside).le missing
    · rw [wrote.free hole]
      have shift : (∃ j, touched j ∧ j < 137 ∧ w.Lacks j) ↔ ∃ j, (j = k ∨ touched j) ∧ j < 137 ∧
        w.Lacks j := by
        constructor
        · rintro ⟨j, inside, missing⟩
          exact ⟨j, Or.inr inside, missing⟩
        · rintro ⟨j, rfl | inside, missing⟩
          · exact (lacks missing.2).elim
          · exact ⟨j, inside, missing⟩
      rw [shift]

theorem StuckAt.spread {touched : Nat → Prop} {k : Nat} {s t : Volume} {v : Inode} {fail : Fail}
    (stuck : StuckAt k s v fail t) (here : touched k) (above : ∀ j, touched j → k ≤ j) :
    Stuck touched s v fail t := by
  obtain ⟨⟨rfl, w, grown, record⟩, cause, _⟩ := stuck
  refine ⟨rfl, w, grown.weaken (by rintro j rfl; exact here), record.trans (not_congr (and_congr_right ?_))⟩
  intro space
  constructor
  · rintro ⟨j, rfl, missing⟩
    exact ⟨j, here, missing⟩
  · rintro ⟨j, touched, inside, _⟩
    have below : k < 137 := (above j touched).trans_lt inside
    rcases cause below with lacks | full
    · exact ⟨k, rfl, below, lacks⟩
    · simp [full] at space

theorem Stuck.congr {touched touched' : Nat → Prop} {s t : Volume} {v : Inode} {fail : Fail}
    (stuck : Stuck touched s v fail t) (same : ∀ k, touched k ↔ touched' k) : Stuck touched' s v fail t := by
  have equal : touched = touched' := funext fun k => propext (same k)
  exact equal ▸ stuck

theorem ends_writeChunks {s : Volume} {v : Inode} (working : Working s v) (pos : Nat) (data : List UInt8) :
    Ends (writeChunks v pos data) s (fun w t => Written pos data.length s v t w)
      (Stuck (Touches pos data.length) s v) := by
  induction size : data.length using Nat.strong_induction_on generalizing s v pos data with
  | _ n ih =>
    subst size
    rw [writeChunks]
    split
    next empty =>
      refine ⟨Grown.refl _ _ _, ?_⟩
      rintro k ⟨positive, _⟩
      simp [empty] at positive
    next filled =>
      have nonempty : 0 < data.length := List.length_pos_iff.mpr filled
      have index : pos % 2 ^ 64 / 512 % 2 ^ 32 = pos / 512 % 2 ^ 32 := by omega
      have offset : pos % 2 ^ 64 % 512 = pos % 512 := by omega
      simp only [blockSize, index, offset]
      rw [ends_bind]
      refine (ends_writeChunk working _ _ _).imp ?_ ?_
      · intro w t wrote
        have working' := wrote.grown.working working
        have first := wrote.inside
        by_cases last : data.length ≤ 512 - pos % 512
        · rw [Nat.min_eq_left last, List.drop_length, writeChunks, dif_pos rfl, ends_pure]
          have only := fun k => touches_only (k := k) nonempty last
          refine ⟨wrote.grown.weaken fun k => (only k).mpr, ?_⟩
          intro k inside
          rw [(only k).mp inside]
          exact first
        · have chunk : min data.length (512 - pos % 512) = 512 - pos % 512 := by omega
          have next := fun k => touches_next (k := k) first (by omega : 512 - pos % 512 < data.length)
          have later : ∀ k, Touches (pos + (512 - pos % 512)) (data.length - (512 - pos % 512)) k →
              pos / 512 % 2 ^ 32 < k := by
            intro k touched
            have low := touched.2.1
            omega
          rw [chunk]
          have tail := ih (data.drop (512 - pos % 512)).length
            (by rw [List.length_drop]; omega) working' (pos + (512 - pos % 512)) _ rfl
          rw [List.length_drop] at tail
          refine tail.imp ?_ ?_
          · intro x u written
            refine ⟨(wrote.grown.weaken fun k here => (next k).mpr (Or.inl here)).trans
              (written.grown.weaken fun k here => (next k).mpr (Or.inr here)), ?_⟩
            intro k touched
            rcases (next k).mp touched with rfl | touched
            · exact first
            · exact written.inside k touched
          · intro fail u stuck
            exact (wrote.stuck stuck later).congr fun k => (next k).symm
      · intro fail t stuck
        exact stuck.spread (touches_first nonempty) fun k touched => touched.2.1

/-- The in-memory inode after `n` bytes were written up to file position `stop`. -/
def Inode.extended (w : Inode) (now : UInt32) (stop n : Nat) : Inode :=
  { w with
    size := if stop % 2 ^ 64 > w.size.toNat then UInt64.ofNat (stop % 2 ^ 64) else w.size
    mtime := if n > 0 then now else w.mtime }

theorem ends_writeInodeData {s : Volume} {v : Inode} (working : Working s v) (now : UInt32) (offset : Nat)
    (data : List UInt8) :
    Ends (writeInodeData now v offset data) s
      (fun r t => ∃ w, Written offset data.length s v t w ∧
        r = (w.extended now (offset + data.length) data.length, data.length))
      (fun fail t => (fail = .fs .notFile ∧ t = s ∧ v.isFile = false ∧ v.isDir = false) ∨
        Stuck (Touches offset data.length) s v fail t) := by
  rw [writeInodeData]
  split
  next other =>
    simp only [Bool.and_eq_true, Bool.not_eq_true'] at other
    exact Or.inl ⟨rfl, rfl, other.1, other.2⟩
  next =>
    rw [ends_bind]
    refine (ends_writeChunks working offset data).imp ?_ fun _ _ => Or.inr
    intro w t written
    refine ⟨w, written, ?_⟩
    simp only [Inode.extended]
    split <;> split <;> rfl

theorem ends_writeWithin {s : Volume} {v : Inode} (working : Working s v) (now : UInt32) {offset : Nat}
    {data : List UInt8} (isDir : v.isDir = true) (filled : data ≠ [])
    (fits : data.length ≤ 512 - offset % 512) :
    Ends (writeInodeData now v offset data) s
      (fun r t => ∃ w, Wrote (offset / 512 % 2 ^ 32) (offset % 512) data s v t w ∧
        r = (w.extended now (offset + data.length) data.length, data.length))
      (StuckAt (offset / 512 % 2 ^ 32) s v) := by
  -- A write to a directory that stays within one block.
  have index : offset % 2 ^ 64 / 512 % 2 ^ 32 = offset / 512 % 2 ^ 32 := by omega
  have within : offset % 2 ^ 64 % 512 = offset % 512 := by omega
  rw [writeInodeData, if_neg (by simp [isDir]), ends_bind, writeChunks, dif_neg filled]
  simp only [blockSize, index, within, Nat.min_eq_left fits, List.take_length, List.drop_length]
  rw [ends_bind]
  refine (ends_writeChunk working _ _ _).imp ?_ fun _ _ stuck => stuck
  intro w t wrote
  rw [writeChunks, dif_pos rfl, ends_pure]
  refine ⟨w, wrote, ?_⟩
  simp only [Inode.extended]
  split <;> split <;> rfl

end PickleOS.NextFs
