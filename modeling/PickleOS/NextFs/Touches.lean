import PickleOS.NextFs.Altering
import PickleOS.NextFs.Trees
import PickleOS.Shared.Machine

set_option autoImplicit false

namespace PickleOS.NextFs

open Shared Shared.Outcome

/-- A step of `truncate_inode` that can go out of range. -/
inductive Touch where
  /-- `a - b`, on unsigned numbers. -/
  | subtract (a b : Nat)
  /-- Four bytes of the indirect buffer. -/
  | index (off : Nat)
  | free (block : UInt32)
  deriving DecidableEq

namespace Touch

/-- The subtraction does not underflow, the bytes are in the buffer, the block is a data block. -/
def Inside (l : Layout) : Touch → Prop
  | subtract a b => b ≤ a
  | index off => off + 4 ≤ blockSize
  | free block => l.InData block.toNat

/-- The release build wraps instead of stopping at an underflow. -/
def perform : Touch → FsM Unit
  | subtract _ _ => pure ()
  | index off => if off + 4 ≤ blockSize then pure () else throw .panic
  | free block => freeBlock block

end Touch

def performAll : List Touch → FsM Unit
  | [] => pure ()
  | touch :: rest => do
    touch.perform
    performAll rest

def lastBlockTouches (size : Nat) : List Touch := if size = 0 then [] else [.subtract size 1]

/-- `if pointer != 0 { self.free_block(pointer) }`. -/
def pointerTouches (pointer : UInt32) : List Touch := if pointer ≠ 0 then [.free pointer] else []

def directTouches (v : Inode) : Nat → Nat → List Touch
  | _, 0 => []
  | i, n + 1 =>
    (if h : i < directPtrs then pointerTouches (v.direct ⟨i, h⟩) else []) ++ directTouches v (i + 1) n

def entryTouches (buf : Block) : Nat → Nat → List Touch
  | _, 0 => []
  | i, n + 1 => .index (i * 4) :: (pointerTouches (buf.pointer i) ++ entryTouches buf (i + 1) n)

/-- What `truncate_inode` does to `v` one after the other, apart from reading the indirect block as
a whole. -/
def truncateTouches (v : Inode) (data : Nat → Block) (newSize : Nat) : List Touch :=
  if newSize ≥ v.size.toNat then []
  else
    let oldLast := lastBlock v.size.toNat
    let newLast := lastBlock newSize
    let first := (newLast + 1) % 2 ^ 32
    let buf := data v.indirect.toNat
    let start : List Touch := if newLast ≥ directPtrs then [.subtract newLast directPtrs] else []
    let startIndirect := if newLast ≥ directPtrs then newLast - directPtrs + 1 else 0
    lastBlockTouches v.size.toNat ++ lastBlockTouches newSize ++
      directTouches v first (min directPtrs ((oldLast + 1) % 2 ^ 32) - first) ++
      if newLast < directPtrs ∧ v.indirect ≠ 0 then
        let oldCount := ((oldLast + 2 ^ 32 - directPtrs) % 2 ^ 32 + 1) % 2 ^ 32
        start ++ .subtract oldLast directPtrs ::
          (entryTouches buf startIndirect (min ptrsPerBlock oldCount - startIndirect) ++ [.free v.indirect])
      else if oldLast ≥ directPtrs ∧ v.indirect ≠ 0 then
        let endIndirect := oldLast - directPtrs + 1
        start ++ .subtract oldLast directPtrs :: entryTouches buf startIndirect (endIndirect - startIndirect)
      else []

/-- `m` does what `touches` says and returns `value`. -/
def Performs {α : Type} (m : FsM α) (s : Volume) (touches : List Touch) (value : α) : Prop :=
  m s = (do performAll touches; pure value : FsM α) s

theorem directTouches_freed {v : Inode} {i j n : Nat} (index : i < directPtrs) (later : i < j) :
    directTouches v j n = directTouches { v with direct := Function.update v.direct ⟨i, index⟩ 0 } j n := by
  induction n generalizing j with
  | zero => rfl
  | succ n ih =>
    rw [directTouches, directTouches, ih (later.trans (Nat.lt_succ_self j))]
    congr 1
    split
    next inside =>
      have different : (⟨j, inside⟩ : Fin 9) ≠ ⟨i, index⟩ := fun same => later.ne' (Fin.mk.inj same)
      simp only [Function.update_of_ne different]
    next => rfl

section Performs

variable {α β : Type} {s : Volume}

theorem device_performAll (touches : List Touch) (s : Volume) :
    Ends (performAll touches) s (fun _ t => t.device = s.device) fun _ _ => True := by
  induction touches generalizing s with
  | nil => rfl
  | cons touch rest ih =>
    rw [performAll, ends_bind]
    have first : Ends touch.perform s (fun _ t => t.device = s.device) fun _ _ => True := by
      cases touch with
      | subtract a b => rfl
      | index off =>
        rw [Touch.perform]
        split
        · rfl
        · trivial
      | free block =>
        simp only [Touch.perform, freeBlock, ends_bind, ends_get]
        split
        · rfl
        · trivial
    exact first.imp (fun _ t same => (ih t).imp (fun _ _ same' => same'.trans same) fun _ _ => id) fun _ _ => id

theorem performAll_append (first second : List Touch) (s : Volume) :
    performAll (first ++ second) s = (do performAll first; performAll second : FsM Unit) s := by
  induction first generalizing s with
  | nil => rfl
  | cons touch rest ih =>
    simp only [List.cons_append, performAll, bind, EStateM.bind]
    cases touch.perform s with
    | ok _ t => exact ih t
    | error => rfl

namespace Performs

theorem pure (value : α) : Performs (Pure.pure value) s [] value := rfl

theorem bind {m : FsM α} {f : α → FsM β} {first second : List Touch} {value : α}
    {result : β} (begins : Performs m s first value)
    (goes : ∀ t : Volume, t.device = s.device → Performs (f value) t second result) :
      Performs (m >>= f) s (first ++ second) result := by
  have frame := device_performAll first s
  unfold Performs at begins ⊢
  simp only [Bind.bind, EStateM.bind, begins, performAll_append]
  unfold Ends at frame
  cases performed : performAll first s with
  | ok _ t =>
    rw [performed] at frame
    exact goes t frame
  | error => rfl

theorem free (block : UInt32) : Performs (freeBlock block) s [.free block] () := by
  simp only [Performs, performAll, Touch.perform, Bind.bind, EStateM.bind]
  cases freeBlock block s <;> rfl

theorem pointer (pointer : UInt32) {m : FsM α} {touches : List Touch} {value : α}
    (rest : ∀ t : Volume, t.device = s.device → Performs m t touches value) :
    Performs (if pointer ≠ 0 then freeBlock pointer >>= fun _ => m else m)
      s (pointerTouches pointer ++ touches) value := by
  unfold pointerTouches
  split
  · exact (free pointer).bind rest
  · exact rest s rfl

theorem read {b : Nat} (inside : b < s.device.blockCount) : Performs (readBlock b) s [] (s.device.data b) := by
  simp only [Performs, readBlock, observe, Device.read_ok inside]
  rfl

theorem subtract {m : FsM α} {a b : Nat} {touches : List Touch}
    {value : α} (performs : Performs m s touches value) :
    Performs m s (.subtract a b :: touches) value := performs

theorem freePointers (buf : Block) (i n : Nat) :
    Performs (NextFs.freePointers buf i n) s (entryTouches buf i n) () := by
  induction n generalizing i s with
  | zero => exact pure ()
  | succ n ih =>
    rw [NextFs.freePointers, entryTouches]
    by_cases index : i < ptrsPerBlock
    · have fits : i * 4 + 4 ≤ blockSize := by
        simp only [ptrsPerBlock, blockSize] at *
        omega
      rw [if_pos index]
      have rest := pointer (s := s) (buf.pointer i) fun t _ => ih (s := t) (i + 1)
      simp only [Performs, performAll, Touch.perform, if_pos fits] at rest ⊢
      exact rest
    · have past : ¬i * 4 + 4 ≤ blockSize := by
        simp only [ptrsPerBlock, blockSize] at *
        omega
      rw [if_neg index]
      simp only [Performs, performAll, Touch.perform, if_neg past]
      rfl

theorem freeDirects (v : Inode) {i n : Nat} (room : n = 0 ∨ i + n ≤ 9) :
    Performs (NextFs.freeDirects v i n) s (directTouches v i n) (v.clear i n) := by
  induction n generalizing i s v with
  | zero =>
    rw [Inode.clear_none]
    exact pure v
  | succ n ih =>
    have index : i < directPtrs := by
      simp only [directPtrs]
      omega
    rw [NextFs.freeDirects, directTouches, dif_pos index, dif_pos index, pointerTouches]
    by_cases hole : v.direct ⟨i, index⟩ = 0
    · rw [if_neg (not_not_intro hole), if_neg (not_not_intro hole), Inode.clear_hole index hole]
      exact ih v (by omega)
    · have rest := fun t : Volume => ih (s := t)
        { v with direct := Function.update v.direct ⟨i, index⟩ 0 } (i := i + 1) (by omega)
      rw [if_pos hole, if_pos hole, ← Inode.clear_freed index, directTouches_freed index (Nat.lt_succ_self i)]
      exact (free (v.direct ⟨i, index⟩)).bind fun t _ => rest t

theorem lastBlock {m : FsM α} {touches : List Touch} {value : α} (size : Nat)
    (performs : Performs m s touches value) :
    Performs m s (lastBlockTouches size ++ touches) value := by
  unfold lastBlockTouches
  split
  · exact performs
  · exact performs.subtract

theorem map {m : FsM α} {touches : List Touch} {value : α} (performs : Performs m s touches value) (f : α → β) :
    Performs (m >>= fun a => Pure.pure (f a)) s touches (f value) := by
  rw [← List.append_nil touches]
  exact performs.bind fun _ _ => pure (f value)

theorem readPointers {b : Nat} (inside : b < s.device.blockCount) (i n : Nat)
    {m : FsM α} {touches : List Touch} {value : α}
    (rest : ∀ t : Volume, Performs m t touches value) :
    Performs (do
      let buf ← readBlock b
      NextFs.freePointers buf i n
      m) s (entryTouches (s.device.data b) i n ++ touches) value :=
  (read inside).bind fun _ _ => (freePointers (s.device.data b) i n).bind fun u _ => rest u

/-- `truncate_inode` does what its list says, and nothing else but to read the indirect block. -/
theorem truncateInode {v : Inode} (newSize : Nat)
    (inside : v.indirect ≠ 0 → v.indirect.toNat < s.device.blockCount) :
    Performs (NextFs.truncateInode v newSize) s (truncateTouches v s.device.data newSize) (v.cut newSize) := by
  rw [NextFs.truncateInode, truncateTouches]
  by_cases longer : newSize ≥ v.size.toNat
  · rw [if_pos longer, if_pos longer, Inode.cut_longer longer]
    exact pure _
  rw [if_neg longer, if_neg longer, Inode.cut, if_neg longer]
  simp only [List.append_assoc]
  have bound := lastBlock_lt newSize
  generalize NextFs.lastBlock v.size.toNat = oldLast
  generalize NextFs.lastBlock newSize = newLast at *
  have room : min 9 ((oldLast + 1) % 2 ^ 32) - (newLast + 1) % 2 ^ 32 = 0 ∨
      (newLast + 1) % 2 ^ 32 + (min 9 ((oldLast + 1) % 2 ^ 32) - (newLast + 1) % 2 ^ 32) ≤ 9 := by omega
  refine lastBlock _ (lastBlock _ ((freeDirects v room).bind fun t same => ?_))
  have field (i n : Nat) : (v.clear i n).indirect = v.indirect := rfl
  simp only [field, directPtrs, ptrsPerBlock]
  rw [← same] at inside ⊢
  let cleared := v.clear ((newLast + 1) % 2 ^ 32) (min 9 ((oldLast + 1) % 2 ^ 32) - (newLast + 1) % 2 ^ 32)
  by_cases hole : v.indirect = 0
  · simp only [hole, ne_eq, not_true, and_false, if_false, ite_self]
    have unset : ({ cleared with size := UInt64.ofNat newSize, indirect := 0 } : Inode) =
        { cleared with size := UInt64.ofNat newSize } := by
      rw [← hole]
      rfl
    exact (congrArg (Performs _ t []) unset).mpr
      ((pure cleared).map fun w => { w with size := UInt64.ofNat newSize })
  by_cases short : newLast < 9
  · have start : ¬newLast ≥ 9 := by omega
    simp only [short, hole, start, ne_eq, not_false_iff, and_self, or_true, if_true, if_false, List.nil_append]
    have last : ∀ u : Volume, Performs (do
        freeBlock v.indirect
        Pure.pure { cleared with indirect := 0 }) u [.free v.indirect] { cleared with indirect := 0 } :=
      fun _ => (free v.indirect).map fun _ => { cleared with indirect := 0 }
    exact ((readPointers (inside hole) _ _ last).subtract).map fun w => { w with size := UInt64.ofNat newSize }
  · have start : newLast ≥ 9 := by omega
    simp only [short, hole, start, ne_eq, not_false_iff, and_true, if_true, if_false]
    by_cases reach : oldLast ≥ 9
    · rw [if_pos reach, if_pos reach]
      have read := readPointers (inside hole) (newLast - 9 + 1) (oldLast - 9 + 1 - (newLast - 9 + 1))
        fun _ => pure cleared
      rw [List.append_nil] at read
      exact read.subtract.subtract.map fun w => { w with size := UInt64.ofNat newSize }
    · rw [if_neg reach, if_neg reach]
      exact (pure cleared).map fun w => { w with size := UInt64.ofNat newSize }

end Performs

end Performs

/-- A truncation to `newSize` counts from a number of old blocks that is too small for its indirect
block, or to one that is too large. -/
def Inode.Overreaches (v : Inode) (newSize : Nat) : Prop :=
  newSize < v.size.toNat ∧ v.indirect ≠ 0 ∧
    (lastBlock newSize < 9 ∧ lastBlock v.size.toNat < 9 ∨
      9 ≤ lastBlock newSize ∧ lastBlock newSize < lastBlock v.size.toNat ∧ 9 + 128 ≤ lastBlock v.size.toNat)

instance (v : Inode) (newSize : Nat) : Decidable (v.Overreaches newSize) :=
  inferInstanceAs (Decidable (_ ∧ _ ∧ (_ ∨ _)))

section Inside

variable {l : Layout}

def AllInside (l : Layout) (touches : List Touch) : Prop := ∀ touch ∈ touches, touch.Inside l

@[simp] theorem allInside_nil : AllInside l [] := nofun

@[simp] theorem allInside_cons (touch : Touch) (rest : List Touch) :
    AllInside l (touch :: rest) ↔ touch.Inside l ∧ AllInside l rest := List.forall_mem_cons

@[simp] theorem allInside_append (first second : List Touch) :
    AllInside l (first ++ second) ↔ AllInside l first ∧ AllInside l second := List.forall_mem_append

theorem allInside_lastBlock (size : Nat) : AllInside l (lastBlockTouches size) := by
  unfold lastBlockTouches
  split
  · simp
  · simp only [allInside_cons, Touch.Inside, allInside_nil, and_true]
    omega

theorem allInside_pointer {pointer : UInt32} (inside : ∀ b, target pointer = some b → l.InData b) :
    AllInside l (pointerTouches pointer) := by
  unfold pointerTouches
  split
  next pointing => simpa [Touch.Inside] using inside _ (target_eq_some.mpr ⟨pointing, rfl⟩)
  next => simp

variable {s : Volume} {v : Inode} (placed : Placed s v)

include placed

theorem allInside_directs (i n : Nat) : AllInside s.layout (directTouches v i n) := by
  induction n generalizing i with
  | zero => simp [directTouches]
  | succ n ih =>
    rw [directTouches, allInside_append]
    refine ⟨?_, ih (i + 1)⟩
    split
    next index =>
      have below : i < 9 := index
      refine allInside_pointer fun b found => placed.inData (p := .data ⟨i, by omega⟩) ?_
      rwa [Inode.holds, v.pointer_direct _ below]
    next => simp

theorem allInside_entries (indirect : v.indirect ≠ 0) (i n : Nat) :
    AllInside s.layout (entryTouches (s.device.data v.indirect.toNat) i n) ↔ n = 0 ∨ i + n ≤ 128 := by
  induction n generalizing i with
  | zero => simp [entryTouches]
  | succ n ih =>
    rw [entryTouches, allInside_cons, allInside_append, ih, Touch.Inside]
    by_cases index : i < 128
    · have pointer : AllInside s.layout (pointerTouches ((s.device.data v.indirect.toNat).pointer i)) := by
        refine allInside_pointer fun b found => placed.inData (p := .data ⟨i + 9, by omega⟩) ?_
        rwa [Inode.holds, v.pointer_entry _ (show ¬i + 9 < 9 by omega) indirect, Nat.add_sub_cancel]
      simp only [pointer, true_and, blockSize]
      omega
    · simp only [blockSize]
      omega

theorem truncateTouches_inside_iff (newSize : Nat) :
    AllInside s.layout (truncateTouches v s.device.data newSize) ↔ ¬v.Overreaches newSize := by
  unfold truncateTouches Inode.Overreaches
  by_cases longer : newSize ≥ v.size.toNat
  · simp [longer]
  have shorter : newSize < v.size.toNat := by omega
  rw [if_neg longer]
  dsimp only
  generalize lastBlock v.size.toNat = oldLast
  generalize lastBlock newSize = newLast
  simp only [allInside_append, allInside_lastBlock, allInside_directs placed, true_and, shorter,
    directPtrs, ptrsPerBlock]
  by_cases hole : v.indirect = 0
  · simp [hole]
  have own : s.layout.InData v.indirect.toNat := placed.inData (p := .indirect) (target_eq_some.mpr ⟨hole, rfl⟩)
  -- One arm frees the whole indirect block, up to the old last block at most; the other one counts up to
  -- it unbounded.
  by_cases short : newLast < 9
  · have start : ¬newLast ≥ 9 := by omega
    simp only [short, hole, start, ne_eq, not_false_iff, and_self, true_and, if_true, if_false,
      List.nil_append, allInside_cons,
      allInside_append, allInside_entries placed hole, Touch.Inside, own, allInside_nil, and_true,
        false_and, or_false]
    omega
  · have start : newLast ≥ 9 := by omega
    simp only [short, hole, start, ne_eq, not_false_iff, and_true, true_and, false_and, false_or, if_true,
      if_false]
    by_cases reach : oldLast ≥ 9
    · simp only [reach, if_true, allInside_append, allInside_cons, allInside_nil, Touch.Inside,
        allInside_entries placed hole, and_true, true_and]
      omega
    · simp only [reach, if_false, allInside_nil, true_iff]
      omega

end Inside

inductive FileCall where
  | write (now inodeNum : UInt32) (offset : UInt64) (data : List UInt8)
  | truncate (inodeNum : UInt32) (newSize : UInt64)

namespace FileCall

/-- The volume after a call, whether it succeeds or not; a panic ends the run. -/
def step (s : Volume) (call : FileCall) : Option Volume :=
  let result := match call with
    | write now inodeNum offset data => (do let _ ← writeAt now inodeNum offset.toNat data : FsM Unit) s
    | truncate inodeNum newSize => NextFs.truncate inodeNum newSize.toNat s
  match result with
  | .ok _ t => some t
  | .error (.fs _) t => some t
  | .error .panic _ => none

/-- A write is to a file, and a truncation does not leave entries of freed blocks in the indirect
block. -/
def Orderly (s : Volume) : FileCall → Prop
  | write _ inodeNum _ _ => (s.inode inodeNum.toNat).isFile = true
  | truncate inodeNum newSize => ¬(s.inode inodeNum.toNat).LeavesEntries s.device.data newSize.toNat

theorem standing {live : Nat → Prop} {s t : Volume} {call : FileCall} (standing : Standing live s)
    (orderly : call.Orderly s)
    (taken : step s call = some t) : Standing live t := by
  unfold step at taken
  cases call with
  | write now r offset data =>
    have ends : Ends (do let _ ← writeAt now r offset.toNat data : FsM Unit) s (fun _ t => Standing live t)
        fun _ t => Standing live t :=
      Ends.bind ((standing.ends_writeAt (Standing.not_dir_of_file orderly) now offset.toNat data).imp
        (fun _ _ written => written.2.2.standing) fun _ _ failed => failed.2.standing) fun _ _ next => next
    unfold Ends at ends
    dsimp only at taken
    split at taken <;> simp_all
  | truncate r newSize =>
    have ends := standing.ends_truncate orderly
    unfold Ends at ends
    dsimp only at taken
    split at taken
    next done =>
      cases taken
      rw [done] at ends
      exact ends.2.2.2.standing
    next failed =>
      cases taken
      rw [failed] at ends
      rcases ends with ⟨panic, _⟩ | ⟨_, rfl, _⟩
      · cases panic
      · exact standing
    next => cases taken

end FileCall

/-- Wherever writes and orderly truncations get, a truncation of a file stays inside the indirect
buffer and the data area and subtracts nothing that is too large, if and only if it does not
overreach. -/
theorem truncate_inside {live : Nat → Prop} {start s : Volume} (standing : Standing live start)
    (run : Machine.Reaches FileCall.step (fun s call => call.Orderly s) start s) {r : UInt32}
    (inside : s.layout.InTable r.toNat) (file : (s.inode r.toNat).isFile = true) (newSize : UInt64) :
    Performs (truncateInode (s.inode r.toNat) newSize.toNat)
      s (truncateTouches (s.inode r.toNat) s.device.data newSize.toNat)
        ((s.inode r.toNat).cut newSize.toNat) ∧
      (AllInside s.layout (truncateTouches (s.inode r.toNat) s.device.data newSize.toNat) ↔
        ¬(s.inode r.toNat).Overreaches newSize.toNat) := by
  have standing : Standing live s :=
    run.invariant standing fun _ _ _ standing orderly taken => FileCall.standing standing orderly taken
  have placed := (standing.housed.owned.working (Or.inr ⟨inside, file⟩)).placed
  exact ⟨.truncateInode newSize.toNat fun indirect => placed.indirect_device indirect,
    truncateTouches_inside_iff placed _⟩

theorem truncate_inside_empty :
    ∃ live t, Standing live usedVolume ∧ FileCall.step usedVolume (.write 0 2 0 [3]) = some t ∧
      AllInside t.layout (truncateTouches (t.inode 2) t.device.data 0) := by
  have evaluated : (FileCall.step usedVolume (.write 0 2 0 [3])).map (fun t =>
      (decide (2 < t.layout.inodeCount), (t.inode 2).isFile, decide ((t.inode 2).Overreaches 0))) =
        some (true, true, false) := by
    decide +kernel
  simp only [Option.map_eq_some_iff, Prod.mk.injEq, decide_eq_true_eq, decide_eq_false_iff_not] at evaluated
  obtain ⟨t, done, table, file, fine⟩ := evaluated
  obtain ⟨_, file', _⟩ := usedVolume_inodes
  have run := Machine.Reaches.start.step (a := FileCall.write 0 2 0 [3])
    (show FileCall.Orderly usedVolume (.write 0 2 0 [3]) from file') done
  exact ⟨_, t, usedVolume_standing, done,
    (truncate_inside usedVolume_standing run (r := 2) ⟨by decide, table⟩ file 0).2.mpr fine⟩

/-- A file with an indirect block is grown to one byte more than its pointers reach, and cut again inside
the indirect range. -/
theorem truncate_panics :
    ∃ t, truncate 2 70145 usedVolume = .ok () t ∧ reason (truncate 2 5000) t = some .panic ∧
      .index 512 ∈ truncateTouches (t.inode 2) t.device.data 5000 ∧
      ¬AllInside t.layout (truncateTouches (t.inode 2) t.device.data 5000) := by
  have evaluated : succeeds (truncate 2 70145) usedVolume = true ∧
      reason (truncate 2 5000) (final (truncate 2 70145) usedVolume) = some .panic ∧
      .index 512 ∈ truncateTouches ((final (truncate 2 70145) usedVolume).inode 2)
        (final (truncate 2 70145) usedVolume).device.data 5000 := by decide +kernel
  obtain ⟨grown, panics, past⟩ := evaluated
  refine ⟨_, ok_of_succeeds grown, panics, past, fun inside => ?_⟩
  have fits : 512 + 4 ≤ blockSize := inside _ past
  simp [blockSize] at fits

end PickleOS.NextFs
