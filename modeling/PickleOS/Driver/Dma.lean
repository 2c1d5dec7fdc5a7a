import PickleOS.Shared.Machine
import PickleOS.Shared.Map
import PickleOS.Shared.Words
import Mathlib.Data.List.Pairwise

set_option autoImplicit false

/-!
# The DMA pool

Sessions of several tasks, and allocations for good, in any order. `u64` wraps, as in the release
build, which has no `debug_assert` either.
-/

namespace PickleOS.Driver.Dma

open Shared Shared.Machine

def dmaPoolPhysBase : UInt64 := 64 * 1024 * 1024
def dmaPoolSize : UInt64 := 8 * 1024 * 1024
def dmaPoolVirtBase : UInt64 := 0xFFFF_FF00_0000_0000
def pageSize : UInt64 := 4096

structure DmaAllocator where
  nextOffset : UInt64
  size : UInt64
  inMark : Bool

namespace DmaAllocator

def new (size : UInt64) : DmaAllocator := { nextOffset := 0, size := size, inMark := false }

variable (a : DmaAllocator)

def allocate (size align : UInt64) : Option (UInt64 × UInt64) × DmaAllocator :=
  let offset := (a.nextOffset + align - 1) &&& ~~~(align - 1)
  if offset + size > a.size then (none, a)
  else (some (dmaPoolVirtBase + offset, dmaPoolPhysBase + offset), { a with nextOffset := offset + size })

def allocDma (size : UInt64) : Option (UInt64 × UInt64 × UInt64) × DmaAllocator :=
  let rounded := (size + pageSize - 1) / pageSize * pageSize
  match a.allocate rounded pageSize with
  | (some (virt, phys), a) => (some (virt, phys, rounded), a)
  | (none, a) => (none, a)

def mark : UInt64 × DmaAllocator := (a.nextOffset, { a with inMark := true })

def resetTo (mark : UInt64) : DmaAllocator :=
  let a := { a with inMark := false }
  if mark ≤ a.nextOffset then { a with nextOffset := mark } else a

end DmaAllocator

abbrev SessionId := Nat

/-- An allocation that is live. One without a session lives for good. -/
structure Allocation where
  session : Option SessionId
  phys : UInt64
  -- The pages that were asked for.
  bytes : Nat
  deriving DecidableEq

def Allocation.Covers (a : Allocation) (addr : Nat) : Prop :=
  a.phys.toNat ≤ addr ∧ addr < a.phys.toNat + a.bytes

def Allocation.Inside (a : Allocation) : Prop :=
  dmaPoolPhysBase.toNat ≤ a.phys.toNat ∧ a.phys.toNat + a.bytes ≤ dmaPoolPhysBase.toNat + dmaPoolSize.toNat

structure State where
  allocator : DmaAllocator
  marks : Map SessionId UInt64
  /-- Ghost. -/
  live : List Allocation

def State.initial : State := { allocator := .new dmaPoolSize, marks := ∅, live := [] }

inductive Action where
  | mark (session : SessionId)
  | allocDma (session : Option SessionId) (size : UInt64)
  | resetTo (session : SessionId)

def wholePages (size : UInt64) : Nat := (size.toNat + 4095) / 4096 * 4096

def step (s : State) : Action → Option State
  | .mark session =>
    if session ∈ s.marks then none
    else some { s with allocator := s.allocator.mark.2, marks := s.marks.insert session s.allocator.mark.1 }
  | .allocDma session size =>
    if session.all (· ∈ s.marks) then
      match s.allocator.allocDma size with
      | (some (_, phys, _), allocator) =>
        some { s with allocator := allocator, live := ⟨session, phys, wholePages size⟩ :: s.live }
      | (none, allocator) => some { s with allocator := allocator }
    else none
  | .resetTo session =>
    (s.marks.lookup session).map fun mark =>
      { allocator := s.allocator.resetTo mark
        marks := s.marks.erase session
        live := s.live.filter fun a => a.session ≠ some session }

/-- Nothing that outlives the session lies above its mark, and no size wraps. -/
def harmless (s : State) : Action → Bool
  | .mark _ => true
  | .allocDma _ size => s.allocator.nextOffset.toNat + wholePages size < UInt64.size
  | .resetTo session =>
    s.live.all fun a => a.session = some session || a.bytes = 0 || (s.marks.lookup session).all fun mark =>
      s.allocator.nextOffset < mark || a.phys.toNat + a.bytes ≤ dmaPoolPhysBase.toNat + mark.toNat

structure Separate (s : State) : Prop where
  apart : s.live.Pairwise fun a b => ∀ addr, ¬(a.Covers addr ∧ b.Covers addr)
  inside : ∀ a ∈ s.live, a.Inside

namespace DmaAllocator

variable {a : DmaAllocator} {size : UInt64}

structure Even (a : DmaAllocator) : Prop where
  size : a.size = dmaPoolSize
  aligned : a.nextOffset.toNat % 4096 = 0
  low : a.nextOffset.toNat ≤ dmaPoolSize.toNat

theorem Even.offset (even : Even a) : (a.nextOffset + pageSize - 1) &&& ~~~(pageSize - 1) = a.nextOffset := by
  have mask : (~~~(pageSize - 1)).toNat = (2 ^ (64 - 12) - 1) * 2 ^ 12 := by decide
  have aligned := even.aligned
  have low := even.low
  refine UInt64.toNat_inj.mp ?_
  have sum : (a.nextOffset + pageSize - 1).toNat = a.nextOffset.toNat + 4095 := by
    simp only [UInt64.toNat_sub, UInt64.toNat_add, pageSize, dmaPoolSize] at *
    simp at *
    omega
  rw [Words.toNat_and_mask _ (by decide) mask, sum]
  omega

theorem Even.phys (even : Even a) : (dmaPoolPhysBase + a.nextOffset).toNat = dmaPoolPhysBase.toNat +
    a.nextOffset.toNat := by
  have low := even.low
  rw [UInt64.toNat_add]
  simp [dmaPoolPhysBase, dmaPoolSize] at *
  omega

theorem Even.allocDma (even : Even a) : a.allocDma size =
    let rounded := (size + pageSize - 1) / pageSize * pageSize
    if a.nextOffset + rounded > dmaPoolSize then (none, a)
    else (some (dmaPoolVirtBase + a.nextOffset, dmaPoolPhysBase + a.nextOffset, rounded),
      { a with nextOffset := a.nextOffset + rounded }) := by
  simp only [DmaAllocator.allocDma, allocate, even.offset, even.size]
  split <;> split <;> simp_all

theorem rounded_toNat (short : wholePages size < UInt64.size) :
    ((size + pageSize - 1) / pageSize * pageSize).toNat = wholePages size := by
  have bound := size.toNat_lt
  unfold wholePages at *
  simp only [UInt64.toNat_mul, UInt64.toNat_div, UInt64.toNat_sub, UInt64.toNat_add, pageSize, UInt64.size] at *
  simp at *
  omega

theorem Even.allocDma_cases (even : Even a) (fits : a.nextOffset.toNat + wholePages size < UInt64.size) :
    (dmaPoolSize.toNat < a.nextOffset.toNat + wholePages size ∧ a.allocDma size = (none, a)) ∨
      ∃ virt rounded, (a.nextOffset + rounded).toNat = a.nextOffset.toNat + wholePages size ∧
        (a.nextOffset + rounded).toNat ≤ dmaPoolSize.toNat ∧
        a.allocDma size = (some (virt, dmaPoolPhysBase + a.nextOffset, rounded),
          { a with nextOffset := a.nextOffset + rounded }) := by
  -- A request that does not wrap.
  have rounded := rounded_toNat (Nat.lt_of_le_of_lt (Nat.le_add_left ..) fits)
  have sum : (a.nextOffset + (size + pageSize - 1) / pageSize * pageSize).toNat = a.nextOffset.toNat +
    wholePages size := by
    rw [UInt64.toNat_add, rounded]
    exact Nat.mod_eq_of_lt fits
  rw [even.allocDma]
  dsimp only
  split
  next large =>
    left
    rw [gt_iff_lt, UInt64.lt_iff_toNat_lt, sum] at large
    exact ⟨large, rfl⟩
  next small =>
    right
    rw [gt_iff_lt, UInt64.lt_iff_toNat_lt, Nat.not_lt] at small
    exact ⟨_, _, sum, small, rfl⟩

theorem Even.allocDma_wraps (even : Even a) (wraps : UInt64.size ≤ a.nextOffset.toNat + wholePages size) :
    ∃ virt rounded, a.allocDma size =
      (some (virt, dmaPoolPhysBase + a.nextOffset, rounded),
      { a with nextOffset := a.nextOffset + rounded }) := by
  -- A request that wraps is granted.
  have low := even.low
  have less : (a.nextOffset + (size + pageSize - 1) / pageSize * pageSize).toNat ≤ a.nextOffset.toNat := by
    by_cases short : wholePages size < UInt64.size
    · have rounded := rounded_toNat short
      have below := a.nextOffset.toNat_lt
      rw [UInt64.toNat_add, rounded]
      simp only [UInt64.size] at *
      omega
    · -- The rounding itself wraps, and asks for nothing.
      have bound := size.toNat_lt
      have none : ((size + pageSize - 1) / pageSize * pageSize).toNat = 0 := by
        unfold wholePages at short
        simp only [UInt64.toNat_mul, UInt64.toNat_div, UInt64.toNat_sub, UInt64.toNat_add, pageSize,
          UInt64.size] at *
        simp at *
        omega
      rw [UInt64.toNat_add, none, Nat.add_zero]
      exact Nat.mod_le ..
  rw [even.allocDma]
  dsimp only
  rw [if_neg]
  · exact ⟨_, _, rfl⟩
  · rw [gt_iff_lt, UInt64.lt_iff_toNat_lt]
    omega

end DmaAllocator

/-- What every step keeps, harmless or not. -/
structure Steady (s : State) : Prop where
  even : s.allocator.Even
  marks : ∀ session mark, s.marks.lookup session = some mark → mark.toNat % 4096 = 0 ∧
  mark.toNat ≤ dmaPoolSize.toNat

theorem Steady.initial : Steady .initial where
  even := ⟨rfl, rfl, by decide⟩
  marks := by simp [State.initial]

theorem DmaAllocator.Even.allocDma_even {a : DmaAllocator} (even : a.Even) (size : UInt64) :
    (a.allocDma size).2.Even := by
  rw [even.allocDma]
  dsimp only
  split
  next => exact even
  next small =>
    have aligned := even.aligned
    refine ⟨even.size, ?_, Nat.le_of_not_lt fun large => small (UInt64.lt_iff_toNat_lt.mpr large)⟩
    have pages : pageSize.toNat = 4096 := rfl
    simp only [UInt64.toNat_add, UInt64.toNat_mul, pages]
    omega

theorem Steady.step {s t : State} {a : Action} (steady : Steady s) (taken : step s a = some t) : Steady t := by
  unfold Dma.step at taken
  cases a with
  | mark session =>
    simp only [Option.ite_none_left_eq_some, Option.some.injEq] at taken
    obtain ⟨_, rfl⟩ := taken
    refine ⟨⟨steady.even.size, steady.even.aligned, steady.even.low⟩, fun other mark found => ?_⟩
    rw [Map.lookup_insert_eq] at found
    split at found
    · cases found
      exact ⟨steady.even.aligned, steady.even.low⟩
    · exact steady.marks other mark found
  | allocDma session size =>
    simp only [Option.ite_none_right_eq_some] at taken
    obtain ⟨_, taken⟩ := taken
    have even := steady.even.allocDma_even size
    split at taken
    all_goals
      next _ granted =>
        rw [granted] at even
        cases taken
        exact ⟨even, steady.marks⟩
  | resetTo session =>
    simp only [Option.map_eq_some_iff] at taken
    obtain ⟨mark, found, rfl⟩ := taken
    obtain ⟨aligned, low⟩ := steady.marks session mark found
    constructor
    · unfold DmaAllocator.resetTo
      dsimp only
      split
      · exact ⟨steady.even.size, aligned, low⟩
      · exact ⟨steady.even.size, steady.even.aligned, steady.even.low⟩
    · intro other mark found
      dsimp only at found
      rw [Map.lookup_erase_eq] at found
      split at found
      · cases found
      · exact steady.marks other mark found

/-- What is live and not empty ends below the next offset. -/
structure Inv (s : State) : Prop where
  even : s.allocator.Even
  marks : ∀ session mark, s.marks.lookup session = some mark → mark.toNat % 4096 = 0 ∧
  mark.toNat ≤ dmaPoolSize.toNat
  separate : Separate s
  below : ∀ a ∈ s.live, a.bytes ≠ 0 → a.phys.toNat + a.bytes ≤ dmaPoolPhysBase.toNat +
    s.allocator.nextOffset.toNat

theorem Inv.initial : Inv .initial where
  even := ⟨rfl, rfl, by decide⟩
  marks := by simp [State.initial]
  separate := ⟨.nil, by simp [State.initial]⟩
  below := by simp [State.initial]

theorem Inv.step {s t : State} {a : Action} (inv : Inv s) (fine : harmless s a)
    (taken : step s a = some t) : Inv t := by
  have steady := Steady.step ⟨inv.even, inv.marks⟩ taken
  unfold Dma.step at taken
  cases a with
  | mark session =>
    simp only [Option.ite_none_left_eq_some, Option.some.injEq] at taken
    obtain ⟨_, rfl⟩ := taken
    exact ⟨steady.even, steady.marks, ⟨inv.separate.apart, inv.separate.inside⟩, inv.below⟩
  | allocDma session size =>
    simp only [Option.ite_none_right_eq_some] at taken
    obtain ⟨_, taken⟩ := taken
    obtain ⟨_, full⟩ | ⟨virt, rounded, sum, room, granted⟩ := inv.even.allocDma_cases (of_decide_eq_true fine)
    · rw [full] at taken
      cases taken
      exact inv
    · rw [granted] at taken
      cases taken
      have phys := inv.even.phys
      have whole : wholePages size % 4096 = 0 := Nat.mul_mod_left ..
      have aligned := inv.even.aligned
      refine ⟨steady.even, steady.marks, ⟨List.pairwise_cons.mpr ⟨?_, inv.separate.apart⟩, ?_⟩, ?_⟩
      · rintro b member addr ⟨⟨low, _⟩, _, high⟩
        have bound := inv.below b member (by omega)
        dsimp only at low
        omega
      · intro b member
        cases List.mem_cons.mp member with
        | inl new =>
          subst new
          refine ⟨?_, ?_⟩ <;> dsimp only <;> omega
        | inr old => exact inv.separate.inside b old
      · intro b member filled
        dsimp only
        cases List.mem_cons.mp member with
        | inl new =>
          subst new
          dsimp only
          omega
        | inr old =>
          have bound := inv.below b old filled
          omega
  | resetTo session =>
    simp only [Option.map_eq_some_iff] at taken
    obtain ⟨mark, found, rfl⟩ := taken
    have left : ∀ b, b ∈ s.live.filter (fun a => a.session ≠ some session) → b ∈ s.live := fun b =>
      List.mem_of_mem_filter
    refine ⟨steady.even, steady.marks, ⟨inv.separate.apart.filter _,
      fun b member => inv.separate.inside b (left b member)⟩, ?_⟩
    · intro b member filled
      have bound := inv.below b (left b member) filled
      have other := (List.mem_filter.mp member).2
      simp only [harmless, found, List.all_eq_true] at fine
      have fine := fine b (left b member)
      simp at other
      simp only [other, filled, decide_false, Bool.false_or, Option.all_some, Bool.or_eq_true,
        decide_eq_true_eq,
        UInt64.lt_iff_toNat_lt] at fine
      unfold DmaAllocator.resetTo
      dsimp only
      split
      next back =>
        rw [UInt64.le_iff_toNat_le] at back
        exact fine.resolve_left (by omega)
      · exact bound

theorem Inv.oversized {s t : State} {session : Option SessionId} {size : UInt64} (inv : Inv s)
    (bad : harmless s (.allocDma session size) = false)
    (taken : Dma.step s (.allocDma session size) = some t) : ¬Separate t := by
  -- A size that wraps is granted beyond the end of the pool.
  have wraps : UInt64.size ≤ s.allocator.nextOffset.toNat + wholePages size :=
    Nat.le_of_not_lt (of_decide_eq_false bad)
  obtain ⟨virt, rounded, granted⟩ := inv.even.allocDma_wraps wraps
  unfold Dma.step at taken
  simp only [Option.ite_none_right_eq_some, granted, Option.some.injEq] at taken
  obtain ⟨_, rfl⟩ := taken
  intro separate
  have inside := (separate.inside _ (List.mem_cons_self ..)).2
  dsimp only at inside
  rw [inv.even.phys] at inside
  have pool : dmaPoolSize.toNat = 8388608 := rfl
  have base : dmaPoolPhysBase.toNat = 67108864 := rfl
  unfold UInt64.size at wraps
  omega

theorem step_granted {s : State} {size virt phys rounded : UInt64} {allocator : DmaAllocator}
    (granted : s.allocator.allocDma size = (some (virt, phys, rounded), allocator)) :
    Dma.step s (.allocDma none size) =
      some { s with allocator := allocator, live := ⟨none, phys, wholePages size⟩ :: s.live } := by
  simp only [Dma.step, Option.all_none, if_true, granted]

theorem Inv.rewound {s t : State} {session : SessionId} (inv : Inv s)
    (bad : harmless s (.resetTo session) = false)
    (taken : Dma.step s (.resetTo session) = some t) : ∃ size u,
    Dma.step t (.allocDma none size) = some u ∧ ¬Separate u := by
  -- After the mark is gone back to, the rest of the pool is free to be asked for.
  unfold Dma.step at taken
  simp only [Option.map_eq_some_iff] at taken
  obtain ⟨mark, found, rfl⟩ := taken
  obtain ⟨aligned, low⟩ := inv.marks session mark found
  simp only [harmless, found, List.all_eq_false, Option.all_some, Bool.or_eq_true, decide_eq_true_eq,
    not_or] at bad
  obtain ⟨b, member, ⟨other, filled⟩, back, above⟩ := bad
  simp only [UInt64.lt_iff_toNat_lt, Nat.not_lt] at back
  have rewinds : s.allocator.resetTo mark = { s.allocator with inMark := false, nextOffset := mark } := by
    unfold DmaAllocator.resetTo
    dsimp only
    rw [if_pos (UInt64.le_iff_toNat_le.mpr back)]
  have even : (s.allocator.resetTo mark).Even := by
    rw [rewinds]
    exact ⟨inv.even.size, aligned, low⟩
  have pool : dmaPoolSize.toNat = 8388608 := rfl
  have base : dmaPoolPhysBase.toNat = 67108864 := rfl
  -- All that is left of the pool.
  have size : (dmaPoolSize - mark).toNat = dmaPoolSize.toNat - mark.toNat :=
    UInt64.toNat_sub_of_le _ _ (UInt64.le_iff_toNat_le.mpr low)
  have whole : wholePages (dmaPoolSize - mark) = dmaPoolSize.toNat - mark.toNat := by
    unfold wholePages
    rw [size]
    omega
  have next : (s.allocator.resetTo mark).nextOffset = mark := by rw [rewinds]
  have phys := even.phys
  rw [next] at phys
  have fits : (s.allocator.resetTo mark).nextOffset.toNat + wholePages (dmaPoolSize - mark) < UInt64.size := by
    rw [next, whole]
    unfold UInt64.size
    omega
  obtain ⟨full, _⟩ | ⟨virt, rounded, _, _, granted⟩ := even.allocDma_cases fits
  · rw [next, whole] at full
    omega
  · rw [next] at granted
    refine ⟨dmaPoolSize - mark, _, step_granted granted, ?_⟩
    · intro separate
      have kept : b ∈ s.live.filter (fun a => a.session ≠ some session) :=
        List.mem_filter.mpr ⟨member, by simpa using other⟩
      have apart := (List.pairwise_cons.mp separate.apart).1 b kept (b.phys.toNat + b.bytes - 1)
      have inside := (inv.separate.inside b member).2
      refine apart ⟨⟨?_, ?_⟩, ?_, ?_⟩
      · dsimp only
        omega
      · dsimp only
        omega
      · omega
      · omega

/-- Live allocations stay apart as long as no session goes back below one that outlives it, and no
size wraps. After any other step an allocation may overlap one that is live, or lie outside of the
pool. -/
theorem allocations_separate {s : State} (run : Reaches step (fun s a => harmless s a = true) .initial s) :
    Separate s ∧ ∀ a t, step s a = some t → harmless s a = false →
      ∃ u, Reaches step (fun _ _ => True) t u ∧ ¬Separate u := by
  have inv : Inv s := run.invariant .initial fun _ _ _ inv fine taken => inv.step fine taken
  refine ⟨inv.separate, fun a t taken bad => ?_⟩
  cases a with
  | mark => cases bad
  | allocDma session size => exact ⟨t, .start, inv.oversized bad taken⟩
  | resetTo session =>
    obtain ⟨size, u, next, overlap⟩ := inv.rewound bad taken
    exact ⟨u, .step .start trivial next, overlap⟩

theorem allocations_separate_sessions :
    ∃ s, replay step (fun s a => harmless s a = true) .initial
        [.mark 0, .allocDma (some 0) 512, .allocDma (some 0) 256, .resetTo 0, .allocDma none 2048, .mark 1,
          .allocDma (some 1) 8192] = some s ∧
      s.live = [⟨some 1, 0x4001000, 8192⟩, ⟨none, 0x4000000, 4096⟩] ∧ Separate s := by
  have result : (replay step (fun s a => harmless s a = true) .initial
      [.mark 0, .allocDma (some 0) 512, .allocDma (some 0) 256, .resetTo 0, .allocDma none 2048, .mark 1,
        .allocDma (some 1) 8192]).map (·.live) = some [⟨some 1, 0x4001000, 8192⟩, ⟨none, 0x4000000, 4096⟩] := by
    decide
  obtain ⟨s, done, live⟩ := Option.map_eq_some_iff.mp result
  exact ⟨s, done, live, (allocations_separate (.of_replay (fun _ _ => id) .start done)).1⟩

/-- The first session ends while the second is open, and the third gets the buffer of the second. -/
theorem sessions_overlap :
    ∃ s, run step .initial
        [.mark 0, .allocDma (some 0) 512, .mark 1, .allocDma (some 1) 512, .resetTo 0, .mark 2,
        .allocDma (some 2) 8192] =
          some s ∧
      s.live = [⟨some 2, 0x4000000, 8192⟩, ⟨some 1, 0x4001000, 4096⟩] ∧ ¬Separate s := by
  have result : (run step .initial
      [.mark 0, .allocDma (some 0) 512, .mark 1, .allocDma (some 1) 512, .resetTo 0, .mark 2,
        .allocDma (some 2) 8192]).map (·.live) =
          some [⟨some 2, 0x4000000, 8192⟩, ⟨some 1, 0x4001000, 4096⟩] := by
    decide
  obtain ⟨s, done, live⟩ := Option.map_eq_some_iff.mp result
  refine ⟨s, done, live, fun separate => ?_⟩
  have apart := separate.apart
  rw [live] at apart
  exact (List.pairwise_cons.mp apart).1 _ (List.mem_singleton_self _)
    0x4001000 (by constructor <;> constructor <;> decide)

end PickleOS.Driver.Dma
