import PickleOS.Shared.Machine
import Mathlib.Data.List.Basic
import Mathlib.Logic.Function.Basic

set_option autoImplicit false

/-!
# Reception by the E1000

The driver starts at index 0 of the ring as if it had consumed the slot already.
-/

namespace PickleOS.Driver.Receive

open Shared.Machine

def numRxDesc : Nat := 32

def rxBufferSize : Nat := 2048

-- `RX_DESC_DD`, which the device sets together with `RX_DESC_EOP`.
def descDd : UInt8 := 1
def ddEop : UInt8 := 3

structure Packet where
  number : Nat
  bytes : List UInt8
  deriving DecidableEq

structure RxDesc where
  length : UInt16 := 0
  status : UInt8 := 0

/-- The receiving half of the driver. Descriptor `i` points to buffer `i` from `new` on. -/
structure E1000 where
  rxDescs : Nat → RxDesc
  rxBuffers : Nat → List UInt8
  rxTail : Nat
  -- The registers of the device.
  rdh : Nat
  rdt : Nat

namespace E1000

def new : E1000 where
  rxDescs _ := {}
  rxBuffers _ := List.replicate rxBufferSize 0
  rxTail := 0
  rdh := 0
  rdt := numRxDesc - 1

variable (d : E1000)

def nextRx : Nat := (d.rxTail + 1) % numRxDesc

def done (i : Nat) : Bool := (d.rxDescs i).status &&& descDd ≠ 0

/-- The length that the device reports is clamped to the buffer. -/
def copyPacket : List UInt8 := (d.rxBuffers d.nextRx).take (min (d.rxDescs d.nextRx).length.toNat rxBufferSize)

def release : E1000 :=
  let desc := d.rxDescs d.nextRx
  { d with
    rxDescs := Function.update d.rxDescs d.nextRx { desc with status := 0 }
    rxTail := d.nextRx
    rdt := d.nextRx }

def receive : Option (List UInt8) × E1000 :=
  if !d.done d.nextRx then (none, d) else (some d.copyPacket, d.release)

def store (bytes : List UInt8) : E1000 :=
  let desc : RxDesc := { length := UInt16.ofNat bytes.length, status := (d.rxDescs d.rdh).status ||| ddEop }
  { d with
    rxDescs := Function.update d.rxDescs d.rdh desc
    rxBuffers := Function.update d.rxBuffers d.rdh (bytes ++ (d.rxBuffers d.rdh).drop bytes.length)
    rdh := (d.rdh + 1) % numRxDesc }

end E1000

/-- Where a call of `receive` is. -/
inductive Phase where
  | idle
  | copied (packet : Packet)

structure State where
  nic : E1000
  phase : Phase
  /-- Ghost: the number of the packet in each slot, the packets that were stored, and those `receive`
  returned. -/
  slots : Nat → Nat
  stored : List Packet
  returned : List Packet

def State.initial : State := { nic := .new, phase := .idle, slots := fun _ => 0, stored := [], returned := [] }

inductive Action where
  /-- A packet arrives, and the device has a descriptor for it. -/
  | store (bytes : List UInt8)
  /-- The driver looks at the next descriptor, and copies what it finds. -/
  | poll
  | release

def Action.ofDriver : Action → Bool
  | .store _ => false
  | _ => true

def step (s : State) : Action → Option State
  | .store bytes =>
    -- A packet that finds the ring full is dropped by the device.
    if s.nic.rdh ≠ s.nic.rdt ∧ bytes.length ≤ rxBufferSize then
      some
        { s with
          nic := s.nic.store bytes
          slots := Function.update s.slots s.nic.rdh s.stored.length
          stored := s.stored ++ [⟨s.stored.length, bytes⟩] }
    else none
  | .poll =>
    match s.phase with
    | .idle =>
      if s.nic.done s.nic.nextRx then
        some { s with phase := .copied ⟨s.slots s.nic.nextRx, s.nic.copyPacket⟩ }
      else some s
    | _ => none
  | .release =>
    match s.phase with
    | .copied packet => some { s with nic := s.nic.release, phase := .idle, returned := s.returned ++ [packet] }
    | _ => none

/-- The steps of an undisturbed call that finds a packet are those of `receive`. -/
theorem run_receive (s : State) (idle : s.phase = .idle) (ready : s.nic.done s.nic.nextRx = true) :
    run step s [.poll, .release] = some
      { s with
        nic := s.nic.receive.2
        returned := s.returned ++ (s.nic.receive.1.map (Packet.mk (s.slots s.nic.nextRx))).toList } := by
  simp [run, step, idle, ready, E1000.receive]

/-- Without further arrivals, the calls of `receive` come to have returned what was stored, in order. -/
def Received (s : State) : Prop :=
  ∃ t, Reaches step (fun _ a => a.ofDriver) s t ∧ t.returned = s.stored

/-- Until a call returns something. -/
structure Fresh (s : State) : Prop where
  rxTail : s.nic.rxTail = 0
  rdt : s.nic.rdt = numRxDesc - 1
  rdh : s.nic.rdh = s.stored.length
  room : s.stored.length < numRxDesc
  slots : ∀ i, s.nic.done i = true → i < s.stored.length ∧ s.slots i = i
  phase : ∀ packet, s.phase = .copied packet → packet.number = 1 ∧ 1 < s.stored.length

structure Inv (s : State) : Prop where
  -- Slot 0 is passed over.
  first : s.returned ≠ [] → s.stored ≠ [] ∧ s.returned.head?.map (·.number) = some 1
  fresh : s.returned = [] → Fresh s
  numbered : s.stored ≠ [] → s.stored.head?.map (·.number) = some 0

namespace Inv

variable {s t : State}

theorem initial : Inv .initial := by
  refine ⟨fun some => (some rfl).elim, fun _ => ?_, fun some => (some rfl).elim⟩
  refine ⟨rfl, rfl, rfl, by decide, fun i ready => ?_, nofun⟩
  simp [State.initial, E1000.done, E1000.new] at ready

theorem step {a : Action} (inv : Inv s) (taken : step s a = some t) : Inv t := by
  unfold Receive.step at taken
  cases a with
  | store bytes =>
    simp only [Option.ite_none_right_eq_some, Option.some.injEq] at taken
    obtain ⟨⟨room, _⟩, rfl⟩ := taken
    refine ⟨fun some => ⟨by simp, (inv.first some).2⟩, fun none => ?_, fun _ => ?_⟩
    · have fresh := inv.fresh none
      have below : s.stored.length + 1 < numRxDesc := by
        have := fresh.room
        rw [fresh.rdh, fresh.rdt] at room
        omega
      refine ⟨fresh.rxTail, fresh.rdt, ?_, by simpa using below, fun i ready => ?_, fun packet copied => ?_⟩
      · simp [E1000.store, fresh.rdh, Nat.mod_eq_of_lt below]
      · by_cases here : i = s.nic.rdh
        · subst here
          simp [fresh.rdh]
        · have before : s.nic.done i = true := by simpa [E1000.done, E1000.store, here] using ready
          obtain ⟨inside, same⟩ := fresh.slots i before
          simp only [List.length_append, List.length_singleton]
          exact ⟨by omega, by simpa [here] using same⟩
      · obtain ⟨number, more⟩ := fresh.phase packet copied
        simp only [List.length_append, List.length_singleton]
        exact ⟨number, by omega⟩
    · cases stored : s.stored with
      | nil => rfl
      | cons p rest => simpa [stored] using inv.numbered (by simp [stored])
  | poll =>
    dsimp only at taken
    split at taken
    next idle =>
      split at taken
      next ready =>
        cases taken
        refine ⟨inv.first, fun none => ?_, inv.numbered⟩
        have fresh := inv.fresh none
        refine { fresh with phase := fun packet copied => ?_ }
        cases copied
        have next : s.nic.nextRx = 1 := by simp [E1000.nextRx, fresh.rxTail, numRxDesc]
        obtain ⟨inside, same⟩ := fresh.slots _ ready
        rw [next] at inside same ⊢
        exact ⟨same, inside⟩
      · cases taken
        exact inv
    · cases taken
  | release =>
    dsimp only at taken
    split at taken
    next packet copied =>
      cases taken
      refine ⟨fun _ => ?_, fun none => by simp at none, inv.numbered⟩
      cases returned : s.returned with
      | nil =>
        obtain ⟨number, more⟩ := (inv.fresh returned).phase packet copied
        refine ⟨?_, by simp [number]⟩
        intro (empty : s.stored = [])
        simp [empty] at more
      | cons p rest => simpa [returned] using inv.first (by simp [returned])
    · cases taken

end Inv

theorem inv_of_reaches {allowed : State → Action → Prop} {s t : State} (inv : Inv s)
    (run : Reaches step allowed s t) : Inv t :=
  run.invariant inv fun _ _ _ inv _ taken => inv.step taken

/-- The packet that arrives first is not received in its turn, and so `receive` does what it should
only while none has arrived. -/
theorem received_iff {s : State} (run : Reaches step (fun _ _ => True) .initial s) :
    Received s ↔ s.stored = [] := by
  have inv := inv_of_reaches .initial run
  constructor
  · rintro ⟨t, drain, all⟩
    by_contra some
    have after := inv_of_reaches inv drain
    have returned : t.returned ≠ [] := by rwa [all]
    have first := (after.first returned).2
    rw [all, inv.numbered some] at first
    cases first
  · intro none
    refine ⟨s, .start, ?_⟩
    by_contra some
    exact (inv.first fun empty => some (empty.trans none.symm)).1 none

theorem received_iff_none :
    ∃ s, run step .initial [.poll, .poll] = some s ∧ s.stored = [] ∧ Received s := by
  have done : run step .initial [.poll, .poll] = some .initial := by rfl
  exact ⟨.initial, done, rfl, (received_iff (.of_run .start done)).mpr rfl⟩

theorem first_packet_stuck :
    ∃ s, run step .initial [.store [1, 2, 3]] = some s ∧ s.stored = [⟨0, [1, 2, 3]⟩] ∧
    s.nic.receive.1 = none ∧
      ∀ t, Reaches step (fun _ a => a.ofDriver) s t → t.returned = [] := by
  refine ⟨_, rfl, rfl, by decide, fun t drain => ?_⟩
  -- No step of the driver changes anything.
  refine (drain.invariant (motive := fun t => t = _) rfl ?_) ▸ rfl
  rintro s a t rfl driver taken
  cases a with
  | store => cases driver
  | poll => exact (Option.some.inj taken).symm
  | release => cases taken

end PickleOS.Driver.Receive
