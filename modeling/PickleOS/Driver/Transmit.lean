import PickleOS.Shared.Machine
import Mathlib.Data.List.Basic
import Mathlib.Data.Nat.ModEq
import Mathlib.Logic.Function.Basic

set_option autoImplicit false

/-!
# Transmission by the E1000

The device works at the ring while `transmit` does, so a call is cut at its accesses to what they share.
-/

namespace PickleOS.Driver.Transmit

open Shared.Machine

def numTxDesc : Nat := 16

def txBufferSize : Nat := 2048

-- `TX_DESC_STA_DD`, and `TX_DESC_CMD_EOP | TX_DESC_CMD_RS`.
def staDd : UInt8 := 1
def cmdEopRs : UInt8 := 9

abbrev Packet := List UInt8

structure TxDesc where
  length : UInt16 := 0
  cmd : UInt8 := 0
  status : UInt8

/-- The transmitting half of the driver. Descriptor `i` points to buffer `i` from `new` on. -/
structure E1000 where
  txDescs : Nat → TxDesc
  txBuffers : Nat → List UInt8
  txTail : Nat
  -- The registers of the device.
  tdh : Nat
  tdt : Nat

namespace E1000

def new : E1000 where
  txDescs _ := { status := staDd }
  txBuffers _ := List.replicate txBufferSize 0
  txTail := 0
  tdh := 0
  tdt := 0

variable (d : E1000)

def done (i : Nat) : Bool := (d.txDescs i).status &&& staDd ≠ 0

def frame (i : Nat) : Packet := (d.txBuffers i).take (d.txDescs i).length.toNat

def check (data : Packet) : Except String Unit :=
  if data.length > txBufferSize then .error "Packet too large"
  else if !d.done d.txTail then .error "TX ring full"
  else .ok ()

def copyPacket (data : Packet) : E1000 :=
  { d with txBuffers := Function.update d.txBuffers d.txTail (data ++ (d.txBuffers d.txTail).drop data.length) }

def setupDescriptor (data : Packet) : E1000 :=
  let desc : TxDesc := { length := UInt16.ofNat data.length, cmd := cmdEopRs, status := 0 }
  { d with txDescs := Function.update d.txDescs d.txTail desc }

def updateTail : E1000 :=
  let nextTail := (d.txTail + 1) % numTxDesc
  { d with txTail := nextTail, tdt := nextTail }

def transmit (data : Packet) : Except String E1000 := do
  d.check data
  return ((d.copyPacket data).setupDescriptor data).updateTail

def complete : E1000 :=
  let desc := d.txDescs d.tdh
  { d with
    txDescs := Function.update d.txDescs d.tdh { desc with status := desc.status ||| staDd }
    tdh := (d.tdh + 1) % numTxDesc }

end E1000

/-- Where a call of `transmit` is. -/
inductive Phase where
  | idle
  | checked (data : Packet)
  | copied (data : Packet)
  | filled (data : Packet)

structure State where
  nic : E1000
  phase : Phase
  /-- Ghost: the packets for which `transmit` returned `Ok`, and those that were sent. -/
  accepted : List Packet
  sent : List Packet

def State.initial : State := { nic := .new, phase := .idle, accepted := [], sent := [] }

inductive Action where
  | call (data : Packet)
  | copyPacket
  | setupDescriptor
  | updateTail
  | send

def step (s : State) : Action → Option State
  | .call data =>
    match s.phase with
    | .idle =>
      match s.nic.check data with
      | .error _ => some s
      | .ok () => some { s with phase := .checked data }
    | _ => none
  | .copyPacket =>
    match s.phase with
    | .checked data => some { s with nic := s.nic.copyPacket data, phase := .copied data }
    | _ => none
  | .setupDescriptor =>
    match s.phase with
    | .copied data => some { s with nic := s.nic.setupDescriptor data, phase := .filled data }
    | _ => none
  | .updateTail =>
    match s.phase with
    | .filled data => some { s with nic := s.nic.updateTail, phase := .idle, accepted := s.accepted ++ [data] }
    | _ => none
  | .send =>
    if s.nic.tdh ≠ s.nic.tdt then some { s with nic := s.nic.complete, sent :=
      s.sent ++ [s.nic.frame s.nic.tdh] }
    else none

theorem run_transmit (s : State) (idle : s.phase = .idle) (data : Packet) :
    run step s [.call data, .copyPacket, .setupDescriptor, .updateTail] =
      match s.nic.transmit data with
      | .ok nic => some { s with nic := nic, accepted := s.accepted ++ [data] }
      | .error _ => none := by
  -- The steps of an undisturbed call are those of `transmit`.
  cases checked : s.nic.check data <;> simp [run, step, idle, checked, E1000.transmit, bind, Except.bind,
    pure, Except.pure]

def State.unsent (s : State) : Nat := s.accepted.length - s.sent.length

/-- One slot of the ring stays free when the tail moves on. -/
def spare (s : State) : Action → Bool
  | .updateTail => s.unsent < numTxDesc - 1
  | _ => true

/-- What was accepted is sent in order, unchanged, and the device knows of it while it is not. -/
structure Delivered (s : State) : Prop where
  order : s.sent <+: s.accepted
  -- The buffer of a packet is left alone until the packet is sent.
  kept : ∀ k, s.sent.length ≤ k → ∀ data, s.accepted[k]? = some data → s.nic.frame (k % numTxDesc) = data
  seen : s.sent.length < s.accepted.length → s.nic.tdh ≠ s.nic.tdt
  all : ∃ t, Reaches step (fun _ a => a = .send) s t ∧ t.accepted = s.accepted ∧ t.sent = s.accepted

/-- The packet in the hands of `transmit`, at the slot of the tail. -/
def Handed (s : State) : Phase → Prop
  | .idle => True
  | .checked data => data.length ≤ txBufferSize ∧ s.unsent < numTxDesc
  | .copied data =>
    data.length ≤ txBufferSize ∧ s.unsent < numTxDesc ∧ (s.nic.txBuffers s.nic.txTail).take data.length = data
  | .filled data => s.unsent < numTxDesc ∧ s.nic.frame s.nic.txTail = data ∧ s.nic.done s.nic.txTail = false

structure Inv (s : State) : Prop where
  tail : s.nic.txTail = s.accepted.length % numTxDesc
  tdt : s.nic.tdt = s.accepted.length % numTxDesc
  tdh : s.nic.tdh = s.sent.length % numTxDesc
  order : s.sent <+: s.accepted
  room : s.unsent ≤ numTxDesc
  kept : ∀ k, s.sent.length ≤ k → ∀ data, s.accepted[k]? = some data → s.nic.frame (k % numTxDesc) = data
  busy : ∀ k, s.sent.length ≤ k → k < s.accepted.length → s.nic.done (k % numTxDesc) = false
  handed : Handed s s.phase

namespace E1000

variable (d : E1000) (data : Packet) {i : Nat}

theorem frame_copyPacket (other : i ≠ d.txTail) : (d.copyPacket data).frame i = d.frame i := by
  simp [frame, copyPacket, other]

theorem frame_setupDescriptor (other : i ≠ d.txTail) : (d.setupDescriptor data).frame i = d.frame i := by
  simp [frame, setupDescriptor, other]

theorem frame_filled (short : data.length ≤ txBufferSize)
    (copied : (d.txBuffers d.txTail).take data.length = data) :
    (d.setupDescriptor data).frame d.txTail = data := by
  have fits : data.length < UInt16.size := Nat.lt_of_le_of_lt short (by decide)
  simpa [frame, setupDescriptor, UInt16.toNat_ofNat_of_lt' fits] using copied

theorem done_setupDescriptor (other : i ≠ d.txTail) : (d.setupDescriptor data).done i = d.done i := by
  simp [done, setupDescriptor, other]

theorem frame_complete (i : Nat) : d.complete.frame i = d.frame i := by
  by_cases here : i = d.tdh
  · subst here
    simp [frame, complete]
  · simp [frame, complete, here]

theorem done_complete (other : i ≠ d.tdh) : d.complete.done i = d.done i := by
  simp [done, complete, other]

end E1000

namespace Inv

variable {s t : State}

theorem initial : Inv .initial := by
  constructor <;> simp [State.initial, E1000.new, State.unsent, Handed]

theorem sent_le (inv : Inv s) : s.sent.length ≤ s.accepted.length := inv.order.length_le

theorem apart (inv : Inv s) (room : s.unsent < numTxDesc) {k : Nat} (low : s.sent.length ≤ k)
    (high : k < s.accepted.length) :
    k % numTxDesc ≠ s.nic.txTail := by
  -- A slot that waits is not the one of the tail.
  have tail := inv.tail
  unfold State.unsent at room
  unfold numTxDesc at *
  omega

theorem waits {k : Nat} {data : Packet} (here : s.accepted[k]? = some data) : k < s.accepted.length :=
  (List.getElem?_eq_some_iff.mp here).1

theorem call (inv : Inv s) {data : Packet} (fine : s.nic.check data = .ok ()) :
    Inv { s with phase := .checked data } := by
  have short : data.length ≤ txBufferSize ∧ s.nic.done s.nic.txTail = true := by
    unfold E1000.check at fine
    split at fine
    · cases fine
    next short =>
      split at fine
      · cases fine
      next free => exact ⟨by omega, by simpa using free⟩
  -- Were all descriptors taken, the one at the tail would be the oldest that waits.
  have room : s.unsent < numTxDesc := by
    refine Nat.lt_of_le_of_ne inv.room fun full => ?_
    have wrapped : s.sent.length % numTxDesc = s.nic.txTail := by
      have tail := inv.tail
      unfold State.unsent at full
      unfold numTxDesc at *
      omega
    have positive : s.sent.length < s.accepted.length := by
      unfold State.unsent numTxDesc at full
      omega
    have busy := inv.busy _ (Nat.le_refl _) positive
    rw [wrapped, short.2] at busy
    cases busy
  exact { inv with handed := ⟨short.1, room⟩ }

theorem copyPacket (inv : Inv s) {data : Packet} (checked : s.phase = .checked data) :
    Inv { s with nic := s.nic.copyPacket data, phase := .copied data } := by
  have handed := inv.handed
  rw [checked] at handed
  obtain ⟨short, room⟩ := handed
  refine { inv with kept := ?_, handed := ⟨short, room, ?_⟩ }
  · intro k low x here
    rw [E1000.frame_copyPacket _ _ (inv.apart room low (waits here))]
    exact inv.kept k low x here
  · simp [E1000.copyPacket]

theorem setupDescriptor (inv : Inv s) {data : Packet} (copied : s.phase = .copied data) :
    Inv { s with nic := s.nic.setupDescriptor data, phase := .filled data } := by
  have handed := inv.handed
  rw [copied] at handed
  obtain ⟨short, room, same⟩ := handed
  refine { inv with kept := ?_, busy := ?_, handed := ⟨room, E1000.frame_filled _ _ short same, ?_⟩ }
  · intro k low x here
    rw [E1000.frame_setupDescriptor _ _ (inv.apart room low (waits here))]
    exact inv.kept k low x here
  · intro k low high
    rw [E1000.done_setupDescriptor _ _ (inv.apart room low high)]
    exact inv.busy k low high
  · simp [E1000.done, E1000.setupDescriptor]

theorem updateTail (inv : Inv s) {data : Packet} (filled : s.phase = .filled data) :
    Inv { s with nic := s.nic.updateTail, phase := .idle, accepted := s.accepted ++ [data] } := by
  have handed := inv.handed
  rw [filled] at handed
  obtain ⟨room, same, busy⟩ := handed
  have next : (s.nic.txTail + 1) % numTxDesc = (s.accepted ++ [data]).length % numTxDesc := by
    rw [inv.tail, Nat.mod_add_mod, List.length_append, List.length_singleton]
  have sent := inv.sent_le
  refine ⟨next, next, inv.tdh, inv.order.trans (List.prefix_append ..), ?_, ?_, ?_, trivial⟩
  · unfold State.unsent at *
    simp only [List.length_append, List.length_singleton]
    omega
  · intro k low x here
    rw [List.getElem?_append] at here
    split at here
    · exact inv.kept k low x here
    next old =>
      have last : k = s.accepted.length := by
        have := (List.getElem?_eq_some_iff.mp here).1
        simp only [List.length_singleton] at this
        omega
      subst last
      have given : data = x := by simpa using here
      rw [← inv.tail, ← given]
      exact same
  · intro k low high
    simp only [List.length_append, List.length_singleton] at high
    rcases Nat.lt_succ_iff_lt_or_eq.mp high with old | rfl
    · exact inv.busy k low old
    · rw [← inv.tail]
      exact busy

theorem send (inv : Inv s) (some : s.nic.tdh ≠ s.nic.tdt) :
    s.sent.length < s.accepted.length ∧ Inv { s with nic := s.nic.complete, sent :=
      s.sent ++ [s.nic.frame s.nic.tdh] } := by
  have waiting : s.sent.length < s.accepted.length := by
    refine Nat.lt_of_le_of_ne inv.sent_le fun none => some ?_
    rw [inv.tdh, inv.tdt, none]
  have room := inv.room
  -- With all descriptors taken the device would have seen an empty ring.
  have partly : s.unsent < numTxDesc := by
    refine Nat.lt_of_le_of_ne room fun full => some ?_
    rw [inv.tdh, inv.tdt]
    unfold State.unsent at full
    unfold numTxDesc at *
    omega
  obtain ⟨rest, split⟩ := inv.order
  have sends : s.accepted[s.sent.length]? = Option.some (s.nic.frame s.nic.tdh) := by
    rw [inv.tdh]
    have here := List.getElem?_eq_getElem waiting
    rw [inv.kept _ (Nat.le_refl _) _ here]
    exact here
  have order : s.sent ++ [s.nic.frame s.nic.tdh] <+: s.accepted := by
    cases rest with
    | nil => simp [← split] at waiting
    | cons x rest =>
      have first : x = s.nic.frame s.nic.tdh := by
        rw [← split] at sends
        simpa using sends
      exact ⟨rest, by rw [← split, ← first]; simp⟩
  have other : ∀ k, s.sent.length + 1 ≤ k → k < s.accepted.length → k % numTxDesc ≠ s.nic.tdh := by
    intro k low high
    rw [inv.tdh]
    unfold State.unsent at partly
    unfold numTxDesc at *
    omega
  refine ⟨waiting, inv.tail, inv.tdt, ?_, order, ?_, ?_, ?_, ?_⟩
  · change (s.nic.tdh + 1) % numTxDesc = (s.sent ++ [_]).length % numTxDesc
    rw [inv.tdh, Nat.mod_add_mod, List.length_append, List.length_singleton]
  · unfold State.unsent at *
    simp only [List.length_append, List.length_singleton]
    omega
  · intro k low x here
    rw [E1000.frame_complete]
    simp only [List.length_append, List.length_singleton] at low
    exact inv.kept k (by omega) x here
  · intro k low high
    simp only [List.length_append, List.length_singleton] at low
    rw [E1000.done_complete _ (other k low high)]
    exact inv.busy k (by omega) high
  · have fewer : State.unsent { s with nic := s.nic.complete, sent := s.sent ++ [s.nic.frame s.nic.tdh] }
      < numTxDesc := by
      unfold State.unsent at *
      simp only [List.length_append, List.length_singleton]
      omega
    have handed := inv.handed
    cases phase : s.phase with
    | idle => trivial
    | checked data =>
      rw [phase] at handed
      exact ⟨handed.1, fewer⟩
    | copied data =>
      rw [phase] at handed
      exact ⟨handed.1, fewer, handed.2.2⟩
    | filled data =>
      rw [phase] at handed
      have behind : s.nic.txTail ≠ s.nic.tdh := by
        rw [inv.tail, ← inv.tdt]
        exact some.symm
      exact ⟨fewer, (E1000.frame_complete ..).trans handed.2.1, (E1000.done_complete _ behind).trans handed.2.2⟩

theorem step {a : Action} (inv : Inv s) (taken : step s a = some t) : Inv t := by
  unfold Transmit.step at taken
  cases a with
  | call data =>
    dsimp only at taken
    split at taken
    · split at taken
      · cases taken
        exact inv
      next fine =>
        cases taken
        exact inv.call fine
    · cases taken
  | copyPacket =>
    dsimp only at taken
    split at taken
    next data checked =>
      cases taken
      exact inv.copyPacket checked
    · cases taken
  | setupDescriptor =>
    dsimp only at taken
    split at taken
    next data copied =>
      cases taken
      exact inv.setupDescriptor copied
    · cases taken
  | updateTail =>
    dsimp only at taken
    split at taken
    next data filled =>
      cases taken
      exact inv.updateTail filled
    · cases taken
  | send =>
    simp only [Option.ite_none_right_eq_some, Option.some.injEq] at taken
    obtain ⟨more, rfl⟩ := taken
    exact (inv.send more).2

end Inv

theorem drained {s : State} (inv : Inv s) (room : s.unsent < numTxDesc) :
    ∃ t, Reaches step (fun _ a => a = .send) s t ∧ t.accepted = s.accepted ∧ t.sent = s.accepted := by
  -- As long as the ring is not full, the device sends what waits.
  induction left : s.unsent generalizing s with
  | zero =>
    refine ⟨s, .start, rfl, inv.order.eq_of_length ?_⟩
    have := inv.sent_le
    unfold State.unsent at left
    omega
  | succ n ih =>
    have more : s.nic.tdh ≠ s.nic.tdt := by
      rw [inv.tdh, inv.tdt]
      unfold State.unsent numTxDesc at *
      omega
    have fewer : State.unsent { s with nic := s.nic.complete, sent := s.sent ++ [s.nic.frame s.nic.tdh] }
      = n := by
      unfold State.unsent at *
      simp only [List.length_append, List.length_singleton]
      omega
    obtain ⟨t, rest, same, all⟩ := ih (inv.send more).2 (by omega) fewer
    have first : step s .send = some { s with nic := s.nic.complete, sent :=
      s.sent ++ [s.nic.frame s.nic.tdh] } := if_pos more
    exact ⟨t, .cons rfl first rest, same, all⟩

theorem Inv.delivered {s : State} (inv : Inv s) (room : s.unsent < numTxDesc) : Delivered s := by
  refine ⟨inv.order, inv.kept, fun waiting => ?_, drained inv room⟩
  rw [inv.tdh, inv.tdt]
  unfold State.unsent numTxDesc at *
  omega

/-- The device sees an empty ring, and `transmit` a full one. -/
structure Stuck (s : State) : Prop where
  idle : s.phase = .idle
  empty : s.nic.tdh = s.nic.tdt
  full : s.nic.done s.nic.txTail = false

theorem Stuck.step {s t : State} {a : Action} (stuck : Stuck s) (taken : step s a = some t) : t = s := by
  unfold Transmit.step at taken
  cases a with
  | call data =>
    simp only [stuck.idle] at taken
    split at taken
    · cases taken
      rfl
    next fine =>
      simp only [E1000.check, stuck.full, Bool.not_false, if_true] at fine
      split at fine <;> cases fine
  | send => simp [stuck.empty] at taken
  | _ => simp [stuck.idle] at taken

theorem Inv.stuck {s t : State} {a : Action} (inv : Inv s) (taken : Transmit.step s a = some t)
    (last : spare s a = false) :
    Stuck t ∧ t.sent.length < t.accepted.length := by
  -- The tail has come round to the head.
  cases a with
  | updateTail =>
    have after := inv.step taken
    have room := after.room
    simp only [spare, decide_eq_false_iff_not] at last
    unfold Transmit.step at taken
    dsimp only at taken
    split at taken
    next data filled =>
      cases taken
      have full : (s.accepted ++ [data]).length = s.sent.length + numTxDesc := by
        simp only [State.unsent, List.length_append, List.length_singleton] at *
        unfold numTxDesc at *
        omega
      have round : (s.accepted ++ [data]).length % numTxDesc = s.sent.length % numTxDesc := by
        rw [full, Nat.add_mod_right]
      have waiting : s.sent.length < (s.accepted ++ [data]).length := by
        unfold numTxDesc at full
        omega
      refine ⟨⟨rfl, after.tdh.trans (round.symm.trans after.tdt.symm), ?_⟩, waiting⟩
      rw [after.tail, round]
      exact after.busy _ (Nat.le_refl _) waiting
    · cases taken
  | _ => cases last

theorem unsent_step {s t : State} {a : Action} (taken : step s a = some t) (fine : spare s a = true)
    (room : s.unsent < numTxDesc) : t.unsent < numTxDesc := by
  -- Only a new tail makes more packets wait.
  unfold step at taken
  cases a with
  | call data =>
    dsimp only at taken
    split at taken
    · split at taken <;> cases taken <;> exact room
    · cases taken
  | updateTail =>
    dsimp only at taken
    split at taken
    · cases taken
      have fine : s.unsent < numTxDesc - 1 := of_decide_eq_true fine
      simp only [State.unsent, List.length_append, List.length_singleton] at *
      unfold numTxDesc at *
      omega
    · cases taken
  | send =>
    simp only [Option.ite_none_right_eq_some, Option.some.injEq] at taken
    obtain ⟨_, rfl⟩ := taken
    simp only [State.unsent, List.length_append, List.length_singleton] at *
    omega
  | copyPacket | setupDescriptor =>
    dsimp only at taken
    split at taken <;> cases taken
    exact room

/-- The packets that are accepted are sent, once and in order, as long as the tail of the ring never
catches up with its head. When it does, nothing is sent any more. -/
theorem packets_sent (s : State) :
    (Reaches step (fun s a => spare s a = true) .initial s → Delivered s) ∧
    (Reaches step (fun _ _ => True) .initial s → ∀ a t, step s a = some t → spare s a = false →
      ¬Delivered t ∧ ∀ b u, step t b = some u → u = t) := by
  constructor
  · intro run
    have kept : Inv s ∧ s.unsent < numTxDesc := by
      refine run.invariant (motive := fun s => Inv s ∧ s.unsent < numTxDesc) ⟨.initial, by decide⟩ ?_
      intro s a t ⟨inv, room⟩ fine taken
      exact ⟨inv.step taken, unsent_step taken fine room⟩
    exact kept.1.delivered kept.2
  · intro run a t taken last
    have inv : Inv s := run.invariant .initial fun _ _ _ inv _ taken => inv.step taken
    obtain ⟨stuck, waiting⟩ := inv.stuck taken last
    exact ⟨fun delivered => delivered.seen waiting stuck.empty, fun b u next => stuck.step next⟩

/-- The packet `[1, 2]` is handed over while the device sends `[7]`. -/
theorem packets_sent_two :
    ∃ s, replay step (fun s a => spare s a = true) .initial
        [.call [7], .copyPacket, .setupDescriptor, .updateTail, .call [1, 2], .copyPacket, .send,
        .setupDescriptor,
          .updateTail] = some s ∧
      s.sent = [[7]] ∧ s.accepted = [[7], [1, 2]] ∧ Delivered s := by
  obtain ⟨s, done⟩ := Option.isSome_iff_exists.mp
    (show (replay step (fun s a => spare s a = true) .initial
        [.call [7], .copyPacket, .setupDescriptor, .updateTail, .call [1, 2], .copyPacket, .send,
        .setupDescriptor,
          .updateTail]).isSome by decide)
  have delivered := (packets_sent s).1 (.of_replay (fun _ _ => id) .start done)
  refine ⟨s, done, ?_, ?_, delivered⟩ <;> cases done <;> decide

def burst : List Action :=
  (List.range numTxDesc).flatMap fun i => [.call [UInt8.ofNat i], .copyPacket, .setupDescriptor, .updateTail]

/-- After the burst the device has nothing to send, for good. -/
theorem burst_stuck :
    ∃ s, run step .initial burst = some s ∧ s.accepted.length = 16 ∧ s.sent = [] ∧ s.nic.tdh = s.nic.tdt ∧
      s.nic.check [1] = .error "TX ring full" ∧ ∀ a t, step s a = some t → t = s := by
  obtain ⟨s, done⟩ := Option.isSome_iff_exists.mp (show (run step .initial burst).isSome by decide)
  have ends : s.accepted.length = 16 ∧ s.sent = [] ∧ s.nic.tdh = s.nic.tdt ∧
    s.nic.done s.nic.txTail = false := by
    cases done
    decide
  obtain ⟨all, none, empty, full⟩ := ends
  have idle : s.phase = .idle := by
    cases done
    rfl
  refine ⟨s, done, all, none, empty, ?_, fun a t next => Stuck.step ⟨idle, empty, full⟩ next⟩
  simp [E1000.check, full, txBufferSize]

end PickleOS.Driver.Transmit
