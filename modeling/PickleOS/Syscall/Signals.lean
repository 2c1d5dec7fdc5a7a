import PickleOS.Memory.Ring0
import PickleOS.Shared.Words

set_option autoImplicit false

/-!
# Delivery of signals

A caught signal is delivered when its task returns from a system call.
-/

namespace PickleOS.Syscall

open Memory

def NSIG : Nat := 32
def SIGKILL : UInt32 := 9
def SIGUSR1 : UInt32 := 10
def SIG_DFL : UInt64 := 0
def SIG_IGN : UInt64 := 1
def SYS_GETPPID : UInt64 := 30
def SYS_SIGRETURN : UInt64 := 33

structure SavedSigContext where
  rip : UInt64
  rflags : UInt64
  rsp : UInt64
  rax : UInt64

structure SignalState where
  pending : UInt32
  handlers : Nat → UInt64
  restorer : UInt64
  saved : Option SavedSigContext

namespace SignalState

def new : SignalState := { pending := 0, handlers := fun _ => SIG_DFL, restorer := 0, saved := none }

def setPending (s : SignalState) (sig : UInt32) : SignalState :=
  if sig.toNat < NSIG then { s with pending := s.pending ||| (1 <<< sig) } else s

def clearPending (s : SignalState) (sig : UInt32) : SignalState :=
  if sig.toNat < NSIG then { s with pending := s.pending &&& ~~~(1 <<< sig) } else s

/-- The lowest pending signal with a handler of its own. -/
def nextDeliverable (s : SignalState) : Option (UInt32 × UInt64) :=
  ((List.range' 1 (NSIG - 1)).map UInt32.ofNat).findSome? fun (sig : UInt32) =>
    if s.pending &&& (1 <<< sig) ≠ 0 then
      let h := s.handlers sig.toNat
      if h ≠ SIG_DFL ∧ h ≠ SIG_IGN then some (sig, h) else none
    else none

end SignalState

/-- The result and the new state; `u64::MAX` is an error. -/
def doSignal (s : SignalState) (sig : UInt32) (handler restorer : UInt64) : UInt64 × SignalState :=
  if sig = 0 ∨ NSIG ≤ sig.toNat then (0xFFFF_FFFF_FFFF_FFFF, s)
  else if sig = SIGKILL then (0xFFFF_FFFF_FFFF_FFFF, s)
  else
    (s.handlers sig.toNat,
      { s with handlers := Function.update s.handlers sig.toNat handler,
               restorer := if restorer ≠ 0 then restorer else s.restorer })

inductive Ring where
  | kernel
  | user
  deriving DecidableEq

/-- The registers that a delivery reads or rewrites. All but `rdi` are in the frame of the `iretq`. -/
structure TrapFrame where
  rdi : UInt64
  rip : UInt64
  rflags : UInt64
  rsp : UInt64

/-- The bytes of a `u64` in memory. -/
def wordBytes (v : UInt64) : List UInt8 := (List.range 8).map fun i => (v >>> UInt64.ofNat (8 * i)).toUInt8

inductive Delivery where
  | panic
  | untouched
  | entered (k : Ring0) (s : SignalState) (frame : TrapFrame)

def deliverPendingSignals (ring : Ring) (k : Ring0) (s : SignalState) (frame : TrapFrame)
    (syscallRet : UInt64) : Delivery :=
  if ring ≠ .user ∨ s.saved.isSome then .untouched
  else
    match s.nextDeliverable with
    | none => .untouched
    | some (sig, handler) =>
      if s.restorer = 0 then .untouched
      else
        let newRsp := (frame.rsp &&& ~~~0xF) - 8
        match k.storeBytes newRsp.toNat (wordBytes s.restorer) with
        | none => .panic
        | some k =>
          let s := { s with saved := some ⟨frame.rip, frame.rflags, frame.rsp, syscallRet⟩ }
          .entered k (s.clearPending sig) { frame with rip := handler, rsp := newRsp, rdi := sig.toUInt64 }

/-- The end of `syscall_dispatch`. -/
def finishSyscall (num : UInt64) (ring : Ring) (k : Ring0) (s : SignalState) (frame : TrapFrame)
    (ret : UInt64) : Delivery :=
  if num ≠ SYS_SIGRETURN then deliverPendingSignals ring k s frame ret else .untouched

/-- Only memory of the program is written, and the program goes on at an address of its own. -/
def Delivery.Contained (k : Ring0) : Delivery → Prop
  | .panic => False
  | .untouched => True
  | .entered k' _ frame =>
    (∃ stored, k'.writes = k.writes ++ stored ∧ ∀ addr, addr ∈ stored → k.UserAddress addr) ∧
      frame.rip.toNat < USER_SPACE_MAX ∧ frame.rsp.toNat < USER_SPACE_MAX

/-- There is nothing to deliver, or no way back from the handler. -/
def Quiet (num : UInt64) (ring : Ring) (s : SignalState) : Prop :=
  num = SYS_SIGRETURN ∨ ring = .kernel ∨ s.saved.isSome = true ∨ s.nextDeliverable = none ∨ s.restorer = 0

def StackTakes (k : Ring0) (rsp : Nat) : Prop :=
  let top := rsp / 16 * 16
  8 ≤ top ∧ k.UserAddress (top - 8) ∧ k.Writable (top - 8)

theorem align_toNat (rsp : UInt64) : (rsp &&& ~~~0xF).toNat = rsp.toNat / 16 * 16 := by
  have mask : (~~~0xF : UInt64).toNat = (2 ^ (64 - 4) - 1) * 2 ^ 4 := by decide
  exact Shared.Words.toNat_and_mask rsp (by decide) mask

theorem newRsp_toNat (rsp : UInt64) : ((rsp &&& ~~~0xF) - 8).toNat = (2 ^ 64 - 8 + rsp.toNat / 16 * 16) %
    2 ^ 64 := by
  -- Where the stack pointer of a handler is.
  rw [UInt64.toNat_sub, align_toNat]
  rfl

theorem wordBytes_length (v : UInt64) : (wordBytes v).length = 8 := by simp [wordBytes]

theorem same_page {k : Ring0} {addr i : Nat} (aligned : addr % 8 = 0) (bound : addr < 2 ^ 64) (small : i < 8) :
    (k.Writable ((addr + i) % 2 ^ 64) ↔ k.Writable addr) ∧
      (k.UserAddress ((addr + i) % 2 ^ 64) ↔ k.UserAddress addr) := by
  -- The eight bytes above an aligned address are on one page.
  have inside : (addr + i) % 2 ^ 64 = addr + i := Nat.mod_eq_of_lt (by omega)
  have page : (addr + i) / 4096 = addr / 4096 := by omega
  have canonical : Canonical (addr + i) ↔ Canonical addr := by simp only [Canonical]; omega
  have user : addr + i < USER_SPACE_MAX ↔ addr < USER_SPACE_MAX := by simp only [USER_SPACE_MAX]; omega
  rw [inside, Ring0.Writable, Ring0.Writable, Ring0.UserAddress, Ring0.UserAddress, page, canonical, user]
  exact ⟨Iff.rfl, Iff.rfl⟩

theorem push_contained {k : Ring0} {rsp restorer : UInt64} :
    (∃ k', k.storeBytes ((rsp &&& ~~~0xF) - 8).toNat (wordBytes restorer) = some k' ∧
      (∃ stored, k'.writes = k.writes ++ stored ∧ ∀ addr, addr ∈ stored → k.UserAddress addr) ∧
      ((rsp &&& ~~~0xF) - 8).toNat < USER_SPACE_MAX) ↔ StackTakes k rsp.toNat := by
  -- What is pushed on the stack goes to the program's memory exactly when there is room for it.
  have here := newRsp_toNat rsp
  have small := rsp.toNat_lt
  generalize ((rsp &&& ~~~0xF) - 8).toNat = addr at here ⊢
  have bound : addr < 2 ^ 64 := by omega
  have aligned : addr % 8 = 0 := by omega
  have page (i : Nat) (small : i < 8) := same_page (k := k) aligned bound small
  have eight := wordBytes_length restorer
  constructor
  · rintro ⟨k', done, ⟨stored, writes, users⟩, user⟩
    have writable := (Ring0.storeBytes_isSome bound).mp (by rw [done]; rfl) 0 (by omega)
    rw [(Ring0.storeBytes_same bound done).1, List.append_cancel_left_eq] at writes
    have pushed : k.UserAddress addr := by
      refine (page 0 (by omega)).2.mp (users _ ?_)
      rw [← writes, eight]
      exact List.mem_map_of_mem (List.mem_range.mpr (by omega))
    simp only [USER_SPACE_MAX] at user
    have top : 8 ≤ rsp.toNat / 16 * 16 := by omega
    have below : rsp.toNat / 16 * 16 - 8 = addr := by omega
    refine ⟨top, ?_, ?_⟩
    · rwa [below]
    · rw [below]
      exact (page 0 (by omega)).1.mp writable
  · rintro ⟨top, pushed, writable⟩
    have below : rsp.toNat / 16 * 16 - 8 = addr := by omega
    rw [below] at pushed writable
    have takes : (k.storeBytes addr (wordBytes restorer)).isSome = true := (Ring0.storeBytes_isSome bound).mpr
      (fun i small => (page i (by omega)).1.mpr writable)
    obtain ⟨k', done⟩ := Option.isSome_iff_exists.mp takes
    refine ⟨k', done, ⟨_, (Ring0.storeBytes_same bound done).1, fun a member => ?_⟩, pushed.1⟩
    simp only [List.mem_map, List.mem_range, eight] at member
    obtain ⟨i, small, rfl⟩ := member
    exact (page i small).2.mpr pushed

theorem finishSyscall_quiet {num : UInt64} {ring : Ring} {k : Ring0} {s : SignalState} {frame : TrapFrame}
    {ret : UInt64}
    (quiet : Quiet num ring s) : finishSyscall num ring k s frame ret = .untouched := by
  unfold finishSyscall deliverPendingSignals
  obtain rfl | rfl | idle | deliverable | restorer := quiet
  · simp
  · simp
  · simp [idle]
  · simp [deliverable]
  · split
    · split
      · rfl
      · split
        · rfl
        · simp
    · rfl

/-- A delivery stays within the program's memory exactly when nothing is delivered, or the handler
and the stack that the program chose are its own. -/
theorem delivery_contained_iff (num : UInt64) (ring : Ring) (k : Ring0) (s : SignalState)
    (frame : TrapFrame) (ret : UInt64) :
    (finishSyscall num ring k s frame ret).Contained k ↔
      Quiet num ring s ∨ (∀ sig handler, s.nextDeliverable = some (sig, handler) →
        handler.toNat < USER_SPACE_MAX) ∧
        StackTakes k frame.rsp.toNat := by
  by_cases quiet : Quiet num ring s
  · simp [finishSyscall_quiet quiet, quiet, Delivery.Contained]
  · have busy := quiet
    simp only [Quiet, not_or] at busy
    obtain ⟨caught, user, idle, deliverable, restorer⟩ := busy
    obtain ⟨⟨sig, handler⟩, next⟩ := Option.ne_none_iff_exists'.mp deliverable
    obtain rfl : ring = .user := by cases ring <;> simp at user ⊢
    rw [← @push_contained k frame.rsp s.restorer]
    simp only [finishSyscall, deliverPendingSignals, if_pos caught, ne_eq, not_true_eq_false, idle,
      if_false, next, restorer,
      quiet, false_or]
    cases done : k.storeBytes ((frame.rsp &&& ~~~0xF) - 8).toNat (wordBytes s.restorer) with
    | none => simp [Delivery.Contained]
    | some k' =>
      simp only [Delivery.Contained, Option.some.injEq, Prod.mk.injEq, exists_eq_left']
      constructor
      · rintro ⟨stored, rip, rsp⟩
        refine ⟨fun _ h same => ?_, stored, rsp⟩
        rw [← same.2]
        exact rip
      · rintro ⟨handlers, stored, rsp⟩
        exact ⟨stored, handlers sig handler ⟨rfl, rfl⟩, rsp⟩

def kernelPage : MemoryManager where
  table f i :=
    if f = 2 ∧ i = 256 then ⟨3, { present := true, writable := true }⟩
    else if (f = 3 ∨ f = 4) ∧ i = 0 then ⟨f + 1, { present := true, writable := true }⟩
    else if f = 5 ∧ i = 0 then ⟨7, { present := true, writable := true }⟩
    else .unused
  byte _ _ := 0
  frameAllocator := ⟨[], 0⟩
  userPageTables := [2]
  kernelCr3 := 1

/-- The signal state of a task that has installed a handler for a signal, which was sent to it. -/
def caught : SignalState := (doSignal .new SIGUSR1 0x400000 0x401000).2.setPending SIGUSR1

/-- A task that makes a system call with its stack pointer in the kernel has the kernel overwrite
that page. -/
theorem delivery_writes_kernel :
    ∃ k s frame, finishSyscall SYS_GETPPID .user ⟨true, 2, kernelPage, []⟩
      caught ⟨0, 0x400100, 0x202, 0xFFFF_8000_0000_0010⟩ 0 =
        .entered k s frame ∧ k.writes.head? = some 0xFFFF_8000_0000_0008 ∧ k.memory.byte 7 9 = 0x10 ∧
      ¬(Delivery.entered k s frame).Contained ⟨true, 2, kernelPage, []⟩ :=
  ⟨_, _, _, rfl, by decide, by decide, fun contained => absurd contained.2.2 (by decide)⟩

end PickleOS.Syscall
