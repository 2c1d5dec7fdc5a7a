import PickleOS.Syscall.Signals
import PickleOS.Shared.Machine

set_option autoImplicit false

namespace PickleOS.Syscall

open Memory Shared.Machine

def SYS_SIGNAL : UInt64 := 32

/-- What `syscall_stub` and the CPU keep on the kernel stack. -/
structure Registers where
  rax : UInt64
  rdi : UInt64
  rsi : UInt64
  rdx : UInt64
  r10 : UInt64
  r8 : UInt64
  r9 : UInt64
  rcx : UInt64
  r11 : UInt64
  rbx : UInt64
  rbp : UInt64
  r12 : UInt64
  r13 : UInt64
  r14 : UInt64
  r15 : UInt64
  rip : UInt64
  rflags : UInt64
  rsp : UInt64
  deriving DecidableEq

namespace Registers

variable (r : Registers)

def trap : TrapFrame := ⟨r.rdi, r.rip, r.rflags, r.rsp⟩

def withTrap (frame : TrapFrame) : Registers :=
  { r with rdi := frame.rdi, rip := frame.rip, rflags := frame.rflags, rsp := frame.rsp }

def withResult (ret : UInt64) : Registers := { r with rax := ret }

/-- What every function of the System V ABI preserves. -/
def calleeSaved : List UInt64 := [r.rbx, r.rbp, r.r12, r.r13, r.r14, r.r15]

def callerSaved : List UInt64 := [r.rdi, r.rsi, r.rdx, r.rcx, r.r8, r.r9, r.r10, r.r11]

end Registers

structure UserTask where
  regs : Registers
  signals : SignalState

namespace UserTask

variable (t : UserTask)

/-- The value for `rax`, and the frame. -/
def doSigreturn : UInt64 × UserTask :=
  match t.signals.saved with
  | none => (0xFFFF_FFFF_FFFF_FFFF, t)
  | some ctx =>
    (ctx.rax,
      { regs := { t.regs with rip := ctx.rip, rflags := ctx.rflags, rsp := ctx.rsp }
        signals := { t.signals with saved := none } })

/-- The calls that come back to the program. `ret` is the result of those that have nothing to do
with signals; `permitted` is the test for `ROLE_KILL`. -/
def dispatchInner (permitted : Bool) (ret : UInt64) : UInt64 × UserTask :=
  if t.regs.rax = SYS_SIGRETURN then t.doSigreturn
  else if t.regs.rax = SYS_SIGNAL then
    if permitted then
      let installed := doSignal t.signals t.regs.rdi.toUInt32 t.regs.rsi t.regs.rdx
      (installed.1, { t with signals := installed.2 })
    else (0xFFFF_FFFF_FFFF_FFFF, t)
  else (ret, t)

/-- `int 0x80`, up to the `iretq`. `none` is a fault of the kernel. -/
def syscall (k : Ring0) (permitted : Bool) (ret : UInt64) : Option UserTask :=
  let (ret, u) := t.dispatchInner permitted ret
  match finishSyscall t.regs.rax .user k u.signals u.regs.trap ret with
  | .panic => none
  | .untouched => some { u with regs := u.regs.withResult ret }
  | .entered _ signals frame => some { regs := (u.regs.withTrap frame).withResult ret, signals := signals }

/-- The same task, with no signal to be delivered. -/
def undisturbed : UserTask := { t with signals := { t.signals with pending := 0 } }

end UserTask

inductive Move where
  /-- The program runs, up to any point. -/
  | compute (regs : Registers)
  | call (k : Ring0) (permitted : Bool) (ret : UInt64)
  /-- Another task sends a signal. -/
  | post (sig : UInt32)

def move (t : UserTask) : Move → Option UserTask
  | .compute regs => some { t with regs := regs }
  | .call k permitted ret => t.syscall k permitted ret
  | .post sig => some { t with signals := t.signals.setPending sig }

/-- Anything but `SYS_SIGRETURN`. -/
def InHandler (t : UserTask) : Move → Prop
  | .call .. => t.regs.rax ≠ SYS_SIGRETURN
  | _ => True

variable {t u : UserTask} {k : Ring0} {permitted : Bool} {ret : UInt64}

theorem nextDeliverable_quiet {s : SignalState} (empty : s.pending = 0) : s.nextDeliverable = none := by
  unfold SignalState.nextDeliverable
  rw [List.findSome?_eq_none_iff]
  intro sig _
  simp [empty]

theorem doSignal_kept (s : SignalState) (sig : UInt32) (handler restorer : UInt64) :
    (doSignal s sig handler restorer).2.saved = s.saved ∧
      (doSignal s sig handler restorer).2.pending = s.pending := by
  unfold doSignal
  split
  · exact ⟨rfl, rfl⟩
  · split <;> exact ⟨rfl, rfl⟩

theorem doSignal_result (s : SignalState) (pending sig : UInt32) (handler restorer : UInt64) :
    (doSignal { s with pending := pending } sig handler restorer).1 = (doSignal s sig handler restorer).1 := by
  unfold doSignal
  split
  · rfl
  · split <;> rfl

theorem clearPending_saved (s : SignalState) (sig : UInt32) : (s.clearPending sig).saved = s.saved := by
  unfold SignalState.clearPending
  split <;> rfl

theorem deliver_saves {ring : Ring} {k k' : Ring0} {s s' : SignalState} {frame frame' : TrapFrame}
    (entered : deliverPendingSignals ring k s frame ret = .entered k' s' frame') :
    s'.saved = some ⟨frame.rip, frame.rflags, frame.rsp, ret⟩ := by
  unfold deliverPendingSignals at entered
  split at entered
  · cases entered
  · split at entered
    · cases entered
    · split at entered
      · cases entered
      · dsimp only at entered
        split at entered
        · cases entered
        · cases entered
          exact clearPending_saved ..

theorem dispatchInner_kept (other : t.regs.rax ≠ SYS_SIGRETURN) (permitted : Bool) (ret : UInt64) :
    (t.dispatchInner permitted ret).2.regs = t.regs ∧
      (t.dispatchInner permitted ret).2.signals.saved = t.signals.saved ∧
      (t.dispatchInner permitted ret).2.signals.pending = t.signals.pending := by
  -- The services keep the frame and the context of a handler.
  unfold UserTask.dispatchInner
  rw [if_neg other]
  split
  · split
    · exact ⟨rfl, doSignal_kept ..⟩
    · exact ⟨rfl, rfl, rfl⟩
  · exact ⟨rfl, rfl, rfl⟩

theorem dispatchInner_undisturbed (other : t.regs.rax ≠ SYS_SIGRETURN) (permitted : Bool) (ret : UInt64) :
    (t.undisturbed.dispatchInner permitted ret).1 = (t.dispatchInner permitted ret).1 := by
  have same : t.undisturbed.regs = t.regs := rfl
  unfold UserTask.dispatchInner
  rw [same, if_neg other, if_neg other]
  split
  · split
    · exact doSignal_result ..
    · rfl
  · rfl

theorem syscall_quiet (k : Ring0) (quiet : Quiet t.regs.rax .user (t.dispatchInner permitted ret).2.signals) :
    t.syscall k permitted ret = some { (t.dispatchInner permitted ret).2 with
      regs := (t.dispatchInner permitted ret).2.regs.withResult (t.dispatchInner permitted ret).1 } := by
  unfold UserTask.syscall
  simp only [finishSyscall_quiet quiet]

theorem syscall_undisturbed (other : t.regs.rax ≠ SYS_SIGRETURN) (k : Ring0) (permitted : Bool) (ret : UInt64) :
    ∃ u, t.undisturbed.syscall k permitted ret = some u ∧
    u.regs = t.regs.withResult (t.dispatchInner permitted ret).1 := by
  -- What the call would have come back with.
  have same : t.undisturbed.regs.rax ≠ SYS_SIGRETURN := other
  obtain ⟨regs, _, pending⟩ := dispatchInner_kept same permitted ret
  have quiet : Quiet t.undisturbed.regs.rax .user (t.undisturbed.dispatchInner permitted ret).2.signals :=
    .inr (.inr (.inr (.inl (nextDeliverable_quiet pending))))
  refine ⟨_, syscall_quiet k quiet, ?_⟩
  rw [regs, dispatchInner_undisturbed other]
  rfl

theorem syscall_delivers (free : t.signals.saved = none) (called : t.syscall k permitted ret = some u)
    (delivered : u.signals.saved.isSome) :
    t.regs.rax ≠ SYS_SIGRETURN ∧
      u.signals.saved = some ⟨t.regs.rip, t.regs.rflags, t.regs.rsp, (t.dispatchInner permitted ret).1⟩ ∧
      u.regs.calleeSaved = t.regs.calleeSaved := by
  -- On the way into a handler the context is saved, and the registers it may not change are as they were.
  by_cases other : t.regs.rax = SYS_SIGRETURN
  · -- Without a context the call fails, and is not followed by a delivery.
    have inner : t.dispatchInner permitted ret = (0xFFFF_FFFF_FFFF_FFFF, t) := by
      unfold UserTask.dispatchInner UserTask.doSigreturn
      rw [if_pos other, free]
    have result : t.syscall k permitted ret = _ := syscall_quiet k (.inl other)
    rw [called, inner, Option.some.injEq] at result
    rw [result] at delivered
    simp [free] at delivered
  · obtain ⟨regs, saved, _⟩ := dispatchInner_kept other permitted ret
    refine ⟨other, ?_⟩
    unfold UserTask.syscall at called
    dsimp only at called
    split at called
    next => cases called
    next untouched =>
      cases called
      simp [saved, free] at delivered
    next k' signals frame entered =>
      cases called
      rw [finishSyscall, if_pos other] at entered
      have context := deliver_saves entered
      rw [regs] at context ⊢
      exact ⟨context, rfl⟩

theorem saved_kept {t' : UserTask} {ctx : SavedSigContext} (saved : t.signals.saved = some ctx)
    (run : Reaches move InHandler t t') : t'.signals.saved = some ctx := by
  -- Until it returns, nothing is delivered on top of a handler.
  induction run with
  | start => exact saved
  | @step s _ action _ inside taken ih =>
    cases action with
    | compute regs =>
      cases taken
      exact ih
    | post sig =>
      cases taken
      dsimp only
      unfold SignalState.setPending
      split <;> exact ih
    | call k permitted ret =>
      obtain ⟨_, kept, _⟩ := dispatchInner_kept inside permitted ret
      have quiet : Quiet s.regs.rax .user (s.dispatchInner permitted ret).2.signals := by
        refine .inr (.inr (.inl ?_))
        rw [kept, ih]
        rfl
      rw [move, syscall_quiet k quiet, Option.some.injEq] at taken
      rw [← taken]
      exact kept.trans ih

theorem syscall_sigreturn {ctx : SavedSigContext} (number : t.regs.rax = SYS_SIGRETURN)
    (saved : t.signals.saved = some ctx)
    (k : Ring0) (permitted : Bool) (ret : UInt64) :
    ∃ u, t.syscall k permitted ret = some u ∧
      u.regs = { t.regs with rip := ctx.rip, rflags := ctx.rflags, rsp := ctx.rsp, rax := ctx.rax } ∧
      u.signals.saved = none := by
  have inner : t.dispatchInner permitted ret = (ctx.rax,
      { regs := { t.regs with rip := ctx.rip, rflags := ctx.rflags, rsp := ctx.rsp }
        signals := { t.signals with saved := none } }) := by
    unfold UserTask.dispatchInner UserTask.doSigreturn
    rw [if_pos number, saved]
  refine ⟨_, syscall_quiet k (.inl number), ?_⟩
  rw [inner]
  exact ⟨rfl, rfl⟩

/-- A signal goes unnoticed if and only if its handler comes to `SYS_SIGRETURN` with the
caller-saved registers as they were at the call that it was delivered after. -/
theorem sigreturn_transparent_iff {t entered left : UserTask} {k : Ring0} {permitted : Bool} {ret : UInt64}
    (free : t.signals.saved = none) (called : t.syscall k permitted ret = some entered)
    (delivered : entered.signals.saved.isSome) (run : Reaches move InHandler entered left)
    (preserves : left.regs.calleeSaved = entered.regs.calleeSaved) (restorer : left.regs.rax = SYS_SIGRETURN)
    (k' : Ring0) (permitted' : Bool) (ret' : UInt64) :
    ∃ resumed plain, left.syscall k' permitted' ret' = some resumed ∧
    t.undisturbed.syscall k permitted ret = some plain ∧
      (resumed.regs = plain.regs ↔ left.regs.callerSaved = t.regs.callerSaved) := by
  obtain ⟨other, saved, callee⟩ := syscall_delivers free called delivered
  obtain ⟨resumed, returned, regs, _⟩ := syscall_sigreturn restorer (saved_kept saved run) k' permitted' ret'
  obtain ⟨plain, undisturbed, plainRegs⟩ := syscall_undisturbed other k permitted ret
  refine ⟨resumed, plain, returned, undisturbed, ?_⟩
  rw [callee] at preserves
  rw [regs, plainRegs]
  simp only [Registers.calleeSaved, Registers.callerSaved, Registers.withResult, List.cons.injEq,
    Registers.mk.injEq] at *
  constructor
  · intro same
    simp [same]
  · intro same
    simp [same, preserves]

def stackPage : MemoryManager where
  table f i :=
    if (f = 2 ∨ f = 3 ∨ f = 4) ∧ i = 0 then ⟨f + 1, { present := true, writable := true, user := true }⟩
    else if f = 5 ∧ i = 0 then ⟨7, { present := true, writable := true, user := true }⟩
    else .unused
  byte _ _ := 0
  frameAllocator := ⟨[], 0⟩
  userPageTables := [2]
  kernelCr3 := 1

def stackKernel : Ring0 := ⟨true, 2, stackPage, []⟩

/-- A call of `SYS_GETPPID`, between two uses of the other registers. -/
def interrupted : UserTask where
  regs :=
    { rax := SYS_GETPPID, rdi := 0x1111, rsi := 0x2222, rdx := 0x3333, r10 := 0, r8 := 0, r9 := 0, rcx :=
      0, r11 := 0, rbx := 1,
      rbp := 0x900, r12 := 2, r13 := 3, r14 := 4, r15 := 5, rip := 0x400100, rflags := 0x202, rsp := 0x810 }
  signals := caught

/-- A handler that has touched nothing but `rax`, which the restorer has set, and what the `ret` has
popped. -/
def idleHandler (entered : UserTask) : Registers :=
  { entered.regs with rax := SYS_SIGRETURN, rip := 0x401007, rsp := entered.regs.rsp + 8 }

def carefulHandler (entered : UserTask) : Registers := { idleHandler entered with rdi := 0x1111 }

theorem sigreturn_transparent_careful :
    ∃ entered resumed plain, interrupted.syscall stackKernel true 1 = some entered ∧
      ({ entered with regs := carefulHandler entered } : UserTask).syscall stackKernel true 0 = some resumed ∧
      interrupted.undisturbed.syscall stackKernel true 1 = some plain ∧ resumed.regs = plain.regs := by
  obtain ⟨entered, called⟩ := Option.isSome_iff_exists.mp
    (show (interrupted.syscall stackKernel true 1).isSome by decide)
  have delivered : (interrupted.syscall stackKernel true 1).all (·.signals.saved.isSome) = true := by decide
  have regs : (interrupted.syscall stackKernel true 1).map (·.regs) =
      some { interrupted.regs with rax := 1, rdi := 10, rip := 0x400000, rsp := 0x808 } := by decide
  rw [called] at delivered regs
  have regs := Option.some.inj regs
  have handled : Reaches move InHandler entered { entered with regs := carefulHandler entered } :=
    .step (a := .compute (carefulHandler entered)) .start trivial rfl
  obtain ⟨resumed, plain, returned, undisturbed, same⟩ :=
    sigreturn_transparent_iff rfl called delivered handled rfl rfl
    stackKernel true 0
  refine ⟨entered, resumed, plain, called, returned, undisturbed, same.mpr ?_⟩
  simp [carefulHandler, idleHandler, regs, Registers.callerSaved, interrupted]

/-- The number of the signal stays in `rdi`. -/
theorem sigreturn_clobbers :
    ∃ entered resumed plain, interrupted.syscall stackKernel true 1 = some entered ∧
      (idleHandler entered).calleeSaved = entered.regs.calleeSaved ∧
      ({ entered with regs := idleHandler entered } : UserTask).syscall stackKernel true 0 = some resumed ∧
      interrupted.undisturbed.syscall stackKernel true 1 = some plain ∧ plain.regs.rdi = 0x1111 ∧
      resumed.regs.rdi = 10 :=
  ⟨_, _, _, rfl, rfl, rfl, rfl, rfl, rfl⟩

end PickleOS.Syscall
