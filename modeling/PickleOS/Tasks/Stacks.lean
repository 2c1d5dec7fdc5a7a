import PickleOS.Memory.Frames
import PickleOS.Shared.Bindings
import PickleOS.Tasks.Timeline

set_option autoImplicit false

/-!
# Kernel stacks

A task owns its kernel stack. The stack of a dead task is dropped when another task takes its slot.
-/

namespace PickleOS.Tasks

open Shared Shared.Machine Memory

/-- `mm.mapper` and `mm.frame_allocator`. Keys are page numbers of the kernel's address space. -/
structure KernelMapper (σ : Type) extends Bindings σ Nat Frame where
  allocateFrame : σ → Option (Frame × σ)
  allocateFrame_look : ∀ {s s' f}, allocateFrame s = some (f, s') → look s' = look s

def GUARDED_STACK_NPAGES : Nat := 33
def GUARDED_STACK_STACK_PAGES : Nat := 32
def GUARDED_STACK_VIRT_BASE : Nat := 0xFFFF_9000_0000_0000
def GUARDED_STACK_STRIDE : Nat := 33 * 4096

/-- Where the windows of other mappings begin: first the DMA pool, then devices. -/
def DMA_POOL_VIRT_BASE : Nat := 0xFFFF_FF00_0000_0000

structure GuardedStack where
  base : Nat
  frames : List Frame

namespace GuardedStack

variable (g : GuardedStack)

/-- The page at the base is the guard. -/
def page (i : Nat) : Nat := (g.base + i * 4096) / 4096

def stackPages : List Nat :=
  (List.range GUARDED_STACK_STACK_PAGES).map fun i => (g.base + 0x1000 + i * 4096) / 4096

variable {σ : Type} (x : KernelMapper σ)

def takeFrames : Nat → σ → Option (List Frame × σ)
  | 0, s => some ([], s)
  | n + 1, s => (x.allocateFrame s).bind fun (f, s) => (takeFrames n s).map fun (frames, s) => (f :: frames, s)

/-- `none` is a panic of the kernel. -/
def new (base : Nat) (s : σ) : Option (GuardedStack × σ) :=
  (takeFrames x GUARDED_STACK_NPAGES s).bind fun (frames, s) =>
    let g : GuardedStack := { base, frames }
    (x.bindAll s (g.stackPages.zip (frames.drop 1))).map fun s => (g, s)

def drop (s : σ) : Option σ := x.releaseAll s ((List.range GUARDED_STACK_NPAGES).map g.page)

end GuardedStack

structure Stacks (σ : Type) where
  timeline : Timeline
  kernelStack : Nat → GuardedStack
  -- NEXT_GUARDED_STACK
  next : Nat
  memory : σ

namespace Stacks

variable {σ : Type} (x : KernelMapper σ) (s : Stacks σ)

def deadSlot : Option Nat := s.timeline.table.tasks.findIdx? fun t => t.state = .dead

def creates (event : Event) : Bool :=
  match event with
  | .spawnKernel | .spawnUser _ => true
  | .fork _ => (s.timeline.table.me.bind (·.userCr3)).isSome
  | _ => false

/-- A new task gets its stack, and comes to the table that the rest of the call leaves. `none` is a panic
of the kernel. -/
def create (timeline : Timeline) : Option (Stacks σ) :=
  (GuardedStack.new x s.next s.memory).bind fun (g, memory) =>
    let next := s.next + GUARDED_STACK_STRIDE
    match s.deadSlot with
    | some i =>
      ((s.kernelStack i).drop x memory).map fun memory =>
        { timeline, kernelStack := Function.update s.kernelStack i g, next, memory }
    | none => some { timeline, kernelStack :=
      Function.update s.kernelStack s.timeline.table.tasks.length g, next, memory }

end Stacks

inductive StackAction (σ : Type) where
  | event (event : Event)
  /-- The kernel maps pages for something else, or takes frames. -/
  | elsewhere (memory : σ)

def stackStep {σ : Type} (x : KernelMapper σ) (s : Stacks σ) : StackAction σ → Option (Stacks σ)
  | .event event =>
    (transition s.timeline event).bind fun timeline =>
      if s.creates event then s.create x timeline else some { s with timeline }
  | .elsewhere memory => some { s with memory }

def StackPage (page : Nat) : Prop := GUARDED_STACK_VIRT_BASE ≤ page * 4096 ∧ page * 4096 < DMA_POOL_VIRT_BASE

/-- Stacks and other mappings keep to their windows. -/
def Apart {σ : Type} (x : KernelMapper σ) (s : Stacks σ) : StackAction σ → Prop
  | .event _ => s.next + GUARDED_STACK_STRIDE ≤ DMA_POOL_VIRT_BASE
  | .elsewhere memory => ∀ page, StackPage page → x.look memory page = x.look s.memory page

/-- The idle task runs, in the first slot. -/
def Stacks.booted {σ : Type} (g : GuardedStack) (memory : σ) : Stacks σ where
  timeline := .booted
  kernelStack _ := g
  next := GUARDED_STACK_VIRT_BASE + GUARDED_STACK_STRIDE
  memory := memory

/-- In the memory that is left, the old stack is unmapped and the new one is mapped, and nothing else has
changed. -/
structure Replaced {σ : Type} (x : KernelMapper σ) (old new : GuardedStack) (before after : σ) : Prop where
  mapped : ∀ page ∈ new.stackPages, (x.look after page).isSome
  unmapped : ∀ page ∈ old.stackPages, (x.look before page).isSome ∧ x.look after page = none
  guard : x.look after (old.page 0) = none
  others : ∀ page, page ∉ new.stackPages → page ∉ old.stackPages → x.look after page = x.look before page

/-- The call does not panic, and replaces the stack in a slot. -/
def Reuses {σ : Type} (x : KernelMapper σ) (s : Stacks σ) (i : Nat) (timeline : Timeline) : Prop :=
  ∃ s', s.create x timeline = some s' ∧ Replaced x (s.kernelStack i) (s'.kernelStack i) s.memory s'.memory

namespace GuardedStack

variable {σ : Type} {x : KernelMapper σ} {s s' : σ} {g : GuardedStack}

theorem page_zero (g : GuardedStack) : g.page 0 = g.base / 4096 := by rw [page, Nat.zero_mul, Nat.add_zero]

theorem mem_stackPages {page : Nat} (member : page ∈ g.stackPages) :
    g.base / 4096 < page ∧ page < (g.base + GUARDED_STACK_STRIDE) / 4096 := by
  simp only [stackPages, GUARDED_STACK_STACK_PAGES, List.mem_map, List.mem_range] at member
  obtain ⟨i, small, rfl⟩ := member
  rw [GUARDED_STACK_STRIDE]
  omega

theorem takeFrames_look {n : Nat} {frames : List Frame} (done : takeFrames x n s = some (frames, s')) :
    x.look s' = x.look s := by
  induction n generalizing s frames with
  | zero =>
    cases done
    rfl
  | succ n ih =>
    simp only [takeFrames, Option.bind_eq_some_iff, Option.map_eq_some_iff, Prod.mk.injEq] at done
    obtain ⟨⟨f, t⟩, first, ⟨rest, t'⟩, more, _, rfl⟩ := done
    rw [ih more, x.allocateFrame_look first]

theorem new_look {base : Nat} (made : new x base s = some (g, s')) : g.base = base ∧
    ∀ page, page ∉ g.stackPages → x.look s' page = x.look s page := by
  simp only [new, Option.bind_eq_some_iff, Option.map_eq_some_iff, Prod.mk.injEq] at made
  obtain ⟨⟨frames, t⟩, taken, t', bound, rfl, rfl⟩ := made
  refine ⟨rfl, fun page other => ?_⟩
  rw [Bindings.bindAll_other bound, takeFrames_look taken]
  rintro p member rfl
  exact other (List.of_mem_zip member).1

theorem drop_guard (dropped : g.drop x s = some s') :
    (x.look s (g.page 0)).isSome ∧ x.look s' (g.page 0) = none :=
  Bindings.releaseAll_mem dropped (List.mem_map_of_mem (List.mem_range.mpr (by decide)))

end GuardedStack

/-- What a run keeps: no guard page is mapped, and no page that stacks have not got to yet. -/
structure Guarded {σ : Type} (x : KernelMapper σ) (s : Stacks σ) : Prop where
  window : GUARDED_STACK_VIRT_BASE ≤ s.next ∧ s.next ≤ DMA_POOL_VIRT_BASE ∧ 4096 ∣ s.next
  bases : ∀ i, GUARDED_STACK_VIRT_BASE ≤ (s.kernelStack i).base ∧
  (s.kernelStack i).base + GUARDED_STACK_STRIDE ≤ s.next ∧
    4096 ∣ (s.kernelStack i).base
  guards : ∀ i, x.look s.memory ((s.kernelStack i).page 0) = none
  vacant : ∀ page, StackPage page → s.next ≤ page * 4096 → x.look s.memory page = none

namespace Guarded

variable {σ : Type} {x : KernelMapper σ} {s s' : Stacks σ} {g : GuardedStack} {memory : σ} {timeline : Timeline}

theorem guard_window (guarded : Guarded x s) (i : Nat) : StackPage ((s.kernelStack i).page 0) ∧
    (s.kernelStack i).page 0 * 4096 + GUARDED_STACK_STRIDE ≤ s.next := by
  obtain ⟨low, high, base, aligned⟩ := guarded.bases i
  obtain ⟨_, inside, _⟩ := guarded.window
  rw [GuardedStack.page_zero, StackPage, aligned, Nat.mul_div_cancel_left base (by decide), Nat.mul_comm base]
  have stride : 0 < GUARDED_STACK_STRIDE := by decide
  omega

theorem new_guard (guarded : Guarded x s) (made : GuardedStack.new x s.next s.memory = some (g, memory))
    (i : Nat) :
    x.look memory ((s.kernelStack i).page 0) = none := by
  obtain ⟨base, others⟩ := GuardedStack.new_look made
  obtain ⟨_, before⟩ := guarded.guard_window i
  rw [others _ fun member => ?_, guarded.guards i]
  have above := (GuardedStack.mem_stackPages member).1
  rw [base] at above
  have stride : 0 < GUARDED_STACK_STRIDE := by decide
  omega

theorem create_panics (guarded : Guarded x s) {i : Nat} (dead : s.deadSlot = some i) (timeline : Timeline) :
    s.create x timeline = none := by
  unfold Stacks.create
  rw [Option.bind_eq_none_iff]
  rintro ⟨g, memory⟩ made
  simp only [dead, Option.map_eq_none_iff]
  by_contra dropped
  obtain ⟨after, dropped⟩ := Option.ne_none_iff_exists'.mp dropped
  have mapped := (GuardedStack.drop_guard dropped).1
  rw [guarded.new_guard made i] at mapped
  cases mapped

theorem created (guarded : Guarded x s) (room : s.next + GUARDED_STACK_STRIDE ≤ DMA_POOL_VIRT_BASE)
    (done : s.create x timeline = some s') : Guarded x s' := by
  cases dead : s.deadSlot with
  | some i =>
    rw [guarded.create_panics dead] at done
    cases done
  | none =>
    simp only [Stacks.create, dead, Option.bind_eq_some_iff, Option.some.injEq] at done
    obtain ⟨⟨g, memory⟩, made, rfl⟩ := done
    obtain ⟨base, others⟩ := GuardedStack.new_look made
    obtain ⟨low, high, k, aligned⟩ := guarded.window
    have stride : GUARDED_STACK_STRIDE = 33 * 4096 := rfl
    have guard : g.page 0 = k :=
      by rw [GuardedStack.page_zero, base, aligned, Nat.mul_div_cancel_left k (by decide)]
    have own : x.look memory (g.page 0) = none := by
      rw [others _ fun member => ?_, guard]
      · refine guarded.vacant k ⟨?_, ?_⟩ ?_ <;> omega
      · rw [GuardedStack.page_zero] at member
        exact Nat.lt_irrefl _ (GuardedStack.mem_stackPages member).1
    have keeps : ∀ i, GUARDED_STACK_VIRT_BASE ≤ (s.kernelStack i).base ∧
        (s.kernelStack i).base + GUARDED_STACK_STRIDE ≤ s.next + GUARDED_STACK_STRIDE ∧
          4096 ∣ (s.kernelStack i).base := fun i =>
      ⟨(guarded.bases i).1, Nat.le_trans (guarded.bases i).2.1 (Nat.le_add_right _ _), (guarded.bases i).2.2⟩
    refine ⟨⟨?_, room, ?_⟩, fun i => ?_, fun i => ?_, fun page inside above => ?_⟩
    · exact Nat.le_trans low (Nat.le_add_right _ _)
    · exact Nat.dvd_add ⟨k, aligned⟩ (by decide)
    · by_cases here : i = s.timeline.table.tasks.length
      · simp only [here, Function.update_self, base]
        exact ⟨low, Nat.le_refl _, k, aligned⟩
      · simp only [Function.update_of_ne here]
        exact keeps i
    · by_cases here : i = s.timeline.table.tasks.length
      · simp only [here, Function.update_self]
        exact own
      · simp only [Function.update_of_ne here]
        exact guarded.new_guard made i
    · dsimp only at above ⊢
      rw [others page fun member => ?_]
      · exact guarded.vacant page inside (Nat.le_trans (Nat.le_add_right _ _) above)
      · have below := (GuardedStack.mem_stackPages member).2
        rw [base] at below
        omega

theorem step {a : StackAction σ} (guarded : Guarded x s) (apart : Apart x s a)
    (taken : stackStep x s a = some s') : Guarded x s' := by
  cases a with
  | event event =>
    obtain ⟨timeline, _, placed⟩ := Option.bind_eq_some_iff.mp taken
    split at placed
    · exact guarded.created apart placed
    · cases placed
      exact ⟨guarded.window, guarded.bases, guarded.guards, guarded.vacant⟩
  | elsewhere memory =>
    cases taken
    refine ⟨guarded.window, guarded.bases, fun i => ?_, fun page inside above => ?_⟩
    · exact (apart _ (guarded.guard_window i).1).trans (guarded.guards i)
    · exact (apart page inside).trans (guarded.vacant page inside above)

theorem booted {before : σ} (vacant : ∀ page, StackPage page → x.look before page = none)
    (made : GuardedStack.new x GUARDED_STACK_VIRT_BASE before = some (g, memory)) :
      Guarded x (.booted g memory) := by
  obtain ⟨base, others⟩ := GuardedStack.new_look made
  have next : (Stacks.booted g memory).next = GUARDED_STACK_VIRT_BASE + GUARDED_STACK_STRIDE := rfl
  refine ⟨?_, fun _ => ?_, fun _ => ?_, fun page inside above => ?_⟩
  · rw [next]
    decide
  · rw [show (Stacks.booted g memory).kernelStack _ = g from rfl, base, next]
    decide
  · rw [show (Stacks.booted g memory).kernelStack _ = g from rfl, GuardedStack.page_zero, base]
    rw [show (Stacks.booted g memory).memory = memory from rfl, others _ fun member => ?_]
    · exact vacant _ ⟨by decide, by decide⟩
    · have later := (GuardedStack.mem_stackPages member).1
      rw [base] at later
      exact Nat.lt_irrefl _ later
  · rw [show (Stacks.booted g memory).memory = memory from rfl, others page fun member => ?_]
    · exact vacant page inside
    · have below := (GuardedStack.mem_stackPages member).2
      rw [base, ← next] at below
      omega

end Guarded

theorem not_reuses {σ : Type} {x : KernelMapper σ} {s : Stacks σ} {i : Nat} (dead : s.deadSlot = some i)
    (timeline : Timeline) :
    ¬Reuses x s i timeline := by
  rintro ⟨s', done, replaced⟩
  simp only [Stacks.create, dead, Option.bind_eq_some_iff, Option.map_eq_some_iff] at done
  obtain ⟨⟨g, memory⟩, made, after, dropped, rfl⟩ := done
  obtain ⟨mapped, unmapped⟩ := GuardedStack.drop_guard dropped
  simp only [Function.update_self] at replaced
  by_cases new : (s.kernelStack i).page 0 ∈ g.stackPages
  · have still := replaced.mapped _ new
    rw [unmapped] at still
    cases still
  · have own : (s.kernelStack i).page 0 ∉ (s.kernelStack i).stackPages := by
      rw [GuardedStack.page_zero]
      exact fun member => Nat.lt_irrefl _ (GuardedStack.mem_stackPages member).1
    rw [(GuardedStack.new_look made).2 _ new, ← replaced.others _ new own, unmapped] at mapped
    cases mapped

/-- No slot is ever reused: the drop of the old stack panics at the guard page, or has unmapped what
another mapping has put there. -/
theorem reuse_fails {σ : Type} (x : KernelMapper σ) {before memory : σ} {g : GuardedStack}
    (vacant : ∀ page, StackPage page → x.look before page = none)
    (made : GuardedStack.new x GUARDED_STACK_VIRT_BASE before = some (g, memory)) :
    (∀ s i timeline, s.deadSlot = some i → ¬Reuses x s i timeline) ∧
    ∀ s i timeline, Reaches (stackStep x) (Apart x) (.booted g memory) s → s.deadSlot = some i →
      s.create x timeline = none := by
  refine ⟨fun s i timeline dead => not_reuses dead timeline, fun s i timeline run dead => ?_⟩
  have guarded : Guarded x s := run.invariant (motive := Guarded x) (.booted vacant made)
    fun s a s' before fine taken =>
    before.step fine taken
  exact guarded.create_panics dead timeline

structure PageMap where
  bound : Nat → Option Frame
  next : Frame

def PageMap.mapper : KernelMapper PageMap where
  look s := s.bound
  bind s page f := if s.bound page = none then
    some { s with bound := Function.update s.bound page (some f) } else none
  release s page := if s.bound page = none then none else
    some { s with bound := Function.update s.bound page none }
  bind_vacant done := by
    rw [Option.ite_none_right_eq_some] at done
    exact done.1
  bind_self done := by
    simp only [Option.ite_none_right_eq_some, Option.some.injEq] at done
    obtain ⟨_, rfl⟩ := done
    exact Function.update_self ..
  bind_other done j other := by
    simp only [Option.ite_none_right_eq_some, Option.some.injEq] at done
    obtain ⟨_, rfl⟩ := done
    exact Function.update_of_ne other ..
  release_vacant vacant := if_pos vacant
  release_self done := by
    simp only [Option.ite_none_left_eq_some, Option.some.injEq] at done
    obtain ⟨_, rfl⟩ := done
    exact Function.update_self ..
  release_other done j other := by
    simp only [Option.ite_none_left_eq_some, Option.some.injEq] at done
    obtain ⟨_, rfl⟩ := done
    exact Function.update_of_ne other ..
  allocateFrame s := some (s.next, { s with next := s.next + 1 })
  allocateFrame_look done := by
    cases done
    rfl

def PageMap.empty : PageMap := ⟨fun _ => none, 0⟩

def reapedSchedule : List Event :=
  [.spawnKernel, .setInit 1, .spawnUser 7, .schedule, .schedule, .fork 8, .wait, .exit 5, .schedule,
  .schedule, .wait]

def firstStack : Option (GuardedStack × PageMap) :=
  GuardedStack.new PageMap.mapper GUARDED_STACK_VIRT_BASE .empty

/-- A run in which nothing else is mapped. -/
def Alone {σ : Type} (s : Stacks σ) : StackAction σ → Prop
  | .event _ => s.next + GUARDED_STACK_STRIDE ≤ DMA_POOL_VIRT_BASE
  | .elsewhere _ => False

instance {σ : Type} (s : Stacks σ) (a : StackAction σ) : Decidable (Alone s a) :=
  match a with
  | .event _ => inferInstanceAs (Decidable (_ ≤ _))
  | .elsewhere _ => inferInstanceAs (Decidable False)

theorem apart_of_alone {σ : Type} {x : KernelMapper σ} (s : Stacks σ) (a : StackAction σ)
    (alone : Alone s a) : Apart x s a := by
  cases a with
  | event => exact alone
  | elsewhere => exact alone.elim

theorem reuse_fails_child : ∃ g memory s, firstStack = some (g, memory) ∧
    run (stackStep PageMap.mapper) (.booted g memory) (reapedSchedule.map .event) = some s ∧
    s.deadSlot = some 3 ∧ s.create PageMap.mapper s.timeline = none := by
  have computed : (firstStack.bind fun (g, memory) =>
      replay (stackStep PageMap.mapper) Alone (.booted g memory) (reapedSchedule.map .event)).map
        (·.deadSlot) = some (some 3) := by
    decide +kernel
  obtain ⟨s, ran, dead⟩ := Option.map_eq_some_iff.mp computed
  obtain ⟨⟨g, memory⟩, made, ran⟩ := Option.bind_eq_some_iff.mp ran
  have run := Reaches.of_replay (apart_of_alone (x := PageMap.mapper)) .start ran
  exact ⟨g, memory, s, made, run_of_replay ran, dead, (reuse_fails PageMap.mapper (fun _ _ => rfl) made).2
    s 3 s.timeline run dead⟩

theorem child_slot_panics : ∃ g memory s, firstStack = some (g, memory) ∧
    run (stackStep PageMap.mapper) (.booted g memory) (reapedSchedule.map .event) = some s ∧
    s.deadSlot = some 3 ∧ s.create PageMap.mapper s.timeline = none ∧
    ¬Reuses PageMap.mapper s 3 s.timeline := by
  have computed : (firstStack.bind fun (g, memory) =>
      (run (stackStep PageMap.mapper) (.booted g memory) (reapedSchedule.map .event)).map fun s =>
        (s.deadSlot, (s.create PageMap.mapper s.timeline).isNone)) = some (some 3, true) := by
    decide +kernel
  obtain ⟨⟨g, memory⟩, made, ran⟩ := Option.bind_eq_some_iff.mp computed
  obtain ⟨s, done, both⟩ := Option.map_eq_some_iff.mp ran
  rw [Prod.mk.injEq, Option.isNone_iff_eq_none] at both
  refine ⟨g, memory, s, made, done, both.1, both.2, ?_⟩
  rintro ⟨s', created, _⟩
  rw [both.2] at created
  cases created

end PickleOS.Tasks
