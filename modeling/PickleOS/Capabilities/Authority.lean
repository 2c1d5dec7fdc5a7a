import PickleOS.Capabilities.Model
import PickleOS.Shared.Machine

set_option autoImplicit false

/-!
# Authority over whole histories

`grant` finds its source in one critical section and inserts the copy in another; in between the source
may be revoked, and its slot filled with something else.
-/

namespace PickleOS.Capabilities

open Shared Shared.Machine

inductive Pending where
  | idle
  /-- `SYS_CAP_GRANT` has passed its own check of the slot. -/
  | checked (slot : Nat) (target : TaskId) (newRights : Rights)
  /-- `grant` has looked its source up. The chain is a ghost: the source and what it was granted from. -/
  | looked (toTask : TaskId) (cap : Capability) (chain : List Capability)

structure State where
  tables : Tables
  pending : TaskId → Pending
  -- History that nobody looks at: what a slot's content was granted from, newest first.
  lineage : TaskId → Nat → List Capability
  minted : List Capability
  granted : List (Capability × Capability)

def State.initial : State where
  tables := ∅
  pending _ := .idle
  lineage _ _ := []
  minted := []
  granted := []

namespace State

variable (s : State)

def setPending (task : TaskId) (pending : Pending) : State :=
  { s with pending := Function.update s.pending task pending }

def setLineage (task : TaskId) (slot : Nat) (chain : List Capability) : State :=
  { s with lineage := Function.update s.lineage task (Function.update (s.lineage task) slot chain) }

def mint (task : TaskId) (object : Object) (rights : Rights) : State :=
  let (slot, tables) := s.tables.mint task object rights
  { s.setLineage task slot [⟨object, rights⟩] with tables := tables, minted := ⟨object, rights⟩ :: s.minted }

/-- `grant`, up to its second section. -/
def grant (caller fromTask : TaskId) (fromSlot : Nat) (toTask : TaskId) (newRights : Rights) : State :=
  match s.tables.grantLookup fromTask fromSlot newRights with
  | none => s.setPending caller .idle
  | some cap => s.setPending caller (.looked toTask cap (s.lineage fromTask fromSlot))

def insert (caller toTask : TaskId) (cap : Capability) (chain : List Capability) : State :=
  let (slot, tables) := s.tables.insertCap toTask cap
  { (s.setLineage toTask slot (cap :: chain)).setPending caller .idle with
    tables := tables
    granted := (chain.head?.map fun source => (source, cap)).toList ++ s.granted }

end State

inductive Action where
  | createTable (task : TaskId)
  | mint (task : TaskId) (object : Object) (rights : Rights)
  /-- A call of `grant` in the kernel, which may name any task. -/
  | grant (caller fromTask : TaskId) (fromSlot : Nat) (toTask : TaskId) (newRights : Rights)
  /-- `SYS_CAP_GRANT`, with the raw arguments. -/
  | capGrant (caller : TaskId) (target slot rights : UInt64)
  /-- The next section of a task that is inside `SYS_CAP_GRANT` or `grant`. -/
  | advance (caller : TaskId)
  | revoke (task : TaskId) (slot : Nat)

def step (s : State) : Action → Option State
  | .createTable task => some { s with tables := s.tables.createTable task }
  | .mint task object rights => some (s.mint task object rights)
  | .grant caller fromTask fromSlot toTask newRights =>
    match s.pending caller with
    | .idle => some (s.grant caller fromTask fromSlot toTask newRights)
    | _ => none
  | .capGrant caller target slot rights =>
    match s.pending caller with
    | .idle =>
      if s.tables.check caller slot.toNat .grant then
        some (s.setPending caller (.checked slot.toNat target.toNat ⟨rights.toUInt32⟩))
      else some s
    | _ => none
  | .advance caller =>
    match s.pending caller with
    | .idle => none
    | .checked slot target newRights => some (s.grant caller caller slot target newRights)
    | .looked toTask cap chain => some (s.insert caller toTask cap chain)
  | .revoke task slot => some { s with tables := (s.tables.revoke task slot).2 }

abbrev Reachable (s : State) : Prop := Reaches step (fun _ _ => True) .initial s

/-- `cap` came about by the grants of the chain, newest first, from one that the kernel minted. -/
structure Descends (s : State) (cap : Capability) (chain : List Capability) : Prop where
  newest : chain.head? = some cap
  grants : chain.IsChain fun copy source => (source, copy) ∈ s.granted
  root : ∃ root, chain.getLast? = some root ∧ root ∈ s.minted
  object : ∀ c ∈ chain, c.object = cap.object
  rights : ∀ c ∈ chain, c.rights.contains cap.rights
  granting : ∀ c ∈ chain.tail, c.rights.contains .grant

def Changes (s t : State) : Action → Prop
  | .mint task object rights =>
    ∃ slot, s.tables.lookupSlot task slot = none ∧
      t.tables.lookupSlot = Tables.put s.tables.lookupSlot task slot (some ⟨object, rights⟩)
  | .advance caller =>
    t.tables.lookupSlot = s.tables.lookupSlot ∨
      ∃ toTask cap chain slot, s.pending caller = .looked toTask cap chain ∧
      s.tables.lookupSlot toTask slot = none ∧
        t.tables.lookupSlot = Tables.put s.tables.lookupSlot toTask slot (some cap)
  | .revoke task slot => t.tables.lookupSlot = Tables.put s.tables.lookupSlot task slot none
  | .createTable _ | .grant .. | .capGrant .. => t.tables.lookupSlot = s.tables.lookupSlot

namespace Descends

variable {s t : State} {cap : Capability} {chain : List Capability}

theorem mono (descends : Descends s cap chain) (minted : ∀ c ∈ s.minted, c ∈ t.minted)
    (granted : ∀ c ∈ s.granted, c ∈ t.granted) : Descends t cap chain where
  -- History only grows.
  newest := descends.newest
  grants := descends.grants.imp fun _ _ => granted _
  root := by
    obtain ⟨root, last, member⟩ := descends.root
    exact ⟨root, last, minted root member⟩
  object := descends.object
  rights := descends.rights
  granting := descends.granting

theorem of_minted (minted : cap ∈ s.minted) : Descends s cap [cap] where
  newest := rfl
  grants := .singleton _
  root := ⟨cap, rfl, minted⟩
  object := by simp
  rights := by simp [Rights.contains_refl]
  granting := by simp

theorem granted {source : Capability} (descends : Descends s source chain)
    (granting : source.rights.contains .grant)
    (object : cap.object = source.object) (rights : source.rights.contains cap.rights)
    (logged : (source, cap) ∈ s.granted) :
    Descends s cap (cap :: chain) where
  newest := rfl
  grants := by
    cases chain with
    | nil => exact .singleton _
    | cons c rest =>
      have here : c = source := by simpa using descends.newest
      exact .cons_cons (here ▸ logged) descends.grants
  root := by
    obtain ⟨root, last, member⟩ := descends.root
    cases chain with
    | nil => cases last
    | cons c rest => exact ⟨root, by simpa using last, member⟩
  object := by
    intro c member
    cases List.mem_cons.mp member with
    | inl here => rw [here]
    | inr before => rw [descends.object c before, object]
  rights := by
    intro c member
    cases List.mem_cons.mp member with
    | inl here => rw [here]; exact Rights.contains_refl _
    | inr before => exact Rights.contains_trans (descends.rights c before) rights
  granting := by
    intro c member
    cases chain with
    | nil => cases member
    | cons first rest =>
      have here : first = source := by simpa using descends.newest
      cases List.mem_cons.mp member with
      | inl first' => rw [first', here]; exact granting
      | inr before => exact descends.granting c before

end Descends

/-- Every slot has its chain, and so has every grant that is under way. -/
structure Authorized (s : State) : Prop where
  slots : ∀ task slot cap, s.tables.lookupSlot task slot = some cap → Descends s cap (s.lineage task slot)
  grants : ∀ caller toTask cap chain, s.pending caller = .looked toTask cap chain →
    ∃ source, Descends s source chain ∧ source.rights.contains .grant ∧ cap.object = source.object ∧
      source.rights.contains cap.rights

section Step

variable {s t : State}

theorem changes_step {a : Action} (taken : step s a = some t) : Changes s t a := by
  cases a with
  | createTable task =>
    cases taken
    exact Tables.lookupSlot_createTable task
  | mint task object rights =>
    cases taken
    exact ⟨_, Tables.insertCap_free task _, Tables.lookupSlot_insertCap task _⟩
  | grant caller fromTask fromSlot toTask newRights =>
    simp only [step] at taken
    split at taken <;> cases taken
    unfold State.grant
    split <;> rfl
  | capGrant caller target slot rights =>
    simp only [step] at taken
    split at taken
    · split at taken <;> cases taken <;> rfl
    · cases taken
  | advance caller =>
    simp only [step] at taken
    split at taken
    · cases taken
    · cases taken
      left
      unfold State.grant
      split <;> rfl
    next toTask cap chain here =>
      cases taken
      exact .inr ⟨toTask, cap, chain, _, here, Tables.insertCap_free toTask cap,
        Tables.lookupSlot_insertCap toTask cap⟩
  | revoke task slot =>
    cases taken
    exact Tables.lookupSlot_revoke task slot

theorem grantLookup_some {fromTask : TaskId} {fromSlot : Nat} {newRights : Rights} {cap : Capability}
    (permitted : s.tables.grantLookup fromTask fromSlot newRights = some cap) :
    ∃ source, s.tables.lookupSlot fromTask fromSlot = some source ∧ source.rights.contains .grant ∧
      cap.object = source.object ∧ source.rights.contains cap.rights := by
  unfold Tables.grantLookup at permitted
  split at permitted
  · cases permitted
  next source found =>
    split at permitted
    · cases permitted
    next granting =>
      cases permitted
      exact ⟨source, found, by simpa using granting, rfl, Rights.contains_intersect _ _⟩

theorem Authorized.setPending (authorized : Authorized s) (caller : TaskId) {pending : Pending}
    (fine : ∀ toTask cap chain, pending = .looked toTask cap chain →
      ∃ source, Descends s source chain ∧ source.rights.contains .grant ∧ cap.object = source.object ∧
        source.rights.contains cap.rights) : Authorized (s.setPending caller pending) where
  slots task slot cap found := (authorized.slots task slot cap found).mono (fun _ => id) fun _ => id
  grants by' toTask cap chain here := by
    have looked : ∃ source, Descends s source chain ∧ source.rights.contains .grant ∧
      cap.object = source.object ∧
        source.rights.contains cap.rights := by
      by_cases own : by' = caller
      · subst own
        exact fine toTask cap chain (by simpa [State.setPending] using here)
      · exact authorized.grants by' toTask cap chain (by simpa [State.setPending, own] using here)
    obtain ⟨source, descends, rest⟩ := looked
    exact ⟨source, descends.mono (fun _ => id) fun _ => id, rest⟩

theorem Authorized.grant (authorized : Authorized s) (caller fromTask : TaskId) (fromSlot : Nat)
    (toTask : TaskId)
    (newRights : Rights) : Authorized (s.grant caller fromTask fromSlot toTask newRights) := by
  unfold State.grant
  cases permitted : s.tables.grantLookup fromTask fromSlot newRights with
  | none => exact authorized.setPending caller (by simp)
  | some cap =>
    refine authorized.setPending caller ?_
    rintro toTask' cap' chain here
    cases here
    obtain ⟨source, found, rest⟩ := grantLookup_some permitted
    -- The source is in its slot now; whatever happens to the slot later, the chain is kept.
    exact ⟨source, authorized.slots fromTask fromSlot source found, rest⟩

theorem Authorized.filled {task : TaskId} {slot : Nat} {cap : Capability} {chain : List Capability}
    (authorized : Authorized s) (minted : ∀ c ∈ s.minted, c ∈ t.minted)
    (granted : ∀ c ∈ s.granted, c ∈ t.granted)
    (lookup : t.tables.lookupSlot = Tables.put s.tables.lookupSlot task slot (some cap))
    (lineage : t.lineage = (s.setLineage task slot chain).lineage) (descends : Descends t cap chain)
    (pending : ∀ caller toTask cap chain, t.pending caller = .looked toTask cap chain →
      s.pending caller = .looked toTask cap chain) : Authorized t where
  -- A capability is put into a free slot, and the history grows.
  slots task' slot' cap' found := by
    rw [lookup, Tables.put] at found
    rw [lineage, State.setLineage]
    by_cases own : task' = task
    · subst own
      by_cases here : slot' = slot
      · subst here
        simp only [Function.update_self, Option.some.injEq] at found ⊢
        exact found ▸ descends
      · simp only [Function.update_self, Function.update_of_ne here] at found ⊢
        exact (authorized.slots task' slot' cap' found).mono minted granted
    · simp only [Function.update_of_ne own] at found ⊢
      exact (authorized.slots task' slot' cap' found).mono minted granted
  grants caller toTask cap chain here := by
    obtain ⟨source, descends, rest⟩ :=
      authorized.grants caller toTask cap chain (pending caller toTask cap chain here)
    exact ⟨source, descends.mono minted granted, rest⟩

theorem Authorized.insert {caller toTask : TaskId} {cap : Capability} {chain : List Capability}
    (authorized : Authorized s)
    (here : s.pending caller = .looked toTask cap chain) : Authorized (s.insert caller toTask cap chain) := by
  obtain ⟨source, descends, granting, object, rights⟩ := authorized.grants caller toTask cap chain here
  have later : ∀ c ∈ s.granted, c ∈ (s.insert caller toTask cap chain).granted := fun c member =>
    List.mem_append_right _ member
  refine authorized.filled (fun _ => id) later (Tables.lookupSlot_insertCap toTask cap) rfl ?_ ?_
  · have still : Descends (s.insert caller toTask cap chain) source chain := descends.mono (fun _ => id) later
    refine still.granted granting object rights ?_
    simp [State.insert, descends.newest]
  · intro caller' toTask' cap' chain' looked
    by_cases own : caller' = caller
    · simp [State.insert, State.setPending, own] at looked
    · simpa [State.insert, State.setPending, State.setLineage, own] using looked

theorem Authorized.step {a : Action} (authorized : Authorized s) (taken : step s a = some t) :
    Authorized t := by
  cases a with
  | createTable task =>
    cases taken
    exact {
      slots := fun task' slot cap found => by
        rw [Tables.lookupSlot_createTable] at found
        exact (authorized.slots task' slot cap found).mono (fun _ => id) fun _ => id
      grants := fun caller toTask cap chain here => by
        obtain ⟨source, descends, rest⟩ := authorized.grants caller toTask cap chain here
        exact ⟨source, descends.mono (fun _ => id) fun _ => id, rest⟩ }
  | mint task object rights =>
    cases taken
    exact authorized.filled (fun c member => List.mem_cons_of_mem _ member) (fun _ => id)
      (Tables.lookupSlot_insertCap task _) rfl (.of_minted (List.mem_cons_self ..)) fun _ _ _ _ => id
  | grant caller fromTask fromSlot toTask newRights =>
    simp only [Capabilities.step] at taken
    split at taken <;> cases taken
    exact authorized.grant caller fromTask fromSlot toTask newRights
  | capGrant caller target slot rights =>
    simp only [Capabilities.step] at taken
    split at taken
    · split at taken <;> cases taken
      · exact authorized.setPending caller (by simp)
      · exact authorized
    · cases taken
  | advance caller =>
    simp only [Capabilities.step] at taken
    split at taken
    · cases taken
    · cases taken
      exact authorized.grant ..
    next here =>
      cases taken
      exact authorized.insert here
  | revoke task slot =>
    cases taken
    exact {
      slots := fun task' slot' cap found => by
        have before : s.tables.lookupSlot task' slot' = some cap := by
          rw [Tables.lookupSlot_revoke, Tables.put] at found
          by_cases own : task' = task
          · subst own
            by_cases gone : slot' = slot
            · simp [gone] at found
            · simpa [gone] using found
          · simpa [own] using found
        exact (authorized.slots task' slot' cap before).mono (fun _ => id) fun _ => id
      grants := fun caller toTask cap chain here => by
        obtain ⟨source, descends, rest⟩ := authorized.grants caller toTask cap chain here
        exact ⟨source, descends.mono (fun _ => id) fun _ => id, rest⟩ }

end Step

theorem authorized {s : State} (run : Reachable s) : Authorized s := by
  refine run.invariant ⟨?_, ?_⟩ fun s a t authorized _ taken => authorized.step taken
  · intro task slot cap found
    simp [State.initial, Tables.lookupSlot] at found
  · intro caller toTask cap chain here
    cases here

/-- Whatever a slot holds descends from a minted capability by grants that never added a right, each
made by a holder of `GRANT`; and steps fill free slots and empty the slot they name, and do nothing
else to slots. -/
theorem authority_monotone {s : State} (run : Reachable s) :
    (∀ task slot cap, s.tables.lookupSlot task slot = some cap → Descends s cap (s.lineage task slot)) ∧
      ∀ a t, step s a = some t → Changes s t a :=
  ⟨(authorized run).slots, fun _ _ taken => changes_step taken⟩

theorem authority_monotone_revoked :
    ∃ s, run step .initial
        [.mint 1 (.role roleFileSystem) .all, .capGrant 1 2 0 17, .advance 1, .revoke 1 0,
        .mint 1 (.irq 3) .read,
          .advance 1] = some s ∧
      s.tables.lookupSlot 2 0 = some ⟨.role roleFileSystem, ⟨17⟩⟩ ∧
      Descends s ⟨.role roleFileSystem, ⟨17⟩⟩ (s.lineage 2 0) := by
  have result : (run step .initial
      [.mint 1 (.role roleFileSystem) .all, .capGrant 1 2 0 17, .advance 1, .revoke 1 0, .mint 1 (.irq 3) .read,
        .advance 1]).map (fun s => s.tables.lookupSlot 2 0) = some (some ⟨.role roleFileSystem, ⟨17⟩⟩) :=
          by decide
  obtain ⟨s, done, found⟩ := Option.map_eq_some_iff.mp result
  exact ⟨s, done, found, (authority_monotone (.of_run .start done)).1 2 0 _ found⟩

end PickleOS.Capabilities
