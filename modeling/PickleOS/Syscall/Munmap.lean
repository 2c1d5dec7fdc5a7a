import PickleOS.Memory.Heaps
import PickleOS.Syscall.Signals

set_option autoImplicit false

/-!
# `SYS_MUNMAP`

The pages are counted from the length, and the first one is found from the address.
-/

namespace PickleOS.Syscall

open Shared.Machine Memory

/-- A page of the user's own. -/
def Looked (x : Mapper) (m : MemoryManager) (cr3 : Frame) (page : Nat) : Prop :=
  (x.translate m cr3 page).any (·.2.user) = true

instance (x : Mapper) (m : MemoryManager) (cr3 : Frame) (page : Nat) : Decidable (Looked x m cr3 page) :=
  inferInstanceAs (Decidable (_ = true))

/-- `start_page + i` for a start page that the address lies in. -/
def pageAddress (x : Mapper) (addr i : Nat) : Option Nat := x.virtAddr ((addr / 4096 + i) * 4096 % 2 ^ 64)

/-- `sys_munmap_impl`; `none` is a panic of the kernel, at a page that has no address. -/
def sysMunmapImpl (x : Mapper) (t : Memory.Task) (addr len : Nat) (m : MemoryManager) :
    Option (Bool × MemoryManager) :=
  if len = 0 then some (true, m)
  else if addr < USER_HEAP_START ∨ USER_SPACE_MAX ≤ addr then some (false, m)
  else
    match t.userCr3 with
    | none => some (false, m)
    | some cr3 =>
      if ∃ i, i < pageCount len ∧ pageAddress x addr i = none ∧ ∀ j, j < i →
        Looked x m cr3 (addr / 4096 + j) then none
      else some (m.sysMunmap x cr3 addr len)

/-- The result is 0 if it is `true`, and `u64::MAX` otherwise. -/
def sysMunmap (x : Mapper) (ring : Ring) (t : Memory.Task) (addr len : Nat) (m : MemoryManager) :
    Option (Bool × MemoryManager) :=
  if ring = .user then sysMunmapImpl x t addr len m else some (false, m)

/-- The address space has something at the page, which is one of a 64-bit address. -/
def Maps (m : MemoryManager) (cr3 : Frame) (page : Nat) : Prop :=
  Canonical (page * 4096) ∧ ¬(m.lookup cr3 3 page).IsUnused

def Intersects (addr len page : Nat) : Prop := page * 4096 < addr + len ∧ addr < (page + 1) * 4096

/-- Exactly the pages of a range are gone. -/
structure Cleared (m m' : MemoryManager) (cr3 : Frame) (addr len : Nat) : Prop where
  gone : ∀ page, page < 2 ^ 52 → (Maps m cr3 page ∧ ¬Maps m' cr3 page ↔ Intersects addr len page)
  others : ∀ page, page < 2 ^ 52 → Canonical (page * 4096) → ¬Intersects addr len page →
    m'.lookup cr3 3 page = m.lookup cr3 3 page

def MunmapMeets (x : Mapper) (ring : Ring) (t : Memory.Task) (addr len : Nat) (m : MemoryManager) : Prop :=
  match sysMunmap x ring t addr len m with
  | none => True
  | some (true, m') => ∃ cr3, t.userCr3 = some cr3 ∧ Cleared m m' cr3 addr len
  | some (false, m') => ∀ cr3 page, t.userCr3 = some cr3 → m'.lookup cr3 3 page = m.lookup cr3 3 page

/-- The call does its work: every page that it looks at is the user's. -/
structure Accepts (x : Mapper) (ring : Ring) (t : Memory.Task) (addr len : Nat) (m : MemoryManager)
    (cr3 : Frame) : Prop where
  ring : ring = .user
  space : t.userCr3 = some cr3
  range : USER_HEAP_START ≤ addr ∧ addr < USER_SPACE_MAX
  pages : ∀ i, i < pageCount len → pageAddress x addr i ≠ none ∧ Looked x m cr3 (addr / 4096 + i)

/-- The length alone makes as many pages as the range touches, and these are the user's half. -/
def Covers (addr len : Nat) : Prop :=
  (addr % 4096 + len + 4095) / 4096 = pageCount len ∧ addr + len ≤ USER_SPACE_MAX

variable {x : Mapper} {owner : Frame → Owner} {m : MemoryManager} {cr3 : Frame} {page : Nat}

theorem looked_user (owned : Owned owner m) (root : owner cr3 = .table cr3 []) (looked : Looked x m cr3 page) :
    (m.lookup cr3 3 page).flags.user = true := by
  have translates := x.translate_documented m cr3 page
  obtain ⟨⟨f, flags⟩, translated, user⟩ := (Option.any_eq_true _ _).mp looked
  rw [translated] at translates
  rw [translates.leaf owned root user]
  exact user

theorem used_of_user {e : Entry} (user : e.flags.user = true) : ¬e.IsUnused := fun unused => by
  simp [Entry.unused_flags unused] at user

theorem unmap_user (sound : Sound owner m) (root : owner cr3 = .table cr3 [])
    (user : (m.lookup cr3 3 page).flags.user = true) :
    ∃ f m', x.unmap m cr3 page = (some f, m') ∧ Sound owner m' ∧
      ∀ q, m'.lookup cr3 3 q = if pathTo 4 q = pathTo 4 page then .unused else m.lookup cr3 3 q := by
  have documented := x.unmap_documented m cr3 page
  rcases unmapped : x.unmap m cr3 page with ⟨result, m'⟩
  rw [unmapped] at documented
  cases documented with
  | failed missing => exact absurd missing (used_of_user user)
  | unmapped found used =>
    obtain ⟨t', found', label, _⟩ := lookup_user sound.1 root user
    obtain rfl := Option.some.inj (found.symm.trans found')
    refine ⟨_, _, rfl, ⟨(sound.1.setLeaf label (pathTo_length 3 page) (by simp [Entry.unused])).1,
      sound.2.setLeaf (by simp [Entry.unused])⟩, fun q => ?_⟩
    exact (lookup_setLeaf sound.1 root label found (Nat.le_refl 3)).trans (by simp only [true_and])

theorem unmapPages_users {count : Nat} (sound : Sound owner m) (root : owner cr3 = .table cr3 [])
    (room : page + count ≤ 512 ^ 4) (users : ∀ i, i < count → (m.lookup cr3 3 (page + i)).flags.user = true) :
    ∃ m', m.unmapPages x cr3 page count = (true, m') ∧
      ∀ q, m'.lookup cr3 3 q = if ∃ i, i < count ∧ pathTo 4 q = pathTo 4 (page + i) then .unused else
        m.lookup cr3 3 q := by
  induction count generalizing page m with
  | zero => exact ⟨m, rfl, fun q => by simp⟩
  | succ count ih =>
    obtain ⟨f, m₁, unmapped, sound₁, view⟩ := unmap_user (x := x) sound root (users 0 (by omega))
    have later (i : Nat) (small : i < count) : (m₁.lookup cr3 3 (page + 1 + i)).flags.user = true := by
      rw [view, if_neg]
      · rw [Nat.add_assoc, Nat.add_comm 1 i]
        exact users (i + 1) (by omega)
      · rw [pathTo_eq, Nat.mod_eq_of_lt (by omega), Nat.mod_eq_of_lt (by omega)]
        omega
    obtain ⟨m', rest, view'⟩ := ih sound₁ (by omega) later
    rw [Nat.add_zero] at unmapped
    refine ⟨m', by simp only [MemoryManager.unmapPages, unmapped, rest], fun q => ?_⟩
    rw [view', view]
    by_cases first : pathTo 4 q = pathTo 4 page
    · rw [if_pos (c := pathTo 4 q = pathTo 4 (page + 0)) first, ite_self, if_pos ⟨0, by omega, first⟩]
    · rw [if_neg (c := pathTo 4 q = pathTo 4 (page + 0)) first]
      refine if_congr ⟨?_, ?_⟩ rfl rfl
      · rintro ⟨i, small, same⟩
        exact ⟨i + 1, by omega, by rwa [Nat.add_comm i 1, ← Nat.add_assoc]⟩
      · rintro ⟨i, small, same⟩
        cases i with
        | zero => exact absurd same first
        | succ i => exact ⟨i, by omega, by rwa [Nat.add_assoc, Nat.add_comm 1 i]⟩

variable {ring : Ring} {t : Memory.Task} {addr len : Nat}

theorem pageAddress_lt {i : Nat} (low : addr < USER_SPACE_MAX)
    (every : ∀ j, j ≤ i → pageAddress x addr j ≠ none) :
    addr / 4096 + i < 512 ^ 4 := by
  -- The first page without an address comes after 48 bits.
  by_contra beyond
  simp only [USER_SPACE_MAX] at low
  refine every (512 ^ 4 - addr / 4096) (by omega) ?_
  rw [pageAddress, Nat.add_sub_cancel' (by omega)]
  exact x.virtAddr_gap (by decide) (by decide)

theorem sysMunmap_accepted (positive : 0 < len) (accepts : Accepts x ring t addr len m cr3) :
    sysMunmap x ring t addr len m = some (m.unmapPages x cr3 (addr / 4096) (pageCount len)) := by
  obtain ⟨user, space, range, pages⟩ := accepts
  have inRange : ¬(addr < USER_HEAP_START ∨ USER_SPACE_MAX ≤ addr) := by omega
  rw [sysMunmap, if_pos user, sysMunmapImpl, if_neg (Nat.ne_of_gt positive), if_neg inRange, space]
  dsimp only
  rw [if_neg, MemoryManager.sysMunmap, if_neg (Nat.ne_of_gt positive), if_neg inRange]
  · exact congrArg some (if_pos fun i small => (pages i small).2)
  · rintro ⟨i, small, none, _⟩
    exact (pages i small).1 none

theorem sysMunmap_refused (positive : 0 < len) (refused : ∀ cr3, ¬Accepts x ring t addr len m cr3) :
    sysMunmap x ring t addr len m = none ∨ sysMunmap x ring t addr len m = some (false, m) := by
  unfold sysMunmap sysMunmapImpl
  split
  next user =>
    rw [if_neg (Nat.ne_of_gt positive)]
    split
    next => exact .inr rfl
    next inRange =>
      split
      next => exact .inr rfl
      next cr3 space =>
        split
        next => exact .inl rfl
        next addressed =>
          refine .inr ?_
          rw [MemoryManager.sysMunmap, if_neg (Nat.ne_of_gt positive), if_neg inRange]
          refine congrArg some (if_neg fun all => ?_)
          refine refused cr3 ⟨user, space, by omega, fun i small => ⟨fun none => ?_, all i small⟩⟩
          exact addressed ⟨i, small, none, fun j before => all j (Nat.lt_trans before small)⟩
  next => exact .inr rfl

theorem accepted_view (sound : Sound owner m) (root : owner cr3 = .table cr3 []) (positive : 0 < len)
    (accepts : Accepts x ring t addr len m cr3) :
    ∃ m', sysMunmap x ring t addr len m = some (true, m') ∧ ∀ q, m'.lookup cr3 3 q =
      if ∃ i, i < pageCount len ∧ pathTo 4 q = pathTo 4 (addr / 4096 + i) then .unused else
        m.lookup cr3 3 q := by
  have room : addr / 4096 + pageCount len ≤ 512 ^ 4 := by
    rcases Nat.eq_zero_or_pos (pageCount len) with none | some
    · have low := accepts.range.2
      simp only [USER_SPACE_MAX] at low
      omega
    · have last := pageAddress_lt (i := pageCount len - 1) accepts.range.2 fun j before =>
        (accepts.pages j (by omega)).1
      omega
  obtain ⟨m', done, view⟩ := unmapPages_users (x := x) sound root room fun i small =>
    looked_user sound.1 root (accepts.pages i small).2
  exact ⟨m', by rw [sysMunmap_accepted positive accepts, done], view⟩

theorem pageCount_le (addr len : Nat) : pageCount len ≤ (addr % 4096 + len + 4095) / 4096 := by
  rw [pageCount]
  omega

theorem low_page {page : Nat} (canonical : Canonical (page * 4096)) (valid : page < 2 ^ 52) (i : Nat)
    (low : i < 2 ^ 35) :
    pathTo 4 page = pathTo 4 i ↔ page = i := by
  rw [pathTo_eq, Nat.mod_eq_of_lt (b := 512 ^ 4) (a := i) (by omega)]
  rcases canonical with below | above <;> omega

theorem intersects_iff {addr len : Nat} (positive : 0 < len) (page : Nat) :
    Intersects addr len page ↔ ∃ i, i < (addr % 4096 + len + 4095) / 4096 ∧ page = addr / 4096 + i := by
  constructor
  · rintro ⟨starts, ends⟩
    exact ⟨page - addr / 4096, by omega, by omega⟩
  · rintro ⟨i, small, rfl⟩
    constructor <;> omega

theorem cleared_iff {m' : MemoryManager} (positive : 0 < len) (low : addr < USER_SPACE_MAX)
    (users : ∀ i, i < pageCount len → (m.lookup cr3 3 (addr / 4096 + i)).flags.user = true)
    (view : ∀ q, m'.lookup cr3 3 q =
      if ∃ i, i < pageCount len ∧ pathTo 4 q = pathTo 4 (addr / 4096 + i) then .unused else m.lookup cr3 3 q) :
    Cleared m m' cr3 addr len ↔ Covers addr len := by
  simp only [USER_SPACE_MAX] at low
  have few := pageCount_le addr len
  constructor
  · intro cleared
    have inside : addr + len ≤ USER_SPACE_MAX := by
      by_contra beyond
      simp only [USER_SPACE_MAX] at beyond
      -- The first page after the user's half has no address.
      have mapped := (cleared.gone (2 ^ 35) (by decide)).mpr ⟨by omega, by omega⟩
      exact absurd mapped.1.1 (by decide)
    refine ⟨?_, inside⟩
    simp only [USER_SPACE_MAX] at inside
    by_contra differ
    have next := (intersects_iff positive (addr / 4096 + pageCount len)).mpr ⟨pageCount len, by omega, rfl⟩
    have page : addr / 4096 + pageCount len < 2 ^ 35 := by omega
    obtain ⟨mapped, gone⟩ := (cleared.gone _ (by omega)).mpr next
    refine gone ⟨mapped.1, ?_⟩
    rw [view, if_neg]
    · exact mapped.2
    · rintro ⟨i, small, same⟩
      rw [low_page mapped.1 (by omega) _ (by omega)] at same
      omega
  · rintro ⟨count, inside⟩
    simp only [USER_SPACE_MAX] at inside
    have touched (page : Nat) (canonical : Canonical (page * 4096)) (valid : page < 2 ^ 52) :
        (∃ i, i < pageCount len ∧ pathTo 4 page = pathTo 4 (addr / 4096 + i)) ↔ Intersects addr len page := by
      rw [intersects_iff positive, count]
      refine exists_congr fun i => and_congr_right fun small => low_page canonical valid _ ?_
      omega
    refine ⟨fun page valid => ⟨?_, fun meets => ?_⟩, fun page valid canonical off => ?_⟩
    · rintro ⟨⟨canonical, used⟩, gone⟩
      by_contra off
      refine gone ⟨canonical, ?_⟩
      rwa [view, if_neg (by rwa [touched page canonical valid])]
    · obtain ⟨i, small, rfl⟩ := (intersects_iff positive page).mp meets
      have canonical : Canonical ((addr / 4096 + i) * 4096) := .inl (by omega)
      refine ⟨⟨canonical, used_of_user (users i (by omega))⟩, fun still => still.2 ?_⟩
      rw [view, if_pos ((touched _ canonical valid).mpr meets)]
      rfl
    · rw [view, if_neg (by rwa [touched page canonical valid])]

variable {boot : Frame → Owner} {start : MemoryManager}

/-- A call that is accepted clears its range exactly when the pages that the length makes are those that
the range touches. -/
theorem munmap_exact_iff (booted : Booted boot start) (run : Reaches (step x) PrivatePages start m)
    (space : ∀ cr3, t.userCr3 = some cr3 → cr3 ∈ m.userPageTables) (ring : Ring) (addr : Nat)
    (positive : 0 < len) :
    MunmapMeets x ring t addr len m ↔ ∀ cr3, Accepts x ring t addr len m cr3 → Covers addr len := by
  obtain ⟨owner, sound⟩ := run_sound x booted run
  unfold MunmapMeets
  by_cases refused : ∀ cr3, ¬Accepts x ring t addr len m cr3
  · refine ⟨fun _ cr3 accepts => absurd accepts (refused cr3), fun _ => ?_⟩
    rcases sysMunmap_refused positive refused with panics | fails
    · rw [panics]
      trivial
    · rw [fails]
      exact fun _ _ _ => rfl
  · obtain ⟨cr3, accepts⟩ := not_forall_not.mp refused
    have root := (sound.1.roots cr3 (space cr3 accepts.space)).root
    obtain ⟨m', done, view⟩ := accepted_view sound root positive accepts
    have iff := cleared_iff positive accepts.range.2
      (fun i small => looked_user sound.1 root (accepts.pages i small).2) view
    rw [done]
    constructor
    · rintro ⟨cr3', space', cleared⟩ _ _
      obtain rfl := Option.some.inj (accepts.space.symm.trans space')
      exact iff.mp cleared
    · exact fun covers => ⟨cr3, accepts.space, iff.mpr (covers cr3 accepts)⟩

def twoPages : List Action :=
  [.load [⟨1024, true, false, fun _ => 0⟩], .mmap 256 (USER_HEAP_START / 4096) 2 true]

theorem munmap_exact_first : ∃ m, replay (step .offsetPageTable) PrivatePages bare twoPages = some m ∧
    (∃ m', sysMunmap .offsetPageTable .user ⟨some 256, USER_HEAP_START + 8192⟩ (USER_HEAP_START + 16)
    4000 m = some (true, m')) ∧
    MunmapMeets .offsetPageTable .user ⟨some 256, USER_HEAP_START + 8192⟩ (USER_HEAP_START + 16) 4000 m := by
  have ran : (replay (step .offsetPageTable) PrivatePages bare twoPages).map (fun m => (m.userPageTables,
      (sysMunmap .offsetPageTable .user ⟨some 256, USER_HEAP_START + 8192⟩ (USER_HEAP_START + 16)
      4000 m).map (·.1))) =
      some ([256], some true) := by
    decide +kernel
  obtain ⟨m, ran, view⟩ := Option.map_eq_some_iff.mp ran
  simp only [Prod.mk.injEq, Option.map_eq_some_iff] at view
  obtain ⟨spaces, ⟨_, m'⟩, done, rfl⟩ := view
  refine ⟨m, ran, ⟨m', done⟩, (munmap_exact_iff bare_booted (.of_replay (fun _ _ fine => fine) .start ran)
    ?_ .user _ ?_).mpr ?_⟩
  · rintro _ ⟨⟩
    simp [spaces]
  · decide
  · exact fun _ _ => ⟨by decide, by decide⟩

/-- The range touches both pages of the heap, and the call unmaps one. A length that wraps makes no page
at all. -/
theorem munmap_leaves_last : ∃ m m₁ m₂, replay (step .offsetPageTable) PrivatePages bare twoPages = some m ∧
    sysMunmap .offsetPageTable .user ⟨some 256, USER_HEAP_START + 8192⟩ (USER_HEAP_START + 0x800)
      0x1000 m = some (true, m₁) ∧
    Maps m₁ 256 (USER_HEAP_START / 4096 + 1) ∧
    sysMunmap .offsetPageTable .user ⟨some 256, USER_HEAP_START + 8192⟩ USER_HEAP_START (2 ^ 64 - 1)
      m = some (true, m₂) ∧
    Maps m₂ 256 (USER_HEAP_START / 4096) ∧
    ¬MunmapMeets .offsetPageTable .user ⟨some 256, USER_HEAP_START + 8192⟩ (USER_HEAP_START + 0x800) 0x1000 m ∧
    ¬MunmapMeets .offsetPageTable .user ⟨some 256, USER_HEAP_START + 8192⟩ USER_HEAP_START (2 ^ 64 - 1) m := by
  have ran : (replay (step .offsetPageTable) PrivatePages bare twoPages).map (fun m =>
      ((sysMunmap .offsetPageTable .user ⟨some 256, USER_HEAP_START + 8192⟩ (USER_HEAP_START + 0x800)
      0x1000 m).map fun r =>
        (r.1, decide (r.2.lookup 256 3 (USER_HEAP_START / 4096 + 1)).IsUnused),
      (sysMunmap .offsetPageTable .user ⟨some 256, USER_HEAP_START + 8192⟩ USER_HEAP_START (2 ^ 64 - 1)
      m).map fun r =>
        (r.1, decide (r.2.lookup 256 3 (USER_HEAP_START / 4096)).IsUnused))) =
          some (some (true, false), some (true, false)) := by
    decide +kernel
  obtain ⟨m, ran, view⟩ := Option.map_eq_some_iff.mp ran
  simp only [Prod.mk.injEq, Option.map_eq_some_iff, decide_eq_false_iff_not] at view
  obtain ⟨⟨⟨_, m₁⟩, first, rfl, still⟩, ⟨_, m₂⟩, second, rfl, still'⟩ := view
  have mapped : Maps m₁ 256 (USER_HEAP_START / 4096 + 1) := ⟨.inl (by decide), still⟩
  have mapped' : Maps m₂ 256 (USER_HEAP_START / 4096) := ⟨.inl (by decide), still'⟩
  refine ⟨m, m₁, m₂, ran, first, mapped, second, mapped', fun meets => ?_, fun meets => ?_⟩
  · rw [MunmapMeets, first] at meets
    obtain ⟨cr3, same, cleared⟩ := meets
    cases same
    exact ((cleared.gone _ (by decide)).mpr ⟨by decide, by decide⟩).2 mapped
  · rw [MunmapMeets, second] at meets
    obtain ⟨cr3, same, cleared⟩ := meets
    cases same
    exact ((cleared.gone _ (by decide)).mpr ⟨by decide, by decide⟩).2 mapped'

end PickleOS.Syscall
