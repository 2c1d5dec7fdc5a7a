import PickleOS.NextFs.Holds

set_option autoImplicit false

namespace PickleOS.NextFs

open Shared Shared.Outcome

/-- A volume on which the in-memory inode `v` can be written: its blocks are data blocks marked used,
and no two of its places refer to one block. -/
structure Working (s : Volume) (v : Inode) : Prop where
  layout : s.layout.Ok
  backed : ∀ {p b}, v.holds s.device.data p = some b → s.layout.InData b ∧ s.used b = true
  exclusive : ∀ {p q b}, v.holds s.device.data p = some b → v.holds s.device.data q = some b → p = q

/-- The in-memory inode `v` refers to data blocks only. -/
structure Placed (s : Volume) (v : Inode) : Prop where
  layout : s.layout.Ok
  inData : ∀ {p b}, v.holds s.device.data p = some b → s.layout.InData b

theorem Working.placed {s : Volume} {v : Inode} (working : Working s v) : Placed s v :=
  ⟨working.layout, fun held => (working.backed held).1⟩

def Volume.Counted (s : Volume) : Prop :=
  s.sb.freeBlocks.toNat =
    Bitmap.count s.blockBitmap true s.layout.dataStart (s.layout.total - s.layout.dataStart)

/-- What writing through the in-memory inode `v` can do to a volume: blocks are added to `v` at the
`touched` indices, and no used block changes but those at `touched` indices and the indirect block. -/
structure Grown (touched : Nat → Prop) (s : Volume) (v : Inode) (t : Volume) (w : Inode) : Prop where
  layout : t.layout = s.layout
  inodes : t.inodeBitmap = s.inodeBitmap
  freeInodes : t.sb.freeInodes = s.sb.freeInodes
  rest : w = { v with direct := w.direct, indirect := w.indirect }
  low : ∀ b, ¬s.layout.InData b → t.device.data b = s.device.data b
  keeps : ∀ p b, v.holds s.device.data p = some b → w.holds t.device.data p = some b
  mono : ∀ b, s.used b = true → t.used b = true
  frame : ∀ b, s.used b = true → v.holds s.device.data .indirect ≠ some b →
    (∀ k, v.holds s.device.data (.data k) = some b → ¬touched k) → t.device.data b = s.device.data b
  fresh : ∀ p b, v.holds s.device.data p = none → w.holds t.device.data p = some b →
    s.layout.InData b ∧ s.used b = false ∧ t.used b = true
  taken : ∀ b, t.used b = true → s.used b = false → ∃ p, w.holds t.device.data p = some b
  distinct : ∀ p q b, v.holds s.device.data p = none → v.holds s.device.data q = none →
    w.holds t.device.data p = some b → w.holds t.device.data q = some b → p = q
  within : ∀ k b, v.holds s.device.data (.data k) = none → w.holds t.device.data (.data k) = some b → touched k
  through : ∀ b, v.holds s.device.data .indirect = none → w.holds t.device.data .indirect = some b →
    ∃ k, touched k ∧ 9 ≤ k ∧ k < 137
  counted : s.Counted → t.Counted

namespace Grown

variable {touched touched' : Nat → Prop} {s t u : Volume} {v w x : Inode}

theorem refl (touched : Nat → Prop) (s : Volume) (v : Inode) : Grown touched s v s v where
  layout := rfl
  inodes := rfl
  freeInodes := rfl
  rest := rfl
  low _ _ := rfl
  keeps _ _ held := held
  mono _ used := used
  frame _ _ _ _ := rfl
  fresh p b empty held := by simp [empty] at held
  taken b used unused := by simp [used] at unused
  distinct p q b empty _ held _ := by simp [empty] at held
  within k b empty held := by simp [empty] at held
  through b empty held := by simp [empty] at held
  counted counted := counted

theorem weaken (grown : Grown touched s v t w) (more : ∀ k, touched k → touched' k) :
    Grown touched' s v t w where
  layout := grown.layout
  inodes := grown.inodes
  freeInodes := grown.freeInodes
  rest := grown.rest
  low := grown.low
  keeps := grown.keeps
  mono := grown.mono
  frame b used notIndirect notData :=
    grown.frame b used notIndirect fun k held inside => notData k held (more k inside)
  fresh := grown.fresh
  taken := grown.taken
  distinct := grown.distinct
  within k b empty held := more k (grown.within k b empty held)
  through b empty held := by
    obtain ⟨k, inside, range⟩ := grown.through b empty held
    exact ⟨k, more k inside, range⟩
  counted := grown.counted

theorem before (grown : Grown touched s v t w) {p : Place} {b : Nat} (used : s.used b = true)
    (held : w.holds t.device.data p = some b) : v.holds s.device.data p = some b := by
  -- A block of the grown inode that was in use before is at a place it had before.
  cases old : v.holds s.device.data p with
  | none =>
    have unused := (grown.fresh p b old held).2.1
    simp [used] at unused
  | some c => rw [← held, grown.keeps p c old]

theorem working (grown : Grown touched s v t w) (working : Working s v) : Working t w where
  layout := grown.layout ▸ working.layout
  backed {p b} held := by
    rw [grown.layout]
    cases old : v.holds s.device.data p with
    | none =>
      have fresh := grown.fresh p b old held
      exact ⟨fresh.1, fresh.2.2⟩
    | some c =>
      have same : c = b := Option.some.inj ((grown.keeps p c old).symm.trans held)
      subst same
      exact ⟨(working.backed old).1, grown.mono c (working.backed old).2⟩
  exclusive {p q b} first second := by
    cases used : s.used b with
    | true => exact working.exclusive (grown.before used first) (grown.before used second)
    | false =>
      have empty : ∀ r, w.holds t.device.data r = some b → v.holds s.device.data r = none := by
        intro r held
        cases old : v.holds s.device.data r with
        | none => rfl
        | some c =>
          have same : c = b := Option.some.inj ((grown.keeps r c old).symm.trans held)
          have unused := (working.backed old).2
          simp [same, used] at unused
      exact grown.distinct p q b (empty p first) (empty q second) first second

theorem trans (first : Grown touched s v t w) (second : Grown touched t w u x) : Grown touched s v u x where
  layout := second.layout.trans first.layout
  inodes := second.inodes.trans first.inodes
  freeInodes := second.freeInodes.trans first.freeInodes
  rest := by
    rw [second.rest, first.rest]
  low b outside := (second.low b (first.layout ▸ outside)).trans (first.low b outside)
  keeps p b held := second.keeps p b (first.keeps p b held)
  mono b used := second.mono b (first.mono b used)
  frame b used notIndirect notData := by
    have later := second.frame b (first.mono b used) (fun held => notIndirect (first.before used held))
      fun k held => notData k (first.before used held)
    rw [later, first.frame b used notIndirect notData]
  fresh p b empty held := by
    cases middle : w.holds t.device.data p with
    | none =>
      obtain ⟨inside, unused, used⟩ := second.fresh p b middle held
      refine ⟨first.layout ▸ inside, ?_, used⟩
      cases old : s.used b with
      | false => rfl
      | true => simp [first.mono b old] at unused
    | some c =>
      have same : c = b := Option.some.inj ((second.keeps p c middle).symm.trans held)
      subst same
      obtain ⟨inside, unused, used⟩ := first.fresh p c empty middle
      exact ⟨inside, unused, second.mono c used⟩
  taken b used unused := by
    cases middle : t.used b with
    | true =>
      obtain ⟨p, held⟩ := first.taken b middle unused
      exact ⟨p, second.keeps p b held⟩
    | false => exact second.taken b used middle
  distinct p q b emptyP emptyQ heldP heldQ := by
    -- A block that came with the first step is in use before the second one.
    have early : ∀ r, w.holds t.device.data r = some b → v.holds s.device.data r = none → t.used b = true :=
      fun r held empty => (first.fresh r b empty held).2.2
    cases used : t.used b with
    | true => exact first.distinct p q b emptyP emptyQ (second.before used heldP) (second.before used heldQ)
    | false =>
      have empty : ∀ r, v.holds s.device.data r = none → x.holds u.device.data r = some b →
          w.holds t.device.data r = none := by
        intro r old held
        cases middle : w.holds t.device.data r with
        | none => rfl
        | some c =>
          have same : c = b := Option.some.inj ((second.keeps r c middle).symm.trans held)
          simp [early r (same ▸ middle) old] at used
      exact second.distinct p q b (empty p emptyP heldP) (empty q emptyQ heldQ) heldP heldQ
  within k b empty held := by
    cases middle : w.holds t.device.data (.data k) with
    | none => exact second.within k b middle held
    | some c => exact first.within k c empty middle
  through b empty held := by
    cases middle : w.holds t.device.data .indirect with
    | none => exact second.through b middle held
    | some c => exact first.through c empty middle
  counted counted := second.counted (first.counted counted)

theorem inode (grown : Grown touched s v t w) (ok : s.layout.Ok) {i : Nat} (inside : i < s.layout.inodeCount) :
    t.inode i = s.inode i := by
  have table := ok.table_block inside
  have outside : ¬s.layout.InData (s.layout.tableStart + i / 8) := by
    rintro ⟨low, _⟩
    omega
  rw [Volume.inode, grown.layout, grown.low _ outside]
  rfl

theorem kept_direct (grown : Grown touched s v t w) {k : Fin 9} (filled : v.direct k ≠ 0) :
    w.direct k = v.direct k := by
  have place : (k : Nat) < 137 := k.isLt.trans (by decide)
  have held : v.holds s.device.data (.data ⟨k, place⟩) = some (v.direct k).toNat := by
    rw [Inode.holds, Inode.pointer_direct _ _ k.isLt, target_eq_some]
    exact ⟨filled, rfl⟩
  have kept := grown.keeps _ _ held
  rw [Inode.holds, Inode.pointer_direct _ _ k.isLt, target_eq_some] at kept
  exact UInt32.toNat_inj.mp kept.2

theorem kept_indirect (grown : Grown touched s v t w) (filled : v.indirect ≠ 0) : w.indirect = v.indirect := by
  have kept := grown.keeps .indirect v.indirect.toNat (target_eq_some.mpr ⟨filled, rfl⟩)
  exact UInt32.toNat_inj.mp (target_eq_some.mp kept).2

theorem antisymm (first : Grown touched s v t w) (second : Grown touched' t w u v) : w = v := by
  -- Growing never takes a pointer back.
  have directs : w.direct = v.direct := by
    funext k
    by_cases hole : v.direct k = 0
    · by_contra different
      have filled : w.direct k ≠ 0 := by rwa [← hole]
      exact different (second.kept_direct filled).symm
    · exact first.kept_direct hole
  have indirects : w.indirect = v.indirect := by
    by_cases hole : v.indirect = 0
    · by_contra different
      have filled : w.indirect ≠ 0 := by rwa [← hole]
      exact different (second.kept_indirect filled).symm
    · exact first.kept_indirect hole
  rw [first.rest, directs, indirects]

theorem setInode (grown : Grown touched s v t w) (working : Working s v)
    {i : Nat} (inside : i < s.layout.inodeCount)
    (a : Inode) : Grown touched (s.setInode i a) v (t.setInode i a) w := by
  -- Growing in memory does not see the inode table.
  have working' := grown.working working
  have before : ∀ b, s.layout.InData b → (s.setInode i a).device.data b = s.device.data b :=
    fun b data => Volume.data_setInode working.layout data.1 inside a
  have after : ∀ b, s.layout.InData b → (t.setInode i a).device.data b = t.device.data b :=
    fun b data => Volume.data_setInode working'.layout (grown.layout ▸ data.1) (grown.layout ▸ inside) a
  have holds : v.holds (s.setInode i a).device.data = v.holds s.device.data :=
    Inode.holds_congr v fun b held => before b (working.backed held).1
  have holds' : w.holds (t.setInode i a).device.data = w.holds t.device.data :=
    Inode.holds_congr w fun b held => after b (grown.layout ▸ (working'.backed held).1)
  have low : ∀ b, ¬s.layout.InData b → (t.setInode i a).device.data b = (s.setInode i a).device.data b := by
    intro b outside
    have table : t.layout.tableStart = s.layout.tableStart := by rw [grown.layout]
    simp only [Volume.setInode, Volume.data_setBlock, table]
    by_cases here : b = s.layout.tableStart + i / 8
    · rw [here, Function.update_self, Function.update_self, ← here, grown.low b outside]
    · rw [Function.update_of_ne here, Function.update_of_ne here, grown.low b outside]
  refine ⟨grown.layout, grown.inodes, grown.freeInodes, grown.rest, low, ?_, grown.mono, ?_, ?_, ?_, ?_, ?_, ?_,
    grown.counted⟩
  · intro p b held
    rw [holds] at held
    rw [holds']
    exact grown.keeps p b held
  · intro b used notIndirect notData
    rw [holds] at notIndirect notData
    by_cases data : s.layout.InData b
    · rw [before b data, after b data]
      exact grown.frame b used notIndirect notData
    · exact low b data
  · intro p b empty held
    rw [holds] at empty
    rw [holds'] at held
    exact grown.fresh p b empty held
  · intro b used unused
    rw [holds']
    exact grown.taken b used unused
  · intro p q b emptyP emptyQ heldP heldQ
    rw [holds] at emptyP emptyQ
    rw [holds'] at heldP heldQ
    exact grown.distinct p q b emptyP emptyQ heldP heldQ
  · intro k b empty held
    rw [holds] at empty
    rw [holds'] at held
    exact grown.within k b empty held
  · intro b empty held
    rw [holds] at empty
    rw [holds'] at held
    exact grown.through b empty held

theorem take (working : Working s v) {b : Nat} (found : s.nextFree = some b) {p : Place}
    (empty : v.holds s.device.data p = none)
    (base : t.toNextFS = (s.takeBlock b).toNextFS)
    (device : t.device = { s.device with data := t.device.data })
    (rest : w = { v with direct := w.direct, indirect := w.indirect })
    (holds : w.holds t.device.data = Function.update (v.holds s.device.data) p (some b))
    (frame : ∀ c, c ≠ b → v.holds s.device.data .indirect ≠ some c → t.device.data c = s.device.data c)
    (within : ∀ k, p = .data k → touched k) (through : p = .indirect → ∃ k, touched k ∧ 9 ≤ k ∧ k < 137) :
    Grown touched s v t w := by
  -- One block is taken from the allocator for an empty place.
  obtain ⟨inside, unused, available⟩ := Volume.nextFree_some working.layout found
  have layout : t.layout = s.layout := by
    rw [← Volume.layout_takeBlock s b, Volume.layout, Volume.layout, base, device]
    rfl
  have used : ∀ c, t.used c = if c = b then true else s.used c := by
    intro c
    rw [← Volume.used_takeBlock working.layout inside.2, Volume.used, Volume.used, base]
  have filled : ∀ q c, v.holds s.device.data q = none → w.holds t.device.data q = some c → q = p ∧ c = b := by
    intro q c old new
    by_cases same : q = p
    · rw [same, holds, Function.update_self] at new
      exact ⟨same, (Option.some.inj new).symm⟩
    · rw [holds, Function.update_of_ne same, old] at new
      simp at new
  refine ⟨layout, ?_, ?_, rest, ?_, ?_, ?_, ?_, ?_, ?_, ?_, ?_, ?_, ?_⟩
  · rw [base]
    rfl
  · rw [base]
    rfl
  · intro c outside
    apply frame c
    · rintro rfl
      exact outside inside
    · intro held
      exact outside (working.backed held).1
  · intro q c held
    have different : q ≠ p := by
      rintro rfl
      simp [empty] at held
    rw [holds, Function.update_of_ne different, held]
  · intro c old
    rw [used]
    split <;> simp [old]
  · intro c old notIndirect _
    apply frame c _ notIndirect
    rintro rfl
    simp [unused] at old
  · intro q c old new
    obtain ⟨_, rfl⟩ := filled q c old new
    exact ⟨inside, unused, by simp [used]⟩
  · intro c new old
    refine ⟨p, ?_⟩
    rw [used] at new
    split at new
    next same => rw [holds, Function.update_self, same]
    next => simp [old] at new
  · intro q r c emptyQ emptyR heldQ heldR
    rw [(filled q c emptyQ heldQ).1, (filled r c emptyR heldR).1]
  · intro k c old new
    exact within k (filled _ c old new).1.symm
  · intro c old new
    exact through (filled _ c old new).1.symm
  · intro counted
    have bound : b / 8 < s.blockBitmap.length := working.layout.inData_bit inside.2
    have free : Bitmap.test s.blockBitmap b = true := by simpa [Volume.used] using unused
    have window : b < s.layout.dataStart + (s.layout.total - s.layout.dataStart) := by
      have := inside.1
      have := inside.2
      omega
    have taken := Bitmap.count_put_not inside.1 window bound free
    have positive : s.sb.freeBlocks.toNat ≠ 0 := fun zero => available (UInt32.toNat_inj.mp zero)
    rw [Volume.Counted, layout, base]
    simp only [Volume.Counted] at counted
    simp only [Volume.takeBlock]
    rw [UInt32.toNat_sub_of_le _ _ (by rw [UInt32.le_iff_toNat_le]; exact Nat.one_le_iff_ne_zero.mpr positive),
      counted, ← taken]
    rfl

theorem write (working : Working s v) {k : Fin 137} {b : Nat} (held : v.holds s.device.data (.data k) = some b)
    (block : Block) : Grown (· = k.val) s v (s.setBlock b block) v := by
  -- A data block is overwritten.
  have holds : v.holds (s.setBlock b block).device.data = v.holds s.device.data := by
    apply Inode.holds_congr
    intro c indirect
    have different : c ≠ b := by
      rintro rfl
      exact Place.noConfusion (working.exclusive held indirect)
    rw [Volume.data_setBlock, Function.update_of_ne different]
  have elsewhere : ∀ c, c ≠ b → (s.setBlock b block).device.data c = s.device.data c :=
    fun c different => Function.update_of_ne different _ _
  have empty : ∀ p c, v.holds s.device.data p = none →
    ¬v.holds (s.setBlock b block).device.data p = some c := by
    intro p c old
    rw [holds, old]
    simp
  exact
    { layout := rfl
      inodes := rfl
      freeInodes := rfl
      rest := rfl
      low := fun c outside => elsewhere c (by rintro rfl; exact outside (working.backed held).1)
      keeps := fun p c old => by rw [holds, old]
      mono := fun _ used => used
      frame := fun c _ _ notData => elsewhere c (by rintro rfl; exact notData k held rfl)
      fresh := fun p c old new => (empty p c old new).elim
      taken := fun c used unused => by
        rw [Volume.used_setBlock, unused] at used
        simp at used
      distinct := fun p q c old _ new _ => (empty p c old new).elim
      within := fun j c old new => (empty _ c old new).elim
      through := fun c old new => (empty _ c old new).elim
      counted := fun counted => counted }

end Grown

end PickleOS.NextFs
