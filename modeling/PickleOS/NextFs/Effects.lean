import PickleOS.NextFs.Outcomes

set_option autoImplicit false

namespace PickleOS.NextFs

open Shared Shared.Outcome

/-- A sound volume whose owners are inodes of the table, all files on disk among them. -/
structure Volume.Owned (owner : Nat → Prop) (s : Volume) : Prop where
  layout : s.layout.Ok
  table : ∀ {i}, owner i → s.layout.InTable i
  files : ∀ {i}, s.layout.InTable i → (s.inode i).isFile = true → owner i
  sound : s.Sound owner

theorem Volume.Consistent.owned {s : Volume} (consistent : s.Consistent) : s.Owned s.Occupied where
  layout := consistent.layout
  table occupied := occupied.1
  files {i} inside file := by
    refine ⟨inside, ?_⟩
    intro free
    simp [Inode.isFile, free] at file
  sound := consistent.sound

namespace Inode

variable {v w : Inode} {data : Nat → Block}

theorem mem_blocks {b : Nat} : b ∈ v.blocks data ↔ ∃ p, v.holds data p = some b := by
  rw [blocks, List.mem_append, mem_targets]
  constructor
  · rintro (⟨k, _, high, found⟩ | rest)
    · exact ⟨.data ⟨k, by omega⟩, found⟩
    · split at rest
      next => simp at rest
      next indirect =>
        rcases List.mem_append.mp rest with entry | last
        · obtain ⟨k, _, high, found⟩ := mem_targets.mp entry
          exact ⟨.data ⟨k, by omega⟩, found⟩
        · rw [List.mem_singleton] at last
          exact ⟨.indirect, target_eq_some.mpr ⟨indirect, last.symm⟩⟩
  · rintro ⟨p, held⟩
    cases p with
    | data k =>
      by_cases low : k.val < 9
      · exact Or.inl ⟨k, by omega, by omega, held⟩
      · have indirect : v.indirect ≠ 0 := by
          intro hole
          simp [holds, pointer_hole _ _ low hole] at held
        rw [if_neg indirect]
        exact Or.inr (List.mem_append_left _ (mem_targets.mpr ⟨k, by omega, by omega, held⟩))
    | indirect =>
      obtain ⟨indirect, number⟩ := target_eq_some.mp held
      rw [if_neg indirect]
      exact Or.inr (List.mem_append_right _ (List.mem_singleton.mpr number.symm))

theorem nodup_ranges (exclusive : ∀ p q b, v.holds data p = some b → v.holds data q = some b → p = q)
    {i m j n : Nat}
    (first : i + m ≤ j) (second : j + n ≤ 137) (indirect : v.indirect ≠ 0) :
    (targets (v.pointer data) i m ++ (targets (v.pointer data) j n ++ [v.indirect.toNat])).Nodup := by
  -- Blocks of two ranges of indices and the indirect block are listed once.
  have indices : ∀ a c b, a < 137 → c < 137 → target (v.pointer data a) = some b →
      target (v.pointer data c) = some b → a = c := by
    intro a c b insideA insideC left right
    have same := exclusive (.data ⟨a, insideA⟩) (.data ⟨c, insideC⟩) b left right
    simpa using same
  have apart : ∀ a b, a < 137 → target (v.pointer data a) = some b → b ≠ v.indirect.toNat := by
    rintro a b inside found rfl
    have clash := exclusive (.data ⟨a, inside⟩) .indirect _ found (target_eq_some.mpr ⟨indirect, rfl⟩)
    exact Place.noConfusion clash
  rw [List.nodup_append, List.nodup_append]
  refine ⟨nodup_targets fun a c b _ _ _ _ => indices a c b (by omega) (by omega),
    ⟨nodup_targets fun a c b _ _ _ _ => indices a c b (by omega) (by omega), List.nodup_singleton _, ?_⟩, ?_⟩
  · intro b member c last same
    obtain ⟨a, _, high, found⟩ := mem_targets.mp member
    rw [List.mem_singleton] at last
    exact apart a b (by omega) found (same.trans last)
  · intro b member c rest same
    subst same
    obtain ⟨a, lowA, highA, foundA⟩ := mem_targets.mp member
    rcases List.mem_append.mp rest with entry | last
    · obtain ⟨c, lowC, highC, foundC⟩ := mem_targets.mp entry
      have := indices a c b (by omega) (by omega) foundA foundC
      omega
    · rw [List.mem_singleton] at last
      exact apart a b (by omega) foundA last

theorem nodup_blocks (exclusive : ∀ p q b, v.holds data p = some b → v.holds data q = some b → p = q) :
    (v.blocks data).Nodup := by
  rw [blocks]
  split
  · rw [List.append_nil]
    refine nodup_targets fun a c b _ highA _ highC left right => ?_
    have same := exclusive (.data ⟨a, by omega⟩) (.data ⟨c, by omega⟩) b left right
    simpa using same
  next indirect => exact nodup_ranges exclusive (by omega) (by omega) indirect

end Inode

theorem Grown.holds_old {touched : Nat → Prop} {s t : Volume}
    {v w : Inode} (grown : Grown touched s v t w) {p : Place}
    {b : Nat} (held : v.holds t.device.data p = some b) : w.holds t.device.data p = some b := by
  -- Pointers on disk of an inode that has grown in memory only.
  cases p with
  | indirect =>
    obtain ⟨filled, number⟩ := target_eq_some.mp held
    exact target_eq_some.mpr (by rw [grown.kept_indirect filled]; exact ⟨filled, number⟩)
  | data k =>
    by_cases low : k.val < 9
    · rw [Inode.holds, Inode.pointer_direct _ _ low] at held ⊢
      rwa [grown.kept_direct (target_eq_some.mp held).1]
    · have filled : v.indirect ≠ 0 := by
        intro hole
        simp [Inode.holds, Inode.pointer_hole _ _ low hole] at held
      rw [Inode.holds, Inode.pointer_entry _ _ low filled] at held
      rwa [Inode.holds, Inode.pointer_entry _ _ low (by rwa [grown.kept_indirect filled]),
        grown.kept_indirect filled]

theorem Grown.of_pointers {touched : Nat → Prop} {s t : Volume} {v v' w : Inode} (direct : v'.direct = v.direct)
    (indirect : v'.indirect = v.indirect) (grown : Grown touched s v' t w) :
    Grown touched s v t { v with direct := w.direct, indirect := w.indirect } := by
  -- Growth is about the block pointers of an inode only.
  have before : v'.holds s.device.data = v.holds s.device.data := Inode.holds_of_pointers direct indirect _
  have after : ({ v with direct := w.direct, indirect := w.indirect } : Inode).holds t.device.data =
      w.holds t.device.data := Inode.holds_of_pointers rfl rfl _
  obtain ⟨layout, inodes, freeInodes, _, low, keeps, mono, frame, fresh, taken, distinct, within, through,
    counted⟩ :=
    grown
  rw [before] at keeps frame fresh distinct within through
  constructor <;> try rw [after]
  all_goals first | assumption | rfl

section Grow

variable {s t u : Volume} {w x : Inode} {owner : Nat → Prop} {i : Nat} {touched : Nat → Prop}

theorem Volume.Owned.working (owned : s.Owned owner) (here : owner i) : Working s (s.inode i) :=
  owned.sound.working owned.layout here

theorem Volume.Owned.apart (owned : s.Owned owner) (here : owner i) (grown : Grown touched s (s.inode i) t w) :
    Apart owner i s t :=
  Apart.grown owned.layout (fun _ => owned.table) owned.sound here grown

theorem Volume.Owned.grown (owned : s.Owned owner) (here : owner i) (grown : Grown touched s (s.inode i) t w) :
    t.Owned owner := by
  -- A volume on which an inode has grown in memory, while its record on disk is as before.
  have record : ∀ {j}, s.layout.InTable j → t.inode j = s.inode j := fun inside =>
    grown.inode owned.layout inside.2
  have working := grown.working (owned.working here)
  have mine : ∀ {p b}, (t.inode i).holds t.device.data p = some b → w.holds t.device.data p = some b := by
    intro p b held
    rw [record (owned.table here)] at held
    exact grown.holds_old held
  refine ⟨grown.layout ▸ owned.layout, fun other => grown.layout ▸ owned.table other, ?_, ?_⟩
  · intro j inside file
    rw [grown.layout] at inside
    exact owned.files inside (record inside ▸ file)
  · refine Volume.Sound.change owned.sound (owned.apart here grown) (fun _ _ => id) ?_ ?_ ?_
    · intro _ p b held
      rw [← grown.layout]
      exact working.backed (mine held)
    · intro _ p q b first second
      exact working.exclusive (mine first) (mine second)
    · intro _ p b held
      cases old : s.used b with
      | false => exact Or.inr rfl
      | true => exact Or.inl ⟨here, p, grown.before old (mine held)⟩

theorem Grown.cover {v : Inode} (grown : Grown touched s v u w) {b : Nat} (used : u.used b = true) :
    (s.used b = true ∧ ∀ p, v.holds s.device.data p ≠ some b) ∨ ∃ p, w.holds u.device.data p = some b := by
  cases before : s.used b with
  | false => exact Or.inr (grown.taken b used before)
  | true =>
    by_cases mine : ∃ p, v.holds s.device.data p = some b
    · obtain ⟨p, held⟩ := mine
      exact Or.inr ⟨p, grown.keeps p b held⟩
    · exact Or.inl ⟨rfl, fun p held => mine ⟨p, held⟩⟩

theorem Volume.Covered.of_grown (owned : s.Owned owner) (here : owner i)
    (grown : Grown touched s (s.inode i) t w)
    (after : t.Covered owner) : s.Covered owner := by
  -- Growth covers no block that was used before.
  have record : t.inode i = s.inode i := grown.inode owned.layout (owned.table here).2
  rintro b ⟨data, used⟩
  obtain ⟨j, p, theirs, held⟩ := after b ⟨grown.layout ▸ data, grown.mono b used⟩
  refine ⟨j, p, theirs, ?_⟩
  dsimp only at held ⊢
  by_cases same : j = i
  · subst same
    rw [record] at held
    exact grown.before used (grown.holds_old held)
  · rwa [(owned.apart here grown).holds same theirs] at held

theorem Volume.Covered.grown_iff (owned : s.Owned owner) (covered : s.Covered owner) (here : owner i)
    (grown : Grown touched s (s.inode i) t w) : t.Covered owner ↔ w = s.inode i := by
  -- What was taken for the in-memory inode leaks exactly if its record changed.
  have record : t.inode i = s.inode i := grown.inode owned.layout (owned.table here).2
  have working := grown.working (owned.working here)
  have other : ∀ {j p b}, j ≠ i → owner j → (t.inode j).holds t.device.data p = some b → s.used b = true := by
    intro j p b different theirs held
    rw [(owned.apart here grown).holds different theirs] at held
    exact (owned.sound.backed theirs held).2
  constructor
  · intro after
    -- A filled pointer of the record is the only reference to its block, so it must be on disk.
    have onDisk : ∀ p b, (s.inode i).holds s.device.data p = none → w.holds t.device.data p = some b →
        (s.inode i).holds t.device.data p = some b := by
      intro p b empty held
      obtain ⟨data, unused, used⟩ := grown.fresh p b empty held
      obtain ⟨j, q, theirs, found⟩ := after b ⟨grown.layout ▸ data, used⟩
      by_cases same : j = i
      · subst same
        dsimp only at found
        rw [record] at found
        have place := working.exclusive held (grown.holds_old found)
        exact place ▸ found
      · have := other same theirs found
        simp [unused] at this
    have directs : w.direct = (s.inode i).direct := by
      funext k
      by_cases hole : (s.inode i).direct k = 0
      · by_contra different
        have place : (k : Nat) < 137 := k.isLt.trans (by decide)
        have empty : (s.inode i).holds s.device.data (.data ⟨k, place⟩) = none := by
          rw [Inode.holds, Inode.pointer_direct _ _ k.isLt, target_eq_none]
          exact hole
        have filled : w.holds t.device.data (.data ⟨k, place⟩) = some (w.direct k).toNat := by
          rw [Inode.holds, Inode.pointer_direct _ _ k.isLt, target_eq_some]
          exact ⟨hole ▸ different, rfl⟩
        have disk := onDisk _ _ empty filled
        rw [Inode.holds, Inode.pointer_direct _ _ k.isLt, show (⟨k.val, k.isLt⟩ : Fin 9) = k from rfl,
          hole] at disk
        simp at disk
      · exact grown.kept_direct hole
    have indirects : w.indirect = (s.inode i).indirect := by
      by_cases hole : (s.inode i).indirect = 0
      · by_contra different
        have disk := onDisk .indirect _ (target_eq_none.mpr hole)
          (target_eq_some.mpr ⟨hole ▸ different, rfl⟩)
        rw [Inode.holds, hole] at disk
        simp at disk
      · exact grown.kept_indirect hole
    rw [grown.rest, directs, indirects]
  · rintro rfl
    refine Volume.Covered.change covered (owned.apart here grown) (fun _ _ => Iff.rfl) ?_
    intro b _ used
    rw [record]
    rcases grown.cover used with ⟨before, free⟩ | ⟨p, held⟩
    · exact Or.inl ⟨before, fun _ => free⟩
    · exact Or.inr ⟨p, here, held⟩

section Store

variable (owned : s.Owned owner) (here : owner i) (grown : Grown touched s (s.inode i) u w)
  (direct : x.direct = w.direct) (indirect : x.indirect = w.indirect)

include owned here grown direct indirect

theorem holds_store : ((u.setInode i x).inode i).holds
    (u.setInode i x).device.data = w.holds u.device.data := by
  have working := grown.working (owned.working here)
  have pointers := Inode.holds_of_pointers direct indirect u.device.data
  rw [holds_setInode_same working.layout (grown.layout ▸ (owned.table here).2), pointers]
  intro b held
  rw [pointers] at held
  exact (working.backed held).1.1

omit direct indirect in
theorem apart_store (x : Inode) : Apart owner i s (u.setInode i x) :=
  (owned.apart here grown).setInode owned.layout owned.sound (owned.table here).2 x

theorem owned_store : (u.setInode i x).Owned owner := by
  -- The grown inode is written back.
  have working := grown.working (owned.working here)
  have holds := holds_store owned here grown direct indirect
  refine ⟨grown.layout ▸ owned.layout, fun other => grown.layout ▸ owned.table other, ?_, ?_⟩
  · intro j inside file
    by_cases same : j = i
    · exact same ▸ here
    · have table : s.layout.InTable j := grown.layout ▸ inside
      rw [Volume.inode_setInode, if_neg same, grown.inode owned.layout table.2] at file
      exact owned.files table file
  · refine Volume.Sound.change owned.sound (apart_store owned here grown x) (fun _ _ => id) ?_ ?_ ?_
    · intro _ p b held
      rw [holds] at held
      rw [← grown.layout]
      exact working.backed held
    · intro _ p q b first second
      rw [holds] at first second
      exact working.exclusive first second
    · intro _ p b held
      rw [holds] at held
      cases old : s.used b with
      | false => exact Or.inr rfl
      | true => exact Or.inl ⟨here, p, grown.before old held⟩

theorem covered_store (covered : s.Covered owner) : (u.setInode i x).Covered owner := by
  refine Volume.Covered.change covered (apart_store owned here grown x) (fun _ _ => Iff.rfl) ?_
  intro b _ used
  rw [holds_store owned here grown direct indirect]
  rcases grown.cover used with ⟨before, free⟩ | ⟨p, held⟩
  · exact Or.inl ⟨before, fun _ => free⟩
  · exact Or.inr ⟨p, here, held⟩

end Store

end Grow

theorem Volume.Owned.takeInode {s : Volume} {owner : Nat → Prop} (owned : s.Owned owner) (i : Nat) :
    (s.takeInode i).Owned owner := by
  -- Only bitmaps and counters of the inodes differ.
  refine ⟨by simpa using owned.layout, fun other => by simpa using owned.table other, ?_, ?_⟩
  · intro j inside file
    rw [Volume.inode_takeInode] at file
    exact owned.files (by simpa using inside) file
  · simpa [Volume.Sound] using owned.sound

theorem Volume.Owned.dropInode {s : Volume} {owner : Nat → Prop} (owned : s.Owned owner) (i : Nat) :
    (s.dropInode i).Owned owner := by
  refine ⟨by simpa using owned.layout, fun other => by simpa using owned.table other, ?_, ?_⟩
  · intro j inside file
    rw [Volume.inode_dropInode] at file
    exact owned.files (by simpa using inside) file
  · simpa [Volume.Sound] using owned.sound

theorem Apart.dropInode {s t : Volume} {owner : Nat → Prop} {i : Nat} (apart : Apart owner i s t) (k : Nat) :
    Apart owner i s (t.dropInode k) where
  layout := by rw [Volume.layout_dropInode, apart.layout]
  inode j different owned := by rw [Volume.inode_dropInode, apart.inode j different owned]
  data := apart.data
  used := apart.used

section Stage

variable {s : Volume} {owner : Nat → Prop} (owned : s.Owned owner) {i : Nat} (next : s.nextInode = some i)

include owned next

theorem owned_stageFile (now : UInt32) : (s.stageFile now i).Owned fun j => j = i ∨ owner j := by
  -- The inode that is handed out becomes an owner.
  obtain ⟨positive, inside, _⟩ := Volume.nextInode_some owned.layout next
  have taken := owned.takeInode i
  have layout : (s.stageFile now i).layout = s.layout := by simp [Volume.stageFile]
  have apart : Apart owner i (s.takeInode i) (s.stageFile now i) := by
    refine Apart.setInode taken.layout taken.sound (by simpa using inside) ?_ _
    exact ⟨rfl, fun _ _ _ => rfl, fun _ _ _ _ _ _ => rfl,
      fun j p b _ other held => (taken.sound.backed other held).2⟩
  have empty : ∀ p, ((s.stageFile now i).inode i).holds (s.stageFile now i).device.data p = none := by
    intro p
    rw [Volume.stageFile, Volume.inode_setInode, if_pos rfl]
    exact Inode.holds_of_empty (fun _ => rfl) rfl _ p
  refine ⟨layout ▸ owned.layout, ?_, ?_, ?_⟩
  · rintro j (rfl | other)
    · exact layout ▸ ⟨positive, inside⟩
    · exact layout ▸ owned.table other
  · intro j table file
    by_cases same : j = i
    · exact Or.inl same
    · rw [Volume.stageFile, Volume.inode_setInode, if_neg same, Volume.inode_takeInode] at file
      exact Or.inr (owned.files (layout ▸ table) file)
  · refine Volume.Sound.change taken.sound apart (fun j different other => other.resolve_left different)
      ?_ ?_ ?_
    · intro _ p b held
      simp [empty] at held
    · intro _ p q b held
      simp [empty] at held
    · intro _ p b held
      simp [empty] at held

theorem covered_stageFile (covered : s.Covered owner) (now : UInt32)
    (bare : owner i → ∀ p, (s.inode i).holds s.device.data p = none) :
    (s.stageFile now i).Covered fun j => j = i ∨ owner j := by
  obtain ⟨positive, inside, _⟩ := Volume.nextInode_some owned.layout next
  have taken := owned.takeInode i
  have before : (s.takeInode i).Covered owner := by simpa [Volume.Covered] using covered
  have apart : Apart owner i (s.takeInode i) (s.stageFile now i) := by
    refine Apart.setInode taken.layout taken.sound (by simpa using inside) ?_ _
    exact ⟨rfl, fun _ _ _ => rfl, fun _ _ _ _ _ _ => rfl,
      fun j p b _ other held => (taken.sound.backed other held).2⟩
  refine Volume.Covered.change before apart (fun j different => by simp [different]) ?_
  intro b _ used
  refine Or.inl ⟨used, fun mine p => ?_⟩
  rw [Volume.inode_takeInode, Volume.device_takeInode, bare mine p]
  simp

theorem bare_of_covered_stageFile (now : UInt32) (after : (s.stageFile now i).Covered fun j => j = i ∨ owner j)
    (mine : owner i) (p : Place) : (s.inode i).holds s.device.data p = none := by
  -- Blocks of an owner whose record is overwritten are lost.
  have inside := (Volume.nextInode_some owned.layout next).2.1
  cases held : (s.inode i).holds s.device.data p with
  | none => rfl
  | some b =>
    obtain ⟨data, used⟩ := owned.sound.backed mine held
    obtain ⟨j, q, theirs, found⟩ :=
      after b ⟨by simpa [Volume.stageFile] using data, by simpa [Volume.stageFile] using used⟩
    dsimp only at found
    rw [Volume.stageFile] at found
    by_cases same : j = i
    · rw [Volume.inode_setInode, if_pos same] at found
      rw [Inode.holds_of_empty (fun _ => rfl) rfl] at found
      cases found
    · have other := theirs.resolve_left same
      rw [holds_setInode_other (by simpa using owned.layout) (by simpa using inside) same] at found
      · exact (same (owned.sound.exclusive other mine (by simpa using found) held).1).elim
      · intro c reached
        have := (owned.sound.backed other (by simpa using reached)).1.1
        simpa using this

omit next in
theorem holds_newDir {b : Nat} (found : s.nextFree = some b) (now : UInt32) (data : Nat → Block) :
    (Volume.newDirInode now b).holds data = Function.update (fun _ => none) (.data 0) (some b) := by
  have value := target_nextFree owned.layout found
  have first := Inode.newDir.holds_direct data (show 0 < 9 by decide) (UInt32.ofNat b) value
  have bare : Inode.newDir.holds data = fun _ => none := by
    funext p
    exact Inode.holds_of_empty (fun _ => rfl) rfl data p
  rw [bare] at first
  rw [← show (⟨0, by decide⟩ : Fin 137) = 0 from rfl, ← first]
  exact Inode.holds_of_pointers rfl rfl data

theorem apart_stageDir {b : Nat} (found : s.nextFree = some b) (now : UInt32) (parent : UInt32) :
    Apart owner i s (s.stageDir now i b parent) := by
  obtain ⟨positive, inside, _⟩ := Volume.nextInode_some owned.layout next
  obtain ⟨data, unused, _⟩ := Volume.nextFree_some owned.layout found
  have ok' : (s.takeInode i).layout.Ok := by simpa using owned.layout
  have other : ∀ {j p c}, owner j → (s.inode j).holds s.device.data p = some c → c ≠ b := by
    rintro j p c theirs held rfl
    have used := (owned.sound.backed theirs held).2
    simp [unused] at used
  refine Apart.setInode owned.layout owned.sound inside ?_ _
  refine ⟨by simp, ?_, ?_, ?_⟩
  · intro j _ theirs
    rw [Volume.inode_setBlock (by simpa using owned.layout) (by simpa using data.1)
      (by simpa using (owned.table theirs).2), Volume.inode_takeBlock, Volume.inode_takeInode]
  · intro j p c _ theirs held
    rw [Volume.data_setBlock, Function.update_of_ne (other theirs held)]
    rfl
  · intro j p c _ theirs held
    rw [Volume.used_setBlock, Volume.used_takeBlock ok' (by simpa using data.2), if_neg (other theirs held),
      Volume.used_takeInode]
    exact (owned.sound.backed theirs held).2

theorem owned_stageDir {b : Nat} (found : s.nextFree = some b) (now : UInt32) (parent : UInt32) :
    (s.stageDir now i b parent).Owned fun j => j = i ∨ owner j := by
  obtain ⟨positive, inside, _⟩ := Volume.nextInode_some owned.layout next
  obtain ⟨data, unused, _⟩ := Volume.nextFree_some owned.layout found
  have apart := apart_stageDir owned next found now parent
  have record : (s.stageDir now i b parent).inode i = Volume.newDirInode now b := by
    rw [Volume.stageDir, Volume.inode_setInode, if_pos rfl]
  have mine : ∀ {p c}, ((s.stageDir now i b parent).inode i).holds (s.stageDir now i b parent).device.data
    p = some c →
      p = .data 0 ∧ c = b := by
    intro p c held
    rw [record, holds_newDir owned found] at held
    by_cases first : p = .data 0
    · rw [first, Function.update_self] at held
      exact ⟨first, (Option.some.inj held).symm⟩
    · rw [Function.update_of_ne first] at held
      simp at held
  refine ⟨apart.layout ▸ owned.layout, ?_, ?_, ?_⟩
  · rintro j (rfl | other)
    · exact apart.layout ▸ ⟨positive, inside⟩
    · exact apart.layout ▸ owned.table other
  · intro j table file
    by_cases same : j = i
    · exact Or.inl same
    · have table' : s.layout.InTable j := apart.layout ▸ table
      rw [Volume.stageDir, Volume.inode_setInode, if_neg same,
        Volume.inode_setBlock (by simpa using owned.layout)
        (by simpa using data.1) (by simpa using table'.2), Volume.inode_takeBlock, Volume.inode_takeInode]
        at file
      exact Or.inr (owned.files table' file)
  · refine Volume.Sound.change owned.sound apart (fun j different other => other.resolve_left different)
      ?_ ?_ ?_
    · intro _ p c held
      obtain ⟨_, rfl⟩ := mine held
      refine ⟨data, ?_⟩
      rw [Volume.stageDir, Volume.used_setInode, Volume.used_setBlock,
        Volume.used_takeBlock (by simpa using owned.layout) (by simpa using data.2), if_pos rfl]
    · intro _ p q c first second
      rw [(mine first).1, (mine second).1]
    · intro _ p c held
      obtain ⟨_, rfl⟩ := mine held
      exact Or.inr unused

theorem covered_stageDir (covered : s.Covered owner) {b : Nat} (found : s.nextFree = some b) (now : UInt32)
    (parent : UInt32) (bare : owner i → ∀ p, (s.inode i).holds s.device.data p = none) :
    (s.stageDir now i b parent).Covered fun j => j = i ∨ owner j := by
  obtain ⟨data, unused, _⟩ := Volume.nextFree_some owned.layout found
  refine Volume.Covered.change covered (apart_stageDir owned next found now parent)
    (fun j different => by simp [different]) ?_
  intro c _ used
  rw [Volume.stageDir, Volume.used_setInode, Volume.used_setBlock,
    Volume.used_takeBlock (by simpa using owned.layout) (by simpa using data.2)] at used
  split at used
  next same =>
    refine Or.inr ⟨.data 0, Or.inl rfl, ?_⟩
    rw [Volume.stageDir, Volume.inode_setInode, if_pos rfl, holds_newDir owned found,
      Function.update_self, same]
  next different =>
    refine Or.inl ⟨by simpa using used, fun mine p => ?_⟩
    rw [bare mine p]
    simp

end Stage

section Erase

variable {s : Volume} {owner : Nat → Prop} (owned : s.Owned owner) {i : Nat} (here : owner i)

include owned here

theorem total_blocks : ∀ b ∈ (s.inode i).blocks s.device.data, b < s.layout.total := by
  intro b member
  obtain ⟨p, held⟩ := Inode.mem_blocks.mp member
  exact (owned.sound.backed here held).1.2

theorem apart_erase : Apart owner i s (s.erase i) := by
  have released : Apart owner i s (s.release ((s.inode i).blocks s.device.data)) :=
    Apart.release owned.layout owned.sound here fun b => Inode.mem_blocks.mp
  rw [Volume.erase]
  exact (released.setInode owned.layout owned.sound (owned.table here).2 _).dropInode i

omit owned here in
theorem inode_erase (j : Nat) :
    (s.erase i).inode j =
      if j = i then { (s.inode i).clear 0 9 with indirect := 0, inodeType := 0, size := 0 } else s.inode j := by
  rw [Volume.erase, Volume.inode_dropInode, Volume.inode_setInode, Volume.inode_release]

theorem used_erase (b : Nat) :
    (s.erase i).used b = true ↔ s.used b = true ∧ ∀ p, (s.inode i).holds s.device.data p ≠ some b := by
  rw [Volume.erase, Volume.used_dropInode, Volume.used_setInode,
    Volume.used_release owned.layout (total_blocks owned here), Inode.mem_blocks, not_exists]

theorem owned_erase : (s.erase i).Owned fun j => j ≠ i ∧ owner j := by
  have apart := apart_erase owned here
  constructor
  · rw [apart.layout]
    exact owned.layout
  · intro j other
    rw [apart.layout]
    exact owned.table other.2
  · intro j table file
    rw [inode_erase] at file
    rw [apart.layout] at table
    split at file
    next => simp [Inode.isFile] at file
    next different => exact ⟨different, owned.files table file⟩
  · apply Volume.Sound.change owned.sound apart fun j _ other => other.2
    · exact fun mine => (mine.1 rfl).elim
    · exact fun mine => (mine.1 rfl).elim
    · exact fun mine => (mine.1 rfl).elim

theorem covered_erase (covered : s.Covered owner) : (s.erase i).Covered fun j => j ≠ i ∧ owner j := by
  refine Volume.Covered.change covered (apart_erase owned here) (fun j different => by simp [different]) ?_
  intro b _ used
  rw [used_erase owned here] at used
  exact Or.inl ⟨used.1, fun _ => used.2⟩

end Erase

end PickleOS.NextFs
