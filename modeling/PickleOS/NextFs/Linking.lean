import PickleOS.NextFs.Housed

set_option autoImplicit false

namespace PickleOS.NextFs

open Shared Shared.Outcome

/-- The inodes of `kept` and all their blocks are as they were. -/
structure Undisturbed (kept : Nat → Prop) (s t : Volume) : Prop where
  layout : t.layout = s.layout
  inode : ∀ {i}, kept i → t.inode i = s.inode i
  data : ∀ {i p b}, kept i → (s.inode i).holds s.device.data p = some b → t.device.data b = s.device.data b

namespace Undisturbed

variable {kept kept' : Nat → Prop} {s t u : Volume} {i : Nat}

theorem refl (kept : Nat → Prop) (s : Volume) : Undisturbed kept s s := ⟨rfl, fun _ => rfl, fun _ _ => rfl⟩

theorem of_device (kept : Nat → Prop) (layout : t.layout = s.layout) (device : t.device = s.device) :
    Undisturbed kept s t :=
  -- The device and the layout are all that inodes and blocks depend on.
  ⟨layout, fun _ => by rw [Volume.inode, Volume.inode, layout, device], fun _ _ => by rw [device]⟩

theorem mono (same : Undisturbed kept s t) (fewer : ∀ i, kept' i → kept i) : Undisturbed kept' s t :=
  ⟨same.layout, fun here => same.inode (fewer _ here), fun here held => same.data (fewer _ here) held⟩

theorem agree (same : Undisturbed kept s t) (here : kept i) : Agree s t (s.inode i) := by
  refine ⟨?_, fun p b held => same.data here held⟩
  change t.layout.blockCount = s.layout.blockCount
  rw [same.layout]

theorem holds (same : Undisturbed kept s t) (here : kept i) :
    (t.inode i).holds t.device.data = (s.inode i).holds s.device.data :=
  holds_unchanged (same.inode here) fun _ held => same.data here held

theorem trans (first : Undisturbed kept s t) (second : Undisturbed kept t u) : Undisturbed kept s u where
  layout := second.layout.trans first.layout
  inode here := (second.inode here).trans (first.inode here)
  data here held := by
    rw [← first.holds here] at held
    rw [second.data here held]
    exact first.data here (first.holds here ▸ held)

theorem entries (same : Undisturbed kept s t) (here : kept i) (formed : s.Formed (s.inode i)) :
    t.entries i = s.entries i := by
  rw [Volume.entries, same.inode here, (same.agree here).contents formed, Volume.entries]

end Undisturbed

theorem Volume.nextInode_number {s : Volume} {c : Nat} (ok : s.layout.Ok) (next : s.nextInode = some c) :
    (UInt32.ofNat c).toNat = c ∧ UInt32.ofNat c ≠ 0 := by
  -- The number of the inode that is handed out.
  obtain ⟨positive, inside, _⟩ := Volume.nextInode_some ok next
  have number : (UInt32.ofNat c).toNat = c := UInt32.toNat_ofNat_of_lt' (inside.trans s.layout.inodeCount_lt)
  refine ⟨number, fun zero => ?_⟩
  rw [zero] at number
  exact positive.ne' number.symm

theorem Apart.undisturbed {owner : Nat → Prop} {d : Nat} {s t : Volume} (apart : Apart owner d s t) :
    Undisturbed (fun i => owner i ∧ i ≠ d) s t where
  layout := apart.layout
  inode here := apart.inode _ here.2 here.1
  data here held := apart.data _ _ _ here.2 here.1 held

theorem Volume.Owned.apart_refl {owner : Nat → Prop} {s : Volume} (owned : s.Owned owner) (d : Nat) :
    Apart owner d s s :=
  ⟨rfl, fun _ _ _ => rfl, fun _ _ _ _ _ _ => rfl, fun _ _ _ _ here held => (owned.sound.backed here held).2⟩

theorem slot_dots {s : Volume} {v : Inode} {b self parent : UInt32}
    (direct : v.direct = Function.update (fun _ => 0) 0 b)
    (dots : s.device.data b.toNat = dotBlock self parent) {j : Nat} (below : j < 8) :
    s.slot v j = if j = 1 then DirEntry.new parent dotdot else if j = 0 then DirEntry.new self dot
      else Block.zero.entry j := by
  have first : j / 8 = 0 := by omega
  have value : v.pointer s.device.data 0 = b := by
    rw [Inode.pointer_direct _ _ (by decide), direct]
    exact Function.update_self ..
  rw [Volume.slot, Volume.slotBlock, first, value, dots, Nat.mod_eq_of_lt below, dotBlock,
    Block.entry_setEntry _ _ _ _ (by decide), Block.entry_setEntry _ _ _ _ (by decide)]

theorem formed_dots {s : Volume} {v : Inode} {b self parent : UInt32} (isDir : v.isDir = true)
    (size : v.size = 128)
    (direct : v.direct = Function.update (fun _ => 0) 0 b) (indirect : v.indirect = 0) (filled : b ≠ 0)
    (own : self ≠ 0) (up : parent ≠ 0) (dots : s.device.data b.toNat = dotBlock self parent) :
    s.Formed v ∧ s.contents v = {(dot, self.toNat), (dotdot, parent.toNat)} := by
  -- A directory with one block that has only the entries of the directory itself and of its parent.
  have length : v.size.toNat = 128 := by rw [size]; rfl
  have pointer : ∀ k, k < 137 → (v.pointer s.device.data k ≠ 0 ↔ k = 0) := by
    intro k _
    by_cases low : k < 9
    · rw [Inode.pointer_direct _ _ low, direct]
      by_cases first : k = 0
      · subst first
        simpa [Function.update_self] using filled
      · rw [Function.update_of_ne (by simpa [Fin.ext_iff] using first)]
        simpa using first
    · rw [Inode.pointer_hole _ _ low indirect]
      simp
      omega
  have slots : ∀ j, j < 8 → s.slot v j = if j = 1 then DirEntry.new parent dotdot
      else if j = 0 then DirEntry.new self dot else Block.zero.entry j := fun j below =>
        slot_dots direct dots below
  refine ⟨⟨isDir, by omega, by omega, by omega, ?_, ?_⟩, ?_⟩
  · intro k low
    rw [pointer k low]
    omega
  · intro j inside past
    rw [slots j (by omega), if_neg (by omega), if_neg (by omega)]
    exact Block.entry_zero j (by omega)
  · have two : totalEntries v = 2 := by rw [totalEntries, length]; rfl
    have shown : ∀ {r : UInt32} {n : Name}, r ≠ 0 → (0 : UInt8) ∉ n → Utf8.valid n = true → n.length < 60 →
        (DirEntry.new r n).listed = some (n, r.toNat) := by
      intro r n nonzero plain text short
      rw [DirEntry.listed, if_pos (by simpa [DirEntry.isUsed, DirEntry.new] using nonzero),
        DirEntry.nameStr_new r short plain text]
      rfl
    have first := shown own (show (0 : UInt8) ∉ dot by decide) (by decide) (by decide)
    have second := shown up (show (0 : UInt8) ∉ dotdot by decide) (by decide) (by decide)
    have range : Multiset.range 2 = 0 ::ₘ 1 ::ₘ 0 := by decide
    rw [Volume.contents, two, range, Multiset.filterMap_cons_some _ _ _
      (by rw [slots 0 (by decide)]; exact first),
      Multiset.filterMap_cons_some _ _ _ (by rw [slots 1 (by decide)]; exact second)]
    rfl

namespace Housed

variable {live : Nat → Prop} {s t u : Volume} {d c : Nat}

theorem permits_addEntry (housed : Housed live s) {dirInode : UInt32} (here : live dirInode.toNat)
    {name : Name} {r now : UInt32}
    (added : dirAddEntry now dirInode name r s = .ok () t) (uid gid want : UInt16) :
    (t.inode dirInode.toNat).permits uid gid want = (s.inode dirInode.toNat).permits uid gid want := by
  -- A directory that gets an entry keeps its owner and its mode.
  have working := housed.working here
  obtain ⟨_, ⟨b, slot, buf, found, rfl⟩ | ⟨_, w, u, written, rfl⟩⟩ :=
    dirAddEntry_ok housed.ok (fun _ _ => working) added
  · obtain ⟨k, held, _⟩ := unusedEntry_some working found
    rw [Volume.inode_setBlock housed.ok (working.backed held).1.1 (housed.inside here).2]
  · rw [Volume.inode_setInode, if_pos rfl]
    simp only [Inode.permits, Inode.extended]
    rw [written.grown.rest]
    rfl

theorem apart_addEntry (housed : Housed live s) {dirInode : UInt32} (here : live dirInode.toNat)
    (name : Name) (r : UInt32)
    (now : UInt32) :
    Ends (dirAddEntry now dirInode name r) s
      (fun _ t => (s.inode dirInode.toNat).isDir = true ∧ Apart (s.owners live) dirInode.toNat s t)
      (fun _ t => Apart (s.owners live) dirInode.toNat s t ∧
        ((s.inode dirInode.toNat).isDir = false → t = s)) := by
  -- Adding an entry to an inode leaves the blocks of the others alone, whatever the name.
  have working := housed.working here
  refine (NextFs.ends_dirAddEntry housed.ok now dirInode name r fun _ _ => working).imp ?_ ?_
  · rintro _ t ⟨admits, ⟨b, slot, buf, found, rfl⟩ | ⟨_, w, u, written, rfl⟩⟩
    · obtain ⟨k, held, _⟩ := unusedEntry_some working found
      exact ⟨admits.isDir, housed.owned.apart (owner here) (Grown.write working held _)⟩
    · obtain ⟨x, grown, pair⟩ := (ends_writeInodeData working now _ _).of_ok written
      obtain ⟨rfl, _⟩ := Prod.mk.inj pair
      exact ⟨admits.isDir, apart_store housed.owned (owner here) grown.grown _⟩
  · rintro fail t ⟨_, ⟨_, rfl⟩ | ⟨appends, stuck⟩⟩
    · exact ⟨housed.owned.apart_refl _, fun _ => rfl⟩
    · have dir := appends.1.isDir
      rcases (ends_writeInodeData working now _ _).of_error stuck with ⟨_, _, _, notDir⟩ | ⟨_, w, grown, _⟩
      · rw [dir] at notDir
        cases notDir
      · exact ⟨housed.owned.apart (owner here) grown, fun notDir => by simp [dir] at notDir⟩

theorem ends_addEntry (housed : Housed live s) {dirInode : UInt32} (here : live dirInode.toNat) {name : Name}
    (storable : Storable name) {r : UInt32} (target : r ≠ 0) (now : UInt32) :
    Ends (dirAddEntry now dirInode name r) s
      (fun _ t => ((s.inode dirInode.toNat).isDir = true ∧ name.length < 60 ∧
        (∀ c, (name, c) ∉ s.entries dirInode.toNat) ∧
          Becomes live s t dirInode.toNat ((name, r.toNat) ::ₘ s.entries dirInode.toNat)) ∧
        Apart (s.owners live) dirInode.toNat s t)
      (fun fail t => (fail ≠ .panic ∧ ((s.inode dirInode.toNat).isDir = true → 60 ≤ name.length ∨
          (∃ c, (name, c) ∈ s.entries dirInode.toNat) ∨ fail = .fs .noSpace ∧
            ∀ j, j < totalEntries (s.inode dirInode.toNat) →
              (s.slot (s.inode dirInode.toNat) j).isUsed = true) ∧
          Becomes live s t dirInode.toNat (s.entries dirInode.toNat)) ∧
        Apart (s.owners live) dirInode.toNat s t) := by
  -- An entry is added to a live inode, if that is a directory.
  have apart := housed.apart_addEntry here name r now
  have working := housed.working here
  by_cases dir : (s.inode dirInode.toNat).isDir = true
  · refine ((housed.ends_dirAddEntry here dir storable target now).and apart).imp ?_ ?_
    · rintro _ t ⟨⟨short, absent, becomes⟩, _, apart⟩
      exact ⟨⟨dir, short, absent, becomes⟩, apart⟩
    · rintro fail t ⟨⟨calm, reasons, becomes⟩, apart, _⟩
      exact ⟨⟨calm, fun _ => reasons, becomes⟩, apart⟩
  · refine ((NextFs.ends_dirAddEntry housed.ok now dirInode name r fun _ _ => working).and apart).imp ?_ ?_
    · rintro _ t ⟨_, isDir, _⟩
      exact (dir isDir).elim
    · rintro fail t ⟨⟨calm, _⟩, apart, same⟩
      obtain rfl := same (by simpa using dir)
      exact ⟨⟨calm, fun isDir => (dir isDir).elim, housed.same _⟩, apart⟩

/-! ### New inodes -/

section Stage

variable (housed : Housed live s) (next : s.nextInode = some c)

include housed next

theorem next_fresh : ¬live c := by
  intro here
  have marked := housed.marked here
  rw [(Volume.nextInode_some housed.ok next).2.2.1] at marked
  cases marked

theorem apart_stageFile (now : UInt32) : Apart (s.owners live) c s (s.stageFile now c) := by
  have inside := (Volume.nextInode_some housed.ok next).2.1
  refine Apart.setInode housed.ok housed.owned.sound inside ?_ _
  exact ⟨by simp, fun _ _ _ => by simp, fun _ _ _ _ _ _ => rfl,
    fun _ _ _ _ here held => (housed.owned.sound.backed here held).2⟩

theorem stageFile (now : UInt32) : Housed (fun i => i = c ∨ live i) (s.stageFile now c) := by
  obtain ⟨_, inside, _⟩ := Volume.nextInode_some housed.ok next
  have apart := housed.apart_stageFile next now
  have record : (s.stageFile now c).inode c = { Inode.newFile with mtime := now } := by
    rw [Volume.stageFile, Volume.inode_setInode, if_pos rfl]
  have other : ∀ {i}, i = c ∨ live i → i ≠ c → live i ∧ (s.stageFile now c).inode i = s.inode i := by
    intro i here different
    have old := here.resolve_left different
    exact ⟨old, apart.inode i different (owner old)⟩
  refine ⟨?_, ?_, ?_, ?_⟩
  · have owned := owned_stageFile housed.owned next now
    have same : (s.stageFile now c).owners (fun i => i = c ∨ live i) = fun j => j = c ∨ s.owners live j := by
      funext j
      simp only [Volume.owners, apart.layout, or_assoc, eq_iff_iff]
      by_cases first : j = c
      · simp [first]
      · rw [Volume.stageFile, Volume.inode_setInode, if_neg first, Volume.inode_takeInode]
    rwa [same]
  · intro i here
    rw [Volume.stageFile, Volume.marked_setInode, Volume.marked_takeInode housed.ok inside]
    rcases here with rfl | old
    · simp
    · simp [housed.marked old]
  · intro i here
    by_cases first : i = c
    · rw [first, record]
      exact Or.inl rfl
    · obtain ⟨old, same⟩ := other here first
      rw [same]
      exact housed.kinds old
  · intro i here dir
    by_cases first : i = c
    · rw [first, record] at dir
      simp [Inode.isDir, Inode.newFile] at dir
    · obtain ⟨old, same⟩ := other here first
      rw [same] at dir ⊢
      exact (agree_of_apart apart old first).formed (housed.formed old dir)

theorem apart_stageDir {b : Nat} (found : s.nextFree = some b) (now parent : UInt32) :
    Apart (s.owners live) c s (s.stageDir now c b parent) :=
  NextFs.apart_stageDir housed.owned next found now parent

omit housed next in
theorem inode_stageDir {b : Nat} (now parent : UInt32) :
    (s.stageDir now c b parent).inode c = Volume.newDirInode now b := by
  rw [Volume.stageDir, Volume.inode_setInode, if_pos rfl]

theorem dots_stageDir {b : Nat} (found : s.nextFree = some b) (now : UInt32)
    {parent : UInt32} (up : parent ≠ 0) :
    (s.stageDir now c b parent).Formed ((s.stageDir now c b parent).inode c) ∧
      (s.stageDir now c b parent).entries c = {(dot, c), (dotdot, parent.toNat)} := by
  -- The new directory has the entries of itself and of its parent.
  have inside := (Volume.nextInode_some housed.ok next).2.1
  obtain ⟨data, _⟩ := Volume.nextFree_some housed.ok found
  obtain ⟨filled, number⟩ := target_eq_some.mp (target_nextFree housed.ok found)
  obtain ⟨self, own⟩ := Volume.nextInode_number housed.ok next
  have dots : (s.stageDir now c b parent).device.data (UInt32.ofNat b).toNat = dotBlock (UInt32.ofNat c)
    parent := by
    rw [number, Volume.stageDir, Volume.data_setInode (by simpa using housed.ok) (by simpa using data.1)
      (by simpa using inside), Volume.data_setBlock, Function.update_self]
  rw [Volume.entries, inode_stageDir]
  have formed := formed_dots (s := s.stageDir now c b parent) (v := Volume.newDirInode now b)
    rfl rfl rfl rfl filled own up dots
  rwa [self] at formed

theorem stageDir {b : Nat} (found : s.nextFree = some b) (now : UInt32) {parent : UInt32} (up : parent ≠ 0) :
    Housed (fun i => i = c ∨ live i) (s.stageDir now c b parent) := by
  obtain ⟨_, inside, _⟩ := Volume.nextInode_some housed.ok next
  have apart := housed.apart_stageDir next found now parent
  have record := inode_stageDir (s := s) (c := c) (b := b) now parent
  have other : ∀ {i}, i = c ∨ live i → i ≠ c → live i ∧ (s.stageDir now c b parent).inode i = s.inode i := by
    intro i here different
    have old := here.resolve_left different
    exact ⟨old, apart.inode i different (owner old)⟩
  refine ⟨?_, ?_, ?_, ?_⟩
  · have owned := owned_stageDir housed.owned next found now parent
    have same : (s.stageDir now c b parent).owners (fun i => i = c ∨ live i) = fun j =>
      j = c ∨ s.owners live j := by
      funext j
      simp only [Volume.owners, apart.layout, or_assoc, eq_iff_iff]
      by_cases first : j = c
      · simp [first]
      · simp only [first, false_or]
        refine or_congr_right (and_congr_right fun table => ?_)
        rw [NextFs.inode_stageDir housed.ok found now parent table.2, if_neg first]
    rwa [same]
  · intro i here
    rw [Volume.stageDir, Volume.marked_setInode, Volume.marked_setBlock, Volume.marked_takeBlock,
      Volume.marked_takeInode housed.ok inside]
    rcases here with rfl | old
    · simp
    · simp [housed.marked old]
  · intro i here
    by_cases first : i = c
    · rw [first, record]
      exact Or.inr rfl
    · obtain ⟨old, same⟩ := other here first
      rw [same]
      exact housed.kinds old
  · intro i here dir
    by_cases first : i = c
    · rw [first]
      exact (housed.dots_stageDir next found now up).1
    · obtain ⟨old, same⟩ := other here first
      rw [same] at dir ⊢
      exact (agree_of_apart apart old first).formed (housed.formed old dir)

end Stage

/-! ### Inodes that go -/

theorem forget {live' : Nat → Prop} (housed : Housed live' u) (fewer : ∀ i, live i → live' i)
    (layout : t.layout = u.layout) (device : t.device = u.device) (marked : ∀ i, live i → t.marked i = true)
    (owned : t.Owned (t.owners live)) : Housed live t := by
  -- Fewer inodes are live, on the same device.
  have records : t.inode = u.inode := by
    funext i
    rw [Volume.inode, Volume.inode, layout, device]
  refine ⟨owned, fun here => marked _ here, ?_, ?_⟩
  · intro i here
    rw [records]
    exact housed.kinds (fewer i here)
  · intro i here dir
    rw [records] at dir ⊢
    refine Agree.formed ⟨?_, fun _ _ _ => by rw [device]⟩ (housed.formed (fewer i here) dir)
    rw [device]

section Drop

variable {live' : Nat → Prop} (housed : Housed live' u) (same : ∀ i, live' i ↔ i = c ∨ live i) (fresh : ¬live c)

include housed same fresh

theorem drop_file (file : (u.inode c).isFile = true) : Housed live (u.dropInode c) := by
  -- A file that was not named after all. On disk it is still a file.
  have here : live' c := (same c).mpr (Or.inl rfl)
  have owners : (u.dropInode c).owners live = u.owners live' := by
    funext j
    simp only [Volume.owners, same, Volume.layout_dropInode, Volume.inode_dropInode, eq_iff_iff]
    by_cases first : j = c
    · simp [first, file, housed.inside here]
    · simp [first]
  refine housed.forget (fun i old => (same i).mpr (Or.inr old)) (Volume.layout_dropInode u c) rfl ?_ ?_
  · intro i old
    rw [Volume.marked_dropInode housed.ok (housed.inside here).2, if_neg (by rintro rfl; exact fresh old)]
    exact housed.marked ((same i).mpr (Or.inr old))
  · rw [owners]
    exact housed.owned.dropInode c

theorem drop_dir (dir : (u.inode c).isDir = true) {b : Nat} {p : Place}
    (held : (u.inode c).holds u.device.data p = some b) : Housed live ((u.dropBlock b).dropInode c) := by
  -- A directory that was not named after all, with its block.
  have here : live' c := (same c).mpr (Or.inl rfl)
  have own : ∀ a ∈ [b], ∃ p, (u.inode c).holds u.device.data p = some a := by
    intro a member
    rw [List.mem_singleton.mp member]
    exact ⟨p, held⟩
  have apart := Apart.release housed.ok housed.owned.sound (owner here) own
  have owners : ∀ j, u.owners live j → u.owners live' j ∧ j ≠ c := by
    rintro j (old | ⟨table, file⟩)
    · refine ⟨owner ((same j).mpr (Or.inr old)), ?_⟩
      rintro rfl
      exact fresh old
    · refine ⟨Or.inr ⟨table, file⟩, ?_⟩
      rintro rfl
      simp only [Inode.isDir, Inode.isFile, decide_eq_true_eq] at dir file
      simp [dir] at file
  have released : (u.release [b]).Owned (u.owners live) := by
    refine ⟨apart.layout ▸ housed.ok, fun other => apart.layout ▸ housed.owned.table (owners _ other).1, ?_, ?_⟩
    · intro j table file
      rw [Volume.inode_release] at file
      exact Or.inr ⟨apart.layout ▸ table, file⟩
    · refine Volume.Sound.change housed.owned.sound apart (fun j _ other => (owners j other).1) ?_ ?_ ?_
      · exact fun mine => ((owners c mine).2 rfl).elim
      · exact fun mine => ((owners c mine).2 rfl).elim
      · exact fun mine => ((owners c mine).2 rfl).elim
  refine housed.forget (fun i old => (same i).mpr (Or.inr old)) (by simp) rfl ?_ ?_
  · intro i old
    rw [Volume.marked_dropInode (by simpa using housed.ok) (by simpa using (housed.inside here).2),
      if_neg (by rintro rfl; exact fresh old), Volume.marked_dropBlock]
    exact housed.marked ((same i).mpr (Or.inr old))
  · have unchanged : ((u.dropBlock b).dropInode c).owners live = u.owners live :=
      Volume.owners_congr (by simp) fun _ _ => by rw [Volume.inode_dropInode, Volume.inode_dropBlock]
    rw [unchanged]
    exact released.dropInode c

end Drop

theorem erase (housed : Housed live s) (here : live c) :
    Housed (fun i => i ≠ c ∧ live i) (s.erase c) ∧ Apart (s.owners live) c s (s.erase c) := by
  have apart := apart_erase housed.owned (owner here)
  have records : ∀ {i}, i ≠ c → (s.erase c).inode i = s.inode i := by
    intro i different
    rw [inode_erase, if_neg different]
  have gone : ((s.erase c).inode c).isFile = false := by
    rw [inode_erase, if_pos rfl]
    rfl
  refine ⟨⟨?_, ?_, ?_, ?_⟩, apart⟩
  · have owned := owned_erase housed.owned (owner here)
    have same : (s.erase c).owners (fun i => i ≠ c ∧ live i) = fun j => j ≠ c ∧ s.owners live j := by
      funext j
      simp only [Volume.owners, apart.layout, eq_iff_iff]
      by_cases first : j = c
      · simp [first, gone]
      · simp [first, records first]
    rwa [same]
  · intro i old
    rw [Volume.erase, Volume.marked_dropInode (by simpa using housed.ok)
      (by simpa using (housed.inside here).2),
      if_neg old.1, Volume.marked_setInode, Volume.marked, Volume.inodeBitmap_release]
    exact housed.marked old.2
  · intro i old
    rw [records old.1]
    exact housed.kinds old.2
  · intro i old dir
    rw [records old.1] at dir ⊢
    exact (agree_of_apart apart old.2 old.1).formed (housed.formed old.2 dir)

end Housed

end PickleOS.NextFs
