import PickleOS.NextFs.CutBytes
import PickleOS.NextFs.Naming
import PickleOS.Shared.TreePaths

set_option autoImplicit false

/-!
# A volume as a map of paths

What the directories and files of a volume are at every path, and what an operation makes of it.
-/

namespace PickleOS.NextFs

open Shared Shared.Outcome

def Volume.fileContent (s : Volume) (i : Nat) : List UInt8 :=
  (List.range (s.inode i).size.toNat).map (s.byteAt (s.inode i))

noncomputable def Volume.view (live : Nat → Prop) (s : Volume) : Tree.Paths Name (List UInt8) :=
  (s.shape live).paths dot dotdot rootInode.toNat s.fileContent

section

variable {live : Nat → Prop} {s t u : Volume} {d c i : Nat} {name : Name} {p : List Name} {bytes : List UInt8}

theorem Undisturbed.fileContent {kept : Nat → Prop} (same : Undisturbed kept s t) (here : kept i) :
    t.fileContent i = s.fileContent i := by
  have bytes : t.byteAt (t.inode i) = s.byteAt (s.inode i) := by
    rw [same.inode here]
    exact byteAt_congr fun _ _ held => same.data here held
  rw [Volume.fileContent, Volume.fileContent, bytes, same.inode here]

namespace Standing

/-- What is at a path is a live inode. -/
def At (live : Nat → Prop) (s : Volume) (p : List Name) (i : Nat) : Prop :=
  Tree.At dot dotdot rootInode.toNat (s.shape live) p i

theorem view_dir (standing : Standing live s) (here : At live s p i) :
    s.view live p = some .dir ↔ (s.inode i).isDir = true :=
  Tree.paths_dir standing.tree here

theorem view_file (standing : Standing live s) : s.view live p = some (.file bytes) ↔
    ∃ i, At live s p i ∧ (s.inode i).isFile = true ∧ s.fileContent i = bytes := by
  rw [Volume.view, Tree.paths_iff standing.tree]
  refine exists_congr fun i => and_congr_right fun here => ?_
  have kinds := standing.housed.kinds (here.live standing.tree)
  refine and_congr_left fun _ => ⟨fun notDir => kinds.resolve_right notDir, fun file dir => ?_⟩
  have isDir : (s.inode i).isDir = true := dir
  rw [not_dir_of_file file] at isDir
  cases isDir

end Standing

theorem Created.linked (created : Created live s t d name c) (standing : Standing live s) (here : live d)
    (bare : (t.inode c).isDir = true → t.entries c = {(dot, c), (dotdot, d)}) :
    Tree.Linked dot dotdot (s.shape live) d name c (t.shape fun i => i = c ∨ live i) where
  here := ⟨here, created.dir⟩
  fresh := created.fresh
  absent x member := by
    have folder : (t.shape fun i => i = c ∨ live i).Folder d := ⟨Or.inr here, by
      change (t.inode d).isDir = true
      rw [Inode.isDir, created.type, ← Inode.isDir]
      exact created.dir⟩
    have names := created.standing.tree.names folder
    change ((t.entries d).map Prod.fst).Nodup at names
    rw [created.entries, Multiset.map_cons, Multiset.nodup_cons] at names
    exact names.1 (Multiset.mem_map.mpr ⟨_, member, rfl⟩)
  live x := or_comm
  dir x old := by
    change (t.inode x).isDir = true ↔ (s.inode x).isDir = true
    by_cases same : x = d
    · rw [same, Inode.isDir, created.type, ← Inode.isDir]
    · rw [created.others.inode ⟨old, same⟩]
  entries := created.entries
  others x folder other := created.others.entries ⟨folder.1, other⟩ (standing.formed folder.1 folder.2)
  new := bare

theorem Created.view (created : Created live s t d name c) (standing : Standing live s)
    (here : Standing.At live s p d)
    (bare : (t.inode c).isDir = true → t.entries c = {(dot, c), (dotdot, d)}) {node : Tree.Node (List UInt8)}
    (new : (t.shape fun i => i = c ∨ live i).Is t.fileContent c node) :
    t.view (fun i => i = c ∨ live i) = Function.update (s.view live) (p ++ [name]) (some node) := by
  have alive := here.live standing.tree
  refine (created.linked standing alive bare).paths
    standing.tree created.standing.tree here (fun x old plain => ?_) new
  refine created.others.fileContent ⟨old, ?_⟩
  rintro rfl
  exact plain created.dir

theorem Created.absent (created : Created live s t d name c) (standing : Standing live s)
    (here : Standing.At live s p d)
    (bare : (t.inode c).isDir = true → t.entries c = {(dot, c), (dotdot, d)}) :
      s.view live (p ++ [name]) = none := by
  have linked := created.linked standing (here.live standing.tree) bare
  rw [← Option.not_isSome_iff_eq_none]
  intro there
  obtain ⟨x, member⟩ := (Tree.child_iff standing.tree here linked.here (linked.proper standing.tree)).mp there
  exact linked.absent x member

theorem Removed.unlinked (removed : Removed live s t d name c) (standing : Standing live s) (here : live d) :
    Tree.Unlinked dot dotdot (s.shape live) d name c (t.shape fun i => i ≠ c ∧ live i) := by
  have folder : (s.shape live).Folder d := ⟨here, removed.dir⟩
  have kept {x : Nat} (old : live x) (other : x ≠ c) : (t.inode x).isDir = true ↔ (s.inode x).isDir = true := by
    by_cases same : x = d
    · rw [same, Inode.isDir, removed.type, ← Inode.isDir]
    · rw [removed.others.inode ⟨old, same, other⟩]
  have folder' : (t.shape fun i => i ≠ c ∧ live i).Folder d :=
    ⟨⟨removed.other, here⟩, (kept here removed.other).mpr removed.dir⟩
  have others (x : Nat) (there : (t.shape fun i => i ≠ c ∧ live i).Folder x) (other : x ≠ d) :
    t.entries x = s.entries x :=
    removed.others.entries ⟨there.1.2, other, there.1.1⟩
      (standing.formed there.1.2 ((kept there.1.2 there.1.1).mp there.2))
  have proper : Tree.Proper dot dotdot name := by
    -- The entries of the directory itself and of its parent are still there.
    have absent (x : Nat) : (name, x) ∉ t.entries d := by
      intro member
      have names := standing.tree.names folder
      change ((s.entries d).map Prod.fst).Nodup at names
      rw [removed.entries, Multiset.map_cons, Multiset.nodup_cons] at names
      exact names.1 (Multiset.mem_map.mpr ⟨_, member, rfl⟩)
    obtain ⟨up, parent, _⟩ := removed.standing.tree.parent folder'
    constructor
    · rintro rfl
      exact absent d (removed.standing.tree.self folder')
    · rintro rfl
      exact absent up parent
  refine ⟨folder, proper, fun dir m x member named => ?_, fun x => and_comm,
    fun x there => kept there.2 there.1, removed.entries, others⟩
  -- What a removed directory has named would be named by nobody now.
  have gone : (s.shape live).Folder c := ⟨removed.here, dir⟩
  have child := standing.tree.child gone member
  have other : x ≠ c := by
    rintro rfl
    obtain ⟨rfl, rfl⟩ := standing.tree.unique gone folder member (by
      change (name, x) ∈ s.entries d
      rw [removed.entries]
      exact Multiset.mem_cons_self _ _) named proper
    exact removed.other rfl
  have apart : x ≠ rootInode.toNat := by
    rintro rfl
    exact standing.tree.unnamed gone member named
  obtain ⟨⟨e, k⟩, ⟨there, properly, inside⟩, _⟩ := removed.standing.tree.named_once ⟨other, child⟩ apart
  have before : (s.shape live).Folder e := ⟨there.1.2, (kept there.1.2 there.1.1).mp there.2⟩
  have old : (k, x) ∈ s.entries e := by
    by_cases same : e = d
    · rw [same, removed.entries]
      exact Multiset.mem_cons_of_mem (same ▸ inside)
    · rw [← others e there same]
      exact inside
  exact there.1.1 (standing.tree.unique before gone old member properly named).1

theorem Removed.view (removed : Removed live s t d name c) (standing : Standing live s)
    (here : Standing.At live s p d) :
    t.view (fun i => i ≠ c ∧ live i) = Function.update (s.view live) (p ++ [name]) none := by
  refine (removed.unlinked standing (here.live standing.tree)).paths
    standing.tree removed.standing.tree here fun x there plain => ?_
  refine removed.others.fileContent ⟨there.2, ?_, there.1⟩
  rintro rfl
  exact plain removed.dir

theorem Removed.node (removed : Removed live s t d name c) (standing : Standing live s)
    (here : Standing.At live s p d) :
    Standing.At live s (p ++ [name]) c ∧ Tree.Proper dot dotdot name ∧
      ((s.inode c).isDir = true → ∀ m, s.view live ((p ++ [name]) ++ [m]) = none) := by
  have unlinked := removed.unlinked standing (here.live standing.tree)
  have there : Standing.At live s (p ++ [name]) c := .entry here unlinked.here unlinked.entry unlinked.proper
  exact ⟨there, unlinked.proper, fun dir => unlinked.childless standing.tree dir there⟩

theorem Refused.view {fail : Fail} (refused : Refused live s t d fail) (standing : Standing live s)
    (file : live d → (s.inode d).isDir = false → t.fileContent d = s.fileContent d) :
      t.view live = s.view live := by
  have alike : Tree.Alike (s.shape live) (t.shape live) := by
    refine ⟨fun x => Iff.rfl, fun x old => ?_, fun x folder => ?_⟩
    · change (t.inode x).isDir = true ↔ (s.inode x).isDir = true
      by_cases same : x = d
      · rw [same, Inode.isDir, refused.type, ← Inode.isDir]
      · rw [refused.others.inode ⟨old, same⟩]
    · by_cases same : x = d
      · subst same
        exact refused.entries folder.2
      · exact refused.others.entries ⟨folder.1, same⟩ (standing.formed folder.1 folder.2)
  refine alike.paths_same standing.tree refused.standing.tree fun x old plain => ?_
  by_cases same : x = d
  · subst same
    exact file old (Bool.eq_false_iff.mpr plain)
  · exact refused.others.fileContent ⟨old, same⟩

theorem Altered.alike (altered : Altered live s t i) (standing : Standing live s) :
    Tree.Alike (s.shape live) (t.shape live) := by
  refine ⟨fun x => Iff.rfl, fun x old => ?_, fun x folder => altered.entries x folder.1 folder.2⟩
  change (t.inode x).isDir = true ↔ (s.inode x).isDir = true
  rw [Inode.isDir, altered.types x (standing.housed.inside old), ← Inode.isDir]

theorem Altered.view (altered : Altered live s t i) (standing : Standing live s) (here : Standing.At live s p i)
    (file : (s.inode i).isFile = true) : t.view live = Function.update (s.view live)
    p (some (.file (t.fileContent i))) := by
  refine (altered.alike standing).paths standing.tree altered.standing.tree here (fun dir => ?_)
    fun x other old _ =>
    altered.others.fileContent ⟨old, other⟩
  change (s.inode i).isDir = true at dir
  rw [Standing.not_dir_of_file file] at dir
  cases dir

theorem Altered.view_same (altered : Altered live s t i) (standing : Standing live s)
    (same : live i → (s.inode i).isDir = false → t.fileContent i = s.fileContent i) :
      t.view live = s.view live := by
  refine (altered.alike standing).paths_same standing.tree altered.standing.tree fun x old plain => ?_
  by_cases here : x = i
  · subst here
    exact same old (Bool.eq_false_iff.mpr plain)
  · exact altered.others.fileContent ⟨old, here⟩

theorem Altered.trans (first : Altered live s t i) (second : Altered live t u i) : Altered live s u i where
  standing := second.standing
  types j inside := (second.types j (first.others.layout ▸ inside)).trans (first.types j inside)
  others := first.others.trans second.others
  entries j here dir := by
    have inside := first.standing.housed.inside here
    have dir' : (t.inode j).isDir = true := by
      rw [Inode.isDir, first.types j (first.others.layout ▸ inside), ← Inode.isDir]
      exact dir
    exact (second.entries j here dir').trans (first.entries j here dir)
  marks := second.marks.trans first.marks

end

section Operations

variable {live : Nat → Prop} {s u : Volume} {v w : Inode} {i : Nat} {data : List UInt8}

theorem Standing.altered_emptied (standing : Standing live s)
    {inodeNum : UInt32} (inside : s.layout.InTable inodeNum.toNat)
    (file : (s.inode inodeNum.toNat).isFile = true) :
      Altered live s (s.emptied inodeNum.toNat) inodeNum.toNat := by
  have working := standing.housed.owned.working (Or.inr ⟨inside, file⟩)
  have clean := clean_zero (s.inode inodeNum.toNat) s.device.data
  have whole := standing.ends_truncate clean
  cases result : truncate inodeNum 0 s with
  | ok value u =>
    obtain ⟨_, _, rfl⟩ := truncate_ok standing.ok (fun _ => working.placed) result
    exact (whole.of_ok result).2.2.2
  | error fail u =>
    rcases whole.of_error result with ⟨_, long⟩ | ⟨_, _, outside⟩
    · simp [lastBlock] at long
    · exact (outside ⟨inside, file⟩).elim

theorem Stored.short (stored : Stored 0 data s v u w) : data.length ≤ 137 * 512 := by
  by_cases empty : data = []
  · simp [empty]
  · have fits := stored.fits empty
    omega

theorem Stored.fileContent (stored : Stored 0 data s v u w) (working : Working s v)
    (inside : i < s.layout.inodeCount)
    (empty : v.size.toNat = 0) (now : UInt32) :
    (u.setInode i (w.extended now (0 + data.length) data.length)).fileContent i = data := by
  have short := stored.short
  have before : w.size.toNat = 0 := by rw [stored.written.grown.rest, empty]
  have stop : (0 + data.length) % 2 ^ 64 = data.length := by omega
  have number : (UInt64.ofNat data.length).toNat = data.length :=
    UInt64.toNat_ofNat_of_lt' (show data.length < 2 ^ 64 by omega)
  have length : (w.extended now (0 + data.length) data.length).size.toNat = data.length := by
    simp only [Inode.extended, stop, before]
    split
    · exact number
    · rw [before]
      omega
  rw [Volume.fileContent, Volume.inode_setInode, if_pos rfl, stored.byteAt working inside, length]
  refine List.ext_getElem (by simp) fun k below _ => ?_
  have inside_data : k < data.length := by simpa using below
  rw [List.getElem_map, List.getElem_range, Bytes.overlay, if_pos (by omega), Nat.zero_mod, Nat.sub_zero,
    List.getD_eq_getElem?_getD,
    List.getElem?_eq_getElem inside_data, Option.getD_some]

theorem Stored.altered {live : Nat → Prop} {freed : List Nat} (standing : Standing live (s.emptied i))
    (stored : Stored 0 data (s.release freed) ((s.inode i).cut 0) u w)
    (same : freed = (s.inode i).freedBy s.device.data 0)
    (working : Working (s.release freed) ((s.inode i).cut 0)) (inside : s.layout.InTable i)
    (file : (s.inode i).isFile = true)
    (now : UInt32) : Altered live (s.emptied i)
    (u.setInode i (w.extended now (0 + data.length) data.length)) i := by
  have written := stored.written.grown
  have record : (s.emptied i).inode i = (s.inode i).cut 0 := by rw [Volume.inode_emptied, if_pos rfl]
  have grown : Grown (Touches 0 data.length) (s.emptied i) ((s.emptied i).inode i)
    (u.setInode i ((s.inode i).cut 0)) w := by
    rw [record, Volume.emptied, ← same]
    exact written.setInode working (show i < _ by simpa using inside.2) ((s.inode i).cut 0)
  rw [← Volume.setInode_setInode u i ((s.inode i).cut 0)]
  refine standing.alter_stored ?_ ?_ grown rfl rfl ?_
  · rw [Volume.emptied]
    simpa using inside
  · rw [record, Inode.isFile, Inode.inodeType_cut, ← Inode.isFile]
    exact file
  · have type : w.inodeType = ((s.inode i).cut 0).inodeType := by rw [written.rest]
    rw [record, ← type]
    rfl

theorem Volume.fileContent_empty {t : Volume} (empty : (t.inode i).size = 0) : t.fileContent i = [] := by
  rw [Volume.fileContent, empty]
  rfl

theorem Standing.ends_writeFile_empty (standing : Standing live s) (now : UInt32)
    {inodeNum : UInt32} (data : List UInt8)
    (empty : (s.inode inodeNum.toNat).size = 0) :
    Ends (writeFile now inodeNum data) s (fun _ _ => True)
      (fun _ t => Altered live s t inodeNum.toNat ∧ t.fileContent inodeNum.toNat = []) := by
  refine (NextFs.ends_writeFile standing.ok now inodeNum data fun inside file =>
    standing.housed.owned.working (Or.inr ⟨inside, file⟩)).imp (fun _ _ _ => trivial) ?_
  rintro fail t ⟨_, ⟨_, rfl⟩ | ⟨inside, file, _, w, grown, _⟩⟩
  · exact ⟨standing.unaltered _, Volume.fileContent_empty empty⟩
  · have size : (s.inode inodeNum.toNat).size.toNat = 0 := by rw [empty]; rfl
    have none : (s.inode inodeNum.toNat).freedBy s.device.data 0 = [] := by
      rw [Inode.freedBy, if_pos (by omega)]
    obtain ⟨direct, indirect⟩ := pointers_of_freedBy_nil none
    rw [none, Volume.release_nil] at grown
    have record : t.inode inodeNum.toNat = s.inode inodeNum.toNat := grown.inode standing.ok inside.2
    exact ⟨standing.alter_grown inside file (grown.of_pointers direct indirect),
      Volume.fileContent_empty (by rw [record, empty])⟩

/-- `write_file` replaces the contents of a file; when it is refused, nothing has happened yet unless
space is short. -/
theorem Standing.ends_writeFile (standing : Standing live s) (now : UInt32)
    {inodeNum : UInt32} (data : List UInt8) :
    Ends (writeFile now inodeNum data) s
      (fun _ t => (s.inode inodeNum.toNat).isFile = true ∧ data.length ≤ 137 * 512 ∧
        Altered live s t inodeNum.toNat ∧
        t.fileContent inodeNum.toNat = data)
      (fun fail t => fail = .fs .noSpace ∧ (s.inode inodeNum.toNat).isFile = true ∨ fail ≠ .panic ∧ t = s) := by
  classical
  have ok := standing.ok
  rw [writeFile, ends_bind, ends_observe, readInode_eq ok]
  by_cases inside : s.layout.InTable inodeNum.toNat
  · rw [if_pos inside]
    dsimp only
    cases file : (s.inode inodeNum.toNat).isFile with
    | false => exact Or.inr ⟨by simp, rfl⟩
    | true =>
      have working := standing.housed.owned.working (Or.inr ⟨inside, file⟩)
      have emptied := working_cut ok working (clean_zero (s.inode inodeNum.toNat) s.device.data)
      have altered := standing.altered_emptied inside file
      have empty : ((s.inode inodeNum.toNat).cut 0).size.toNat = 0 := by
        have size := size_cut (s.inode inodeNum.toNat) 0
        exact congrArg UInt64.toNat size
      rw [Bool.not_true, if_neg (by simp), ends_bind]
      refine (ends_truncateInode working.placed 0).imp ?_ ?_
      · rintro v u ⟨rfl, rfl⟩
        rw [ends_bind]
        refine (ends_storeInodeData emptied now 0 data).imp ?_ ?_
        · rintro pair u ⟨w, stored, rfl⟩
          have layout := stored.written.grown.layout
          rw [Volume.layout_release] at layout
          dsimp only
          rw [ends_writeInode (layout ▸ ok) (layout ▸ inside)]
          exact ⟨rfl, stored.short, altered.trans (stored.altered altered.standing rfl emptied inside file now),
            stored.fileContent emptied (by simpa using inside.2) empty now⟩
        · rintro fail t (⟨_, _, notFile, _⟩ | ⟨stuck, _⟩)
          · rw [Inode.isFile, Inode.inodeType_cut, ← Inode.isFile, file] at notFile
            cases notFile
          · exact Or.inl ⟨stuck.1, rfl⟩
      · rintro fail t ⟨_, long⟩
        simp [lastBlock] at long
  · rw [if_neg inside]
    exact Or.inr ⟨by simp, rfl⟩

theorem Standing.content_updateInode (standing : Standing live s) {c : UInt32} (here : live c.toNat)
    {change : Inode → Inode}
    (direct : ∀ v, (change v).direct = v.direct) (indirect : ∀ v, (change v).indirect = v.indirect)
    (size : ∀ v, (change v).size = v.size) :
    Ends (updateInode c change) s (fun _ t => t.fileContent c.toNat = s.fileContent c.toNat) fun _ _ =>
      True := by
  have inside := standing.housed.inside here
  rw [updateInode, ends_bind, ends_observe, readInode_ok standing.ok inside]
  dsimp only
  split
  next => exact trivial
  next =>
    rw [ends_writeInode standing.ok inside, Volume.fileContent, Volume.inode_setInode, if_pos rfl, size,
      byteAt_of_pointers (direct _) (indirect _), byteAt_setInode (standing.housed.working here).placed
        inside.2]
    rfl

theorem Standing.empty_createFile (standing : Standing live s) {d : UInt32} (here : live d.toNat)
    (name : Name) (now : UInt32) :
    Ends (createFile now d name) s (fun r t => (t.inode r.toNat).size = 0) fun _ _ => True := by
  have housed := standing.housed
  refine (NextFs.ends_createFile standing.ok now d name fun i next =>
    fun _ _ => (housed.stageFile next now).working (Or.inr here)).imp ?_ fun _ _ _ => trivial
  rintro r t ⟨c, next, rfl, added⟩
  have different : c ≠ d.toNat := by
    rintro rfl
    exact housed.next_fresh next here
  have apart := (((housed.stageFile next now).apart_addEntry (Or.inr here) name _ now).of_ok added).2
  rw [(Volume.nextInode_number standing.ok next).1, apart.inode c different (Housed.owner (Or.inl rfl)),
    Volume.stageFile,
    Volume.inode_setInode, if_pos rfl]
  rfl

theorem Standing.content_createDir (standing : Standing live s) {d : UInt32} (here : live d.toNat)
    (notDir : (s.inode d.toNat).isDir = false)
    (name : Name) (now : UInt32) :
    Ends (createDir now d name) s (fun _ _ => True)
      (fun _ t => t.fileContent d.toNat = s.fileContent d.toNat) := by
  have housed := standing.housed
  have up : d ≠ 0 := by
    rintro rfl
    exact absurd (housed.inside here).1 (by decide)
  have raw := NextFs.ends_createDir standing.ok now d name fun i b next found =>
    fun _ _ => (housed.stageDir next found now up).working (Or.inr here)
  refine raw.imp (fun _ _ _ => trivial) ?_
  rintro fail t ⟨_, ⟨_, _, rfl⟩ | ⟨i, _, _, _, rfl⟩ | ⟨c, b, u, next, found, rfl, refused⟩⟩
  · rfl
  · exact (Undisturbed.of_device (fun _ => True) (Volume.layout_takeInode s i) rfl).fileContent trivial
  · have same := staged_same (housed.next_fresh next) (housed.apart_stageDir next found now d)
    have stays := (((housed.stageDir next found now up).apart_addEntry (Or.inr here) name _ now).of_error
      refused).2
    rw [same.inode here] at stays
    rw [stays notDir]
    have last := Undisturbed.of_device (s := s.stageDir now c b d)
      (t := ((s.stageDir now c b d).dropBlock b).dropInode c) live (by simp) rfl
    exact (same.trans last).fileContent here

theorem Standing.lookup_step (standing : Standing live s) {d r : UInt32} (here : live d.toNat) (name : Name) :
    s.dirLookup d name = .ok r ↔ (s.shape live).Folder d.toNat ∧
    (name, r.toNat) ∈ (s.shape live).entries d.toNat := by
  by_cases dir : (s.inode d.toNat).isDir = true
  · rw [standing.lookup_iff here dir]
    exact (and_iff_right ⟨here, dir⟩).symm
  · exact iff_of_false (fun found => dir (dirLookup_ok standing.ok found).2.1) fun both => dir both.1.2

theorem Standing.walks_iff (standing : Standing live s) {d r : UInt32} (here : live d.toNat)
    (names : List Name) :
    names.foldlM (fun current part => s.dirLookup current part) d = .ok r ↔
      Tree.Walks (s.shape live) d.toNat names r.toNat := by
  induction names generalizing d with
  | nil =>
    constructor
    · intro same
      cases same
      exact .nil _
    · intro walk
      generalize goal : r.toNat = e at walk
      cases walk
      rw [UInt32.toNat_inj.mp goal]
      rfl
  | cons name rest ih =>
    rw [List.foldlM_cons]
    constructor
    · intro done
      cases found : s.dirLookup d name with
      | error fail =>
        rw [found] at done
        cases done
      | ok e =>
        rw [found] at done
        obtain ⟨folder, member⟩ := (standing.lookup_step here name).mp found
        exact .cons folder member ((ih (standing.child here folder.2 member)).mp done)
    · intro walk
      cases walk with
      | @cons _ e _ _ _ folder member after =>
        have child := standing.child here folder.2 member
        have number : (UInt32.ofNat e).toNat = e :=
          UInt32.toNat_ofNat_of_lt' ((standing.housed.inside child).2.trans s.layout.inodeCount_lt)
        rw [← number] at member child after
        rw [(standing.lookup_step here name).mpr ⟨folder, member⟩]
        exact (ih child).mpr after

theorem Standing.located (standing : Standing live s) (names : List Name) {r : UInt32} :
    names.foldlM (fun current part => s.dirLookup current part) rootInode = .ok r ↔
      ∃ p, (s.view live).locate dot dotdot names = some p ∧ At live s p r.toNat := by
  rw [standing.walks_iff standing.root]
  constructor
  · intro walk
    obtain ⟨p, there⟩ := Tree.At.reached standing.tree (Tree.Walks.live standing.tree standing.root walk)
    exact ⟨p, (Tree.locate_iff standing.tree (by decide) names .root).mpr ⟨_, walk, there⟩, there⟩
  · rintro ⟨p, found, there⟩
    obtain ⟨c, walk, there'⟩ := (Tree.locate_iff standing.tree (by decide) names .root).mp found
    rwa [there.node standing.tree there']

theorem Standing.located_some (standing : Standing live s) {names p : List Name}
    (found : (s.view live).locate dot dotdot names = some p) :
    ∃ r : UInt32, names.foldlM (fun current part => s.dirLookup current part) rootInode = .ok r ∧
    At live s p r.toNat := by
  obtain ⟨c, walk, there⟩ := (Tree.locate_iff standing.tree (by decide) names .root).mp found
  have live := there.live standing.tree
  have number : (UInt32.ofNat c).toNat = c :=
    UInt32.toNat_ofNat_of_lt' ((standing.housed.inside live).2.trans s.layout.inodeCount_lt)
  rw [← number] at walk there
  exact ⟨_, (standing.walks_iff standing.root names).mpr walk, there⟩

theorem Standing.readFile_iff (standing : Standing live s)
    {r : UInt32} {bytes : List UInt8} (here : live r.toNat)
    (short : (s.inode r.toNat).isFile = true → (s.fileContent r.toNat).length ≤ 137 * 512) :
    s.readFile r = .ok bytes ↔ (s.inode r.toNat).isFile = true ∧ s.fileContent r.toNat = bytes := by
  have ok := standing.ok
  have inside := standing.housed.inside here
  rw [Volume.readFile, readInode_ok ok inside]
  cases file : (s.inode r.toNat).isFile with
  | false => simp [bind, Except.bind, file]
  | true =>
    have small := short file
    rw [Volume.fileContent, List.length_map, List.length_range] at small
    have whole : s.readInodeData r 0 (s.inode r.toNat).size.toNat = .ok (s.fileContent r.toNat) := by
      rw [Volume.readInodeData, readInode_ok ok inside]
      simp only [bind, Except.bind, file, Bool.not_true, if_false, Bool.false_eq_true]
      split
      next past =>
        have empty : (s.inode r.toNat).size.toNat = 0 := by omega
        rw [Volume.fileContent, empty, List.range_zero, List.map_nil]
      next =>
        rw [readChunks_total (standing.housed.working here).placed (by omega), Volume.bytesFrom,
          Volume.fileContent, Nat.sub_zero,
          Nat.min_self, ← List.range_eq_range']
        refine congrArg Except.ok (List.map_congr_left fun p member => ?_)
        rw [List.mem_range] at member
        rw [Nat.mod_eq_of_lt (by omega)]
    simp only [bind, Except.bind, file, Bool.not_true, Bool.false_eq_true, if_false, whole, true_and,
      Except.ok.injEq]

end Operations

/-- The inode table, the data blocks and the block bitmap are the same. -/
structure SameFiles (s t : Volume) : Prop where
  layout : t.layout = s.layout
  inode : ∀ i, s.layout.InTable i → t.inode i = s.inode i
  data : ∀ b, s.layout.InData b → t.device.data b = s.device.data b
  used : ∀ b, t.used b = s.used b

section SameFiles

variable {live : Nat → Prop} {s t : Volume}

theorem SameFiles.undisturbed (same : SameFiles s t) (standing : Standing live s) :
    Undisturbed (s.owners live) s t where
  layout := same.layout
  inode here := same.inode _ (standing.housed.owned.table here)
  data here held := same.data _ (standing.housed.owned.sound.backed here held).1

theorem SameFiles.standing (same : SameFiles s t) (standing : Standing live s)
    (marked : ∀ i, live i → t.marked i = true) :
    Standing live t := by
  have housed := standing.housed
  have undisturbed := same.undisturbed standing
  have owners : t.owners live = s.owners live :=
    Volume.owners_congr same.layout fun i inside => by rw [same.inode i inside]
  have records {i : Nat} (here : live i) : t.inode i = s.inode i := undisturbed.inode (Housed.owner here)
  have owned : t.Owned (t.owners live) := by
    rw [owners]
    refine ⟨same.layout ▸ housed.ok, fun here => same.layout ▸ housed.owned.table here,
      fun {i} inside file => ?_, ?_⟩
    · rw [same.layout] at inside
      rw [same.inode i inside] at file
      exact housed.owned.files inside file
    · refine ⟨fun here held => ?_, fun here here' held held' => ?_⟩
      · rw [undisturbed.holds here] at held
        rw [same.layout, same.used]
        exact housed.owned.sound.backed here held
      · rw [undisturbed.holds here] at held
        rw [undisturbed.holds here'] at held'
        exact housed.owned.sound.exclusive here here' held held'
  refine standing.congr ⟨owned, fun here => marked _ here, fun here => ?_, fun here dir => ?_⟩
    (fun i here => by rw [records here])
    fun i here dir => undisturbed.entries (Housed.owner here) (standing.formed here dir)
  · rw [records here]
    exact housed.kinds here
  · rw [records here] at dir ⊢
    exact (undisturbed.agree (Housed.owner here)).formed (standing.formed here dir)

theorem SameFiles.view (same : SameFiles s t) (standing : Standing live s)
    (marked : ∀ i, live i → t.marked i = true) :
    t.view live = s.view live := by
  have undisturbed := same.undisturbed standing
  have alike : Tree.Alike (s.shape live) (t.shape live) := by
    refine ⟨fun x => Iff.rfl, fun x here => ?_, fun x folder => ?_⟩
    · change (t.inode x).isDir = true ↔ (s.inode x).isDir = true
      rw [undisturbed.inode (Housed.owner here)]
    · exact undisturbed.entries (Housed.owner folder.1) (standing.formed folder.1 folder.2)
  exact alike.paths_same standing.tree (same.standing standing marked).tree fun x here _ =>
    undisturbed.fileContent (Housed.owner here)

theorem sameFiles_flushed (ok : s.layout.Ok) : SameFiles s { s with device := s.flushed } where
  layout := rfl
  inode i inside := congrArg (fun block : Block => block.inode (i % 8)) (data_flushed ok (Nat.le_add_right _ _))
  data b inside := by
    have table := ok.table
    have data := ok.data
    exact data_flushed ok (Nat.le_trans (by omega) inside.1)
  used _ := rfl

theorem overwrite_again (device : Device) (i k : Nat) (first second : List Block) :
    (((device.overwrite i first).overwrite k second).overwrite i first).overwrite k second =
      (device.overwrite i first).overwrite k second := by
  simp only [Device.overwrite, Device.mk.injEq, true_and]
  funext b
  split
  · rfl
  · split <;> rfl

theorem flushed_flushed (s : Volume) : ({ s with device := s.flushed } : Volume).flushed = s.flushed :=
  overwrite_again s.device 0 s.layout.bitmapStart [s.sb.toBytes] _

theorem Standing.remount (standing : Standing live s) (small : s.layout.inodeCount + 7 < 2 ^ 32)
    (flushed : s.flushed = s.device) :
    ∃ fs, s.device.mount = .ok fs ∧ SameFiles s { fs with device := s.device } ∧
      ∀ i, live i → ({ fs with device := s.device } : Volume).marked i = true := by
  obtain ⟨marks, done, length, tests⟩ := mount_flushed standing.ok small
  rw [flushed] at done
  have layout : ({ { s.toNextFS with inodeBitmap := marks } with device := s.device } : Volume).layout =
    s.layout := by
    simp only [Volume.layout, length]
  refine ⟨_, done, ⟨layout, fun i _ => ?_, fun _ _ => rfl, fun _ => rfl⟩, fun i here => ?_⟩
  · rw [Volume.inode, Volume.inode, layout]
  · have inside := standing.housed.inside here
    have busy : (s.inode i).isFree = false := by
      rcases standing.housed.kinds here with kind | kind <;>
        simp_all [Inode.isFile, Inode.isDir, Inode.isFree]
    change Bitmap.test marks i = true
    rw [tests, busy, decide_eq_true inside.2]
    rfl

end SameFiles

end PickleOS.NextFs
