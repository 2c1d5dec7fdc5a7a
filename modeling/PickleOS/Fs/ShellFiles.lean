import PickleOS.Fs.Components
import PickleOS.NextFs.PathMap
import PickleOS.NextFs.Trees
import PickleOS.Shared.Refinement
import Mathlib.Data.List.DropRight

set_option autoImplicit false

/-!
# The file commands of the shell

Through the commands of the shell a volume is a map from paths to directories and files. A command
changes the map at one path or not at all, and the map is still there when the machine is started
again.
-/

namespace PickleOS.Fs.Shell

open Shared Shared.Outcome Shared.Machine NextFs

def splitPath (path : Name) : Name × Name := Fs.splitPath (path.rdropWhile (· = slash))

def nextfsResolvePath (fs : Volume) (path : Name) : Except Fail UInt32 :=
  if path = [slash] then .ok rootInode else walk fs (parts path)

def inodeAt (fs : Volume) (path : Name) : Except Fail UInt32 :=
  if path = [slash] then .ok rootInode else nextfsResolvePath fs path

def nextfsList (fs : Volume) (path : Name) : Except Fail (List Name) := do
  let inode ← inodeAt fs path
  let entries ← fs.dirList inode
  .ok (entries.map Prod.fst)

def nextfsReadFile (fs : Volume) (path : Name) : Except Fail (List UInt8) := do
  let inode ← nextfsResolvePath fs path
  fs.readFile inode

/-- What is done to a name in the directory of a path is flushed at once. -/
def inParent (path : Name) (act : UInt32 → Name → FsM Unit) : FsM Unit := do
  let dir ← observe fun fs => inodeAt fs (splitPath path).1
  act dir (splitPath path).2
  sync

def atPath (path : Name) (act : UInt32 → FsM Unit) : FsM Unit := do
  let inode ← observe fun fs => nextfsResolvePath fs path
  act inode
  sync

/-- An existing file is overwritten, and a missing one is created first. -/
def store (now later : UInt32) (data : List UInt8) (parentInode : UInt32) (fileName : Name) : FsM Unit := do
  match (← get).dirLookup parentInode fileName with
  | .ok inode => writeFile later inode data
  | .error (.fs .notFound) =>
    let newInode ← createFile now parentInode fileName
    writeFile later newInode data
  | .error e => throw e

def nextfsWriteFile (now later : UInt32) (path : Name) (data : List UInt8) : FsM Unit :=
  inParent path (store now later data)

def nextfsMkdir (now : UInt32) (path : Name) : FsM Unit :=
  inParent path fun parentInode dirName => do let _ ← createDir now parentInode dirName

def nextfsUnlink (now : UInt32) (path : Name) : FsM Unit := inParent path (NextFs.unlink now)

def nextfsRmdir (path : Name) : FsM Unit := inParent path NextFs.rmdir

def nextfsChmod (now : UInt32) (path : Name) (mode : UInt16) : FsM Unit :=
  atPath path fun inode => NextFs.chmod now inode mode

def nextfsChown (now : UInt32) (path : Name) (uid gid : UInt16) : FsM Unit :=
  atPath path fun inode => NextFs.chown now inode uid gid

inductive Command where
  | write (path : Name) (data : List UInt8)
  | mkdir (path : Name)
  | unlink (path : Name)
  | rmdir (path : Name)
  | chmod (path : Name) (mode : UInt16)
  | chown (path : Name) (uid gid : UInt16)

def Command.path : Command → Name
  | write path _ | mkdir path | unlink path | rmdir path | chmod path _ | chown path _ _ => path

def Command.run (now later : UInt32) : Command → FsM Unit
  | write path data => nextfsWriteFile now later path data
  | mkdir path => nextfsMkdir now path
  | unlink path => nextfsUnlink now path
  | rmdir path => nextfsRmdir path
  | chmod path mode => nextfsChmod now path mode
  | chown path uid gid => nextfsChown now path uid gid

/-- A command that succeeded, one that was refused, or a new start of the machine. -/
inductive Event where
  | done (command : Command)
  | refused (command : Command) (fail : Fail)
  | restart

def Named (s : Volume) (path : Name) : Prop :=
  ∃ dir inode, inodeAt s (splitPath path).1 = .ok dir ∧ s.dirLookup dir (splitPath path).2 = .ok inode

/-- A write that finds no space for what is to replace a file is left out: it has freed the blocks of the
file by then. -/
def Loses (s : Volume) (command : Command) (fail : Fail) : Prop :=
  fail = .fs .noSpace ∧ ∃ path data, command = .write path data ∧ Named s path

inductive Happens : Volume → Event → Volume → Prop
  | done {s t : Volume} {c : Command} (now later : UInt32) (text : Storable c.path)
    (result : c.run now later s = .ok () t) :
      Happens s (.done c) t
  | refused {s t : Volume} {c : Command} {fail : Fail} (now later : UInt32) (text : Storable c.path)
      (result : c.run now later s = .error fail t) (keeps : ¬Loses s c fail) : Happens s (.refused c fail) t
  | restart {s t : Volume} {fs : NextFS} (flushed : sync s = .ok () t) (mounted : t.device.mount = .ok fs) :
      Happens s .restart { fs with device := t.device }

/-! ### The map -/

abbrev FileMap := Tree.Paths Name (List UInt8)

namespace FileMap

def empty : FileMap := Function.update (fun _ => none) [] (some .dir)

/-- Where a path leads to. -/
def find (m : FileMap) (path : Name) : Option (List Name) := m.locate dot dotdot (parts path)

/-- What a path stands for in the directory that it is in. -/
def Place (m : FileMap) (path : Name) (q : List Name) : Prop :=
  ∃ p, m.find (splitPath path).1 = some p ∧ m p = some .dir ∧ Tree.Proper dot dotdot (splitPath path).2 ∧
    q = p ++ [(splitPath path).2]

end FileMap

/-- What a command that succeeds makes of the map. -/
def Does (m : FileMap) : Command → FileMap → Prop
  | .write path data, m' => data.length ≤ 137 * 512 ∧
      ∃ q, m.Place path q ∧ m q ≠ some .dir ∧ m' = Function.update m q (some (.file data))
  | .mkdir path, m' => ∃ q, m.Place path q ∧ m q = none ∧ m' = Function.update m q (some .dir)
  | .unlink path, m' => ∃ q bytes, m.Place path q ∧ m q = some (.file bytes) ∧ m' = Function.update m q none
  | .rmdir path, m' =>
    ∃ q, m.Place path q ∧ m q = some .dir ∧ (∀ n, m (q ++ [n]) = none) ∧ m' = Function.update m q none
  | .chmod path _, m' | .chown path _ _, m' => m.find path ≠ none ∧ m' = m

/-- What a command that is refused leaves of the map: a file that a write has created may stay, and
it is empty. There is nothing to remove where a removal is refused. -/
def Leaves (m : FileMap) : Command → FileMap → Prop
  | .write path _, m' => m' = m ∨ ∃ q, m.Place path q ∧ m q = none ∧ m' = Function.update m q (some (.file []))
  | .mkdir _, m' => m' = m
  | .unlink path, m' => m' = m ∧ ¬∃ q bytes, m.Place path q ∧ m q = some (.file bytes)
  | .rmdir path, m' => m' = m ∧ ¬∃ q, m.Place path q ∧ m q = some .dir ∧ ∀ n, m (q ++ [n]) = none
  | .chmod path _, m' | .chown path _ _, m' => m' = m ∧ m.find path = none

def Behaves (m : FileMap) : Event → FileMap → Prop
  | .done c, m' => Does m c m'
  | .refused c fail, m' => fail ≠ .panic ∧ Leaves m c m'
  | .restart, m' => m' = m

/-- The map is what the volume shows, and its files are as large as files can be at most. -/
structure Presents (live : Nat → Prop) (s : Volume) (m : FileMap) : Prop where
  standing : NextFs.Standing live s
  small : s.layout.inodeCount + 7 < 2 ^ 32
  view : s.view live = m
  short : ∀ {p bytes}, m p = some (.file bytes) → bytes.length ≤ 137 * 512

/-- The volume shows a map that is allowed. -/
def Displays (allowed : FileMap → Prop) (s : Volume) : Prop := ∃ m live, allowed m ∧ Presents live s m

section Paths

variable {path : Name}

theorem nextfsResolvePath_eq (fs : Volume) (path : Name) :
    nextfsResolvePath fs path = walk fs (parts path) := by
  rw [nextfsResolvePath]
  split
  next root =>
    rw [root]
    rfl
  next => rfl

theorem inodeAt_eq (fs : Volume) (path : Name) : inodeAt fs path = walk fs (parts path) := by
  rw [inodeAt, nextfsResolvePath_eq]
  split
  next root =>
    rw [root]
    rfl
  next => rfl

theorem storable_last (text : Storable path) : Storable (splitPath path).2 := by
  obtain ⟨absent, valid⟩ := text
  -- The slashes at the end are taken off first.
  have whole : path.rdropWhile (· = slash) ++ path.rtakeWhile (· = slash) = path :=
    List.rdropWhile_append_rtakeWhile
  have trimmed : Utf8.valid (path.rdropWhile (· = slash)) = true := by
    cases taken : path.rtakeWhile (· = slash) with
    | nil =>
      rw [taken, List.append_nil] at whole
      rwa [whole]
    | cons byte back =>
      have member : byte ∈ path.rtakeWhile (· = slash) := taken ▸ List.mem_cons_self
      have first : byte = slash := by simpa using List.mem_rtakeWhile_imp member
      rw [taken, first] at whole
      exact Utf8.valid_before_ascii (by decide) _ (whole ▸ valid)
  have last : ∀ byte ∈ (splitPath path).2, byte ∈ path := by
    intro byte member
    refine (List.rdropWhile_prefix (fun byte => decide (byte = slash)) path).subset ?_
    rcases last_slash (path.rdropWhile (· = slash)) with plain | ⟨front, name, split, plain⟩
    · rwa [splitPath, splitPath_plain plain] at member
    · rw [splitPath, split, splitPath_append front plain] at member
      rw [split]
      exact List.mem_append_right _ (List.mem_cons_of_mem _ member)
  exact ⟨fun nul => absent (last _ nul), valid_last trimmed⟩

end Paths

section Commands

variable {live : Nat → Prop} {s t : Volume} {m : FileMap} {path name : Name} {p q : List Name} {d : UInt32}

namespace Presents

theorem flushed (presents : Presents live s m) : Presents live { s with device := s.flushed } m := by
  have same := sameFiles_flushed presents.standing.ok
  have marked : ∀ i, live i → ({ s with device := s.flushed } : Volume).marked i = true :=
    fun i here => presents.standing.housed.marked here
  exact ⟨same.standing presents.standing marked, presents.small,
    (same.view presents.standing marked).trans presents.view,
    presents.short⟩

theorem located (presents : Presents live s m) {d : UInt32} :
    walk s (parts path) = .ok d ↔ ∃ p, m.find path = some p ∧ Standing.At live s p d.toNat := by
  rw [← presents.view]
  exact presents.standing.located _

theorem calm (presents : Presents live s m) {fail : Fail} (failed : walk s (parts path) = .error fail) :
    fail ≠ .panic := by
  have walked := walk_live presents.standing (parts path) presents.standing.root
  rw [← walk, failed] at walked
  exact walked

theorem reached (presents : Presents live s m) (found : m.find path = some p) :
    ∃ r, walk s (parts path) = .ok r ∧ Standing.At live s p r.toNat := by
  rw [FileMap.find, ← presents.view] at found
  exact presents.standing.located_some found

theorem missing (presents : Presents live s m)
    {fail : Fail} (failed : walk s (parts path) = .error fail) : m.find path = none := by
  by_contra found
  obtain ⟨p, found⟩ := Option.ne_none_iff_exists'.mp found
  obtain ⟨r, done, _⟩ := presents.reached found
  cases failed.symm.trans done

theorem dir_iff (presents : Presents live s m) {i : Nat} (here : Standing.At live s p i) :
    m p = some .dir ↔ (s.inode i).isDir = true := by
  rw [← presents.view]
  exact presents.standing.view_dir here

theorem file_iff (presents : Presents live s m) {bytes : List UInt8} : m p = some (.file bytes) ↔
    ∃ i, Standing.At live s p i ∧ (s.inode i).isFile = true ∧ s.fileContent i = bytes := by
  rw [← presents.view]
  exact presents.standing.view_file

theorem readFile_iff (presents : Presents live s m) {r : UInt32} (here : Standing.At live s p r.toNat)
    {bytes : List UInt8} :
    s.readFile r = .ok bytes ↔ (s.inode r.toNat).isFile = true ∧ s.fileContent r.toNat = bytes :=
  presents.standing.readFile_iff (here.live presents.standing.tree) fun file =>
    presents.short (presents.file_iff.mpr ⟨_, here, file, rfl⟩)

theorem live_of_at (presents : Presents live s m) {i : Nat} (here : Standing.At live s p i) : live i :=
  here.live presents.standing.tree

theorem number (presents : Presents live s m) {i : Nat} (here : live i) : (UInt32.ofNat i).toNat = i :=
  UInt32.toNat_ofNat_of_lt' ((presents.standing.housed.inside here).2.trans s.layout.inodeCount_lt)

theorem shorter (presents : Presents live s m) {q : List Name} {node : Option (Tree.Node (List UInt8))}
    (small : ∀ bytes, node = some (.file bytes) → bytes.length ≤ 137 * 512) :
    ∀ {p bytes}, Function.update m q node p = some (.file bytes) → bytes.length ≤ 137 * 512 := by
  intro p bytes found
  by_cases same : p = q
  · rw [same, Function.update_self] at found
    exact small bytes found
  · rw [Function.update_of_ne same] at found
    exact presents.short found

theorem place (presents : Presents live s m) (found : m.find (splitPath path).1 = some p)
    (here : Standing.At live s p d.toNat)
    (dir : (s.inode d.toNat).isDir = true) (proper : Tree.Proper dot dotdot (splitPath path).2) :
    m.Place path (p ++ [(splitPath path).2]) := ⟨p, found, (presents.dir_iff here).mpr dir, proper, rfl⟩

theorem flush (presents : Presents live s m) {allowed : FileMap → Prop} (fine : allowed m) :
    Ends sync s (fun _ t => t.flushed = t.device ∧ Displays allowed t) fun _ _ => False := by
  unfold Ends
  rw [sync_eq presents.standing.ok]
  exact ⟨flushed_flushed s, m, live, fine, presents.flushed⟩

theorem ends_inParent (presents : Presents live s m)
    {act : UInt32 → Name → FsM Unit} {does leaves : FileMap → Prop}
    {excused : Fail → Prop} (each : ∀ d p, m.find (splitPath path).1 = some p → Standing.At live s p d.toNat →
      inodeAt s (splitPath path).1 = .ok d →
      Ends (act d (splitPath path).2) s (fun _ t => Displays does t)
        (fun fail t => ¬excused fail → fail ≠ .panic ∧ Displays leaves t))
    (missing : m.find (splitPath path).1 = none → leaves m) :
    Ends (inParent path act) s (fun _ t => t.flushed = t.device ∧ Displays does t)
      (fun fail t => ¬excused fail → fail ≠ .panic ∧ Displays leaves t) := by
  rw [inParent, ends_bind, ends_observe]
  cases parent : inodeAt s (splitPath path).1 with
  | error fail =>
    rw [inodeAt_eq] at parent
    exact fun _ => ⟨presents.calm parent, m, live, missing (presents.missing parent), presents⟩
  | ok d =>
    have walked := parent
    rw [inodeAt_eq] at walked
    obtain ⟨p, found, here⟩ := presents.located.mp walked
    dsimp only
    rw [ends_bind]
    refine (each d p found here parent).imp ?_ fun _ _ => id
    rintro _ t ⟨m', live', done, after⟩
    exact (after.flush done).imp (fun _ _ => id) fun _ _ => False.elim

section Changes

variable {c : Nat} {node : Tree.Node (List UInt8)}

theorem created (presents : Presents live s m) (here : Standing.At live s p d.toNat)
    (created : Created live s t d.toNat name c)
    (made : Made s t d.toNat c) (new : (t.shape fun i => i = c ∨ live i).Is t.fileContent c node)
    (small : ∀ bytes, node = .file bytes → bytes.length ≤ 137 * 512) :
    Presents (fun i => i = c ∨ live i) t (Function.update m (p ++ [name]) (some node)) ∧
      Standing.At (fun i => i = c ∨ live i) t (p ++ [name]) c ∧ m (p ++ [name]) = none ∧
      Tree.Proper dot dotdot name := by
  have linked := created.linked presents.standing (presents.live_of_at here) made.bare
  have view := created.view presents.standing here made.bare new
  have absent := created.absent presents.standing here made.bare
  rw [presents.view] at view absent
  refine ⟨⟨created.standing, created.others.layout ▸ presents.small, view,
    presents.shorter fun bytes same => ?_⟩,
    (linked.at_iff presents.standing.tree).mpr (.inr ⟨p, here, rfl, rfl⟩), absent,
    linked.proper presents.standing.tree⟩
  exact small bytes (Option.some.inj same)

theorem removed (presents : Presents live s m) (here : Standing.At live s p d.toNat)
    (removed : Removed live s t d.toNat name c) :
    Presents (fun i => i ≠ c ∧ live i) t (Function.update m (p ++ [name]) none) :=
  ⟨removed.standing, removed.others.layout ▸ presents.small,
    (removed.view presents.standing here).trans (by rw [presents.view]),
    presents.shorter fun _ gone => by cases gone⟩

theorem refused (presents : Presents live s m) {fail : Fail} (refused : Refused live s t d.toNat fail)
    (file : (s.inode d.toNat).isDir = false → t.fileContent d.toNat = s.fileContent d.toNat) :
      Presents live t m :=
  ⟨refused.standing, refused.others.layout ▸ presents.small,
    (refused.view presents.standing fun _ => file).trans presents.view, presents.short⟩

theorem rewritten (presents : Presents live s m) {r : Nat} (here : Standing.At live s q r)
    (file : (s.inode r).isFile = true)
    (altered : Altered live s t r) (small : (t.fileContent r).length ≤ 137 * 512) :
    Presents live t (Function.update m q (some (.file (t.fileContent r)))) := by
  refine ⟨altered.standing, altered.others.layout ▸ presents.small,
    (altered.view presents.standing here file).trans (by
    rw [presents.view]), presents.shorter fun bytes same => ?_⟩
  cases same
  exact small

end Changes

section Acts

variable (presents : Presents live s m) (found : m.find (splitPath path).1 = some p)
    (here : Standing.At live s p d.toNat)

include presents found here

theorem ends_mkdir (storable : Storable (splitPath path).2) (now : UInt32) :
    Ends (do let _ ← createDir now d (splitPath path).2) s (fun _ t => Displays (Does m (.mkdir path)) t)
      (fun fail t => fail ≠ .panic ∧ Displays (Leaves m (.mkdir path)) t) := by
  have standing := presents.standing
  have alive := presents.live_of_at here
  rw [ends_bind]
  refine ((standing.ends_createDir alive storable now).and (Ends.self _ s)).imp ?_ ?_
  · rintro r t ⟨⟨created, dir, made⟩, _⟩
    rw [ends_pure]
    have new : (t.shape fun i => i = r.toNat ∨ live i).Is t.fileContent r.toNat .dir := dir
    obtain ⟨shows, _, absent, proper⟩ := presents.created here created made new fun _ same => by cases same
    exact ⟨_, _, ⟨_, presents.place found here created.dir proper, absent, rfl⟩, shows⟩
  · rintro fail t ⟨refused, failed⟩
    exact ⟨refused.calm, m, live, rfl, presents.refused refused fun notDir =>
      (standing.content_createDir alive notDir _ now).of_error failed⟩

theorem ends_unlink (now : UInt32) :
    Ends (NextFs.unlink now d (splitPath path).2) s (fun _ t => Displays (Does m (.unlink path)) t)
      (fun fail t => fail ≠ .panic ∧ Displays (Leaves m (.unlink path)) t) := by
  have standing := presents.standing
  have alive := presents.live_of_at here
  refine ((standing.ends_unlink alive now).and (Ends.self _ s)).imp ?_ ?_
  · rintro _ t ⟨⟨c, removed, file, _⟩, _⟩
    obtain ⟨there, proper, _⟩ := removed.node standing here
    exact ⟨_, _, ⟨_, _, presents.place found here removed.dir proper,
      presents.file_iff.mpr ⟨c, there, file, rfl⟩, rfl⟩,
      presents.removed here removed⟩
  · rintro fail t ⟨⟨refused, stays⟩, failed⟩
    refine ⟨refused.calm, m, live, ⟨rfl, ?_⟩, presents.refused refused fun notDir => by rw [stays notDir]⟩
    rintro ⟨q, bytes, ⟨p', found', dir, proper, rfl⟩, file⟩
    cases found.symm.trans found'
    obtain ⟨i, there, file, _⟩ := presents.file_iff.mp file
    obtain ⟨e, above, folder, member, _⟩ := Tree.at_snoc.mp there
    obtain rfl := here.node standing.tree above
    have number := presents.number (presents.live_of_at there)
    rw [← number] at member file
    obtain ⟨u, done⟩ := standing.unlink_named alive folder.2 proper member file now
    cases failed.symm.trans done

theorem ends_rmdir :
    Ends (NextFs.rmdir d (splitPath path).2) s (fun _ t => Displays (Does m (.rmdir path)) t)
      (fun fail t => fail ≠ .panic ∧ Displays (Leaves m (.rmdir path)) t) := by
  have standing := presents.standing
  have alive := presents.live_of_at here
  refine ((standing.ends_rmdir alive).and (Ends.self _ s)).imp ?_ ?_
  · rintro _ t ⟨⟨c, removed, dir, _⟩, _⟩
    obtain ⟨there, proper, childless⟩ := removed.node standing here
    refine ⟨_, _, ⟨_, presents.place found here removed.dir proper, (presents.dir_iff there).mpr dir, ?_, rfl⟩,
      presents.removed here removed⟩
    rw [← presents.view]
    exact childless dir
  · rintro fail t ⟨⟨refused, same⟩, failed⟩
    rw [same]
    refine ⟨refused.calm, m, live, ⟨rfl, ?_⟩, presents⟩
    rintro ⟨q, ⟨p', found', dir, proper, rfl⟩, isDir, childless⟩
    cases found.symm.trans found'
    have some : (m (p ++ [(splitPath path).2])).isSome = true := by rw [isDir]; rfl
    rw [← presents.view] at some childless
    obtain ⟨i, there⟩ := (Tree.paths_isSome standing.tree).mp some
    obtain ⟨e, above, folder, member, _⟩ := Tree.at_snoc.mp there
    obtain rfl := here.node standing.tree above
    have folder' : (s.shape live).Folder i := ⟨presents.live_of_at there, (presents.dir_iff there).mp isDir⟩
    have few := Tree.card_of_childless standing.tree there folder' childless
    have number := presents.number folder'.1
    rw [← number] at member
    obtain ⟨u, done⟩ := standing.rmdir_named alive folder.2 proper member
      (by rw [number]; exact folder'.2) (by rw [number]; exact few)
    cases failed.symm.trans done

theorem ends_create (storable : Storable (splitPath path).2) (now later : UInt32) (data : List UInt8) :
    Ends (do let newInode ← createFile now d (splitPath path).2; writeFile later newInode data) s
      (fun _ t => Displays (Does m (.write path data)) t)
      (fun fail t => fail ≠ .panic ∧ Displays (Leaves m (.write path data)) t) := by
  have standing := presents.standing
  have alive := presents.live_of_at here
  rw [ends_bind]
  refine (((standing.ends_createFile alive storable now).and (standing.empty_createFile alive _ now)).and
    (standing.others_createFile alive _ now)).imp ?_ ?_
  · rintro r t ⟨⟨⟨created, file, made⟩, empty⟩, _⟩
    have bare := Volume.fileContent_empty empty
    have new : (t.shape fun i => i = r.toNat ∨ live i).Is t.fileContent r.toNat (.file []) := by
      refine ⟨fun dir => ?_, bare⟩
      have isDir : (t.inode r.toNat).isDir = true := dir
      rw [NextFs.Standing.not_dir_of_file file] at isDir
      cases isDir
    obtain ⟨shows, there, absent, proper⟩ := presents.created here created made new fun bytes same => by
      cases same
      exact Nat.zero_le _
    have place := presents.place found here created.dir proper
    refine ((created.standing.ends_writeFile later data).and
      (created.standing.ends_writeFile_empty later data empty)).imp ?_ ?_
    · rintro _ u ⟨⟨_, short, altered, content⟩, _⟩
      have after := shows.rewritten there file altered (by rwa [content])
      rw [content, Function.update_idem] at after
      exact ⟨_, _, ⟨short, _, place, by simp [absent], rfl⟩, after⟩
    · rintro fail u ⟨refused, altered, content⟩
      have calm : fail ≠ .panic := by
        rcases refused with ⟨rfl, _⟩ | ⟨calm, _⟩
        · simp
        · exact calm
      have after := shows.rewritten there file altered (by simp [content])
      rw [content, Function.update_idem] at after
      exact ⟨calm, _, _, .inr ⟨_, place, absent, rfl⟩, after⟩
  · rintro fail t ⟨⟨refused, _⟩, _, others⟩
    refine ⟨refused.calm, m, live, .inl rfl, presents.refused refused fun notDir =>
      others.fileContent ⟨alive, fun dir => ?_⟩⟩
    rw [notDir] at dir
    cases dir

theorem ends_store (storable : Storable (splitPath path).2) (parent : inodeAt s (splitPath path).1 = .ok d)
    (now later : UInt32) (data : List UInt8) :
    Ends (store now later data d (splitPath path).2) s (fun _ t => Displays (Does m (.write path data)) t)
      (fun fail t => ¬Loses s (.write path data) fail → fail ≠ .panic ∧
        Displays (Leaves m (.write path data)) t) := by
  have standing := presents.standing
  have alive := presents.live_of_at here
  have calm := lookup_live standing alive (splitPath path).2
  rw [store, ends_bind, ends_get]
  cases look : s.dirLookup d (splitPath path).2 with
  | ok r =>
    obtain ⟨folder, member⟩ := (standing.lookup_step alive _).mp look
    refine (standing.ends_writeFile later data).imp ?_ ?_
    · rintro _ t ⟨file, short, altered, content⟩
      have plain : ¬(s.inode r.toNat).isDir = true := by
        rw [NextFs.Standing.not_dir_of_file file]
        simp
      have proper : Tree.Proper dot dotdot (splitPath path).2 := by
        -- The directory and its parent are no files.
        obtain ⟨up, above, top⟩ := standing.tree.parent folder
        constructor
        · intro same
          rw [same] at member
          exact plain (standing.tree.same_target folder member (standing.tree.self folder) ▸ folder.2)
        · intro same
          rw [same] at member
          have dir : (s.inode up).isDir = true := by
            rcases top with ⟨_, rfl⟩ | ⟨there, _⟩
            · exact standing.tree.apex.2
            · exact there.2
          exact plain (standing.tree.same_target folder member above ▸ dir)
      have there : Standing.At live s (p ++ [(splitPath path).2]) r.toNat := .entry here folder member proper
      have after := presents.rewritten there file altered (by rwa [content])
      rw [content] at after
      exact ⟨_, _, ⟨short, _, presents.place found here folder.2 proper,
        fun dir => plain ((presents.dir_iff there).mp dir), rfl⟩,
        after⟩
    · rintro fail t (⟨rfl, _⟩ | ⟨quiet, rfl⟩) kept
      · exact (kept ⟨rfl, path, data, rfl, d, r, parent, look⟩).elim
      · exact ⟨quiet, m, live, .inl rfl, presents⟩
  | error e =>
    rw [look] at calm
    split
    next same => cases same
    next =>
      exact (presents.ends_create found here storable now later data).imp (fun _ _ => id) fun _ _ done _ => done
    next reason _ same =>
      cases same
      rw [ends_throw]
      exact fun _ => ⟨calm, m, live, .inl rfl, presents⟩

end Acts

theorem ends_atPath (presents : Presents live s m) {c : Command} {path : Name} (change : Inode → Inode)
    (direct : ∀ v, (change v).direct = v.direct) (indirect : ∀ v, (change v).indirect = v.indirect)
    (size : ∀ v, (change v).size = v.size) (type : ∀ v, (change v).inodeType = v.inodeType)
    (does : m.find path ≠ none → Does m c m) (leaves : m.find path = none → Leaves m c m) :
    Ends (atPath path fun inode => updateInode inode change)
      s (fun _ t => t.flushed = t.device ∧ Displays (Does m c) t)
      (fun fail t => ¬Loses s c fail → fail ≠ .panic ∧ Displays (Leaves m c) t) := by
  have standing := presents.standing
  rw [atPath, ends_bind, ends_observe, nextfsResolvePath_eq]
  cases walked : walk s (parts path) with
  | error fail => exact fun _ => ⟨presents.calm walked, m, live, leaves (presents.missing walked), presents⟩
  | ok r =>
    obtain ⟨p, found, here⟩ := presents.located.mp walked
    have alive := presents.live_of_at here
    dsimp only
    rw [ends_bind]
    refine ((standing.ends_updateInode alive direct indirect size type).and
      (standing.content_updateInode alive direct indirect size)).imp ?_ fun _ _ never => never.1.elim
    rintro _ t ⟨⟨_, altered⟩, content⟩
    have after : Presents live t m := ⟨altered.standing, altered.others.layout ▸ presents.small,
      (altered.view_same standing fun _ _ => content).trans presents.view, presents.short⟩
    exact (after.flush (does (by simp [found]))).imp (fun _ _ => id) fun _ _ => False.elim

theorem command (presents : Presents live s m) {c : Command} (text : Storable c.path) (now later : UInt32) :
    Ends (c.run now later) s (fun _ t => t.flushed = t.device ∧ Displays (Does m c) t)
      (fun fail t => ¬Loses s c fail → fail ≠ .panic ∧ Displays (Leaves m c) t) := by
  have storable := storable_last text
  cases c with
  | write path data =>
    have nothing : m.find (splitPath path).1 = none → Leaves m (.write path data) m := fun _ => .inl rfl
    exact presents.ends_inParent (fun d p found here parent =>
      presents.ends_store found here storable parent now later data) nothing
  | mkdir path =>
    have nothing : m.find (splitPath path).1 = none → Leaves m (.mkdir path) m := fun _ => rfl
    change Ends (inParent path fun parentInode dirName => do let _ ← createDir now parentInode dirName) s _ _
    refine presents.ends_inParent (fun d p found here _ => ?_) nothing
    exact (presents.ends_mkdir found here storable now).imp (fun _ _ => id) fun _ _ done _ => done
  | unlink path =>
    have nothing (missing : m.find (splitPath path).1 = none) : Leaves m (.unlink path) m := by
      refine ⟨rfl, ?_⟩
      rintro ⟨_, _, ⟨p, found, _⟩, _⟩
      cases missing.symm.trans found
    refine presents.ends_inParent (fun d p found here _ => ?_) nothing
    exact (presents.ends_unlink found here now).imp (fun _ _ => id) fun _ _ done _ => done
  | rmdir path =>
    have nothing (missing : m.find (splitPath path).1 = none) : Leaves m (.rmdir path) m := by
      refine ⟨rfl, ?_⟩
      rintro ⟨_, ⟨p, found, _⟩, _⟩
      cases missing.symm.trans found
    refine presents.ends_inParent (fun d p found here _ => ?_) nothing
    exact (presents.ends_rmdir found here).imp (fun _ _ => id) fun _ _ done _ => done
  | chmod path mode =>
    exact presents.ends_atPath (fun v => { v with mode := mode &&& 0o777, mtime := now }) (fun _ => rfl)
      (fun _ => rfl) (fun _ => rfl)
      (fun _ => rfl) (fun found => ⟨found, rfl⟩) fun missing => ⟨rfl, missing⟩
  | chown path uid gid =>
    exact presents.ends_atPath (fun v => { v with uid := uid, gid := gid, mtime := now }) (fun _ => rfl)
      (fun _ => rfl) (fun _ => rfl)
      (fun _ => rfl) (fun found => ⟨found, rfl⟩) fun missing => ⟨rfl, missing⟩

theorem remount (presents : Presents live s m) (flushed : s.flushed = s.device) :
    ∃ fs, s.device.mount = .ok fs ∧ Presents live { fs with device := s.device } m := by
  obtain ⟨fs, mounted, same, marked⟩ := presents.standing.remount presents.small flushed
  exact ⟨fs, mounted, same.standing presents.standing marked, same.layout ▸ presents.small,
    (same.view presents.standing marked).trans presents.view, presents.short⟩

theorem happens (presents : Presents live s m) {e : Event} (happens : Happens s e t) :
    ∃ m', Behaves m e m' ∧ ∃ live', Presents live' t m' := by
  cases happens with
  | done _ _ text result =>
    obtain ⟨_, m', live', done, after⟩ := (presents.command text _ _).of_ok result
    exact ⟨m', done, live', after⟩
  | refused _ _ text result keeps =>
    obtain ⟨calm, m', live', left, after⟩ := (presents.command text _ _).of_error result keeps
    exact ⟨m', ⟨calm, left⟩, live', after⟩
  | restart flushed mounted =>
    cases flushed.symm.trans (sync_eq presents.standing.ok)
    obtain ⟨fs, again, after⟩ := presents.flushed.remount (flushed_flushed s)
    cases mounted.symm.trans again
    exact ⟨m, rfl, live, after⟩

theorem reads (presents : Presents live s m) {path : Name} {bytes : List UInt8} :
    nextfsReadFile s path = .ok bytes ↔ ∃ p, m.find path = some p ∧ m p = some (.file bytes) := by
  have resolved := nextfsResolvePath_eq s path
  constructor
  · intro done
    rw [nextfsReadFile, resolved] at done
    cases walked : walk s (parts path) with
    | error fail =>
      rw [walked] at done
      cases done
    | ok r =>
      rw [walked] at done
      obtain ⟨p, found, here⟩ := presents.located.mp walked
      obtain ⟨file, content⟩ := (presents.readFile_iff here).mp done
      exact ⟨p, found, presents.file_iff.mpr ⟨_, here, file, content⟩⟩
  · rintro ⟨p, found, file⟩
    obtain ⟨r, walked, here⟩ := presents.reached found
    obtain ⟨i, there, isFile, content⟩ := presents.file_iff.mp file
    obtain rfl := here.node presents.standing.tree there
    rw [nextfsReadFile, resolved, walked]
    exact (presents.readFile_iff here).mpr ⟨isFile, content⟩

theorem lists (presents : Presents live s m) {path : Name} {p : List Name} (found : m.find path = some p)
    (dir : m p = some .dir) :
    ∃ names, nextfsList s path = .ok names ∧ names.Nodup ∧ ∀ n, n ∈ names ↔ n = dot ∨ n = dotdot ∨
    m (p ++ [n]) ≠ none := by
  have standing := presents.standing
  obtain ⟨r, walked, here⟩ := presents.reached found
  have alive := presents.live_of_at here
  have isDir := (presents.dir_iff here).mp dir
  have folder : (s.shape live).Folder r.toNat := ⟨alive, isDir⟩
  obtain ⟨l, list, contents⟩ :=
    dirList_contents standing.ok (standing.housed.inside alive) (standing.housed.working alive)
    (standing.formed alive isDir)
  have names : ((l.map Prod.fst : List Name) : Multiset Name) = ((s.shape live).entries r.toNat).map
    Prod.fst := by
    change _ = (s.entries r.toNat).map Prod.fst
    rw [Volume.entries, ← contents, Multiset.map_coe, List.map_map]
    rfl
  refine ⟨l.map Prod.fst, ?_, ?_, fun n => ?_⟩
  · rw [nextfsList, inodeAt_eq, walked]
    simp only [bind, Except.bind, list]
  · rw [← Multiset.coe_nodup, names]
    exact standing.tree.names folder
  · have listed : n ∈ l.map Prod.fst ↔ ∃ x, (n, x) ∈ (s.shape live).entries r.toNat := by
      rw [← Multiset.mem_coe, names, Multiset.mem_map]
      constructor
      · rintro ⟨⟨_, x⟩, member, rfl⟩
        exact ⟨x, member⟩
      · rintro ⟨x, member⟩
        exact ⟨_, member, rfl⟩
    rw [listed]
    by_cases proper : Tree.Proper dot dotdot n
    · rw [or_iff_right proper.1, or_iff_right proper.2, ← presents.view, ← Option.isSome_iff_ne_none]
      exact (Tree.child_iff standing.tree here folder proper).symm
    · obtain ⟨up, parent, _⟩ := standing.tree.parent folder
      have own : n = dot ∨ n = dotdot := by
        by_contra other
        exact proper (not_or.mp other)
      refine iff_of_true ?_ (or_assoc.mp (.inl own))
      rcases own with rfl | rfl
      · exact ⟨_, standing.tree.self folder⟩
      · exact ⟨up, parent⟩

theorem fresh (fresh : Fresh s) : Presents s.InUse s FileMap.empty := by
  have standing := fresh.standing
  refine ⟨standing, fresh.small, funext fun p => ?_, fun {p bytes} file => ?_⟩
  · by_cases root : p = []
    · subst root
      rw [FileMap.empty, Function.update_self]
      exact (standing.view_dir .root).mpr standing.tree.apex.2
    · rw [FileMap.empty, Function.update_of_ne root, ← Option.not_isSome_iff_eq_none, Volume.view,
        Tree.paths_isSome standing.tree]
      rintro ⟨c, here⟩
      cases here with
      | root => exact root rfl
      | entry _ folder member proper =>
        have only : c = rootInode.toNat := (fresh.marked c).mp (standing.tree.child folder member)
        exact standing.tree.unnamed folder (only ▸ member) proper
  · rw [FileMap.empty] at file
    by_cases root : p = []
    · rw [root, Function.update_self] at file
      cases file
    · rw [Function.update_of_ne root] at file
      cases file

end Presents

end Commands

theorem commands_map {device formatted : Device} {fs : NextFS} {events : List Event} {s : Volume}
    (made : format device = .ok () formatted) (mounted : formatted.mount = .ok fs)
    (run : Follows Happens { fs with device := formatted } events s) :
    ∃ m, Follows Behaves FileMap.empty events m ∧
      (∀ path bytes, nextfsReadFile s path = .ok bytes ↔ ∃ p, m.find path = some p ∧ m p = some (.file bytes)) ∧
      (∀ path p, m.find path = some p → m p = some .dir → ∃ names, nextfsList s path = .ok names ∧
        names.Nodup ∧
        ∀ n, n ∈ names ↔ n = dot ∨ n = dotdot ∨ m (p ++ [n]) ≠ none) ∧
      ∀ before c, events = before ++ [.done c] → ∃ again : NextFS, s.device.mount = .ok again ∧
        ∀ path bytes, nextfsReadFile { again with device := s.device } path = .ok bytes ↔
          nextfsReadFile s path = .ok bytes := by
  have start := Presents.fresh (fresh_of_mount made mounted)
  have each (s : Volume) (e : Event) (t : Volume) (m : FileMap) (step : Happens s e t)
    (shown : ∃ live, Presents live s m) :
      ∃ m', Behaves m e m' ∧ ∃ live, Presents live t m' := shown.elim fun _ presents => presents.happens step
  obtain ⟨m, follows, live, presents⟩ := run.simulated each ⟨_, start⟩
  refine ⟨m, follows, fun _ _ => presents.reads, fun _ _ => presents.lists, ?_⟩
  rintro before c rfl
  obtain ⟨u, first, last⟩ := Follows.append_iff.mp run
  obtain ⟨_, _, _, shown⟩ := first.simulated each ⟨_, start⟩
  have flushed : s.flushed = s.device := by
    cases last with
    | cons here rest =>
      cases rest
      cases here with
      | done _ _ text result => exact ((shown.command text _ _).of_ok result).1
  obtain ⟨again, mounts, after⟩ := presents.remount flushed
  exact ⟨again, mounts, fun path bytes => after.reads.trans presents.reads.symm⟩

/-- A directory `d` is made and the file `d/f` is written; it can be read after a restart. -/
theorem commands_map_small : ∃ (device formatted : Device) (fs again : NextFS) (s : Volume) (m : FileMap),
    format device = .ok () formatted ∧ formatted.mount = .ok fs ∧
    Follows Behaves FileMap.empty [.done (.mkdir [slash, 0x64]),
      .done (.write [slash, 0x64, slash, 0x66] [0x68, 0x69])] m ∧
    (∃ p, m.find [slash, 0x64, slash, 0x66] = some p ∧ m p = some (.file [0x68, 0x69])) ∧
      s.device.mount = .ok again ∧
    nextfsReadFile { again with device := s.device } [slash, 0x64, slash, 0x66] = .ok [0x68, 0x69] := by
  obtain ⟨formatted, fs, done, mounted, made⟩ := freshVolume_some smallVolume_made
  have evaluated : succeeds (nextfsMkdir 0 [slash, 0x64]) smallVolume = true ∧
      succeeds (nextfsWriteFile 0 0 [slash, 0x64, slash, 0x66] [0x68, 0x69])
        (final (nextfsMkdir 0 [slash, 0x64]) smallVolume) = true := by decide +kernel
  obtain ⟨first, second⟩ := evaluated
  have run : Follows Happens smallVolume
      [.done (.mkdir [slash, 0x64]), .done (.write [slash, 0x64, slash, 0x66] [0x68, 0x69])] _ :=
    .cons (.done (c := .mkdir _) 0 0 ⟨by decide, by decide⟩ (ok_of_succeeds first))
      (.cons (.done (c := .write _ _) 0 0 ⟨by decide, by decide⟩ (ok_of_succeeds second)) (.nil _))
  rw [made] at run
  obtain ⟨m, follows, reads, _, stays⟩ := commands_map done mounted run
  obtain ⟨again, mounts, same⟩ := stays [_] _ rfl
  have file : ∃ p, m.find [slash, 0x64, slash, 0x66] = some p ∧ m p = some (.file [0x68, 0x69]) := by
    cases follows with
    | cons made rest =>
      cases rest with
      | cons stored rest =>
        cases rest
        obtain ⟨_, ⟨_, found, _, _, rfl⟩, _, rfl⟩ := made
        cases found
        obtain ⟨_, _, ⟨_, found, _, _, rfl⟩, _, rfl⟩ := stored
        cases found
        exact ⟨[[0x64], [0x66]], by decide, by decide⟩
  exact ⟨_, formatted, fs, again, _, m, done, mounted, follows, file, mounts,
    (same _ _).mpr ((reads _ _).mpr file)⟩

end PickleOS.Fs.Shell
