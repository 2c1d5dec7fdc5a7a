import PickleOS.NextFs.Trees
import PickleOS.Shared.Machine
import PickleOS.Shared.Map

set_option autoImplicit false

namespace PickleOS.NextFs

open Shared Shared.Outcome

/-- Looking names up in the directory `d`, and listing it, shows the map `m`. -/
structure Shows (s : Volume) (d : UInt32) (m : Map Name UInt32) : Prop where
  lookup : ∀ n, s.dirLookup d n = match m.lookup n with
    | some i => .ok i
    | none => .error (.fs .notFound)
  list : ∃ l, s.dirList d = .ok l ∧ (l.map Prod.fst).Nodup ∧ ∀ n i, (n, i) ∈ l ↔ m.lookup n = some i

/-- The live inodes are in order, and no directory has two entries of one name. -/
structure Catalogued (live : Nat → Prop) (s : Volume) : Prop where
  housed : Housed live s
  distinct : ∀ {d}, live d → (s.inode d).isDir = true → ((s.entries d).map Prod.fst).Nodup

inductive EntryCall where
  | add (now dirInode : UInt32) (name : Name) (targetInode : UInt32)
  | remove (dirInode : UInt32) (name : Name)

namespace EntryCall

def run : EntryCall → FsM Unit
  | add now dirInode name targetInode => dirAddEntry now dirInode name targetInode
  | remove dirInode name => do let _ ← dirRemoveEntry dirInode name

/-- The volume after a call, whether it succeeds or not; a panic ends the run. -/
def step (s : Volume) (call : EntryCall) : Option Volume :=
  match call.run s with
  | .ok _ t => some t
  | .error (.fs _) t => some t
  | .error .panic _ => none

def dir : EntryCall → UInt32
  | add _ dirInode _ _ | remove dirInode _ => dirInode

def Representable : EntryCall → Prop
  | add _ _ name targetInode => Storable name ∧ targetInode ≠ 0
  | remove _ _ => True

def Orderly (live : Nat → Prop) (s : Volume) (call : EntryCall) : Prop :=
  live call.dir.toNat ∧ (s.inode call.dir.toNat).isDir = true ∧ call.Representable

theorem step_of_ends {s t : Volume} {call : EntryCall} {P : Volume → Prop}
    (ends : Ends call.run s (fun _ t => P t) fun _ t => P t) (taken : step s call = some t) : P t := by
  have last := ends.final
  unfold step at taken
  unfold final at last
  split at taken <;> simp_all

end EntryCall

section

variable {live : Nat → Prop} {s t : Volume} {d : UInt32} {name : Name} {r : UInt32}

theorem Standing.catalogued (standing : Standing live s) : Catalogued live s :=
  ⟨standing.housed, fun here dir => standing.tree.names ⟨here, dir⟩⟩

theorem Becomes.catalogued {d : Nat} {listed : Multiset (Name × Nat)} (catalogued : Catalogued live s)
    (becomes : Becomes live s t d listed) (distinct : (listed.map Prod.fst).Nodup) : Catalogued live t := by
  refine ⟨becomes.housed, fun {e} there dir => ?_⟩
  rw [Inode.isDir, becomes.types e (catalogued.housed.inside there), ← Inode.isDir] at dir
  by_cases same : e = d
  · rw [same, becomes.entries]
    exact distinct
  · rw [becomes.others e there dir same]
    exact catalogued.distinct there dir

theorem Becomes.isDir {listed : Multiset (Name × Nat)} {d e : Nat} (becomes : Becomes live s t d listed)
    (inside : s.layout.InTable e) : (t.inode e).isDir = (s.inode e).isDir := by
  rw [Inode.isDir, Inode.isDir, becomes.types e inside]

theorem Housed.ends_dirRemoveEntry (housed : Housed live s) (here : live d.toNat) :
    Ends (dirRemoveEntry d name) s
      (fun r t => ∃ rest, s.entries d.toNat = (name, r.toNat) ::ₘ rest ∧ Becomes live s t d.toNat rest)
      (fun fail t => fail ≠ .panic ∧ t = s) := by
  have working := housed.working here
  refine (NextFs.ends_dirRemoveEntry housed.ok d name fun _ _ => working).imp ?_ fun _ _ => id
  rintro r t ⟨_, dir, b, slot, found, rfl⟩
  obtain ⟨j, below, used, named, number, rfl, rfl, _⟩ := namedEntry_slot working (housed.formed here dir) found
  obtain ⟨rest, entries, becomes⟩ := housed.cleared here dir below used
  exact ⟨rest, by rw [entries, named, number], becomes⟩

def Maps (entries : Multiset (Name × Nat)) (m : Map Name UInt32) : Prop :=
  ∀ n (i : UInt32), (n, i.toNat) ∈ entries ↔ m.lookup n = some i

theorem Catalogued.shows (catalogued : Catalogued live s) (here : live d.toNat)
    (dir : (s.inode d.toNat).isDir = true)
    {m : Map Name UInt32} (maps : Maps (s.entries d.toNat) m) : Shows s d m := by
  have housed := catalogued.housed
  have ok := housed.ok
  have inside := housed.inside here
  have working := housed.working here
  have formed := housed.formed here dir
  constructor
  · intro n
    rcases dirLookup_formed ok inside working formed n with ⟨i, found, member⟩ | ⟨missing, absent⟩
    · rw [found, (maps n i).mp member]
    · have none : m.lookup n = none := by
        by_contra present
        obtain ⟨i, present⟩ := Option.ne_none_iff_exists'.mp present
        exact absent _ ((maps n i).mpr present)
      rw [missing, none]
  · obtain ⟨l, list, numbers⟩ := dirList_contents ok inside working formed
    refine ⟨l, list, ?_, fun n i => ?_⟩
    · have distinct := catalogued.distinct here dir
      rw [Volume.entries, ← numbers, Multiset.map_coe, Multiset.coe_nodup, List.map_map] at distinct
      exact distinct
    · rw [← maps, Volume.entries, ← numbers, Multiset.mem_coe, List.mem_map]
      constructor
      · exact fun member => ⟨(n, i), member, rfl⟩
      · rintro ⟨⟨n', i'⟩, member, same⟩
        simp only [Prod.mk.injEq, UInt32.toNat_inj] at same
        rwa [same.1, same.2] at member

theorem Catalogued.maps (catalogued : Catalogued live s) (here : live d.toNat)
    (dir : (s.inode d.toNat).isDir = true) :
    ∃ m, Maps (s.entries d.toNat) m := by
  obtain ⟨l, _, numbers⟩ := dirList_contents catalogued.housed.ok (catalogued.housed.inside here)
    (catalogued.housed.working here) (catalogued.housed.formed here dir)
  have distinct := catalogued.distinct here dir
  rw [Volume.entries, ← numbers, Multiset.map_coe, Multiset.coe_nodup, List.map_map] at distinct
  refine ⟨⟨l.map fun e => ⟨e.1, e.2⟩, ?_⟩, fun n i => ?_⟩
  · rw [List.NodupKeys, List.keys, List.map_map]
    exact distinct
  · rw [← Map.mem_entries, Volume.entries, ← numbers, Multiset.mem_coe]
    simp [UInt32.toNat_inj]

theorem Catalogued.step (catalogued : Catalogued live s) {call : EntryCall} (orderly : call.Orderly live s)
    (taken : call.step s = some t) : Catalogued live t := by
  obtain ⟨here, dir, representable⟩ := orderly
  have housed := catalogued.housed
  have distinct := catalogued.distinct here dir
  have ends : Ends call.run s (fun _ t => Catalogued live t) fun _ t => Catalogued live t := by
    cases call with
    | add now d n i =>
      obtain ⟨storable, target⟩ := representable
      refine (housed.ends_dirAddEntry here dir storable target now).imp ?_ ?_
      · rintro _ t ⟨_, absent, becomes⟩
        refine becomes.catalogued catalogued ?_
        rw [Multiset.map_cons, Multiset.nodup_cons]
        refine ⟨fun member => ?_, distinct⟩
        obtain ⟨⟨n, c⟩, member, rfl⟩ := Multiset.mem_map.mp member
        exact absent c member
      · rintro _ t ⟨_, _, becomes⟩
        exact becomes.catalogued catalogued distinct
    | remove d n =>
      refine Ends.bind ((housed.ends_dirRemoveEntry here).imp ?_ ?_) fun _ _ next => next
      · rintro r t ⟨rest, entries, becomes⟩
        rw [entries, Multiset.map_cons, Multiset.nodup_cons] at distinct
        exact becomes.catalogued catalogued distinct.2
      · rintro _ _ ⟨_, rfl⟩
        exact catalogued
  exact EntryCall.step_of_ends ends taken

/-- Adding `name` for `r` to the map of a directory: the other names stay, and `name` cannot be
added again. -/
structure Added (s t : Volume) (d : UInt32) (m : Map Name UInt32) (name : Name) (r : UInt32) : Prop where
  new : m.lookup name = none
  shows : Shows t d (m.insert name r)
  again : ∀ now r', dirAddEntry now d name r' t = .error (.fs .alreadyExists) t

theorem Maps.insert {entries : Multiset (Name × Nat)} {m : Map Name UInt32} (maps : Maps entries m)
    (absent : ∀ c, (name, c) ∉ entries) : Maps ((name, r.toNat) ::ₘ entries) (m.insert name r) := by
  intro n i
  rw [Map.lookup_insert_eq, Multiset.mem_cons, maps n i, Prod.mk.injEq, UInt32.toNat_inj]
  split
  next same =>
    have none : m.lookup n ≠ some i := fun present => absent _ (same ▸ (maps n i).mpr present)
    simp [same, none, eq_comm]
  next other => simp [other]

theorem Maps.erase {entries rest : Multiset (Name × Nat)} {m : Map Name UInt32} (maps : Maps entries m)
    (removed : entries = (name, r.toNat) ::ₘ rest) (distinct : (entries.map Prod.fst).Nodup) :
    m.lookup name = some r ∧ Maps rest (m.erase name) := by
  have member : (name, r.toNat) ∈ entries := removed ▸ Multiset.mem_cons_self _ _
  refine ⟨(maps name r).mp member, fun n i => ?_⟩
  rw [removed, Multiset.map_cons, Multiset.nodup_cons] at distinct
  have gone : (name, i.toNat) ∉ rest := fun inside => distinct.1 (Multiset.mem_map.mpr ⟨_, inside, rfl⟩)
  rw [Map.lookup_erase_eq]
  split
  next same => simp [same, gone]
  next other =>
    rw [← maps n i, removed, Multiset.mem_cons]
    simp [other]

theorem dirAddEntry_again (short : name.length < 60) {i : UInt32} (found : t.dirLookup d name = .ok i)
    (now r' : UInt32) :
    dirAddEntry now d name r' t = .error (.fs .alreadyExists) t := by
  have ends : Ends (dirAddEntry now d name r') t (fun _ _ => False) fun fail u =>
    fail = .fs .alreadyExists ∧ u = t := by
    rw [dirAddEntry, if_neg (show ¬name.length ≥ maxNameLen by simp only [maxNameLen]; omega), ends_bind,
      ends_get]
    dsimp only
    rw [found]
    exact ⟨rfl, rfl⟩
  obtain ⟨_, _, result, rfl, rfl⟩ := ends.error_of_never
  exact result

end

/-- Wherever calls with representable names get, a directory is a finite map: what is added is found
under its name, alone and once, if and only if the name has no NUL byte and the inode is not zero,
and what is removed is gone. -/
theorem directory_maps {live : Nat → Prop} {start s : Volume} (catalogued : Catalogued live start)
    (run : Machine.Reaches EntryCall.step (fun s call => call.Orderly live s) start s) {d : UInt32}
    (here : live d.toNat)
    (dir : (s.inode d.toNat).isDir = true) :
    ∃ m, Shows s d m ∧
      (∀ now name r t, Utf8.valid name = true → dirAddEntry now d name r s = .ok () t →
        (Added s t d m name r ↔ (0 : UInt8) ∉ name ∧ r ≠ 0)) ∧
      ∀ name r t, dirRemoveEntry d name s = .ok r t → m.lookup name = some r ∧ Shows t d (m.erase name) := by
  have catalogued : Catalogued live s :=
    run.invariant catalogued fun _ _ _ catalogued orderly taken => catalogued.step orderly taken
  have housed := catalogued.housed
  have distinct := catalogued.distinct here dir
  obtain ⟨m, maps⟩ := catalogued.maps here dir
  refine ⟨m, catalogued.shows here dir maps, ?_, ?_⟩
  · intro now name r t text done
    constructor
    · intro added
      have found := added.shows.lookup name
      rw [Map.lookup_insert_eq, if_pos rfl] at found
      exact dirLookup_representable found
    · rintro ⟨plain, target⟩
      have orderly : (EntryCall.add now d name r).Orderly live s := ⟨here, dir, ⟨plain, text⟩, target⟩
      obtain ⟨short, absent, becomes⟩ := (housed.ends_dirAddEntry here dir ⟨plain, text⟩ target now).of_ok done
      have catalogued' :=
        catalogued.step orderly (show EntryCall.step s _ = some t by rw [EntryCall.step, EntryCall.run, done])
      have dir' : (t.inode d.toNat).isDir = true := (becomes.isDir (housed.inside here)).trans dir
      have shows := catalogued'.shows here dir' (m := m.insert name r) (becomes.entries ▸ maps.insert absent)
      have found := shows.lookup name
      rw [Map.lookup_insert_eq, if_pos rfl] at found
      refine ⟨?_, shows, dirAddEntry_again short found⟩
      by_contra present
      obtain ⟨i, present⟩ := Option.ne_none_iff_exists'.mp present
      exact absent _ ((maps name i).mpr present)
  · intro name r t done
    obtain ⟨rest, removed, becomes⟩ := (housed.ends_dirRemoveEntry here).of_ok done
    obtain ⟨present, maps'⟩ := maps.erase removed distinct
    have dir' : (t.inode d.toNat).isDir = true := (becomes.isDir (housed.inside here)).trans dir
    rw [removed, Multiset.map_cons, Multiset.nodup_cons] at distinct
    exact ⟨present, (becomes.catalogued catalogued distinct.2).shows here dir' (becomes.entries ▸ maps')⟩

/-- On a fresh volume the entry `a` is added to the root directory, and removed again. -/
theorem directory_maps_root :
    ∃ live s t u r m m', EntryCall.Orderly live smallVolume (.add 0 rootInode [0x61] 2) ∧
      EntryCall.step smallVolume (.add 0 rootInode [0x61] 2) = some s ∧
      dirRemoveEntry rootInode [0x61] s = .ok r t ∧ Shows t rootInode (AList.erase [0x61] m) ∧
      dirAddEntry 0 rootInode [0x61] 2 smallVolume = .ok () u ∧ Added smallVolume u rootInode m' [0x61] 2 := by
  have catalogued := smallVolume_standing.catalogued
  have evaluated : (smallVolume.inode 1).isDir = true ∧
    succeeds (dirAddEntry 0 rootInode [0x61] 2) smallVolume = true ∧
      ((final (dirAddEntry 0 rootInode [0x61] 2) smallVolume).inode 1).isDir = true ∧
      succeeds (EntryCall.remove rootInode [0x61]).run
        (final (dirAddEntry 0 rootInode [0x61] 2) smallVolume) = true := by
    decide +kernel
  obtain ⟨dir, success, dir', removal⟩ := evaluated
  have done := ok_of_succeeds success
  obtain ⟨r, removed⟩ := ok_of_dropped (ok_of_succeeds removal)
  have orderly : EntryCall.Orderly smallVolume.InUse smallVolume (.add 0 rootInode [0x61] 2) :=
    ⟨smallVolume_standing.root, dir, ⟨by decide, by decide⟩, by decide⟩
  have taken : EntryCall.step smallVolume (.add 0 rootInode [0x61] 2) =
      some (final (dirAddEntry 0 rootInode [0x61] 2) smallVolume) := by
    rw [EntryCall.step, EntryCall.run, done]
  obtain ⟨m', _, add, _⟩ := directory_maps catalogued .start smallVolume_standing.root dir
  obtain ⟨m, _, _, remove⟩ :=
    directory_maps catalogued (Machine.Reaches.start.step orderly taken) smallVolume_standing.root dir'
  exact ⟨_, _, _, _, r, m, m', orderly, taken, removed, (remove _ _ _ removed).2, done,
    (add 0 [0x61] 2 _ (by decide) done).mpr ⟨by decide, by decide⟩⟩

/-- The entry of the name `a\0b` is found under the name `a`, and can be added once more. -/
theorem nul_name_lost :
    ∃ t u, dirAddEntry 0 rootInode [0x61, 0, 0x62] 2 smallVolume = .ok () t ∧
      t.dirLookup rootInode [0x61, 0, 0x62] = .error (.fs .notFound) ∧ t.dirLookup rootInode [0x61] = .ok 2 ∧
      dirAddEntry 0 rootInode [0x61, 0, 0x62] 3 t = .ok () u ∧
      u.dirList rootInode = .ok [(dot, 1), (dotdot, 1), ([0x61], 2), ([0x61], 3)] := by
  have evaluated : succeeds (dirAddEntry 0 rootInode [0x61, 0, 0x62] 2) smallVolume = true ∧
      (final (dirAddEntry 0 rootInode [0x61, 0, 0x62] 2) smallVolume).dirLookup rootInode [0x61, 0, 0x62] =
        .error (.fs .notFound) ∧
      (final (dirAddEntry 0 rootInode [0x61, 0, 0x62] 2) smallVolume).dirLookup rootInode [0x61] = .ok 2 ∧
      succeeds (dirAddEntry 0 rootInode [0x61, 0, 0x62] 3)
        (final (dirAddEntry 0 rootInode [0x61, 0, 0x62] 2) smallVolume) =
        true ∧
      (final (dirAddEntry 0 rootInode [0x61, 0, 0x62] 3)
          (final (dirAddEntry 0 rootInode [0x61, 0, 0x62] 2) smallVolume)).dirList rootInode =
        .ok [(dot, 1), (dotdot, 1), ([0x61], 2), ([0x61], 3)] := by decide +kernel
  obtain ⟨first, lost, found, second, listed⟩ := evaluated
  exact ⟨_, _, ok_of_succeeds first, lost, found, ok_of_succeeds second, listed⟩

end PickleOS.NextFs
