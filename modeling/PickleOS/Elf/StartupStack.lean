import PickleOS.Shared.CStrings
import Mathlib.Data.List.Forall2

set_option autoImplicit false

namespace PickleOS.Elf

open Shared Shared.Bytes

abbrev Writes := List (Nat × List UInt8)

def USER_STACK_TOP : Nat := 0x7FFF_FFFF_F000
def topPageUserBase : Nat := USER_STACK_TOP - 4096

/-- The strings go downwards from the top of the page. -/
def copyStrings (pageUserBase : Nat) : List (List UInt8) → Nat → List Nat → Writes →
    Except String (Nat × List Nat) × Writes
  | [], off, strAddrs, ws => (.ok (off, strAddrs), ws)
  | bytes :: rest, off, strAddrs, ws =>
    let need := bytes.length + 1
    if need + 256 > off then (.error "argv/envp too large for initial stack page", ws)
    else
      let off := off - need
      copyStrings pageUserBase rest off (strAddrs ++ [pageUserBase + off])
        ((off + bytes.length, [0]) :: (off, bytes) :: ws)

/-- `write_u64` for one word after the other. -/
def writeWords : Nat → List Nat → Writes → Writes
  | _, [], ws => ws
  | w, v :: rest, ws => writeWords (w + 8) rest ((w, encode 8 v) :: ws)

def setupUserStack (frameKptrIsNull : Bool) (pageUserBase pageSize : Nat) (args envs : List (List UInt8)) :
    Except String Nat × Writes :=
  if frameKptrIsNull then (.error "no top stack page captured", [])
  else
    match copyStrings pageUserBase (args ++ envs) pageSize [] [] with
    | (.error e, ws) => (.error e, ws)
    | (.ok (off, strAddrs), ws) =>
      let off := off - off % 16
      let words := 1 + args.length + 1 + envs.length + 1 + 2
      let off := if words % 2 ≠ 0 then off - 8 else off
      let tableBytes := words * 8
      if tableBytes > off then (.error "argv/envp table too large for initial stack page", ws)
      else
        let rspOff := off - tableBytes
        let table := [args.length] ++ strAddrs.take args.length ++ [0] ++ (strAddrs.drop args.length).take
          envs.length ++ [0] ++ [0, 0]
        (.ok (pageUserBase + rspOff), writeWords rspOff table ws)

theorem topPageUserBase_eq : topPageUserBase = 0x7FFF_FFFF_E000 := rfl

/-- What a program finds behind its stack pointer. The auxiliary vector is empty. -/
structure Startup (mem : Nat → UInt8) (rsp argc : Nat) (argv envp : List (List UInt8)) : Prop where
  argc : word mem rsp = argc
  strings : ∃ next auxv, CStrings mem (rsp + 8) argv next ∧ CStrings mem next envp auxv ∧
    word mem auxv = 0 ∧ word mem (auxv + 8) = 0

structure Seeded (ws : Writes) (rsp : Nat) (args envs : List (List UInt8)) : Prop where
  aligned : rsp % 16 = 0
  inside : topPageUserBase ≤ rsp ∧ rsp < topPageUserBase + 4096
  recovered : ∀ mem : Nat → UInt8, (∀ off, off < 4096 →
    mem (topPageUserBase + off) = (Sparse.ofWrites ws).byte off) →
    ∀ argc argv envp, Startup mem rsp argc argv envp ↔ argc = args.length ∧ argv = args ∧ envp = envs

/-- No write leaves the page, and no two of them meet. -/
structure Tidy (pageSize : Nat) (ws : Writes) : Prop where
  inside : ∀ w ∈ ws, w.1 + w.2.length ≤ pageSize
  apart : ws.Pairwise Apart

theorem Startup.unique {mem : Nat → UInt8} {rsp argc argc' : Nat} {argv argv' envp envp' : List (List UInt8)}
    (left : Startup mem rsp argc argv envp) (right : Startup mem rsp argc' argv' envp') :
    argc = argc' ∧ argv = argv' ∧ envp = envp' := by
  obtain ⟨_, _, args, envs, _⟩ := left.strings
  obtain ⟨_, _, args', envs', _⟩ := right.strings
  obtain ⟨sameArgs, rfl⟩ := args.unique args'
  exact ⟨left.argc.symm.trans right.argc, sameArgs, (envs.unique envs').1⟩

theorem Startup.of_stands {mem : Nat → UInt8} {rsp : Nat} {argPtrs envPtrs : List Nat}
    {args envs : List (List UInt8)}
    (argv : List.Forall₂ (fun p s => p ≠ 0 ∧ p < 2 ^ 64 ∧ CString mem p s) argPtrs args)
    (envp : List.Forall₂ (fun p s => p ≠ 0 ∧ p < 2 ^ 64 ∧ CString mem p s) envPtrs envs)
    (few : args.length < 2 ^ 64)
    (stands : Stands mem rsp (([args.length] ++ argPtrs ++ [0] ++ envPtrs ++ [0] ++ [0, 0]).flatMap
      (encode 8))) :
    Startup mem rsp args.length args envs := by
  have table : [args.length] ++ argPtrs ++ [0] ++ envPtrs ++ [0] ++ [0, 0] =
      args.length :: ((argPtrs ++ [0]) ++ ((envPtrs ++ [0]) ++ [0, 0])) := by simp
  rw [table, List.flatMap_cons, stands_append, encode_length, List.flatMap_append, stands_append,
    length_words] at stands
  obtain ⟨argc, first, rest⟩ := stands
  rw [List.flatMap_append, stands_append, length_words] at rest
  obtain ⟨second, auxv⟩ := rest
  rw [List.length_append] at second auxv
  rw [List.length_append] at auxv
  refine ⟨word_of_stands few argc, _, _, CStrings.of_stands argv first, CStrings.of_stands envp second, ?_, ?_⟩
  · exact word_of_stands (by decide) (stands_append.mp auxv).1
  · have last := (stands_append.mp auxv).2
    rw [encode_length] at last
    exact word_of_stands (by decide) last

/-- Strings that are in the page, at offsets of at least `off`. -/
structure Packed (base pageSize off : Nat) (strAddrs : List Nat) (strings : List (List UInt8))
    (ws : Writes) : Prop where
  tidy : Tidy pageSize ws
  above : ∀ w ∈ ws, off ≤ w.1
  room : 256 ≤ off ∧ off ≤ pageSize
  strings : List.Forall₂ (fun p s => ∃ o, p = base + o ∧ (o, s) ∈ ws ∧ (o + s.length, [0]) ∈ ws)
    strAddrs strings

variable {base pageSize off : Nat} {strAddrs : List Nat} {done rest : List (List UInt8)} {ws : Writes}

theorem Packed.push (packed : Packed base pageSize off strAddrs done ws) (bytes : List UInt8)
    (room : bytes.length + 1 + 256 ≤ off) :
    Packed base pageSize (off - (bytes.length + 1)) (strAddrs ++ [base + (off - (bytes.length + 1))])
      (done ++ [bytes])
      ((off - (bytes.length + 1) + bytes.length, [0]) :: (off - (bytes.length + 1), bytes) :: ws) where
  tidy := by
    have bounds := packed.room
    constructor
    · intro w member
      rcases List.mem_cons.mp member with rfl | member
      · simp
        omega
      rcases List.mem_cons.mp member with rfl | member
      · simp
        omega
      · exact packed.tidy.inside w member
    · refine List.pairwise_cons.mpr ⟨?_, List.pairwise_cons.mpr ⟨?_, packed.tidy.apart⟩⟩
      · intro w member
        rcases List.mem_cons.mp member with rfl | member
        · exact .inr (Nat.le_refl _)
        · have above := packed.above w member
          refine .inl ?_
          simp
          omega
      · intro w member
        have above := packed.above w member
        exact .inl (by simp; omega)
  above := by
    intro w member
    rcases List.mem_cons.mp member with rfl | member
    · exact Nat.le_add_right _ _
    rcases List.mem_cons.mp member with rfl | member
    · exact Nat.le_refl _
    · have above := packed.above w member
      omega
  room := by
    have bounds := packed.room
    omega
  strings := by
    refine List.rel_append (packed.strings.imp ?_) (.cons ⟨_, rfl, by simp, by simp⟩ .nil)
    rintro p s ⟨o, rfl, string, nul⟩
    exact ⟨o, rfl, by simp [string], by simp [nul]⟩

theorem copyStrings_packed (packed : Packed base pageSize off strAddrs done ws) (rest : List (List UInt8)) :
    (∃ off' strAddrs' ws', copyStrings base rest off strAddrs ws = (.ok (off', strAddrs'), ws') ∧
      Packed base pageSize off' strAddrs' (done ++ rest) ws') ∨
    ∃ e ws', copyStrings base rest off strAddrs ws = (.error e, ws') ∧ Tidy pageSize ws' := by
  induction rest generalizing off strAddrs done ws with
  | nil => exact .inl ⟨off, strAddrs, ws, rfl, by simpa using packed⟩
  | cons bytes rest ih =>
    rw [copyStrings]
    by_cases large : bytes.length + 1 + 256 > off
    · exact .inr ⟨_, ws, if_pos large, packed.tidy⟩
    · simp only [large, if_false]
      simpa using ih (packed.push bytes (Nat.le_of_not_lt large))

theorem mem_writeWords (words : List Nat) (w : Nat) (ws : Writes) (x : Nat × List UInt8) :
    x ∈ writeWords w words ws ↔ x ∈ ws ∨ ∃ i n, words[i]? = some n ∧ x = (w + 8 * i, encode 8 n) := by
  induction words generalizing w ws with
  | nil => simp [writeWords]
  | cons v rest ih =>
    rw [writeWords, ih, List.mem_cons]
    constructor
    · rintro ((rfl | before) | ⟨i, n, here, rfl⟩)
      · exact .inr ⟨0, v, rfl, rfl⟩
      · exact .inl before
      · exact .inr ⟨i + 1, n, here, by rw [show w + 8 + 8 * i = w + 8 * (i + 1) by omega]⟩
    · rintro (before | ⟨i, n, here, rfl⟩)
      · exact .inl (.inr before)
      · cases i with
        | zero =>
          cases here
          exact .inl (.inl rfl)
        | succ i => exact .inr ⟨i, n, here, by rw [show w + 8 + 8 * i = w + 8 * (i + 1) by omega]⟩

theorem Tidy.writeWords (tidy : Tidy pageSize ws) (words : List Nat) (w : Nat)
    (inside : w + 8 * words.length ≤ pageSize)
    (below : ∀ x ∈ ws, w + 8 * words.length ≤ x.1 ∨ x.1 + x.2.length ≤ w) :
      Tidy pageSize (writeWords w words ws) := by
  induction words generalizing w ws with
  | nil => exact tidy
  | cons v rest ih =>
    rw [List.length_cons] at inside below
    refine ih ⟨?_, List.pairwise_cons.mpr ⟨?_, tidy.apart⟩⟩ (w + 8) (by omega) ?_
    · intro x member
      rcases List.mem_cons.mp member with rfl | member
      · simp
        omega
      · exact tidy.inside x member
    · intro x member
      simp only [Apart, encode_length]
      have clear := below x member
      omega
    · intro x member
      rcases List.mem_cons.mp member with rfl | member
      · exact .inr (by simp)
      · have clear := below x member
        omega

theorem Packed.cStrings {ws' : Writes} {mem : Nat → UInt8} {strings : List (List UInt8)}
    (packed : Packed topPageUserBase 4096 off strAddrs strings ws) (tidy : Tidy 4096 ws')
    (kept : ∀ w ∈ ws, w ∈ ws')
    (clean : ∀ s ∈ strings, 0 ∉ s)
    (same : ∀ o, o < 4096 → mem (topPageUserBase + o) = (Sparse.ofWrites ws').byte o) :
    List.Forall₂ (fun p s => p ≠ 0 ∧ p < 2 ^ 64 ∧ CString mem p s) strAddrs strings := by
  refine ((List.forall₂_and_left _ _).mpr ⟨clean, packed.strings.flip⟩).flip.imp ?_
  rintro p s ⟨plain, o, rfl, string, nul⟩
  have inside := packed.tidy.inside _ nul
  simp only [List.length_cons, List.length_nil, Nat.zero_add] at inside
  have stands : Stands (Sparse.ofWrites ws').byte o (s ++ [0]) :=
    stands_append.mpr ⟨stands_ofWrites tidy.apart (kept _ string), stands_ofWrites tidy.apart (kept _ nul)⟩
  have string : CString mem (topPageUserBase + o) s := by
    refine .of_stands plain (stands.shift ?_)
    intro p _ high
    simp only [List.length_append, List.length_cons, List.length_nil, Nat.zero_add] at high
    exact same p (by omega)
  have page := topPageUserBase_eq
  exact ⟨by omega, by omega, string⟩

theorem writeTable_seeded {args envs : List (List UInt8)} (argPtrs envPtrs : List Nat) (rspOff : Nat)
    (packed : Packed topPageUserBase 4096 off (argPtrs ++ envPtrs) (args ++ envs) ws)
    (clean : ∀ s ∈ args ++ envs, 0 ∉ s)
    (argc : argPtrs.length = args.length) (envc : envPtrs.length = envs.length) (aligned : rspOff % 16 = 0)
    (below : rspOff + 8 * (args.length + envs.length + 5) ≤ off) :
    Tidy 4096 (writeWords rspOff ([args.length] ++ argPtrs ++ [0] ++ envPtrs ++ [0] ++ [0, 0]) ws) ∧
      Seeded (writeWords rspOff ([args.length] ++ argPtrs ++ [0] ++ envPtrs ++ [0] ++ [0, 0]) ws)
        (topPageUserBase + rspOff) args envs := by
  have page := topPageUserBase_eq
  have room := packed.room
  let table := [args.length] ++ argPtrs ++ [0] ++ envPtrs ++ [0] ++ [0, 0]
  have length : table.length = args.length + envs.length + 5 := by
    simp only [table, List.length_append, List.length_cons, List.length_nil, argc, envc]
    omega
  have tidy : Tidy 4096 (writeWords rspOff table ws) := by
    refine packed.tidy.writeWords table rspOff (by omega) ?_
    intro x member
    exact .inl (by have above := packed.above x member; omega)
  refine ⟨tidy, by omega, by omega, ?_⟩
  intro mem same
  have strings := packed.cStrings tidy (fun w old => (mem_writeWords ..).mpr (.inl old)) clean same
  have argv := List.forall₂_take args.length strings
  have envp := List.forall₂_drop args.length strings
  rw [List.take_left' argc, List.take_left] at argv
  rw [List.drop_left' argc, List.drop_left] at envp
  have written : Stands (Sparse.ofWrites (writeWords rspOff table ws)).byte
    rspOff (table.flatMap (encode 8)) := by
    apply stands_words
    intro i n here
    exact stands_ofWrites tidy.apart ((mem_writeWords ..).mpr (.inr ⟨i, n, here, rfl⟩))
  have startup : Startup mem (topPageUserBase + rspOff) args.length args envs := by
    refine .of_stands argv envp (by omega) (written.shift ?_)
    intro p _ high
    rw [length_words] at high
    exact same p (by omega)
  intro argc argv envp
  constructor
  · intro other
    exact other.unique startup
  · rintro ⟨rfl, rfl, rfl⟩
    exact startup

/-- Either the strings do not fit the page, or a program recovers them from its stack pointer. -/
theorem setup_user_stack_recovered (args envs : List (List UInt8)) (clean : ∀ s ∈ args ++ envs, 0 ∉ s) :
    Tidy 4096 (setupUserStack false topPageUserBase 4096 args envs).2 ∧
      ((∃ e, (setupUserStack false topPageUserBase 4096 args envs).1 = .error e) ∨
        ∃ rsp, (setupUserStack false topPageUserBase 4096 args envs).1 = .ok rsp ∧
          Seeded (setupUserStack false topPageUserBase 4096 args envs).2 rsp args envs) := by
  have empty : Packed topPageUserBase 4096 4096 [] [] [] :=
    ⟨⟨fun _ member => (by cases member), .nil⟩, fun _ member => (by cases member), by decide, .nil⟩
  rcases copyStrings_packed empty (args ++ envs)
    with ⟨off, strAddrs, ws, copied, packed⟩ | ⟨e, ws, copied, tidy⟩
  · simp only [setupUserStack, copied, Bool.false_eq_true, if_false, List.nil_append] at packed ⊢
    have room := packed.room
    have count := packed.strings.length_eq
    rw [List.length_append] at count
    -- The offset of the table's end is below the strings, and aligned once the table's length is odd.
    generalize padded : (if (1 + args.length + 1 + envs.length + 1 + 2) % 2 ≠ 0 then off - off % 16 -
      8 else off - off % 16) = top
    by_cases large : (1 + args.length + 1 + envs.length + 1 + 2) * 8 > top
    · simp only [large, if_true]
      exact ⟨packed.tidy, .inl ⟨_, rfl⟩⟩
    · simp only [large, if_false]
      have envPtrs : (strAddrs.drop args.length).take envs.length = strAddrs.drop args.length :=
        List.take_of_length_le (by rw [List.length_drop]; omega)
      rw [envPtrs]
      have seeded := writeTable_seeded (strAddrs.take args.length) (strAddrs.drop args.length)
        (top - (1 + args.length + 1 + envs.length + 1 + 2) * 8) (by rwa [List.take_append_drop]) clean
        (by rw [List.length_take]; omega) (by rw [List.length_drop]; omega) (by split at padded <;> omega)
        (by split at padded <;> omega)
      exact ⟨seeded.1, .inr ⟨_, rfl, seeded.2⟩⟩
  · simp only [setupUserStack, copied, Bool.false_eq_true, if_false]
    exact ⟨tidy, .inl ⟨e, rfl⟩⟩

theorem setup_user_stack_recovered_three :
    (setupUserStack false topPageUserBase 4096 [[0x61], [0x62, 0x63]] [[0x78, 0x3d, 0x31]]).1 =
      .ok 0x7FFF_FFFF_EFB0 ∧
      Seeded (setupUserStack false topPageUserBase 4096 [[0x61], [0x62, 0x63]] [[0x78, 0x3d, 0x31]]).2
        0x7FFF_FFFF_EFB0
        [[0x61], [0x62, 0x63]] [[0x78, 0x3d, 0x31]] := by
  have result : (setupUserStack false topPageUserBase 4096 [[0x61], [0x62, 0x63]] [[0x78, 0x3d, 0x31]]).1 =
      .ok 0x7FFF_FFFF_EFB0 := by decide
  rcases (setup_user_stack_recovered [[0x61], [0x62, 0x63]] [[0x78, 0x3d, 0x31]] (by decide)).2 with
    ⟨e, failed⟩ | ⟨rsp, returned, seeded⟩
  · cases result.symm.trans failed
  · cases result.symm.trans returned
    exact ⟨result, seeded⟩

end PickleOS.Elf
