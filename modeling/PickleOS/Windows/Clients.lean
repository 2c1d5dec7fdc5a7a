import PickleOS.Windows.Queues
import PickleOS.Syscall.Dispatch

set_option autoImplicit false

/-!
# What a client draws and what the server has

A client addresses its buffer with the width that it asked for, the server with the one that it granted.
-/

namespace PickleOS.Windows

open Shared

/-- `SYS_WIN_CREATE` with a title that the caller may read; `none` is `u64::MAX`. -/
def sysWinCreate (wm : Wm) (task : TaskId) (a0 a1 : UInt64) (title : String) : Option WindowId × Wm :=
  wm.createWindow task a0.toNat a1.toNat (if title = "" then "window" else title)

/-- `SYS_WIN_COMMIT` by a program in ring 3; `words` are those from `a1` on. -/
def sysWinCommit (wm : Wm) (task : TaskId) (winId : WindowId) (a1 a2 : UInt64) (words : Nat → UInt32) :
    Bool × Wm :=
  if !wm.isOwner winId task then (false, wm)
  else if !Syscall.isUserPointer a1 a2 then (false, wm)
  else
    let pxCount := a2.toNat / 4
    wm.commit winId ((List.range pxCount).map words)

/-- The pixel buffer of a program: `height` rows of `width` pixels, somewhere in user space. -/
structure Canvas (width height : UInt32) where
  ptr : UInt64
  pixels : List UInt32
  sized : pixels.length = width.toNat * height.toNat
  below : ptr.toNat + 4 * pixels.length ≤ 0x0000_8000_0000_0000

namespace Canvas

variable {width height : UInt32} (c : Canvas width height)

def pixel (x y : Nat) : Option UInt32 := c.pixels[y * width.toNat + x]?

def word (i : Nat) : UInt32 := c.pixels.getD i 0

def putPixel (x y : Int32) (color : UInt32) : Canvas width height :=
  if x < 0 ∨ y < 0 ∨ width.toInt32 ≤ x ∨ height.toInt32 ≤ y then c
  else
    let idx := y.toInt.toNat * width.toNat + x.toInt.toNat
    { c with
      pixels := c.pixels.set idx color
      sized := by rw [List.length_set, c.sized]
      below := by rw [List.length_set]; exact c.below }

variable {c}

theorem toNat_lt_of_drawn {x : Int32} {size : UInt32} (positive : ¬x < 0) (small : ¬size.toInt32 ≤ x) :
    x.toInt.toNat < size.toNat := by
  have above : 0 ≤ x.toInt := by
    have := Int32.le_iff_toInt_le.mp (Int32.not_lt.mp positive)
    simpa using this
  have below : x.toInt < size.toInt32.toInt := Int32.lt_iff_toInt_lt.mp (Int32.not_le.mp small)
  have value : size.toInt32.toInt = if 2 * size.toNat < 2 ^ 32 then (size.toNat : Int) else size.toNat -
    (2 ^ 32 : Nat) :=
    BitVec.toInt_eq_toNat_cond size.toBitVec
  split at value <;> omega

theorem pixel_putPixel {x y : Int32} {color : UInt32}
    (drawn : ¬(x < 0 ∨ y < 0 ∨ width.toInt32 ≤ x ∨ height.toInt32 ≤ y)) :
    (c.putPixel x y color).pixel x.toInt.toNat y.toInt.toNat = some color := by
  obtain ⟨x0, y0, xw, yh⟩ : ¬x < 0 ∧ ¬y < 0 ∧ ¬width.toInt32 ≤ x ∧
    ¬height.toInt32 ≤ y := by simpa only [not_or] using drawn
  have left := toNat_lt_of_drawn x0 xw
  have upper := toNat_lt_of_drawn y0 yh
  have inside : y.toInt.toNat * width.toNat + x.toInt.toNat < c.pixels.length := by
    rw [c.sized, Nat.mul_comm width.toNat]
    calc y.toInt.toNat * width.toNat + x.toInt.toNat < y.toInt.toNat * width.toNat + width.toNat :=
      Nat.add_lt_add_left left _
      _ = (y.toInt.toNat + 1) * width.toNat := (Nat.succ_mul ..).symm
      _ ≤ height.toNat * width.toNat := Nat.mul_le_mul_right _ upper
  rw [putPixel, if_neg drawn, pixel]
  exact List.getElem?_set_self inside

end Canvas

/-- The two libraries that user programs draw with. -/
inductive Client where
  | libpickleos
  | calculator
  deriving DecidableEq

namespace Client

variable {width height : UInt32}

/-- What `sys_win_commit` passes as the length of the buffer. -/
def byteLen (frame : Canvas width height) : Client → UInt64
  | .libpickleos => UInt64.ofNat (frame.pixels.length * 4)
  | .calculator => 0

def commit (client : Client) (wm : Wm) (task : TaskId) (id : WindowId) (frame : Canvas width height) :
    Bool × Wm :=
  sysWinCommit wm task id frame.ptr (client.byteLen frame) frame.word

/-- What the server gets of a frame. -/
def sends (client : Client) (frame : Canvas width height) : List UInt32 :=
  (List.range ((client.byteLen frame).toNat / 4)).map frame.word

/-- A client of this kind opens a window of this size. Whatever happens at the server from then on,
if all the frames that it gets for the window are the client's, it shows the last one as the client
drew it. -/
def Presents (client : Client) (width height : UInt32) : Prop :=
  ∀ (wm : Wm) (task : TaskId) (title : String) (id : WindowId) (made : Wm),
    sysWinCreate wm task width.toUInt64 height.toUInt64 title = (some id, made) →
      ∀ calls : List Call, (∀ src, Call.commit id src ∈ calls → ∃ frame : Canvas width height,
        src = client.sends frame) →
        ∀ (frame : Canvas width height) (win : ServerWindow),
          (client.commit (calls.foldl Wm.perform made) task id frame).2.window id = some win →
            ∀ x < win.w, ∀ y < win.h, win.pixels[y * win.w + x]? = frame.pixel x y

end Client

section Calls

variable {wm wm' : Wm} {id : WindowId} {owner : TaskId} {w h : Nat} {title : String}

theorem createWindow_made (done : wm.createWindow owner w h title = (some id, wm')) :
    0 < w ∧ 0 < h ∧ wm'.nextId = id + 1 ∧ wm'.window id =
      some { id := id, owner := owner, w := min w maxW, h := min h maxH, title := title, pixels :=
        List.replicate (min w maxW * min h maxH) 0 } := by
  unfold Wm.createWindow at done
  split at done
  · cases done
  next nonempty =>
    cases here : wm.state with
    | none => simp [here] at done
    | some s =>
      simp only [here] at done
      split at done
      · cases done
      · cases done
        exact ⟨by omega, by omega, rfl, by simp [Wm.window, Wm.bumpDirty]⟩

/-- The window has what its client's last frame can have left. -/
structure Drawn (client : Client) (owner : TaskId) (w h : Nat) (win : ServerWindow) : Prop where
  owner : win.owner = owner
  w : win.w = min w maxW
  h : win.h = min h maxH
  sized : win.pixels.length = win.w * win.h
  blank : client = .calculator → win.pixels = List.replicate (win.w * win.h) 0

theorem perform_other {call : Call} {win : ServerWindow} (older : id < wm.nextId)
    (other : ∀ src, call ≠ .commit id src)
    (found : (wm.perform call).window id = some win) :
    ∃ win₀, wm.window id = some win₀ ∧ win.owner = win₀.owner ∧ win.w = win₀.w ∧ win.h = win₀.h ∧
    win.pixels = win₀.pixels := by
  have thins {wm' : Wm} (thins : Thins wm wm') (found : wm'.window id = some win) :
      ∃ win₀, wm.window id = some win₀ ∧ win.owner = win₀.owner ∧ win.w = win₀.w ∧ win.h = win₀.h ∧
      win.pixels = win₀.pixels :=
    ⟨win, thins.window id win found, rfl, rfl, rfl, rfl⟩
  have edits {there : WindowId} {f : ServerWindow → ServerWindow} {wm' : Wm} (edits : Edits there f wm wm')
      (same : there = id → ∀ win, (f win).owner = win.owner ∧ (f win).w = win.w ∧ (f win).h = win.h ∧
        (f win).pixels = win.pixels)
      (found : wm'.window id = some win) :
      ∃ win₀, wm.window id = some win₀ ∧ win.owner = win₀.owner ∧ win.w = win₀.w ∧ win.h = win₀.h ∧
      win.pixels = win₀.pixels := by
    rw [edits.window] at found
    split at found
    next here =>
      obtain ⟨old, was, rfl⟩ := Option.map_eq_some_iff.mp found
      exact ⟨old, here ▸ was, same here.symm old⟩
    next => exact ⟨win, found, rfl, rfl, rfl, rfl⟩
  cases call with
  | createWindow owner w h title =>
    rcases createWindow_makes wm owner w h title with same | ⟨-, made, makes⟩
    · rw [Wm.perform, same] at found
      exact ⟨win, found, rfl, rfl, rfl, rfl⟩
    · rw [Wm.perform, makes.window, if_neg (Nat.ne_of_lt older)] at found
      exact ⟨win, found, rfl, rfl, rfl, rfl⟩
  | commit there src =>
    refine edits (commit_edits src) (fun here => ?_) found
    subst here
    exact absurd rfl (other src)
  | destroyWindow there => exact thins (destroyWindow_thins wm there) found
  | destroyWindowsOwnedBy owner => exact thins (destroyOwned_thins wm owner) found
  | setTitle there title => exact edits (setTitle_edits title) (fun _ _ => ⟨rfl, rfl, rfl, rfl⟩) found
  | pollEvent there => exact edits pollEvent_edits (fun _ _ => ⟨rfl, rfl, rfl, rfl⟩) found
  | takePendingNew => exact thins (takePendingNew_thins wm) found
  | takePendingDestroy => exact thins (takePendingDestroy_thins wm) found
  | setPosition there x y => exact edits (setPosition_edits x y) (fun _ _ => ⟨rfl, rfl, rfl, rfl⟩) found
  | pushEvent there ev => exact edits (pushEvent_edits ev) (fun _ _ => ⟨rfl, rfl, rfl, rfl⟩) found

theorem nextId_perform (call : Call) : wm.nextId ≤ (wm.perform call).nextId := by
  cases call with
  | createWindow owner w h title =>
    rcases createWindow_makes wm owner w h title with same | ⟨-, made, makes⟩
    · rw [Wm.perform, same]
    · rw [Wm.perform, makes.nextId]
      exact Nat.le_succ _
  | commit there src => exact (commit_edits src).nextId.ge
  | destroyWindow there => exact (destroyWindow_thins wm there).nextId.ge
  | destroyWindowsOwnedBy owner => exact (destroyOwned_thins wm owner).nextId.ge
  | setTitle there title => exact (setTitle_edits title).nextId.ge
  | pollEvent there => exact pollEvent_edits.nextId.ge
  | takePendingNew => exact (takePendingNew_thins wm).nextId.ge
  | takePendingDestroy => exact (takePendingDestroy_thins wm).nextId.ge
  | setPosition there x y => exact (setPosition_edits x y).nextId.ge
  | pushEvent there ev => exact (pushEvent_edits ev).nextId.ge

end Calls

namespace Client

variable {client : Client} {width height : UInt32} {wm made : Wm} {task : TaskId} {id : WindowId}
    {title : String}

@[simp] theorem sends_calculator (frame : Canvas width height) : Client.calculator.sends frame = [] := by
  simp [sends, byteLen]

theorem sends_libpickleos (frame : Canvas width height) : Client.libpickleos.sends frame = frame.pixels := by
  have fits : frame.pixels.length * 4 < 2 ^ 64 := by
    have below := frame.below
    omega
  have count : (Client.byteLen frame .libpickleos).toNat / 4 = frame.pixels.length := by
    rw [byteLen, UInt64.toNat_ofNat', Nat.mod_eq_of_lt fits]
    omega
  rw [sends, count]
  apply List.ext_getElem
  · simp
  · intro i small inside
    simp [Canvas.word, inside]

theorem created (client : Client) (done : sysWinCreate wm task width.toUInt64 height.toUInt64 title =
    (some id, made)) :
    0 < width.toNat ∧ 0 < height.toNat ∧ id < made.nextId ∧
      ∃ win, made.window id = some win ∧ Drawn client task width.toNat height.toNat win := by
  obtain ⟨wide, high, nextId, window⟩ := createWindow_made done
  simp only [UInt32.toNat_toUInt64] at wide high window
  exact ⟨wide, high, nextId ▸ Nat.lt_succ_self id, _, window, rfl, rfl, rfl, List.length_replicate,
    fun _ => rfl⟩

theorem drawn {calls : List Call} (older : id < wm.nextId)
    (before : ∀ win, wm.window id = some win → Drawn client task width.toNat height.toNat win)
    (frames : ∀ src, Call.commit id src ∈ calls → ∃ frame : Canvas width height, src = client.sends frame) :
    ∀ win, (calls.foldl Wm.perform wm).window id = some win →
      Drawn client task width.toNat height.toNat win := by
  induction calls generalizing wm with
  | nil => exact before
  | cons call calls ih =>
    refine ih (older.trans_le (nextId_perform call)) (fun win found => ?_) fun src member =>
      frames src (.tail _ member)
    by_cases mine : ∃ src, call = .commit id src
    · obtain ⟨src, rfl⟩ := mine
      obtain ⟨frame, rfl⟩ := frames src (.head _)
      rw [Wm.perform, (commit_edits _).window, if_pos rfl] at found
      obtain ⟨old, was, rfl⟩ := Option.map_eq_some_iff.mp found
      have drawn := before old was
      refine ⟨drawn.owner, drawn.w, drawn.h, ?_, fun same => ?_⟩
      · have sized := drawn.sized
        simp only [ServerWindow.present, List.length_append, List.length_take, List.length_drop]
        omega
      · subst same
        simpa [ServerWindow.present] using drawn.blank rfl
    · obtain ⟨old, was, owner, w, h, pixels⟩ := perform_other older (fun src same => mine ⟨src, same⟩) found
      have drawn := before old was
      exact ⟨owner ▸ drawn.owner, w ▸ drawn.w, h ▸ drawn.h, by rw [pixels, w, h, drawn.sized],
        fun same => by rw [pixels, w, h, drawn.blank same]⟩

theorem isUserPointer_canvas (frame : Canvas width height) (wide : 0 < width.toNat)
    (high : 0 < height.toNat) (client : Client) :
    Syscall.isUserPointer frame.ptr (client.byteLen frame) = true := by
  have below := frame.below
  have some : 0 < frame.pixels.length := by
    rw [frame.sized]
    exact Nat.mul_pos wide high
  have small : (client.byteLen frame).toNat ≤ 4 * frame.pixels.length := by
    cases client with
    | calculator => exact Nat.zero_le _
    | libpickleos =>
      rw [byteLen, UInt64.toNat_ofNat']
      exact (Nat.mod_le _ _).trans (Nat.mul_comm _ _).le
  have lower : ¬0x0000_8000_0000_0000 ≤ frame.ptr.toNat := by omega
  have ends : frame.ptr.toNat + (client.byteLen frame).toNat ≤ 0x0000_8000_0000_0000 := by omega
  have whole : frame.ptr.toNat + (client.byteLen frame).toNat < 2 ^ 64 := by omega
  simp only [Syscall.isUserPointer, lower, whole, ends, if_false, if_true, decide_true]

theorem window_commit (frame : Canvas width height) (wide : 0 < width.toNat) (high : 0 < height.toNat)
    (owned : ∀ win, wm.window id = some win → win.owner = task) :
    (client.commit wm task id frame).2.window id = (wm.window id).map fun win =>
      win.present (client.sends frame) := by
  have pointer := isUserPointer_canvas frame wide high client
  unfold commit sysWinCommit
  cases was : wm.window id with
  | none =>
    have stranger : wm.isOwner id task = false := by simp [Wm.isOwner, was]
    simp [stranger, was]
  | some win =>
    have owner : wm.isOwner id task = true := by simp [Wm.isOwner, was, owned win was]
    simp only [owner, pointer, Bool.not_true, Bool.false_eq_true, if_false]
    rw [(commit_edits _).window, if_pos rfl, was]
    rfl

theorem getElem?_present {win : ServerWindow} {src : List UInt32} {k : Nat} (inside : k < win.pixels.length)
    (enough : win.pixels.length ≤ src.length) : (win.present src).pixels[k]? = src[k]? := by
  have count : min src.length win.pixels.length = win.pixels.length := Nat.min_eq_right enough
  have taken : k < (src.take win.pixels.length).length := by
    rw [List.length_take]
    omega
  rw [ServerWindow.present]
  simp only [count]
  rw [List.getElem?_append_left taken, List.getElem?_take_of_lt inside]

theorem presents_libpickleos (same : width.toNat ≤ maxW ∨ height.toNat = 1) :
    Client.libpickleos.Presents width height := by
  intro wm task title id made done calls frames frame win found x left y upper
  obtain ⟨wide, high, older, first, opened, new⟩ := created .libpickleos done
  have kept := drawn older (fun win found => by
    rw [← Option.some.inj (opened.symm.trans found)]; exact new) frames
  rw [window_commit frame wide high fun win found => (kept win found).owner] at found
  obtain ⟨old, was, rfl⟩ := Option.map_eq_some_iff.mp found
  obtain ⟨-, w, h, sized, -⟩ := kept old was
  change x < old.w at left
  change y < old.h at upper
  have enough : old.pixels.length ≤ frame.pixels.length := by
    rw [sized, frame.sized, w, h]
    exact Nat.mul_le_mul (Nat.min_le_left ..) (Nat.min_le_left ..)
  have inside : y * old.w + x < old.pixels.length := by
    rw [sized, Nat.mul_comm old.w]
    calc y * old.w + x < y * old.w + old.w := Nat.add_lt_add_left left _
      _ = (y + 1) * old.w := (Nat.succ_mul y old.w).symm
      _ ≤ old.h * old.w := Nat.mul_le_mul_right _ upper
  rw [sends_libpickleos]
  change (old.present frame.pixels).pixels[y * old.w + x]? = frame.pixels[y * width.toNat + x]?
  rw [getElem?_present inside enough]
  rcases same with narrow | flat
  · rw [w, Nat.min_eq_left narrow]
  · have top : y = 0 := by
      rw [h, flat] at upper
      exact Nat.lt_one_iff.mp (upper.trans_le (Nat.min_le_left ..))
    rw [top, Nat.zero_mul, Nat.zero_mul]

/-- A picture of the right size. -/
def painted (room : 4 * (width.toNat * height.toNat) ≤ 0x0000_8000_0000_0000) (color : Nat → UInt32) :
    Canvas width height where
  ptr := 0
  pixels := (List.range (width.toNat * height.toNat)).map color
  sized := by simp
  below := by simpa using room

theorem opens (wide : 0 < width.toNat) (high : 0 < height.toNat) :
    ∃ made, sysWinCreate .initial 0 width.toUInt64 height.toUInt64 "" = (some 1, made) := by
  have positive : ¬(width.toUInt64.toNat = 0 ∨ height.toUInt64.toNat = 0) := by
    simp only [UInt32.toNat_toUInt64]
    omega
  rw [sysWinCreate, Wm.createWindow, if_neg positive]
  exact ⟨_, rfl⟩

theorem first_frame (presents : client.Presents width height) (wide : 0 < width.toNat) (high : 0 < height.toNat)
    (frame : Canvas width height) :
    ∃ win, Drawn client 0 width.toNat height.toNat win ∧ ∀ x < win.w, ∀ y < win.h,
      (win.present (client.sends frame)).pixels[y * win.w + x]? = frame.pixel x y := by
  obtain ⟨made, done⟩ := opens wide high
  obtain ⟨-, -, older, win, opened, new⟩ := created client done
  refine ⟨win, new, fun x left y upper => ?_⟩
  refine presents .initial 0 "" 1 made done [] (fun src member => by cases member)
    frame (win.present (client.sends frame)) ?_ x left y upper
  rw [List.foldl_nil, window_commit frame wide high, opened, Option.map_some]
  intro other found
  rw [← Option.some.inj (opened.symm.trans found)]
  exact new.owner

theorem calculator_blank (wide : 0 < width.toNat) (high : 0 < height.toNat)
    (room : 4 * (width.toNat * height.toNat) ≤ 0x0000_8000_0000_0000) :
      ¬Client.calculator.Presents width height := by
  intro presents
  obtain ⟨win, new, shows⟩ := first_frame presents wide high (painted room fun _ => 0xFFFFFF)
  have left : 0 < win.w := by
    rw [new.w]
    exact Nat.lt_min.mpr ⟨wide, by decide⟩
  have upper : 0 < win.h := by
    rw [new.h]
    exact Nat.lt_min.mpr ⟨high, by decide⟩
  have corner := shows 0 left 0 upper
  rw [sends_calculator, Nat.zero_mul, Nat.zero_add] at corner
  simp [ServerWindow.present, new.blank rfl, Canvas.pixel, painted, Nat.mul_pos wide high,
    Nat.mul_pos left upper] at corner

end Client

/-- libpickleos is right about windows that the server does not narrow, and about those of one row.
The calculator's commits carry no pixels. -/
theorem presents_iff (client : Client) {width height : UInt32} (wide : 0 < width.toNat)
    (high : 0 < height.toNat)
    (room : 4 * (width.toNat * height.toNat) ≤ 0x0000_8000_0000_0000) :
    client.Presents width height ↔ client = .libpickleos ∧ (width.toNat ≤ maxW ∨ height.toNat = 1) := by
  constructor
  · intro presents
    cases client with
    | calculator => exact absurd presents (Client.calculator_blank wide high room)
    | libpickleos =>
      refine ⟨rfl, ?_⟩
      by_contra cut
      obtain ⟨broad, tall⟩ := not_or.mp cut
      obtain ⟨win, new, shows⟩ := Client.first_frame presents wide high
        (Client.painted room fun i => if i = width.toNat then 1 else 0)
      have granted : win.w = maxW := by
        rw [new.w]
        exact Nat.min_eq_right (Nat.le_of_not_le broad)
      have second : 1 < win.h := by
        rw [new.h]
        exact Nat.lt_min.mpr ⟨by omega, by decide⟩
      have inside : maxW < win.pixels.length := by
        rw [new.sized, granted]
        exact (Nat.lt_mul_iff_one_lt_right (by decide)).mpr second
      have area : width.toNat < width.toNat * height.toNat :=
        (Nat.lt_mul_iff_one_lt_right wide).mpr (by omega)
      -- The start of the second row.
      have corner := shows 0 (granted ▸ by decide) 1 second
      rw [Client.sends_libpickleos, Nat.one_mul, Nat.add_zero, granted, Client.getElem?_present inside]
        at corner
      · have early : maxW < width.toNat * height.toNat := (Nat.lt_of_not_le broad).trans area
        simp [Canvas.pixel, Client.painted, area, early, (Nat.lt_of_not_le broad).ne] at corner
      · rw [new.sized, new.w, new.h, (Client.painted room _).sized]
        exact Nat.mul_le_mul (Nat.min_le_left ..) (Nat.min_le_left ..)
  · rintro ⟨rfl, same⟩
    exact Client.presents_libpickleos same

theorem presents_demo : Client.libpickleos.Presents 160 120 :=
  (presents_iff .libpickleos (by decide) (by decide) (by decide)).mpr ⟨rfl, .inl (by decide)⟩

/-- A window with a first row that is too long for the server, and a red pixel at the start of the
second. -/
def secondRow : Canvas 321 2 := (Client.painted (by decide) fun _ => 0).putPixel 0 1 0xFF0000

/-- The second row of `secondRow` starts elsewhere at the server, and the calculator's window stays
black. -/
theorem pixels_lost : ¬Client.libpickleos.Presents 321 2 ∧ ¬Client.calculator.Presents 240 280 := by
  refine ⟨fun presents => ?_, Client.calculator_blank (by decide) (by decide) (by decide)⟩
  obtain ⟨win, new, shows⟩ := Client.first_frame presents (by decide) (by decide) secondRow
  have w : win.w = 320 := new.w
  have h : win.h = 2 := new.h
  have sized : win.pixels.length = 640 := by rw [new.sized, w, h]
  have red : secondRow.pixel 0 1 = some 0xFF0000 := Canvas.pixel_putPixel (by decide)
  have corner := shows 0 (by rw [w]; decide) 1 (by rw [h]; decide)
  rw [Client.sends_libpickleos, w, Client.getElem?_present (by rw [sized]; decide)
    (by rw [sized]; decide +kernel), red] at corner
  exact absurd corner (by decide +kernel)

end PickleOS.Windows
