import PickleOS.Console.TerminalSafety

set_option autoImplicit false

namespace PickleOS.Console

open Shared

/-- `PROMPT`. -/
def shellPrompt : String := "pickleos> "

/-- A character that the terminal shows. -/
def Printable (c : Char) : Prop := 0x20 ≤ c.val

instance (c : Char) : Decidable (Printable c) := inferInstanceAs (Decidable (_ ≤ _))

structure LineEditor where
  prompt : String
  chars : List Char
  cursor : Nat
  painted : Nat
  hist : List String
  histPos : Option Nat
  draft : List Char

namespace LineEditor

def new (prompt : String) : LineEditor where
  prompt := prompt
  chars := []
  cursor := 0
  painted := 0
  hist := []
  histPos := none
  draft := []

/-- The editor after an operation, and what each `print!` of it printed. -/
abbrev Output := Except Panic (LineEditor × List String)

variable (e : LineEditor)

def redraw : LineEditor × List String :=
  let extra := e.painted - e.chars.length
  ({ e with painted := e.chars.length },
    ["\r" ++ e.prompt] ++ e.chars.map String.singleton ++ List.replicate extra " " ++ List.replicate extra
      "\x08" ++
      List.replicate (e.chars.length - e.cursor) "\x08")

def insert (c : Char) : Output := do
  let chars ← Checked.insertAt .bounds e.chars e.cursor c
  pure { e with chars := chars, cursor := e.cursor + 1 }.redraw

def backspace : Output :=
  if 0 < e.cursor then do
    let (_, chars) ← Checked.removeAt .bounds e.chars (e.cursor - 1)
    pure { e with chars := chars, cursor := e.cursor - 1 }.redraw
  else .ok (e, [])

def delete : Output :=
  if e.cursor < e.chars.length then do
    let (_, chars) ← Checked.removeAt .bounds e.chars e.cursor
    pure { e with chars := chars }.redraw
  else .ok (e, [])

def left : Output :=
  if 0 < e.cursor then .ok ({ e with cursor := e.cursor - 1 }, ["\x08"]) else .ok (e, [])

def right : Output :=
  if inside : e.cursor < e.chars.length then
    .ok ({ e with cursor := e.cursor + 1 }, [String.singleton e.chars[e.cursor]])
  else .ok (e, [])

/-- The loop prints a backspace for each place that the cursor goes to the left. -/
def home : Output := .ok ({ e with cursor := 0 }, List.replicate e.cursor "\x08")

/-- The loop prints the characters that the cursor passes. -/
def goEnd : Output :=
  .ok ({ e with cursor := max e.cursor e.chars.length }, (e.chars.drop e.cursor).map String.singleton)

def setLine (new : List Char) : LineEditor × List String := { e with chars := new, cursor := new.length }.redraw

def showEntry (i : Nat) : Output := do
  let entry ← Checked.elemAt .bounds e.hist i
  pure ({ e with histPos := some i }.setLine entry.toList)

/-- With `snapshot` as the history of the shells. -/
def historyPrev (snapshot : List String) : Output :=
  match e.histPos with
  | none =>
    let e := { e with hist := snapshot }
    if snapshot = [] then .ok (e, []) else { e with draft := e.chars }.showEntry (snapshot.length - 1)
  | some 0 => .ok (e, [])
  | some (i + 1) => e.showEntry i

def historyNext : Output :=
  match e.histPos with
  | none => .ok (e, [])
  | some i =>
    if i + 1 < e.hist.length then e.showEntry (i + 1) else .ok ({ e with histPos := none }.setLine e.draft)

end LineEditor

inductive Edit where
  | insert (c : Char)
  | backspace
  | delete
  | left
  | right
  | home
  | goEnd
  | historyPrev (snapshot : List String)
  | historyNext

/-- What is typed, and what the history has, can be shown. -/
def Edit.Printable : Edit → Prop
  | .insert c => Console.Printable c
  | .historyPrev snapshot => ∀ entry ∈ snapshot, ∀ c ∈ entry.toList, Console.Printable c
  | _ => True

def LineEditor.edit (e : LineEditor) : Edit → LineEditor.Output
  | .insert c => e.insert c
  | .backspace => e.backspace
  | .delete => e.delete
  | .left => e.left
  | .right => e.right
  | .home => e.home
  | .goEnd => e.goEnd
  | .historyPrev snapshot => e.historyPrev snapshot
  | .historyNext => e.historyNext

def LineEditor.longest (e : LineEditor) : List Edit → Nat
  | [] => e.chars.length
  | op :: rest =>
    match e.edit op with
    | .ok (e', _) => max e.chars.length (e'.longest rest)
    | .error _ => e.chars.length

/-- Each `print!` writes to the terminal of the shell. -/
def Terminal.prints (t : Terminal) (texts : List String) : Except Panic Terminal := texts.foldlM writeStr t

def Terminal.rowText (t : Terminal) (y : Nat) : List Char := (t.cells[y]?.getD blankRow).toList.map Cell.ch

structure Session where
  editor : LineEditor
  terminal : Terminal

def Session.edit (s : Session) (op : Edit) : Except Panic Session := do
  let (editor, texts) ← s.editor.edit op
  let terminal ← s.terminal.prints texts
  pure { editor := editor, terminal := terminal }

def Session.prompted (prompt : String) (t : Terminal) (ops : List Edit) : Except Panic Session := do
  let t ← t.writeStr prompt
  ops.foldlM Session.edit { editor := .new prompt, terminal := t }

end PickleOS.Console
