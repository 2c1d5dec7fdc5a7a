import PickleOS.Shared.Decoding
import PickleOS.Shared.Recent
import PickleOS.Shared.Text

set_option autoImplicit false

namespace PickleOS.Console

open Shared

def historyLimit : Nat := 64

structure Shells where
  -- `HISTORY`.
  memory : List (List Char)
  -- `HISTORY_LOADED`.
  loaded : Bool
  mounted : Bool
  /-- What `HISTORY_FILE` has, once it exists. -/
  file : Option (List UInt8)

/-- What the file system makes of a write of the whole file. -/
inductive Written where
  | stored
  | failed (left : Option (List UInt8))

/-- An entry is added, unless it repeats the last. -/
def remember (entries : List (List Char)) (entry : List Char) : List (List Char) :=
  if entries.getLast? = some entry then entries
  else
    let entries := entries ++ [entry]
    if historyLimit < entries.length then entries.tail else entries

namespace Shells

variable (s : Shells)

def historySave (written : Written) : Shells :=
  if s.mounted then
    match written with
    | .stored => { s with file := some (Utf8.encode (Text.terminated s.memory)) }
    | .failed left => { s with file := left }
  else s

def historyPush (line : List Char) (written : Written) : Shells :=
  if s.memory.getLast? = some line then s else { s with memory := remember s.memory line }.historySave written

def historyLoad : Shells :=
  if s.loaded then s
  else
    let s := { s with loaded := true }
    match s.file with
    | some bytes =>
      { s with
        memory := (Text.lines (Utf8.lossy bytes)).foldl (fun entries line =>
          let t := Text.trim line
          if t = [] then entries else remember entries t) s.memory }
    | none => s

/-- `LineEditor::take` at the end of a line. -/
def take (line : List Char) (written : Written) : Shells :=
  let trimmed := Text.trim line
  if trimmed = [] then s else s.historyPush trimmed written

end Shells

inductive ShellEvent where
  | mount
  | enter (line : List Char) (written : Written)
  | load

def Shells.step (s : Shells) : ShellEvent → Option Shells
  | .mount => if s.mounted then none else some { s with mounted := true }
  | .enter line written => some (s.take line written)
  | .load => if !s.loaded && s.mounted then some s.historyLoad else none

end PickleOS.Console
