import PickleOS.Shared.Map
import Mathlib.Data.List.DropRight
import Mathlib.Data.List.Sort
import Mathlib.Data.List.Lex
import Mathlib.Data.Char

set_option autoImplicit false

namespace PickleOS.Services

open Shared

abbrev Path := List Char

inductive Node where
  | file (data : List UInt8)
  | dir
  deriving DecidableEq

inductive FsError where
  | notFound
  | alreadyExists
  | notADirectory
  | isADirectory
  | invalidPath
  deriving DecidableEq

-- `none` before `init`.
abbrev Memfs := Option (Map Path Node)

def root : Path := ['/']

def normalize (path : Path) : Except FsError Path :=
  if path.head? ≠ some '/' then .error .invalidPath
  else if path = root then .ok root
  else .ok (path.rdropWhile (· = '/'))

def upToSlash (path : Path) : Path := path.rdropWhile (· ≠ '/')

def lastComponent (path : Path) : Path := path.rtakeWhile (· ≠ '/')

def parentOf (path : Path) : Path :=
  match upToSlash path with
  | [] => root
  | [_] => root
  | upTo => upTo.dropLast

def ascii (text : String) : List UInt8 := text.toList.map fun ch => UInt8.ofNat ch.toNat

def init : Memfs :=
  let m : Map Path Node := ∅
  let m := m.insert root .dir
  let m := m.insert "/etc".toList .dir
  let m := m.insert "/welcome.txt".toList
    (.file (ascii "Welcome to PICKLE OS Phase 2!\nFiles are served over IPC by the VFS server.\n"))
  some (m.insert "/etc/motd".toList (.file (ascii "PICKLE OS :: capability-secured microkernel\n")))

namespace Memfs

variable (fs : Memfs)

def opened : Except FsError (Map Path Node) :=
  match fs with
  | none => .error .invalidPath
  | some m => .ok m

def checkDir (m : Map Path Node) (path : Path) : Except FsError Unit :=
  match m.lookup path with
  | some .dir => .ok ()
  | some _ => .error .notADirectory
  | none => .error .notFound

/-- `create` and `mkdir`: a new key with `node` behind it. -/
def add (node : Node) (path : Path) : Except FsError Memfs := do
  let path ← normalize path
  let m ← fs.opened
  if (m.lookup path).isSome then .error .alreadyExists
  else
    checkDir m (parentOf path)
    pure (some (m.insert path node))

def create (path : Path) : Except FsError Memfs := fs.add (.file []) path

def mkdir (path : Path) : Except FsError Memfs := fs.add .dir path

def write (path : Path) (data : List UInt8) : Except FsError (Nat × Memfs) := do
  let path ← normalize path
  let m ← fs.opened
  match m.lookup path with
  | some .dir => .error .isADirectory
  | some (.file _) => pure (data.length, some (m.insert path (.file data)))
  | none =>
    checkDir m (parentOf path)
    pure (data.length, some (m.insert path (.file data)))

def childPrefix (path : Path) : Path := if path = root then root else path ++ ['/']

/-- The name under which `readdir` of `path` lists `key`. -/
def listed (path key : Path) : Option Path :=
  if key = path then none
  else if childPrefix path <+: key then
    let rest := key.drop (childPrefix path).length
    if rest ≠ [] ∧ '/' ∉ rest then some rest else none
  else none

def readdir (path : Path) : Except FsError (List Path) := do
  let path ← normalize path
  let m ← fs.opened
  checkDir m path
  pure ((m.keys.filterMap (listed path)).insertionSort (· ≤ ·))

def remove (path : Path) : Except FsError Memfs := do
  let path ← normalize path
  if path = root then .error .invalidPath
  else
    let m ← fs.opened
    match m.lookup path with
    | none => .error .notFound
    | some .dir =>
      if m.keys.any fun key => (path ++ ['/']).isPrefixOf key then .error .notADirectory
      else pure (some (m.erase path))
    | some (.file _) => pure (some (m.erase path))

end Memfs

inductive Call where
  | create (path : Path)
  | mkdir (path : Path)
  | write (path : Path) (data : List UInt8)
  | remove (path : Path)

def Memfs.call (fs : Memfs) : Call → Except FsError Memfs
  | .create path => fs.create path
  | .mkdir path => fs.mkdir path
  | .write path data => (fs.write path data).map Prod.snd
  | .remove path => fs.remove path

/-- A call that fails leaves the map as it is. -/
def Memfs.step (fs : Memfs) (call : Call) : Option Memfs := some ((fs.call call).toOption.getD fs)

end PickleOS.Services
