import JarAtlas.Explore.Problem
import JarAtlas.Workspace.Layout

/-!
Reading decompiled code: whole files, ranges of lines, and the lines around a text.
-/

namespace JarAtlas

/-- The items from one position up to another; negative positions count from the end. -/
def slice (start stop : Int) (items : List α) : List α :=
  let size := Int.ofNat items.length
  let bound (i : Int) : Nat := (clamp 0 size (if i < 0 then i + size else i)).toNat
  (items.take (bound stop)).drop (bound start)

def joinLines (lines : List (List Char)) : String :=
  String.ofList (List.intercalate ['\n'] lines)

/-- The path of a source file as it was meant: without blanks around it, with slashes only, and none
in front. -/
def sourceName (given : String) : String :=
  let cs := (Text.replace (Text.strip given) "\\" "/").toList
  String.ofList (cs.dropWhile (· == '/'))

structure SourceText where
  name : String
  version : ServerVersion
  text : List Char

/-- The directory of the decompiled code of a version, without double dots. -/
def sourceDir (root : Option Path) (v : ServerVersion) : Action Path := do
  let root ← rootOr root
  Action.resolve (← Layout.decompiled root v.name)

def Problem.missingPath : Problem :=
  ⟨"missing_path", .str "file_path is required", []⟩

def Problem.outside : Problem :=
  ⟨"invalid_path", .str "file_path must be inside decompiled directory", []⟩

def Problem.noFile (name : String) : Problem :=
  ⟨"not_found", .str ("File not found: " ++ name), []⟩

def readSource (root : Option Path) (v : ServerVersion) (given : Json) :
    Action (Except Problem SourceText) := do
  let name := sourceName (← Action.ofExcept given.givenText)
  if name == "" then return .error .missingPath
  let dir ← sourceDir root v
  let p ← Action.resolve (dir / name)
  if !p.isWithin dir then return .error .outside
  else if !(← Action.isFile p) then return .error (.noFile name)
  else return .ok ⟨name, v, ← Action.readText p⟩

/-- A range of lines: the number of lines of the file, and the first and last line of the range. -/
structure LineRange where
  total : Nat
  first : Int
  last : Int

/-- The range of lines that is meant by a first and a last line, where either may be missing. -/
def lineRange (total : Nat) (first last : Option Int) : LineRange :=
  let a := max 1 (first.getD 1)
  let b := min (Int.ofNat total) (last.getD (Int.ofNat total))
  if a > b then ⟨total, b, a⟩ else ⟨total, a, b⟩

def LineRange.textOf (r : LineRange) (lines : List (List Char)) : String :=
  joinLines (slice (r.first - 1) r.last lines)

def optionalWhole (v : Json) : Except Fault (Option Int) :=
  match v with
  | .null => .ok none
  | v => return some (← v.toWhole)

def sourceJson (s : SourceText) (first last : Json) : Except Fault Json := do
  let base (content : String) : List (String × Json) :=
    [("content", .str content), ("file_path", .str s.name), ("version", .str s.version.name)]
  if first == .null && last == .null then return .obj (base (String.ofList s.text))
  else
    let lines := Text.lines s.text
    let r := lineRange lines.length (← optionalWhole first) (← optionalWhole last)
    return .obj (base (r.textOf lines) ++ [
      ("total_lines", .ofNat r.total), ("start_line", .int r.first), ("end_line", .int r.last)])

def showSource (root : Option Path) (v : ServerVersion) (given first last : Json) :
    Action (Except Problem Json) := do
  match ← readSource root v given with
  | .error p => return .error p
  | .ok s => return .ok (← Action.ofExcept (sourceJson s first last))

def lineWith? (target : String) (lines : List (List Char)) : Option Nat :=
  lines.findIdx? (Text.occursIn target.toList)

/-- The part of `count` lines around the line with index `i`: where it starts, and where it ends. A
window that is no whole number has to cover all lines. -/
def around (count i : Nat) (window : Json) : Except Fault (Int × Int) :=
  let whole (n : Int) : Int × Int := (max 0 (Int.ofNat i - n), min (Int.ofNat count) (i + n + 1))
  match window with
  | .int n => .ok (whole n)
  | .bool b => .ok (whole (if b then 1 else 0))
  | .double d =>
    if d.isBelow (max (Int.ofNat i) (Int.ofNat count - i - 1)) then .error (.wrongKind "")
    else .ok (0, Int.ofNat count)
  | _ => .error (.wrongKind "")

/-- The index of the first line that contains a value, which has to be a text. -/
def lineWithValue? (target : Json) (lines : List (List Char)) : Except Fault (Option Nat) :=
  match target with
  | .str s => .ok (lineWith? s lines)
  | _ => if lines.isEmpty then .ok none else .error (.wrongKind "")

def showAround (root : Option Path) (version given target window : Json) : Action Json := do
  match ← readSource root (.ofValue version) given with
  | .error p => return p.toJson
  | .ok s =>
    let lines := Text.lines s.text
    match ← Action.ofExcept (lineWithValue? target lines) with
    | none =>
      return Problem.toJson
        ⟨"not_found", .str ("String '" ++ target.display ++ "' not found in file"), []⟩
    | some i =>
      let (start, stop) ← Action.ofExcept (around lines.length i window)
      return .obj [
        ("file_path", given),
        ("version", version),
        ("target", target),
        ("start_line", .int (start + 1)),
        ("end_line", .int stop),
        ("content", .str (joinLines (slice start stop lines)))]

end JarAtlas
