import JarAtlas.Fault
import JarAtlas.Json.Parser
import JarAtlas.Text.Utf8

/-!
Addresses of files on a machine.
-/

namespace JarAtlas

/-- The address of a file: its machine, which is empty for this one, and its path there, in which a
percent sign with two hexadecimal digits stands for a byte. -/
structure FileAddress where
  machine : String
  path : List Char
  deriving DecidableEq, Repr

namespace FileAddress

/-- The bytes of a text in which a percent sign with two hexadecimal digits stands for a byte. -/
def percentBytes : List Char → Bytes
  | '%' :: a :: b :: cs =>
    match Json.hexValue? a, Json.hexValue? b with
    | some m, some n => UInt8.ofNat (m * 16 + n) :: percentBytes cs
    | _, _ => 37 :: percentBytes (a :: b :: cs)
  | c :: cs => String.utf8EncodeChar c ++ percentBytes cs
  | [] => []

def percentDecode (cs : List Char) : String :=
  String.ofList (Utf8.decodeReplacing (percentBytes cs))

def withoutTag (cs : List Char) : List Char :=
  match Text.splitLast? '#' cs with
  | some (before, _) => before
  | none => cs

def anchored : List Char → List Char
  | [] => []
  | '/' :: cs => '/' :: cs
  | cs => '/' :: cs

def parse? (s : String) : Option FileAddress :=
  match s.toList with
  | 'f' :: 'i' :: 'l' :: 'e' :: ':' :: cs =>
    match withoutTag (cs.reverse.dropWhile Text.isBlank).reverse with
    | '/' :: '/' :: rest =>
      let (machine, path) := rest.span fun c => c != '/' && c != '#' && c != '?'
      some ⟨percentDecode machine, anchored path⟩
    | path => some ⟨"", path⟩
  | _ => none

def fileName (a : FileAddress) : String :=
  percentDecode a.path

/-- Whether the path itself starts with the name of a machine, on a machine other than this one. -/
def isElsewhere (a : FileAddress) : Bool :=
  match a.path with
  | '/' :: '/' :: rest => rest.head? != some '/' && a.machine != "" && a.machine != "localhost"
  | _ => false

def thisMachine : String := "127.0.0.1"

def addressPart? (cs : List Char) : Option Nat :=
  match cs with
  | '0' :: 'x' :: ds => number? 16 ds
  | '0' :: 'X' :: ds => number? 16 ds
  | '0' :: d :: ds => number? 8 (d :: ds)
  | ds => number? 10 ds
where
  number? (base : Nat) (ds : List Char) : Option Nat :=
    if ds.isEmpty then none
    else ds.foldl (fun n d =>
      match n, Json.hexValue? d with
      | some n, some v => if v < base then some (base * n + v) else none
      | _, _ => none) (some 0)

/-- The number that the parts of an address mean: each part is a byte, and the last one fills all
bytes that are left. -/
def addressNumber? : Nat → List Nat → Option Nat
  | _, [] => none
  | room, [last] => if last < Nat.pow 256 room then some last else none
  | 0, _ :: _ => none
  | room + 1, part :: parts =>
    if part < 256 then (addressNumber? room parts).map (part * Nat.pow 256 room + ·) else none

def namesThis (machine : String) : Bool :=
  Text.lower machine == "localhost" ||
    match (Text.splitAt '.' machine.toList).mapM addressPart? with
    | some parts => addressNumber? 4 parts == addressNumber? 4 [127, 0, 0, 1]
    | none => false

def maxLabel : Nat := 63

/-- What is wrong with the name of a machine, so that it cannot even be asked for. -/
def badName? (machine : String) : Option Fault :=
  let labels := Text.splitAt '.' machine.toList
  let refused (why : String) : Option Fault :=
    some (.other ("encoding with 'idna' codec failed (UnicodeError: " ++ why ++ ")"))
  if machine.toList.contains (Char.ofNat 0) then
    some (.wrongKind
      "gethostbyname() argument 1 must be encoded string without null bytes, not str")
  else if labels.dropLast.any fun l => l.isEmpty || maxLabel < l.length then
    refused "label empty or too long"
  else if labels.getLast?.any fun l => maxLabel < l.length then refused "label too long"
  else none

/-- The name of a machine without the number after its last colon, and whether there was one. -/
def cutNumber (machine : String) : String × Bool :=
  match Text.splitLast? ':' machine.toList with
  | some (name, ds) =>
    if ds.all Char.isDigit then (String.ofList name, !ds.isEmpty) else (machine, false)
  | none => (machine, false)

def isLocal (a : FileAddress) : Except Fault Bool :=
  let (name, numbered) := cutNumber a.machine
  if name == "" then .ok true
  else if numbered then .ok false
  else
    match badName? name with
    | some fault => .error fault
    | none => .ok (namesThis name)

end FileAddress

end JarAtlas
