import JarAtlas.Json.Basic
import JarAtlas.Number.Numeral

/-!
JSON text in two layouts: on one line, with a blank after each comma and colon, and indented by two
blanks a level. Only quotes, backslashes and control characters are escaped. What cannot be written
leaves a character that occurs nowhere else at the place where writing ends.
-/

namespace JarAtlas.Json

inductive Layout where
  | line
  | indented
  deriving DecidableEq, Repr

def hexDigit (n : Nat) : Char :=
  if n < 10 then Char.ofNat (48 + n) else Char.ofNat (87 + n)

def escapeChar (c : Char) : List Char :=
  if c == '"' then ['\\', '"']
  else if c == '\\' then ['\\', '\\']
  else if c == '\n' then ['\\', 'n']
  else if c == '\r' then ['\\', 'r']
  else if c == '\t' then ['\\', 't']
  else if c == Char.ofNat 8 then ['\\', 'b']
  else if c == Char.ofNat 12 then ['\\', 'f']
  else if c.toNat < 32 then ['\\', 'u', '0', '0', hexDigit (c.toNat / 16), hexDigit (c.toNat % 16)]
  else [c]

def quote (cs : List Char) : List Char :=
  '"' :: (cs.flatMap escapeChar ++ ['"'])

def intChars (n : Int) : List Char :=
  if n < 0 then '-' :: Nat.toDigits 10 n.natAbs else Nat.toDigits 10 n.natAbs

def doubleChars : Double → List Char
  | .nan => "NaN".toList
  | .infinite true => "-Infinity".toList
  | .infinite false => "Infinity".toList
  | d => d.text.toList

def Layout.gap (layout : Layout) (level : Nat) : List Char :=
  match layout with
  | .line => []
  | .indented => '\n' :: List.replicate (2 * level) ' '

def Layout.comma (layout : Layout) (level : Nat) : List Char :=
  match layout with
  | .line => [',', ' ']
  | .indented => ',' :: layout.gap level

inductive WriteError where
  | tornText
  | tooManyDigits
  deriving DecidableEq, Repr

def WriteError.mark : WriteError → Char
  | tornText => Char.ofNat 0
  | tooManyDigits => Char.ofNat 1

/-- Why a value that is neither an array nor an object cannot be written. -/
def writeError? : Json → Option WriteError
  | torn _ => some .tornText
  | int n => if maxDigits < (Nat.toDigits 10 n.natAbs).length then some .tooManyDigits else none
  | _ => none

/-- In an array writing ends before the bracket or comma of a value that cannot be written. -/
def barrier (item : Json) : List Char :=
  item.writeError?.toList.map WriteError.mark

/-- In an object writing ends before a name that cannot be written. -/
def nameBarrier : Json → List Char
  | misnamed _ => [WriteError.tornText.mark]
  | _ => []

mutual

def render (layout : Layout) (level : Nat) : Json → List Char
  | null => "null".toList
  | bool true => "true".toList
  | bool false => "false".toList
  | int n =>
    if maxDigits < (Nat.toDigits 10 n.natAbs).length then [WriteError.tooManyDigits.mark]
    else intChars n
  | double d => doubleChars d
  | str s => quote s.toList
  | torn _ => [WriteError.tornText.mark]
  | misnamed _ => [WriteError.tornText.mark]
  | arr [] => ['[', ']']
  | arr (item :: items) =>
    barrier item ++ ('[' :: (layout.gap (level + 1) ++ (render layout (level + 1) item ++
      (renderItems layout (level + 1) items ++ (layout.gap level ++ [']'])))))
  | obj [] => ['\x7b', '\x7d']
  | obj ((name, value) :: fields) =>
    '\x7b' :: (layout.gap (level + 1) ++ (nameBarrier value ++ (quote name.toList ++ (':' :: ' ' ::
      (render layout (level + 1) value ++
        (renderFields layout (level + 1) fields ++ (layout.gap level ++ ['\x7d'])))))))

def renderItems (layout : Layout) (level : Nat) : List Json → List Char
  | [] => []
  | item :: items =>
    barrier item ++ (layout.comma level ++
      (render layout level item ++ renderItems layout level items))

def renderFields (layout : Layout) (level : Nat) : List (String × Json) → List Char
  | [] => []
  | (name, value) :: fields =>
    layout.comma level ++ (nameBarrier value ++ (quote name.toList ++ (':' :: ' ' ::
      (render layout level value ++ renderFields layout level fields))))

end

def compact (v : Json) : String :=
  String.ofList (render .line 0 v)

def pretty (v : Json) : String :=
  String.ofList (render .indented 0 v)

def WriteError.ofMark (c : Char) : WriteError :=
  if c == tornText.mark then tornText else tooManyDigits

/-- How much of the text of a value can be written, and why it ends where it is not whole. -/
def writable (v : Json) : String × Option WriteError :=
  let (written, rest) := (render .indented 0 v).span (1 < ·.toNat)
  (String.ofList written, rest.head?.map WriteError.ofMark)

end JarAtlas.Json
