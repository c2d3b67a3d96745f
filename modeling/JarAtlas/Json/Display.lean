import JarAtlas.Json.Printer

/-!
How a value reads inside a message. A text stands for itself; inside a list or an object it is
quoted.
-/

namespace JarAtlas.Json

def isShown (c : Char) : Bool :=
  let n := c.toNat
  if n < 0x80 then 32 ≤ n && n < 127 else !Text.inRanges Text.hiddenRanges n

def hexDigits (count n : Nat) : List Char :=
  (List.range count).reverse.map fun i => hexDigit (n / Nat.pow 16 i % 16)

def displayChar (mark : Char) (c : Char) : List Char :=
  let n := c.toNat
  if c == mark || c == '\\' then ['\\', c]
  else if c == '\n' then ['\\', 'n']
  else if c == '\r' then ['\\', 'r']
  else if c == '\t' then ['\\', 't']
  else if isShown c then [c]
  else if n < 0x100 then '\\' :: 'x' :: hexDigits 2 n
  else if n < 0x10000 then '\\' :: 'u' :: hexDigits 4 n
  else '\\' :: 'U' :: hexDigits 8 n

/-- A text in quotes: single ones, or double ones around a text with single quotes only. -/
def displayText (cs : List Char) : List Char :=
  let mark := if cs.contains '\'' && !cs.contains '"' then '"' else '\''
  mark :: (cs.flatMap (displayChar mark) ++ [mark])

mutual

def displayInner : Json → List Char
  | null => "None".toList
  | bool true => "True".toList
  | bool false => "False".toList
  | int n => intChars n
  | double d => d.text.toList
  | str s => displayText s.toList
  | torn s => displayText s.toList
  | misnamed v => displayInner v
  | arr [] => ['[', ']']
  | arr (item :: items) => '[' :: (displayInner item ++ (displayItems items ++ [']']))
  | obj [] => ['\x7b', '\x7d']
  | obj ((name, value) :: fields) =>
    '\x7b' :: (displayText name.toList ++ (':' :: ' ' ::
      (displayInner value ++ (displayFields fields ++ ['\x7d']))))

def displayItems : List Json → List Char
  | [] => []
  | item :: items => ',' :: ' ' :: (displayInner item ++ displayItems items)

def displayFields : List (String × Json) → List Char
  | [] => []
  | (name, value) :: fields =>
    ',' :: ' ' :: (displayText name.toList ++ (':' :: ' ' ::
      (displayInner value ++ displayFields fields)))

end

def display : Json → String
  | str s => s
  | torn s => s
  | misnamed v => v.display
  | v => String.ofList (displayInner v)

end JarAtlas.Json
