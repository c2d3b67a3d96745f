import JarAtlas.Console.Lines
import JarAtlas.Console.Markup

/-!
Tables on a console: a title, a row of headers, and rows of cells, framed by lines. Columns are as
wide as their widest cell. Where they do not fit, the widest are made narrower first; where they are
to fill the console, what is left is shared in proportion to their widths.
-/

namespace JarAtlas.Console

/-- The characters of a line of a frame: its left end, what it is made of, what stands between
columns, and its right end. -/
structure Rule where
  left : Char
  line : Char
  cross : Char
  right : Char

/-- The characters of a frame: the top line, the header's bars, the line below the header, the
body's bar and the bottom line. -/
structure Frame where
  top : Rule
  headerBar : Char
  below : Rule
  bar : Char
  bottom : Rule

def heavyFrame : Frame :=
  ⟨⟨'┏', '━', '┳', '┓'⟩, '┃', ⟨'┡', '━', '╇', '┩'⟩, '│', ⟨'└', '─', '┴', '┘'⟩⟩

def roundFrame : Frame :=
  ⟨⟨'╭', '─', '┬', '╮'⟩, '│', ⟨'├', '─', '┼', '┤'⟩, '│', ⟨'╰', '─', '┴', '╯'⟩⟩

def Rule.draw (r : Rule) (widths : List Nat) : List Char :=
  r.left :: List.intercalate [r.cross] (widths.map fun w => List.replicate w r.line) ++ [r.right]

/-- A column of a table: whether its texts stay undivided, and its cells, the header first. -/
structure Column where
  undivided : Bool := false
  cells : List Marked

/-! ### Widths

The width of a column includes a blank on each side of its cells. -/

def cellMargin : Nat := 2

def Column.measure (limit : Nat) (c : Column) : Nat :=
  if limit ≤ cellMargin then limit
  else c.cells.foldl (fun n cell => max n (min limit (Console.measure cell.text + cellMargin))) 0

def total (widths : List Nat) : Nat :=
  widths.foldl (· + ·) 0

/-- A quotient rounded to the nearest number, or to the even one of two. -/
def roundedQuotient (a b : Nat) : Nat :=
  let q := a / b
  if 2 * (a % b) < b then q
  else if b < 2 * (a % b) then q + 1
  else if q % 2 == 0 then q else q + 1

/-- Takes an amount off widths in equal parts, from those with a limit above zero and never more
than it. Each entry is a limit with its width. -/
def takeEqually (amount : Nat) (entries : List (Nat × Nat)) : List Nat :=
  go amount (entries.filter fun e => e.1 != 0).length entries
where
  go (left parts : Nat) : List (Nat × Nat) → List Nat
    | [] => []
    | (limit, w) :: rest =>
      if limit == 0 || parts == 0 then w :: go left parts rest
      else
        let part := min limit (roundedQuotient left parts)
        (w - part) :: go (left - part) (parts - 1) rest

/-- One step of narrowing: takes the excess over a limit off the widest of the columns that may be
divided, down to the next narrower ones at most. -/
def narrowOnce (limit : Nat) (columns : List (Bool × Nat)) : List (Bool × Nat) :=
  let excess := total (columns.map (·.2)) - limit
  let free := (columns.filter (·.1)).map (·.2)
  let widest := free.foldl max 0
  let next := (free.filter (· != widest)).foldl max 0
  let most := min excess (widest - next)
  let narrower := takeEqually excess
    (columns.map fun (free, w) => (if free && w == widest then most else 0, w))
  (columns.map (·.1)).zip narrower

/-- Narrows columns that may be divided until they fit or cannot be narrower. Each step makes two
widths equal or is the last one, so there are no more steps than columns and one. -/
def narrow (limit : Nat) : Nat → List (Bool × Nat) → List (Bool × Nat)
  | 0, columns => columns
  | steps + 1, columns =>
    if total (columns.map (·.2)) ≤ limit then columns
    else narrow limit steps (narrowOnce limit columns)

/-- Shares an amount among parts in proportion to their sizes, each share rounded up. -/
def distribute (amount : Nat) : List Nat → List Nat
  | [] => []
  | size :: sizes =>
    let all := total (size :: sizes)
    let share := if all == 0 then amount else (size * amount + all - 1) / all
    share :: distribute (amount - share) sizes

/-- The widths of columns that together take at most `limit`, or all of it if `expanded`. -/
def columnWidths (limit : Nat) (expanded : Bool) (columns : List Column) : List Nat :=
  let asked := columns.map fun c => max 1 (c.measure limit)
  if limit < total asked then
    let narrowed := (narrow limit (columns.length + 2)
      (columns.zip asked |>.map fun (c, w) => (!c.undivided, w))).map (·.2)
    let reduced := takeEqually (total narrowed - limit) (narrowed.map fun w => (w, w))
    (columns.zip reduced).map fun (c, w) => c.measure w
  else if expanded then
    (asked.zip (distribute (limit - total asked) asked)).map fun (w, share) => w + share
  else asked

/-! ### Drawing -/

/-- The lines of a cell in a column of a width; one without room for text has none. -/
def cellLines (undivided : Bool) (size : Nat) (cs : List Char) : List (List Char) :=
  if size ≤ cellMargin then []
  else
    let room := size - cellMargin
    (fitted .ellipsis undivided room cs).map fun line =>
      ' ' :: padded room (crop .ellipsis room line) ++ [' ']

/-- A row of cells, each with its width and lines, as lines of text. The cells of a header stand at
its lower edge. -/
def drawRow (bar : Char) (isHeader : Bool) (cells : List (Nat × List (List Char))) :
    List (List Char) :=
  let height := cells.foldl (fun n cell => max n cell.2.length) 1
  let filled := cells.map fun (size, lines) =>
    let empty := List.replicate (height - lines.length) (blanks size)
    if isHeader then empty ++ lines else lines ++ empty
  (List.range height).map fun i =>
    bar :: List.intercalate [bar] (filled.map fun lines => (lines[i]?).getD []) ++ [bar]

def titleLines (size : Nat) (title : List Char) : List (List Char) :=
  (fitted .fold false size title).map fun line => centred size (crop .fold size (trimEnd line))

def rowsOf (columns : List Column) : List (List Marked) :=
  let count := columns.foldl (fun n c => max n c.cells.length) 0
  (List.range count).map fun i => columns.filterMap fun column => column.cells[i]?

def showable : Json → Except Fault Marked
  | .str s => readMarkup s
  | _ => .error .unshowable

def titleOf (title : Json) : Except Fault (Option Marked) :=
  if title.isGiven then some <$> showable title else .ok none

/-- The texts of a column on a console of `size` columns. Where there is no room for any text, none
is looked at. -/
def columnTexts (size count : Nat) (undivided : Bool) (cells : List Json) :
    Except Fault Column := do
  if size - (count + 1) ≤ cellMargin then return ⟨undivided, cells.map fun _ => ⟨[], []⟩⟩
  else return ⟨undivided, ← cells.mapM showable⟩

def drawTable (f : Frame) (size : Nat) (expanded : Bool) (title : Json) (columns : List Column) :
    Except Fault String := do
  if columns.isEmpty then return "\n"
  let borders := columns.length + 1
  let widths := columnWidths (size - borders) expanded columns
  let above ← match ← titleOf title with
    | none => pure []
    | some m => pure (titleLines (total widths + borders) (← m.shown))
  let rows ← (rowsOf columns).mapM fun cells =>
    ((columns.zip widths).zip cells).mapM fun ((column, w), cell) => do
      let text ← if w ≤ cellMargin then pure [] else cell.shown
      return (w, cellLines column.undivided w text)
  let body := match rows with
    | [] => []
    | header :: rows =>
      f.top.draw widths :: drawRow f.headerBar true header ++ f.below.draw widths ::
        rows.flatMap (drawRow f.bar false) ++ [f.bottom.draw widths]
  return joinedLines ((above ++ body).map (crop .fold size))

/-! ### Tables of objects: a row for each object and a column for each field -/

def fileWidth : Nat := 5000

/-- The values that a value consists of: the items of a list, the characters of a text, the names of
an object. -/
def parts : Json → Except Fault (List Json)
  | .arr vs => .ok vs
  | .str s => .ok (s.toList.map fun c => .str (String.ofList [c]))
  | .obj fields => .ok (fields.map fun f => .str f.1)
  | _ => .error (.wrongKind "")

def firstNames : Json → Except Fault (List Json)
  | .arr (.obj fields :: _) => .ok (fields.map fun f => .str f.1)
  | .arr _ => .error .noMember
  | .str _ => .error .noMember
  | .obj _ => .error .noKey
  | _ => .error (.wrongKind "")

def fieldText (column object : Json) : Except Fault Json :=
  match object, column with
  | .obj _, .arr _ => .error (.wrongKind "")
  | .obj _, .obj _ => .error (.wrongKind "")
  | .obj fields, .str name => .ok (.str ((Json.lookup name fields).getD (.str "")).display)
  | .obj _, _ => .ok (.str "")
  | _, _ => .error .noMember

/-- A table of objects. Without columns those of the first object are shown. -/
def objectTable (title columns objects : Json) : Except Fault String := do
  if objects.isGiven then
    let columns ← if columns.isGiven then parts columns else firstNames objects
    let rows ← (← parts objects).mapM fun object => columns.mapM fun c => fieldText c object
    let texts ← columns.zipIdx.mapM fun (c, i) =>
      columnTexts fileWidth columns.length false (c :: rows.filterMap fun row => row[i]?)
    drawTable heavyFrame fileWidth false title texts
  else
    let text ← plain ("No data to display for '" ++ title.display ++ "'")
    return joinedLines (wrapText .fold fileWidth text)

/-! ### Panels, which take the whole width of a terminal -/

def terminalWidth : Nat := 100

/-- A text in the middle of a line of `size` columns, with a blank on each side; an odd one goes
right. -/
def withinRule (line : Char) (size : Nat) (cs : List Char) : List Char :=
  let oneLine := expandTabs (cs.map fun c => if c == '\n' then ' ' else c)
  let text := crop .fold size (' ' :: oneLine ++ [' '])
  let left := (size - width text) / 2
  trimExcess size
    (List.replicate left line ++ text ++ List.replicate (size - width text - left) line)

def panelEdge (r : Rule) (size : Nat) : Option (List Char) → List Char
  | none => r.draw [size - 2]
  | some cs => [r.left, r.line] ++ withinRule r.line (size - 4) cs ++ [r.line, r.right]

/-- The text below a panel: none if it is empty; only a text can be shown there. -/
def subtitleOf (subtitle : Json) : Except Fault (Option Marked) :=
  if subtitle.isGiven then
    match subtitle with
    | .str s => some <$> readMarkup s
    | _ => .error .noMember
  else .ok none

def panel (size : Nat) (title text : String) (subtitle : Json) : Except Fault String := do
  let f := roundFrame
  let title ← readMarkup title
  let body ← plain text
  let top := panelEdge f.top size (some (← title.shown))
  let below ← match ← subtitleOf subtitle with
    | none => pure none
    | some m => some <$> m.shown
  let lines := wrapText .fold (size - 4) body
  return joinedLines (top ::
    lines.map (fun line => f.bar :: ' ' :: padded (size - 4) line ++ [' ', f.bar]) ++
    [panelEdge f.bottom size below])

end JarAtlas.Console
