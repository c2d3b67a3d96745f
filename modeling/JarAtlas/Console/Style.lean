import JarAtlas.Fault

/-!
Styles of text on a console. A style is written in words: traits, which may be denied, a colour, the
colour of the ground, and a link. One style can be written in many ways and has one name.
-/

namespace JarAtlas.Console

inductive StyleError where
  | unknown
  | badNumber
  deriving DecidableEq, Repr

structure Style where
  traits : List (String × Bool) := []
  colour : Option String := none
  ground : Option String := none
  link : Option String := none
  deriving DecidableEq, Repr

namespace Style

def traitNames : List String :=
  ["bold", "dim", "italic", "underline", "blink", "blink2", "reverse", "conceal", "strike",
    "underline2", "frame", "encircle", "overline"]

def shortForms : List (String × String) :=
  [("d", "dim"), ("b", "bold"), ("i", "italic"), ("u", "underline"), ("r", "reverse"),
    ("c", "conceal"), ("s", "strike"), ("uu", "underline2"), ("o", "overline")]

def trait? (word : String) : Option String :=
  if traitNames.contains word then some word else shortForms.lookup word

def colourLines : List String := [
  "default black red green yellow blue magenta cyan white bright_black bright_red",
  "bright_green bright_yellow bright_blue bright_magenta bright_cyan bright_white grey0 gray0",
  "navy_blue dark_blue blue3 blue1 dark_green deep_sky_blue4 dodger_blue3 dodger_blue2 green4",
  "spring_green4 turquoise4 deep_sky_blue3 dodger_blue1 green3 spring_green3 dark_cyan",
  "light_sea_green deep_sky_blue2 deep_sky_blue1 spring_green2 cyan3 dark_turquoise",
  "turquoise2 green1 spring_green1 medium_spring_green cyan2 cyan1 dark_red deep_pink4",
  "purple4 purple3 blue_violet orange4 grey37 gray37 medium_purple4 slate_blue3 royal_blue1",
  "chartreuse4 dark_sea_green4 pale_turquoise4 steel_blue steel_blue3 cornflower_blue",
  "chartreuse3 cadet_blue sky_blue3 steel_blue1 pale_green3 sea_green3 aquamarine3",
  "medium_turquoise chartreuse2 sea_green2 sea_green1 aquamarine1 dark_slate_gray2",
  "dark_magenta dark_violet purple light_pink4 plum4 medium_purple3 slate_blue1 yellow4",
  "wheat4 grey53 gray53 light_slate_grey light_slate_gray medium_purple light_slate_blue",
  "dark_olive_green3 dark_sea_green light_sky_blue3 sky_blue2 dark_sea_green3",
  "dark_slate_gray3 sky_blue1 chartreuse1 light_green pale_green1 dark_slate_gray1 red3",
  "medium_violet_red magenta3 dark_orange3 indian_red hot_pink3 medium_orchid3 medium_orchid",
  "medium_purple2 dark_goldenrod light_salmon3 rosy_brown grey63 gray63 medium_purple1 gold3",
  "dark_khaki navajo_white3 grey69 gray69 light_steel_blue3 light_steel_blue yellow3",
  "dark_sea_green2 light_cyan3 light_sky_blue1 green_yellow dark_olive_green2 dark_sea_green1",
  "pale_turquoise1 deep_pink3 magenta2 hot_pink2 orchid medium_orchid1 orange3 light_pink3",
  "pink3 plum3 violet light_goldenrod3 tan misty_rose3 thistle3 plum2 khaki3 light_goldenrod2",
  "light_yellow3 grey84 gray84 light_steel_blue1 yellow2 dark_olive_green1 honeydew2",
  "light_cyan1 red1 deep_pink2 deep_pink1 magenta1 orange_red1 indian_red1 hot_pink",
  "dark_orange salmon1 light_coral pale_violet_red1 orchid2 orchid1 orange1 sandy_brown",
  "light_salmon1 light_pink1 pink1 plum1 gold1 navajo_white1 misty_rose1 thistle1 yellow1",
  "light_goldenrod1 khaki1 wheat1 cornsilk1 grey100 gray100 grey3 gray3 grey7 gray7 grey11",
  "gray11 grey15 gray15 grey19 gray19 grey23 gray23 grey27 gray27 grey30 gray30 grey35 gray35",
  "grey39 gray39 grey42 gray42 grey46 gray46 grey50 gray50 grey54 gray54 grey58 gray58 grey62",
  "gray62 grey66 gray66 grey70 gray70 grey74 gray74 grey78 gray78 grey82 gray82 grey85 gray85",
  "grey89 gray89 grey93 gray93"]

def colourNames : List String :=
  colourLines.flatMap (Text.split · ' ')

def within? (head : String) (word : List Char) : Option (List Char) :=
  if head.toList.isPrefixOf word && word.getLast? == some ')'
  then some ((word.drop head.length).dropLast) else none

def isHexColour : List Char → Bool
  | '#' :: ds => ds.length == 6 && ds.all fun c => c.isDigit || ('a' ≤ c && c ≤ 'f')
  | _ => false

def isColourNumber (ds : List Char) : Bool :=
  !ds.isEmpty && ds.length ≤ 3 && ds.all Char.isDigit && asciiDigits ds ≤ 255

def colourPart (ds : List Char) : Except StyleError Nat :=
  if ds.isEmpty || maxDigits < ds.length then .error .badNumber
  else .ok (digitsValue (ds.filterMap Text.digitValue?))

def colourOf (word : List Char) : Except StyleError String := do
  let low := Text.lowerChars word
  let name := String.ofList low
  if colourNames.contains name || isHexColour low then return name
  else if (within? "color(" low).any isColourNumber then return name
  else
    match within? "rgb(" low with
    | none => .error .unknown
    | some inner =>
      if inner.isEmpty || inner.any (fun c => c != ',' && (Text.digitValue? c).isNone) then
        .error .unknown
      else
        let parts := Text.splitAt ',' inner
        if parts.length != 3 then .error .unknown
        else
          let values ← parts.mapM colourPart
          if values.all (· ≤ 255) then return name else .error .unknown

def addWords (s : Style) : List (List Char) → Except StyleError Style
  | [] => .ok s
  | word :: words =>
    let low := String.ofList (Text.lowerChars word)
    match low, words with
    | "on", [] => .error .unknown
    | "on", next :: words => do addWords { s with ground := some (← colourOf next) } words
    | "not", [] => .error .unknown
    | "not", next :: words =>
      match trait? (String.ofList next) with
      | some trait => addWords { s with traits := (trait, false) :: s.traits } words
      | none => .error .unknown
    | "link", [] => .error .unknown
    | "link", next :: words => addWords { s with link := some (String.ofList next) } words
    | low, words =>
      match trait? low with
      | some trait => addWords { s with traits := (trait, true) :: s.traits } words
      | none => do addWords { s with colour := some (← colourOf low.toList) } words

def parse (cs : List Char) : Except StyleError Style :=
  if Text.trim cs == "none".toList then .ok {} else addWords {} (Text.words cs)

/-- The name of a style: its traits in their order, its colour, its ground and its link. -/
def name (s : Style) : String :=
  let traits := traitNames.filterMap fun trait =>
    (s.traits.lookup trait).map fun on => if on then trait else "not " ++ trait
  let words := traits ++ s.colour.toList ++ (s.ground.map ("on " ++ ·)).toList ++
    (s.link.map ("link " ++ ·)).toList
  if words.isEmpty then "none" else Text.join " " words

/-- The name of the style that a text means. A text that means none stands for itself, in small
letters. -/
def nameOf (cs : List Char) : Except Fault (List Char) :=
  match parse cs with
  | .ok s => .ok s.name.toList
  | .error .unknown => .ok (Text.lowerChars (Text.trim cs))
  | .error .badNumber => .error .badValue

def canShow (cs : List Char) : Bool :=
  match parse cs with
  | .error .badNumber => false
  | _ => true

end Style

end JarAtlas.Console
