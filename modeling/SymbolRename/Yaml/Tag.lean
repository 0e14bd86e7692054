import SymbolRename.Yaml.Token

/-!
# Tags of YAML

What kind of value a node stands for. A plain scalar shows it by its form: words for truth values
and nothing, numbers in several bases and in base sixty, moments, and the two signs that mean
something as a key. Everything else is text.
-/

set_option autoImplicit false

namespace SymbolRename.Yaml

inductive Tag where
  | null
  | bool
  | int
  | float
  | binary
  | moment
  | text
  | sequence
  | mapping
  | set
  | pairs
  /-- As a key: the entries of the value belong to the mapping. -/
  | merge
  /-- As a key: the value stands for the whole mapping where a scalar is wanted. -/
  | default
  | unknown
deriving DecidableEq

namespace Tag

def names : List (String × Tag) :=
  [("null", null), ("bool", bool), ("int", int), ("float", float), ("binary", binary),
    ("timestamp", moment), ("str", text), ("seq", sequence), ("map", mapping), ("set", set),
    ("omap", pairs), ("pairs", pairs), ("merge", merge), ("value", default)]

def space : String := "tag:yaml.org,2002:"

def ofUri (uri : String) : Tag :=
  match space.toList.isPrefixOf? uri.toList with
  | some name => ((names.find? (·.1.toList = name)).map (·.2)).getD unknown
  | none => unknown

def boolWords : List String :=
  ["yes", "Yes", "YES", "no", "No", "NO", "true", "True", "TRUE", "false", "False", "FALSE", "on",
    "On", "ON", "off", "Off", "OFF"]

def nullWords : List String := ["", "~", "null", "Null", "NULL"]

def infinityWords : List String := [".inf", ".Inf", ".INF"]

def nanWords : List String := [".nan", ".NaN", ".NAN"]

def dropSign : List Char → List Char
  | '+' :: s => s
  | '-' :: s => s
  | s => s

def isDigitOrLine (c : Char) : Bool := c.isDigit || c = '_'

def isExponent : List Char → Bool
  | [] => true
  | e :: sign :: digits =>
    (e = 'e' || e = 'E') && (sign = '+' || sign = '-') && !digits.isEmpty && digits.all Char.isDigit
  | _ => false

/-- What follows the parts of a number in base sixty after its first one, each behind a colon. -/
def sixties? : Nat → List Char → Option (List Char)
  | 0, _ => none
  | fuel + 1, s =>
    match s with
    | ':' :: r =>
      let digits := r.takeWhile Char.isDigit
      let rest := r.dropWhile Char.isDigit
      if digits.length = 1 || (digits.length = 2 && digits.head?.any (· ≤ '5')) then
        if rest.head? = some ':' then sixties? fuel rest else some rest
      else none
    | _ => none

def isFloat (s : List Char) : Bool :=
  let body := dropSign s
  let whole := body.takeWhile isDigitOrLine
  let rest := body.dropWhile isDigitOrLine
  let startsDigit := whole.head?.any Char.isDigit
  let pointed := match rest with
    | '.' :: r => startsDigit && isExponent (r.dropWhile isDigitOrLine)
    | _ => false
  let bare := match s with
    | '.' :: d :: r => d.isDigit && isExponent (r.dropWhile isDigitOrLine)
    | _ => false
  let sixties := match sixties? rest.length rest with
    | some ('.' :: r) => startsDigit && r.all isDigitOrLine
    | _ => false
  pointed || bare || sixties || infinityWords.contains (String.ofList body) ||
    nanWords.contains (String.ofList s)

def isInt (s : List Char) : Bool :=
  let among := fun (p : Char → Bool) (r : List Char) => !r.isEmpty && r.all fun c => p c || c = '_'
  match dropSign s with
  | '0' :: 'b' :: r => among (fun c => c = '0' || c = '1') r
  | '0' :: 'x' :: r => among (fun c => c.isDigit || ('a' ≤ c && c ≤ 'f') || ('A' ≤ c && c ≤ 'F')) r
  | ['0'] => true
  | '0' :: r => among (fun c => '0' ≤ c && c ≤ '7') r
  | c :: r =>
    let rest := r.dropWhile isDigitOrLine
    c.isDigit && (rest.isEmpty || sixties? rest.length rest = some [])
  | [] => false

def takeTwo (atLeast : Nat) (s : List Char) : Option (List Char × List Char) :=
  let digits := (s.take 2).takeWhile Char.isDigit
  if atLeast ≤ digits.length then some (digits, s.drop digits.length) else none

end Tag

structure MomentText where
  year : List Char
  month : List Char
  day : List Char
  /-- Hour, minute and second, and the digits after the point. -/
  clock : Option (List Char × List Char × List Char × List Char)
  /-- The sign of the offset, its hours and its minutes; a zone without sign is universal time. -/
  zone : Option (Option (Char × List Char × List Char))

namespace MomentText

def expect (c : Char) : List Char → Option (List Char)
  | d :: s => if c = d then some s else none
  | [] => none

def zone? (s : List Char) : Option (Option (Option (Char × List Char × List Char))) :=
  match s.dropWhile isBlank with
  | [] => if s.isEmpty then some none else none
  | ['Z'] => some (some none)
  | c :: r =>
    if c = '+' || c = '-' then do
      let (hours, r) ← Tag.takeTwo 1 r
      match r with
      | [] => some (some (some (c, hours, [])))
      | ':' :: r => do
        let (minutes, r) ← Tag.takeTwo 2 r
        if r.isEmpty then some (some (some (c, hours, minutes))) else none
      | _ => none
    else none

def afterSeparator? : List Char → Option (List Char)
  | [] => none
  | c :: r =>
    if c = 'T' || c = 't' then some r
    else if isBlank c then some (r.dropWhile isBlank)
    else none

/-- A fraction of a second behind a point, or no digits. -/
def takeFraction : List Char → List Char × List Char
  | '.' :: r => (r.takeWhile Char.isDigit, r.dropWhile Char.isDigit)
  | s => ([], s)

def time? (year month day s : List Char) : Option MomentText := do
  let (hour, s) ← Tag.takeTwo 1 (← afterSeparator? s)
  let (minute, s) ← Tag.takeTwo 2 (← expect ':' s)
  let (second, s) ← Tag.takeTwo 2 (← expect ':' s)
  let (fraction, s) := takeFraction s
  let zone ← zone? s
  some ⟨year, month, day, some (hour, minute, second, fraction), zone⟩

/-- The fields of a date or a moment; a line feed at the end does not count. -/
def ofChars? (text : List Char) : Option MomentText := do
  let s := if text.getLast? = some '\n' then text.dropLast else text
  let year := (s.take 4).takeWhile Char.isDigit
  guard (year.length = 4)
  let (month, s) ← Tag.takeTwo 1 (← expect '-' (s.drop 4))
  let (day, s) ← Tag.takeTwo 1 (← expect '-' s)
  if s.isEmpty then some ⟨year, month, day, none, none⟩ else time? year month day s

def ofText? (text : Text) : Option MomentText := text.chars? >>= ofChars?

end MomentText

namespace Tag

/-- A date alone has two digits for month and day; with a clock one is enough. -/
def isMoment (s : List Char) : Bool :=
  match MomentText.ofChars? s with
  | some m => m.clock.isSome || (m.month.length = 2 && m.day.length = 2)
  | none => false

/-- The tag that characters have by their form; a line feed at the end of a word does not count. -/
def ofChars (text : List Char) : Tag :=
  let s := if text.getLast? = some '\n' && text.length ≠ 1 then text.dropLast else text
  let word := String.ofList s
  if boolWords.contains word then bool
  else if isFloat s then float
  else if isInt s then int
  else if word = "<<" then merge
  else if nullWords.contains word then null
  else if isMoment s then moment
  else if word = "=" then default
  else if word = "!" || word = "&" || word = "*" then unknown
  else .text

def ofPlain (text : Text) : Tag := (text.chars?.map ofChars).getD .text

end Tag
end SymbolRename.Yaml
