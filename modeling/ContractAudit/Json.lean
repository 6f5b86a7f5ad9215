import ContractAudit.Text.Quoted

/-! # JSON values

Objects keep the order of their fields, integers are of any size, and a repeated field keeps its first place and its last
value.
-/

namespace ContractAudit

open Text

inductive Json where
  | null
  | bool (b : Bool)
  | int (i : Int)
  | real (x : Float)
  | str (s : String)
  | arr (items : List Json)
  | obj (fields : List (String × Json))
  deriving Inhabited

namespace Json

def lookup (key : String) : List (String × Json) -> Option Json
  | [] => none
  | (k, v) :: rest => if k == key then some v else lookup key rest

def field? (key : String) : Json -> Option Json
  | obj fields => lookup key fields
  | _ => none

def has (key : String) (j : Json) : Bool := (j.field? key).isSome

def fieldOrNull (key : String) (j : Json) : Json := (j.field? key).getD null

def setField (key : String) (v : Json) : List (String × Json) -> List (String × Json)
  | [] => [(key, v)]
  | (k, w) :: rest => if k == key then (k, v) :: rest else (k, w) :: setField key v rest

def str? : Json -> Option String
  | str s => some s
  | _ => none

def int? : Json -> Option Int
  | int i => some i
  | _ => none

def arr? : Json -> Option (List Json)
  | arr items => some items
  | _ => none

def isNull : Json -> Bool
  | null => true
  | _ => false

def truthy : Json -> Bool
  | null => false
  | bool b => b
  | int i => i != 0
  | real x => x != 0
  | str s => s != ""
  | arr items => !items.isEmpty
  | obj fields => !fields.isEmpty

mutual
def same : Json -> Json -> Bool
  | null, null => true
  | bool a, bool b => a == b
  | int a, int b => a == b
  | real a, real b => a == b
  | str a, str b => a == b
  | arr a, arr b => sameItems a b
  | obj a, obj b => a.length == b.length && sameFields a b
  | _, _ => false

def sameItems : List Json -> List Json -> Bool
  | [], [] => true
  | a :: as, b :: bs => same a b && sameItems as bs
  | _, _ => false

def sameFields : List (String × Json) -> List (String × Json) -> Bool
  | [], _ => true
  | (k, v) :: rest, other => ((lookup k other).any (same v)) && sameFields rest other
end

instance : BEq Json := ⟨same⟩

/-! ## JSON values in words -/

/-- How nothing, truth values and texts are written. -/
structure Style where
  null : String
  bool : Bool -> String
  str : String -> String

mutual
def write (w : Style) : Json -> String
  | null => w.null
  | bool b => w.bool b
  | int i => toString i
  | real x => toString x
  | str s => w.str s
  | arr items => "[" ++ writeItems w items ++ "]"
  | obj fields => "\x7b" ++ writeFields w fields ++ "\x7d"

def writeItems (w : Style) : List Json -> String
  | [] => ""
  | [x] => write w x
  | x :: rest => write w x ++ ", " ++ writeItems w rest

def writeFields (w : Style) : List (String × Json) -> String
  | [] => ""
  | [(k, v)] => w.str k ++ ": " ++ write w v
  | (k, v) :: rest => w.str k ++ ": " ++ write w v ++ ", " ++ writeFields w rest
end

def inner : Json -> String := write ⟨"None", ofBool, quoted⟩

def shown : Json -> String
  | str s => s
  | j => inner j

def kindName : Json -> String
  | null => "NoneType"
  | bool _ => "bool"
  | int _ => "int"
  | real _ => "float"
  | str _ => "str"
  | arr _ => "list"
  | obj _ => "dict"

/-! ## Writing JSON

One line, a blank after each comma and colon, all characters outside ASCII escaped as UTF-16 units.
-/

def unit16 (n : Nat) : String := "\\u" ++ Text.padLeft 4 '0' (Text.hexDigits n)

def printChar (c : Char) : String :=
  if c == '"' then "\\\""
  else if c == '\\' then "\\\\"
  else if c == '\n' then "\\n"
  else if c == '\r' then "\\r"
  else if c == '\t' then "\\t"
  else if c.toNat == 8 then "\\b"
  else if c.toNat == 12 then "\\f"
  else if c.toNat < 32 then unit16 c.toNat
  else if c.toNat < 128 then .singleton c
  else if c.toNat < 65536 then unit16 c.toNat
  else
    let m := c.toNat - 65536
    unit16 (0xD800 + m / 1024) ++ unit16 (0xDC00 + m % 1024)

def printString (s : String) : String := "\"" ++ .join (s.toList.map printChar) ++ "\""

def print : Json -> String := write ⟨"null", fun b => if b then "true" else "false", printString⟩

def newLine (depth : Nat) : String := "\n" ++ Text.times (2 * depth) " "

mutual
def pretty (depth : Nat) : Json -> String
  | arr [] => "[]"
  | arr items => "[" ++ prettyItems (depth + 1) items ++ newLine depth ++ "]"
  | obj [] => "\x7b\x7d"
  | obj fields => "\x7b" ++ prettyFields (depth + 1) fields ++ newLine depth ++ "\x7d"
  | j => print j

def prettyItems (depth : Nat) : List Json -> String
  | [] => ""
  | [x] => newLine depth ++ pretty depth x
  | x :: rest => newLine depth ++ pretty depth x ++ "," ++ prettyItems depth rest

def prettyFields (depth : Nat) : List (String × Json) -> String
  | [] => ""
  | [(k, v)] => newLine depth ++ printString k ++ ": " ++ pretty depth v
  | (k, v) :: rest => newLine depth ++ printString k ++ ": " ++ pretty depth v ++ "," ++ prettyFields depth rest
end

def byKey (fields : List (String × Json)) : List (String × Json) := fields.mergeSort fun a b => decide (a.1 ≤ b.1)

mutual
def arrange (order : List Json -> List Json) : Json -> Json
  | arr items => arr (order (arrangeItems order items))
  | obj fields => obj (byKey (arrangeFields order fields))
  | j => j

def arrangeItems (order : List Json -> List Json) : List Json -> List Json
  | [] => []
  | x :: rest => arrange order x :: arrangeItems order rest

def arrangeFields (order : List Json -> List Json) : List (String × Json) -> List (String × Json)
  | [] => []
  | (k, v) :: rest => (k, arrange order v) :: arrangeFields order rest
end

def sortKeys : Json -> Json := arrange id

def canonical : Json -> Json := arrange fun items => (byKey (items.map fun j => (j.print, j))).map (·.2)

/-! ## Reading JSON

The fuel bounds the number of nested calls; the length of the text is enough, since every call takes a character.
-/

def isGap (c : Char) : Bool := c == ' ' || c == '\n' || c == '\r' || c == '\t'

def skipGap (cs : List Char) : List Char := cs.dropWhile isGap

def hex4? : List Char -> Option (Nat × List Char)
  | a :: b :: c :: d :: rest => do
    let x <- Text.hexValue? a
    let y <- Text.hexValue? b
    let z <- Text.hexValue? c
    let w <- Text.hexValue? d
    some (((x * 16 + y) * 16 + z) * 16 + w, rest)
  | _ => none

/-- Two surrogates make one character. -/
def escape? : List Char -> Option (Char × List Char)
  | '"' :: rest => some ('"', rest)
  | '\\' :: rest => some ('\\', rest)
  | '/' :: rest => some ('/', rest)
  | 'b' :: rest => some (.ofNat 8, rest)
  | 'f' :: rest => some (.ofNat 12, rest)
  | 'n' :: rest => some ('\n', rest)
  | 'r' :: rest => some ('\r', rest)
  | 't' :: rest => some ('\t', rest)
  | 'u' :: rest => do
    let (hi, rest) <- hex4? rest
    if 0xD800 ≤ hi && hi < 0xDC00 then
      match rest with
      | '\\' :: 'u' :: more =>
        let (lo, more) <- hex4? more
        if 0xDC00 ≤ lo && lo < 0xE000 then some (.ofNat (0x10000 + (hi - 0xD800) * 0x400 + (lo - 0xDC00)), more)
        else some (.ofNat 0xFFFD, rest)
      | _ => some (.ofNat 0xFFFD, rest)
    else if 0xDC00 ≤ hi && hi < 0xE000 then some (.ofNat 0xFFFD, rest)
    else some (.ofNat hi, rest)
  | _ => none

def stringRest? : Nat -> List Char -> List Char -> Option (String × List Char)
  | 0, _, _ => none
  | _ + 1, [], _ => none
  | _ + 1, '"' :: rest, acc => some (String.ofList acc.reverse, rest)
  | n + 1, '\\' :: rest, acc => do
    let (c, rest) <- escape? rest
    stringRest? n rest (c :: acc)
  | n + 1, c :: rest, acc => stringRest? n rest (c :: acc)

def digitsValue (cs : List Char) : Nat := cs.foldl (fun n c => n * 10 + (c.toNat - 48)) 0

def number? (cs : List Char) : Option (Json × List Char) := do
  let (negative, cs) := match cs with
    | '-' :: rest => (true, rest)
    | _ => (false, cs)
  let (whole, cs) := cs.span Char.isDigit
  if whole.isEmpty then none
  let (fraction, cs, hasFraction) := match cs with
    | '.' :: rest =>
      let (f, rest) := rest.span Char.isDigit
      (f, rest, true)
    | _ => ([], cs, false)
  let (exponent, cs, hasExponent) := match cs with
    | c :: rest =>
      if c == 'e' || c == 'E' then
        let (sign, rest) := match rest with
          | '-' :: more => (true, more)
          | '+' :: more => (false, more)
          | _ => (false, rest)
        let (e, rest) := rest.span Char.isDigit
        let v : Int := digitsValue e
        (if sign then -v else v, rest, true)
      else ((0 : Int), cs, false)
    | [] => ((0 : Int), cs, false)
  if !hasFraction && !hasExponent then
    let v : Int := digitsValue whole
    some (int (if negative then -v else v), cs)
  else
    let mantissa := digitsValue (whole ++ fraction)
    let scale : Int := exponent - fraction.length
    let x := if scale < 0 then Float.ofScientific mantissa true scale.natAbs
      else Float.ofScientific mantissa false scale.natAbs
    some (real (if negative then -x else x), cs)

mutual
def value? : Nat -> List Char -> Option (Json × List Char)
  | 0, _ => none
  | n + 1, cs =>
    match skipGap cs with
    | '"' :: rest => (stringRest? (rest.length + 1) rest []).map fun (s, rest) => (str s, rest)
    | '[' :: rest =>
      match skipGap rest with
      | ']' :: rest => some (arr [], rest)
      | rest => (items? n rest []).map fun (xs, rest) => (arr xs, rest)
    | '\x7b' :: rest =>
      match skipGap rest with
      | '\x7d' :: rest => some (obj [], rest)
      | rest => (members? n rest []).map fun (xs, rest) => (obj xs, rest)
    | 't' :: 'r' :: 'u' :: 'e' :: rest => some (bool true, rest)
    | 'f' :: 'a' :: 'l' :: 's' :: 'e' :: rest => some (bool false, rest)
    | 'n' :: 'u' :: 'l' :: 'l' :: rest => some (null, rest)
    | rest => number? rest

def items? : Nat -> List Char -> List Json -> Option (List Json × List Char)
  | 0, _, _ => none
  | n + 1, cs, acc => do
    let (v, rest) <- value? n cs
    match skipGap rest with
    | ',' :: rest => items? n rest (v :: acc)
    | ']' :: rest => some ((v :: acc).reverse, rest)
    | _ => none

def members? : Nat -> List Char -> List (String × Json) -> Option (List (String × Json) × List Char)
  | 0, _, _ => none
  | n + 1, cs, acc =>
    match skipGap cs with
    | '"' :: rest => do
      let (k, rest) <- stringRest? (rest.length + 1) rest []
      match skipGap rest with
      | ':' :: rest =>
        let (v, rest) <- value? n rest
        let acc := setField k v acc
        match skipGap rest with
        | ',' :: rest => members? n rest acc
        | '\x7d' :: rest => some (acc, rest)
        | _ => none
      | _ => none
    | _ => none
end

def parse? (s : String) : Option Json :=
  let cs := s.toList
  (value? (cs.length + 1) cs).bind fun (v, rest) => if (skipGap rest).isEmpty then some v else none

end Json

end ContractAudit
