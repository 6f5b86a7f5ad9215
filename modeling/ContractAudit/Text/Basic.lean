

/-! # Operations on texts

Positions and lengths count characters.
-/

namespace ContractAudit.Text

section

variable (pat : String) (c : Char) (n : Nat) (s : String) (p : String)

def isBlank : Bool :=
  let n := c.toNat
  (9 ≤ n && n ≤ 13) || (28 ≤ n && n ≤ 32) || n == 133 || n == 160 || n == 5760 ||
    (8192 ≤ n && n ≤ 8202) || n == 8232 || n == 8233 || n == 8239 || n == 8287 || n == 12288

/-- Numbers in base 26. A capital letter is a digit that another one follows. -/
def numbersOf (letters : String) : List Nat :=
  (letters.toList.foldl (fun (found, n) c =>
    if c.isUpper then (found, 26 * (n + c.toNat - 65)) else ((n + c.toNat - 97) :: found, 0)) ([], 0)).1.reverse

/-- Runs are given by the length of the gap before each run and the length of the run in turn. -/
def inRuns : List Nat -> Nat -> Bool
  | gap :: length :: rest, n => gap ≤ n && (n < gap + length || inRuns rest (n - (gap + length)))
  | _, _ => false

def dropBlanks (cs : List Char) : List Char := cs.dropWhile isBlank

def stripRight : String := .ofList (dropBlanks s.toList.reverse).reverse

def stripLeft : String := .ofList (dropBlanks s.toList)

def strip : String := stripRight (stripLeft s)

def take : String := .ofList (s.toList.take n)

def drop : String := .ofList (s.toList.drop n)

def dropLast : String := take (s.length - n) s

def slice (start stop : Nat) (s : String) : String := .ofList ((s.toList.take stop).drop start)

def afterPrefix? : List Char -> List Char -> Option (List Char)
  | [], cs => some cs
  | _ :: _, [] => none
  | p :: ps, c :: cs => if p == c then afterPrefix? ps cs else none

def startsWith : Bool := (afterPrefix? p.toList s.toList).isSome

def endsWith : Bool := (afterPrefix? p.toList.reverse s.toList.reverse).isSome

def after? (p s : String) : Option String := (afterPrefix? p.toList s.toList).map .ofList

def findFrom? (pat : List Char) (cs : List Char) (at_ : Nat) : Option Nat :=
  if (afterPrefix? pat cs).isSome then some at_
  else match cs with
    | [] => none
    | _ :: rest => findFrom? pat rest (at_ + 1)

def find? : Option Nat := findFrom? pat.toList s.toList 0

def findLast? : Option Nat := (findFrom? pat.toList.reverse s.toList.reverse 0).map (s.length - · - pat.length)

def contains (s pat : String) : Bool := (find? pat s).isSome

/-- `skip` characters of the current occurrence are still to be passed, `cur` is the current piece in reverse. -/
def splitList (sep : List Char) : List Char -> Nat -> List Char -> List (List Char)
  | [], _, cur => [cur.reverse]
  | c :: cs, skip, cur =>
    if 0 < skip then splitList sep cs (skip - 1) cur
    else if (afterPrefix? sep (c :: cs)).isSome then cur.reverse :: splitList sep cs (sep.length - 1) []
    else splitList sep cs 0 (c :: cur)

def splitOn (s sep : String) : List String := (splitList sep.toList s.toList 0 []).map .ofList

def replace (s old new : String) : String := .intercalate new (splitOn s old)

def count (s pat : String) : Nat := (splitOn s pat).length - 1

def words : List String :=
  go s.toList [] where
  go : List Char -> List Char -> List String
    | [], [] => []
    | [], cur => [.ofList cur.reverse]
    | c :: cs, cur =>
      if isBlank c then if let [] := cur then go cs [] else .ofList cur.reverse :: go cs []
      else go cs (c :: cur)

def times : String := .join (.replicate n s)

def sort (xs : List String) : List String := xs.mergeSort fun a b => decide (a ≤ b)

def comesBefore (lt : α -> α -> Bool) : List α -> List α -> Bool
  | [], _ => true
  | _ :: _, [] => false
  | x :: xs, y :: ys => lt x y || (!lt y x && comesBefore lt xs ys)

def textsBefore (xs ys : List String) : Bool := comesBefore (fun x y => decide (x < y)) xs ys

def ofBool (b : Bool) : String := if b then "True" else "False"

/-! ## Parts of sequences by position

A negative position counts from the end; positions outside the sequence stand for its ends.
-/

def place (length : Nat) (i : Int) : Nat := if i < 0 then (i + length).toNat else min i.toNat length

def between (start stop : Option Int) (xs : List α) : List α :=
  let first := (start.map (place xs.length)).getD 0
  let last := (stop.map (place xs.length)).getD xs.length
  (xs.take last).drop first

/-! ## Lines

A line ends at a line feed, a carriage return (with a line feed after it or not), a vertical tab, a
form feed, one of the three information separators, a next-line character or one of the two
Unicode separators. The end of a text is no line of its own.
-/

def endsLine : Bool :=
  let n := c.toNat
  (10 ≤ n && n ≤ 13) || (28 ≤ n && n ≤ 30) || n == 133 || n == 8232 || n == 8233

def linesFrom : List Char -> List Char -> List (List Char)
  | [], [] => []
  | [], cur => [cur.reverse]
  | '\r' :: '\n' :: cs, cur => cur.reverse :: linesFrom cs []
  | c :: cs, cur => if endsLine c then cur.reverse :: linesFrom cs [] else linesFrom cs (c :: cur)

def lines : List String := (linesFrom s.toList []).map .ofList

end

/-! ## Digits -/

def decimalZeros : Array Nat :=
  #[
    48, 1632, 1776, 1984, 2406, 2534, 2662, 2790, 2918, 3046, 3174, 3302,
    3430, 3558, 3664, 3792, 3872, 4160, 4240, 6112, 6160, 6470, 6608, 6784,
    6800, 6992, 7088, 7232, 7248, 42528, 43216, 43264, 43472, 43504, 43600, 44016,
    65296, 66720, 68912, 69734, 69872, 69942, 70096, 70384, 70736, 70864, 71248, 71360,
    71472, 71904, 72016, 72784, 73040, 73120, 92768, 92864, 93008, 120782, 120792, 120802,
    120812, 120822, 123200, 123632, 125264, 130032]

def otherDigitRanges : Array (Nat × Nat) :=
  #[
    (178, 179), (185, 185), (4969, 4977), (6618, 6618), (8304, 8304), (8308, 8313),
    (8320, 8329), (9312, 9320), (9332, 9340), (9352, 9360), (9450, 9450), (9461, 9469),
    (9471, 9471), (10102, 10110), (10112, 10120), (10122, 10130), (68160, 68163), (69216, 69224),
    (69714, 69722), (127232, 127242)]

def decimalValue? (c : Char) : Option Nat :=
  if c.toNat < 128 then (if c.isDigit then some (c.toNat - 48) else none)
  else (decimalZeros.find? fun z => z ≤ c.toNat && c.toNat < z + 10).map (c.toNat - ·)

def isDecimal (c : Char) : Bool := (decimalValue? c).isSome

def isAnyDigit (c : Char) : Bool :=
  isDecimal c || otherDigitRanges.any fun (first, last) => first ≤ c.toNat && c.toNat ≤ last

def hexValue? (c : Char) : Option Nat :=
  if 'a' ≤ c && c ≤ 'f' then some (c.toNat - 87)
  else if 'A' ≤ c && c ≤ 'F' then some (c.toNat - 55)
  else decimalValue? c

end ContractAudit.Text
