import ContractAudit.Fault

/-! # Number literals and rounding

Values are exact fractions; only a negative exponent goes through a double.
-/

namespace ContractAudit.Number

open Text

variable (s : String) (q : Rat) (cs : List Char) (num : Nat) (den : Nat) (places : Nat)

/-! ## Nearest double

53 bits, no unit below `2 ^ -1074`, a tie to the even neighbour.
-/

def divNearest : Nat :=
  let q := num / den
  let r := num % den
  if 2 * r < den then q
  else if den < 2 * r then q + 1
  else if q % 2 == 0 then q else q + 1

def unitExponent : Int :=
  let guess : Int := (Nat.log2 num : Int) - (Nat.log2 den : Int) - 52
  let fits (e : Int) : Bool :=
    if 0 ≤ e then Nat.pow 2 52 * den * Nat.pow 2 e.toNat ≤ num else Nat.pow 2 52 * den ≤ num * Nat.pow 2 e.natAbs
  let e := if fits guess then guess else guess - 1
  max e (-1074)

def nearestDouble : Rat :=
  if num == 0 then 0
  else
    let e := unitExponent num den
    if 0 ≤ e then (divNearest num (den * Nat.pow 2 e.toNat) * Nat.pow 2 e.toNat : Nat)
    else mkRat (divNearest (num * Nat.pow 2 e.natAbs) den) (Nat.pow 2 e.natAbs)

/-! ## Numbers with a fixed number of places -/

def inPlaces (q : Rat) : Nat := divNearest (q.num.natAbs * Nat.pow 10 places) q.den

def placesText (units : Nat) : String :=
  if places == 0 then toString units
  else toString (units / Nat.pow 10 places) ++ "." ++ padLeft places '0' (toString (units % Nat.pow 10 places))

def fixed (q : Rat) : String := placesText places (inPlaces places q)

def rounded (q : Rat) : String :=
  let digits := (fixed places q).toList.reverse.dropWhile (· == '0')
  match digits with
  | '.' :: _ => .ofList ('0' :: digits).reverse
  | digits => .ofList digits.reverse

def ofDouble (x : Float) : Rat :=
  let bits := x.toBits.toNat
  let mantissa : Nat := bits % Nat.pow 2 52
  let exponent : Nat := bits / Nat.pow 2 52 % Nat.pow 2 11
  if exponent == 0 then mkRat mantissa (Nat.pow 2 1074)
  else if 1075 ≤ exponent then ((Nat.pow 2 52 + mantissa) * Nat.pow 2 (exponent - 1075) : Nat)
  else mkRat (Nat.pow 2 52 + mantissa) (Nat.pow 2 (1075 - exponent))

/-! ## Literals -/

def maxDecimalDigits : Nat := 4300

/-- Single underscores between digits only. The flag tells that an underscore may come next. -/
def digitRun? (digit? : Char -> Option Nat) (base : Nat) : List Char -> Bool -> Nat -> Option Nat
  | [], ok, acc => if ok then some acc else none
  | '_' :: cs, ok, acc => if ok then digitRun? digit? base cs false acc else none
  | c :: cs, _, acc => (digit? c).bind fun d => digitRun? digit? base cs true (acc * base + d)

def stripList : List Char := (dropBlanks (dropBlanks cs).reverse).reverse

def sign : List Char -> Bool × List Char
  | '-' :: cs => (true, cs)
  | '+' :: cs => (false, cs)
  | cs => (false, cs)

def signed (negative : Bool) (n : Nat) : Int := if negative then -(n : Int) else n

/-- Blanks around it, a sign, digits of any script and single underscores between them. -/
def decimal? : Option Int :=
  let (negative, cs) := sign (stripList s.toList)
  (digitRun? decimalValue? 10 cs false 0).map (signed negative)

def afterHexMark : List Char -> List Char
  | '0' :: 'x' :: '_' :: cs | '0' :: 'X' :: '_' :: cs | '0' :: 'x' :: cs | '0' :: 'X' :: cs | cs => cs

def hexadecimal? : Option Int :=
  let (negative, cs) := sign (stripList s.toList)
  (digitRun? hexValue? 16 (afterHexMark cs) false 0).map (signed negative)

def digitCount : Nat := (s.toList.filter isDecimal).length

def tooLong (n : Nat) : Fault :=
  .badValue (s!"Exceeds the limit ({maxDecimalDigits} digits) for integer string conversion: " ++
    s!"value has {n} digits; use sys.set_int_max_str_digits() to increase the limit")

def decimal : Result Int :=
  (decimal? s).elim (.error (.badValue ("invalid literal for int() with base 10: " ++ quoted s))) fun i =>
    if maxDecimalDigits < digitCount s then .error (tooLong (digitCount s)) else .ok i

def hexadecimal : Result Int := expect (hexadecimal? s) (.badValue ("invalid literal for int() with base 16: " ++ quoted s))

def digitsValue : Nat := cs.foldl (fun n c => n * 10 + (decimalValue? c).getD 0) 0

structure Parts where
  negative : Bool
  whole : List Char
  denominator : Option (List Char)
  decimals : List Char
  exponent : Option Int

def exponent? : Option (Int × List Char) :=
  let (negative, cs) := sign cs
  let (ds, rest) := cs.span isDecimal
  if ds.isEmpty then none else some (signed negative (digitsValue ds), rest)

def afterPoint : List Char -> List Char
  | '.' :: cs | cs => cs

/-- It starts with a digit, or with a point and a digit; then comes a denominator, or a decimal part and an exponent. -/
def parts? : Option Parts := do
  let (negative, cs) := sign (dropBlanks s.toList)
  if !(afterPoint cs).head?.any isDecimal then none
  let (whole, rest) := cs.span isDecimal
  match rest with
  | '/' :: more =>
    let (ds, rest) := more.span isDecimal
    if ds.isEmpty || !(dropBlanks rest).isEmpty then none
    else some ⟨negative, whole, some ds, [], none⟩
  | _ =>
    let (decimals, rest) := if let '.' :: more := rest then more.span isDecimal else ([], rest)
    let (exponent, rest) := match rest with
      | c :: more =>
        if c == 'e' || c == 'E' then (exponent? more).elim (none, rest) fun (e, rest) => (some e, rest)
        else (none, rest)
      | [] => (none, rest)
    if (dropBlanks rest).isEmpty then some ⟨negative, whole, none, decimals, exponent⟩ else none

def Parts.value (p : Parts) : Result Rat :=
  let checked (cs : List Char) (k : Result Rat) : Result Rat :=
    if maxDecimalDigits < cs.length then .error (tooLong cs.length) else k
  checked p.whole <|
    match p.denominator with
    | some ds =>
      checked ds <|
        let num := signed p.negative (digitsValue p.whole)
        if digitsValue ds == 0 then .error (.zeroDenominator s!"Fraction({num}, 0)")
        else .ok (mkRat num (digitsValue ds))
    | none =>
      checked p.decimals <|
        let num := signed p.negative (digitsValue (p.whole ++ p.decimals))
        let den := Nat.pow 10 p.decimals.length
        p.exponent.elim (.ok (mkRat num den)) fun e =>
          if 0 ≤ e then .ok (mkRat (num * Int.pow 10 e.toNat) den)
          else .ok (mkRat num (den * Nat.pow 10 e.natAbs))

def fraction : Result Rat := (parts? s).elim (.error (.badValue ("Invalid literal for Fraction: " ++ quoted s))) (·.value)

def showRat : String := if q.den == 1 then toString q.num else s!"{q.num}/{q.den}"

def powerOfTen (e : Int) : Rat := if 0 ≤ e then (Nat.pow 10 e.toNat : Rat) else nearestDouble 1 (Nat.pow 10 e.natAbs)

def maxExponent : Int := 77

/-- The flag tells a zero whose exponent is cut off, which is an integer and no fraction. -/
def literalNumber : Result (Rat × Bool) := do
  if startsWith s "0x" || startsWith s "0X" then return ((<- hexadecimal s : Int), false)
  let s := replace s "_" ""
  let mark := if s.toList.contains 'e' then "e" else "E"
  match splitOn s mark with
  | [_] => return (<- fraction s, false)
  | [base, expo] =>
    let base <- fraction base
    let expo <- decimal expo
    if maxExponent < expo then
      if base == 0 then return (0, true)
      throw (.fatal s!"{showRat base}e{expo} is too large to fit in any Solidity integer size")
    return (base * powerOfTen expo, false)
  | _ => throw (.badValue "too many values to unpack (expected 2)")

def literal : Result Rat := return (<- literalNumber s).1

def truncate : Int := .tdiv q.num q.den

def literalInt : Result Int := return truncate (<- literal s)

def unitFactors : List (String × Nat) :=
  [("wei", 1), ("gwei", Nat.pow 10 9), ("szabo", Nat.pow 10 12), ("finney", Nat.pow 10 15), ("ether", Nat.pow 10 18),
    ("seconds", 1), ("minutes", 60), ("hours", 60 * 60), ("days", 60 * 60 * 24),
    ("weeks", 60 * 60 * 24 * 7), ("years", 60 * 60 * 24 * 7 * 365)]

def inUnit (unit : String) : Result Int :=
  (unitFactors.lookup unit).elim (.error (.analysis s!"Subdemonination conversion impossible {showRat q} {unit}")) fun k =>
    .ok (truncate (q * (k : Rat)))

def literalInUnit (s unit : String) : Result Int := do inUnit (<- literal s) unit

end ContractAudit.Number
