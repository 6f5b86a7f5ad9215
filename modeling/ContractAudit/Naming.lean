import ContractAudit.Text.Basic

/-! # Naming rules

The shapes of names in the style guide of Solidity. A line feed at the end of a name does not count.
-/

namespace ContractAudit

open Text Char

/-! ## Uppercase letters

Runs of halved code points, of the even and of the odd ones, since in most alphabets the cases alternate.
-/

namespace Text

def uppercaseEvens : List Nat :=
  numbersOf ("DsqqBcjyedbbbcbdbbbeccbbcbbbdbcbjjcBgdbbbcgFocbbhfbibetcbmcbcbbzyreBchBwbtCDotObBrBQjwbbGeCxeBxeeedfe" ++
    "eeedneBkcgcgcgdfcFbbebbcdcdfbcfbqiQdnBJkyydedfBzhbWZexjoCphbBfhfecbzebccQNsnXmuCqsDatBIbBaCGsqQEyqTGinnnnnncbb" ++
    "bbbgnnnbbcbinbbgbennnnnnnnnnnnpnqnqnqnqnqbDGsrBNrndndn")

def uppercaseOdds : List Nat :=
  numbersOf ("DslbdBtiydbbcdbdbbccdccfhbcikbcbBhcbdGabebcprbbbrcbBaCuhBxtCDpucbNxBrBQjvbcLgeedfeeeedfeeeBkcgcgcgcgc" ++
    "FdbbcbbbbbdgcbcfbcbnijbPtnBJkyzbbfcbebCbcXFhdgcocbcidvbQNdnXnuCqsDafbhbdbbBIbzCGtqQEyqTGinnnnnobcbbcbennndbebd" ++
    "odbcddonnnnnnnnnnnpmrmrmrmrmDHkrBNrndndn")

def isUppercase (c : Char) : Bool :=
  if c.toNat < 128 then 'A' ≤ c && c ≤ 'Z'
  else inRuns (if c.toNat % 2 == 0 then uppercaseEvens else uppercaseOdds) (c.toNat / 2)

end Text

/-! ## Naming rules -/

namespace Naming

variable (name : String)

def chars : List Char := if let '\n' :: rest := name.toList.reverse then rest.reverse else name.toList

def dropUnderscore (cs : List Char) : List Char := if let '_' :: rest := cs.reverse then rest.reverse else cs

def isPlain (c : Char) : Bool := c.isAlphanum

def isWord (first : Char -> Bool) : List Char -> Bool
  | [] => false
  | c :: rest => first c && (dropUnderscore rest).all isPlain

def isCapWords : Bool := isWord isUpper (chars name)

def isMixedCase : Bool := isWord isLower (chars name)

def isMixedCaseWithUnderscore : Bool :=
  match chars name with
  | '_' :: rest => isWord isLower rest
  | cs => isWord isLower cs

def isMarked (letter : Char) (name : String) : Bool :=
  if let c :: '_' :: rest := chars name then c == letter && isWord isLower rest else false

def isImmutableName : Bool := isMarked 'i' name

def isStateName : Bool := isMarked 's' name

def isUpperCaseWithUnderscores : Bool :=
  let cs := chars name
  !cs.isEmpty && cs.all fun c => c.isUpper || c.isDigit || c == '_'

def isAmbiguous : Bool := if let [c] := chars name then c == 'l' || c == 'O' || c == 'I' else false

def hasTestWord (name word : String) : Bool :=
  if endsWith name word then true
  else (after? word name).any fun rest => match rest.toList with
    | [] => true
    | c :: _ => c == '_' || isUppercase c

end Naming

end ContractAudit
