import ContractAudit.Text.Basic

/-! # Quoted texts

In single quotes, or in double quotes when the text holds a single quote and no double one. The quote in use, the backslash
and characters that do not print are escaped.
-/

namespace ContractAudit.Text

def unprintableRuns : List Nat :=
  numbersOf ("EyBhmbBBmcgehbbbubPhbBmcBycdbCdiBbegrwbHkbBwcChcDxoChcBxcpbBccbblfBfjCwbGfbicccwbhbbdecjccceibecbfczc" ++
    "dbgeccwbhbcbcbccbbfeccddbhebbhrkdbjbdbwbhbcbfckbdbdcbpecmhhbdbicccwbhbcbfcjcccdhdecbfcskcbgddbedcbbbcdcdddmefd" ++
    "dbecbgbovfnbdbxbqcjbdbehcbdcbceckhwbdbxbkbfcjbdbehcgcbeckbcnnbdbBzbdbgeqcBabdbsdybjbbchdbegbbbigkcdmCgeBdBlcbb" ++
    "bfbybbbxcfbbbgckceBgCubBkeBnbBkbpbnBlHqbbfbcOnbechbbbecBpbecBhbechbbbecpbCfbecCpcBgdBagDicgcYqbBcdDlhwjyjumnbd" ++
    "bcmDqckgkgoblgDlhBrfCskBfbmemebdBqcflBseBagldCkcCnbBdclgkgocBfBxCzdBvbEmiCidpdCihBrcliBrfUocgcBmcgcibbbbbbbBfc" ++
    "CbbpbocgbtcdbjryiBvrccBbbndBhpBhpFkeZnzlvCRscBgbNlfBtbbfbcCehcoyjhbhbhbhbhbhbhbhbEwBiBabDlmIgBamfClbDicDzfBrbD" ++
    "qbDgmBvbBRIrdCdjNkuHciHvfcbbbfyChdkgCeiCsimgEmlBedDableBhbCdjockcDzyBckgcgcgjhbhbCieEwckgQNsmxeBxMNcOccEcBmhmf" ++
    "fBabfbbbcbcbEvqRdcCchbBgBqgBzbtbeefbFfeHidgcgcgcddhbhnccmbBabtbcbpcoBiEtfdeBtdDkbndbBvBuFaBddBxpBceBkjBefBrfBe" ++
    "bBleoBqGcckgBkeBkeBoiCalmbpbhbcblbpbhbcCpLzjwkiygbBqbjCrgcbbBsbcdbcxbCuijBwtbcfBhdBbfbCmCeeucBybcfibdbBdcdekhj" ++
    "hCmBgBnemjCcdBdcBbfBahemhDcCvCdBznBzhBuikLiBfbBqbdccDaBoiBqwBaBmBcuxjDaeBkjCkbfnzhkgCbbsiBnjDsbulsbBsCnhbbbebp" ++
    "blgChfkgebicccwbhbcbfbkcccdcbgbfhchdfFjDobfBeCuikGkCccBmBiCrlkgntCggkCcBbcpexHdCiDwDfmicbcibcbBebccmjkCsicBucl" ++
    "BbCuiDfnCvKdjbBtbokBddBgcwboCvhbcbBsdbbcbjikggbcbBlbcbghkLyzHbbpBynBJnDyEhbflHoDXkDvnBPfFZtWlMUbVxhBfbkeDdbkgB" ++
    "ecgkCskkbhbvftBAmDnDxCxeCfhrCmflcoJCaiBVqBqjNFrebhbcbLfBtdreiPgDKuEdfndjhkceGYyBucxjEmCiJmkBncCwiEivCsFyumDjjz" ++
    "FfDhbCtbccbcccebmbbbhbCnbecibhbBcbebfbbdhbNccLgcBBapfbpBQmBfIrhbrchbcbfIfBtdockecMiBfrCgfbBWahbebcbpbHpcqBpCye" ++
    "kecBEfCqCyCjHmebBbbcbbcbbkbebbbbgbebbbbbbdbcbbcbbbbbbbbbbcbbcebhbebebbbkbrfdbfbrCacKkBseDwmpcpbpbBlkGsCeBdnBse" ++
    "jhcogFyBLwfqdndEmmDlhmebpmeCeikgBoiBeccDaNcmocfdfdhjBddlfgkkgiihjFrbCdBlkBNqCLFcBgGDthIocINqoLBlEPjUwCFyHHzBOT" ++
    "MrJgLECu")

def isPrintable (c : Char) : Bool :=
  if c.toNat < 128 then 32 ≤ c.toNat && c.toNat < 127
  else !inRuns unprintableRuns c.toNat

/-! ## Quoted texts -/

def hexDigits (n : Nat) : String := String.ofList (Nat.toDigits 16 n)

def padLeft (width : Nat) (fill : Char) (s : String) : String := .ofList (.replicate (width - s.length) fill ++ s.toList)

def escapeChar (quote c : Char) : String :=
  if c == quote || c == '\\' then .ofList ['\\', c]
  else if c == '\n' then "\\n"
  else if c == '\r' then "\\r"
  else if c == '\t' then "\\t"
  else if isPrintable c then .singleton c
  else if c.toNat < 256 then "\\x" ++ padLeft 2 '0' (hexDigits c.toNat)
  else if c.toNat < 65536 then "\\u" ++ padLeft 4 '0' (hexDigits c.toNat)
  else "\\U" ++ padLeft 8 '0' (hexDigits c.toNat)

def singleQuote : Char := .ofNat 39

def quoteOf (s : String) : Char := if s.toList.contains singleQuote && !s.toList.contains '"' then '"' else singleQuote

def quoted (s : String) : String :=
  let q := quoteOf s
  .singleton q ++ .join (s.toList.map (escapeChar q)) ++ .singleton q

def quotedBytes (bytes : List UInt8) : String :=
  let q := quoteOf (.ofList (bytes.map (.ofNat ·.toNat)))
  let one (b : UInt8) : String := if b < 0x80 then escapeChar q (.ofNat b.toNat) else "\\x" ++ hexDigits b.toNat
  "b" ++ .singleton q ++ .join (bytes.map one) ++ .singleton q

def quotedList (xs : List String) : String := "[" ++ ", ".intercalate (xs.map quoted) ++ "]"

def bracketed (xs : List String) : String := "[" ++ ", ".intercalate xs ++ "]"

end ContractAudit.Text
