import ContractAudit.Fault

/-! # Wrapping text to a width

A line breaks at blanks, after the hyphens of hyphenated words, around long dashes, and inside a word only if the word is
longer than a line.
-/

namespace ContractAudit.Text

def wideRuns : List Nat :=
  numbersOf ("GLkDsGSocncHiedbcbUbcvcBymBrbtbnbicrcfcibfbvbhcbbebcbhbecBcbBjbbbedbbCjdybobBHbcBzbebBFeRfcTziKKeCmBG" ++
    "WlBThBdYtQNsMQmSgBFqkwCiFtDsExhBQKnZKuXCybHubHibckDxLdmjbCsbwmBrefmrdbdCtbbbHfcClnebysbBacnbDiDhBwCsgbddcllchj" ++
    "ItrKxBvbkbHdEiFfBXpEAGp")

def zeroWidthRuns : List Nat :=
  numbersOf ("abBDnEiKphKdBtbbbcbcbbCulBwvqbDxhcgccbeBjbBeBbDnlCgjjbyebjbdbfBrdCiiBqybBgCdbbbeiebdhkcBdbCgbeeibucBa" ++
    "bccCfbececcddbBecdblcCfbefbcebucwgbbCgbcbbeibhclcBebCjbmbBybdbCdbbdfdbehclcBdbCgbcbgbfcucBccCfceeibucBdbCubhdb" ++
    "bDmbchmiDubcjlgCwcBbbbbbbCdobfbcflbBkjbDyebgbccczcedqenbccgbpbHmGeNldBKkdBdcBecBecCmcbhibcljbBtdbbEncBibEodecj" ++
    "bgdIlccbCgbbhbbbbcigkcbBwBfBxeBwbbfbbfbBojmcBgeccbdCebbcdbbdCgiccFwdbnbhebgbdcHqCmUdfyhBxeEeBhEOcdFlbDsBgVieEd" ++
    "cBSQeebkBgcDccKmbdbebzcfbFvcBasnbBmizlBudBwbceccBnbCpgccccmbibBvbBzbbdccfcbbBqcibJebcbebBDZsbBCjqqqBLlbIsbFtfC" ++
    "MgdbcfeBodebGjcWbeOxcFxlBxeEtbCcpBpbcckdBxecchbCjdBkfbiCkbmcCajkecbDrdcbbcgbGebdivcCfcdbBlhdfHnicdbbxbDggbbecb" ++
    "cJeegcbcBbcDhicbbcEcbbbcgbbDxdcebfJzjbcJwcbbebFoeccebBgkBogceibjgcdBunbcPqhbgbbDewchbcbcEsgdbbcbhbbCucdbbbNjcB" ++
    "CUdfChhBOibCleDdbBDBkcGYzBucxUydrichBeeFsdCYdCdeByibobwfbpCAihbrchbcbfKbhOlbCjeCFwhEfhBTCIvJg")

def charWidth? (c : Char) : Option Nat :=
  let n := c.toNat
  if n < 32 || (127 ≤ n && n < 160) then (if n == 0 then some 0 else none)
  else if n < 127 then some 1
  else if inRuns zeroWidthRuns n then some 0
  else if inRuns wideRuns n then some 2
  else some 1

def afterMark? : List Char -> Option (List Char)
  | '\x1b' :: '[' :: rest =>
    match rest.dropWhile fun c => c.isDigit || c == ';' with
    | 'm' :: rest => some rest
    | _ => none
  | '\x1b' :: '(' :: 'B' :: rest => some rest
  | _ => none

def withoutMarks : Nat -> List Char -> List Char
  | 0, cs => cs
  | _, [] => []
  | n + 1, c :: cs =>
    match afterMark? (c :: cs) with
    | some rest => withoutMarks n rest
    | none => c :: withoutMarks n cs

/-- Marks for terminals take no columns. -/
def columnWidth (s : String) : Int :=
  ((withoutMarks s.length s.toList).mapM charWidth?).elim (-1) fun ws => ((ws.foldl (· + ·) 0 : Nat) : Int)

/-! ## Wrapping text to a width -/

section

variable (c : Char) (cs : Array Char)

def isBreakBlank : Bool := c == ' ' || c == '\t' || c == '\n' || c == '\r' || c.toNat == 11 || c.toNat == 12

def isWordChar : Bool := c.isAlphanum || c == '_' || 170 ≤ c.toNat

def isWordLetter : Bool := isWordChar c && !isDecimal c

def isWordPunct : Bool := isWordChar c || [singleQuote, '!', '"', '&', '.', ',', '?'].contains c

def evenBlanks : List Char -> Nat -> List Char
  | [], _ => []
  | c :: cs, column =>
    if c == '\t' then
      let n := 8 - column % 8
      List.replicate n ' ' ++ evenBlanks cs (column + n)
    else if c == '\n' || c == '\r' then ' ' :: evenBlanks cs 0
    else (if isBreakBlank c then ' ' else c) :: evenBlanks cs (column + 1)

def testAt (i : Int) (p : Char -> Bool) : Bool :=
  if i < 0 then false else cs[i.toNat]?.any p

def longDashAt (i : Nat) : Bool :=
  let dashes := ((cs.toList.drop i).takeWhile (· == '-')).length
  2 ≤ dashes && testAt cs (i + dashes : Nat) isWordChar

def hyphenAt (j : Nat) : Bool :=
  testAt cs j (· == '-') &&
    ((testAt cs (j - 1 : Int) isWordLetter && testAt cs (j - 2 : Int) isWordLetter) ||
      (testAt cs (j - 1 : Int) isWordPunct && testAt cs (j - 2 : Int) (· == '-') &&
        testAt cs (j - 3 : Int) isWordLetter)) &&
    testAt cs (j + 1 : Nat) isWordLetter &&
    (testAt cs (j + 2 : Nat) isWordLetter ||
      (testAt cs (j + 2 : Nat) (· == '-') && testAt cs (j + 3 : Nat) isWordLetter))

def wordEnd (cs : Array Char) : Nat -> Nat -> Nat
  | 0, j => j
  | n + 1, j =>
    if hyphenAt cs j then j + 1
    else if cs.size ≤ j || testAt cs j isBreakBlank then j
    else if testAt cs (j - 1 : Int) isWordPunct && longDashAt cs j then j
    else wordEnd cs n (j + 1)

def chunks (cs : Array Char) : Nat -> Nat -> List (List Char)
  | 0, _ => []
  | n + 1, i =>
    if cs.size ≤ i then []
    else
      let stop :=
        if testAt cs i isBreakBlank then i + ((cs.toList.drop i).takeWhile isBreakBlank).length
        else if testAt cs (i - 1 : Int) isWordPunct && longDashAt cs i then
          i + ((cs.toList.drop i).takeWhile (· == '-')).length
        else wordEnd cs cs.size (i + 1)
      ((cs.toList.take stop).drop i) :: chunks cs n stop

def isBlankChunk (c : List Char) : Bool := c.all isBlank

def fillLine (width : Nat) : List (List Char) -> Nat -> List (List Char) × List (List Char)
  | [], _ => ([], [])
  | c :: rest, used =>
    if used + c.length ≤ width then
      let (line, more) := fillLine width rest (used + c.length)
      (c :: line, more)
    else ([], c :: rest)

def hyphenBefore? (chunk : List Char) (stop : Nat) : Option Nat :=
  let front := chunk.take stop
  match (front.reverse.findIdx? (· == '-')).map fun k => front.length - 1 - k with
  | some h => if 0 < h && (chunk.take h).any (· != '-') then some (h + 1) else none
  | none => none

def fillLines (width : Nat) : Nat -> List (List Char) -> Bool -> List (List Char)
  | 0, _, _ => []
  | _ + 1, [], _ => []
  | n + 1, c :: rest, started =>
    let pieces := if started && isBlankChunk c then rest else c :: rest
    let (line, more) := fillLine width pieces 0
    let used := line.foldl (fun k c => k + c.length) 0
    let (line, more) := match more with
      | long :: others =>
        if width < long.length then
          let left := width - used
          let stop := if left < long.length then (hyphenBefore? long left).getD left else left
          (line ++ [long.take stop], long.drop stop :: others)
        else (line, more)
      | [] => (line, more)
    let line := match line.reverse with
      | last :: before => if isBlankChunk last then before.reverse else line
      | [] => line
    if line.isEmpty then fillLines width n more started
    else line.flatten :: fillLines width n more true

def wrap (width : Nat) (s : String) : Result (List String) :=
  if width == 0 then .error (.badValue s!"invalid width {width} (must be > 0)")
  else
    let cs := (evenBlanks s.toList 0).toArray
    .ok ((fillLines width (2 * cs.size + 2) (chunks cs (cs.size + 1) 0) false).map .ofList)

end

end ContractAudit.Text
