import ContractAudit.Report.Finding
import ContractAudit.Text.Pattern

/-! # Which findings are shown

A finding is left out if its files are filtered out, if a comment in the source silences its check where it stands, or if it
was hidden in an earlier run.
-/

namespace ContractAudit.Report

open Text Number

structure Silence where
  start : Nat
  stop : Option Nat

def Silence.covers (s : Silence) (first last : Nat) : Bool :=
  decide (s.start < first) && s.stop.all fun stop => decide (last < stop)

/-- A check in a comment that starts or ends its silence. -/
structure Mark where
  line : Nat
  starts : Bool
  check : String

def Mark.extend (m : Mark) (ss : List Silence) : List Silence :=
  if m.starts then ss ++ [⟨m.line, none⟩]
  else ss.dropLast ++ (ss.getLast?.map fun s => { s with stop := some m.line }).toList

abbrev Silences := Table String (List Silence)

namespace Silences

def isCheckChar (c : Char) : Bool := c.isAlphanum || c == '_' || c == ',' || c == '-'

/-- The comment stands alone on its line. -/
def marked? (mark line : String) : Option (List String) := do
  let cs <- afterPrefix? "//".toList (dropBlanks line.toList)
  let cs <- afterPrefix? ("slither-disable-" ++ mark).toList (dropBlanks cs)
  some (splitOn (.ofList ((dropBlanks cs).takeWhile isCheckChar)) ",")

def marksFrom : Nat -> List String -> List Mark
  | _, [] => []
  | line, l :: rest => ((marked? "start" l).getD []).map (.mk line true) ++
      ((marked? "end" l).getD []).map (.mk line false) ++ marksFrom (line + 1) rest

def isOpen (t : Silences) (check : String) : Bool := ((t.find? check).getD []).getLast?.any (·.stop.isNone)

/-- Up to the first mark that starts an open silence or ends one that is not. -/
def record : List Mark -> Silences -> Silences
  | [], t => t
  | m :: ms, t => if t.isOpen m.check == m.starts then t else record ms (t.alter m.check [] m.extend)

def of (t : Silences) (check : String) : List Silence := (t.find? check).getD [] ++ (t.find? "all").getD []

end Silences

structure Screen where
  showSilenced : Bool := false
  includePaths : List String := []
  filterPaths : List String := []
  files : Table String (List String) := []
  silences : Table String Silences := []
  hiddenIds : List String := []
  hiddenDescriptions : List String := []

namespace Screen

variable (s : Screen) (r : Report)

def addFile (name text : String) : Screen :=
  let lines := lines text
  { s with
    files := s.files.insert name lines
    silences := s.silences.insert name (.record (Silences.marksFrom 1 lines) ((s.silences.find? name).getD [])) }

def addPlainFile (name text : String) : Screen := { s with files := s.files.insert name (lines text) }

def stripChar (c : Char) (s : String) : String :=
  .ofList (((s.toList.dropWhile (· == c)).reverse.dropWhile (· == c)).reverse)

def inner (path : String) : String := stripChar '/' (stripChar '.' ((splitOn path "..").getLast?.getD ""))

/-- A pattern that cannot be read is found nowhere. -/
def finds (paths : List String) (pattern : String) : Bool := (Text.Pattern.parse? (inner pattern)).any (paths.any ·.isIn)

def pathOf (e : Element) : String := if e.source.file.absolute == "" then "" else Path.normal e.source.file.absolute

def isElsewhere : Bool :=
  let paths := r.elements.map pathOf
  let matching := if s.includePaths.isEmpty then s.filterPaths.any (finds paths) else !s.includePaths.any (finds paths)
  !r.elements.isEmpty && matching

def isSilencedByLine (check : String) (lines : List String) (line : Nat) : Bool :=
  if line < 2 then false
  else lines[line - 2]?.any fun l =>
    (Silences.marked? "next-line" l).any fun checks => checks.contains "all" || checks.contains check

def isSilencedAt (check : String) (e : Element) : Bool :=
  if e.source.lines.isEmpty then false
  else
    let file := Path.normal e.source.file.absolute
    let silences := (s.silences.find? file).getD []
    (silences.of check).any (·.covers e.source.firstLine e.source.lastLine) ||
      isSilencedByLine check ((s.files.find? file).getD []) e.source.firstLine

def accepts : Bool :=
  !s.isElsewhere r &&
    (s.showSilenced ||
      (!(r.elements.any (s.isSilencedAt r.check)) && !s.hiddenIds.contains r.id &&
        !s.hiddenDescriptions.contains r.description))

/-- A finding that was seen is not shown again, also if it was left out the first time. -/
def keep (s : Screen) : List String -> List Report -> List Report × List String
  | seen, [] => ([], seen)
  | seen, r :: rest =>
    if seen.contains r.id then s.keep seen rest
    else
      let (shown, seen) := s.keep (r.id :: seen) rest
      (if s.accepts r then r :: shown else shown, seen)

end Screen

/-! ## Triage

The keys of notes name a file, a run and a result, with colons between them.
-/

def triageIndex? (key : String) : Option (Int × Int) :=
  match splitOn key ":" with
  | [_, run, result] => do
    let run <- decimal? run
    let result <- decimal? result
    some (run, result)
  | _ => none

/-- Positions below zero count from the end. -/
def itemAt (items : List Json) (i : Int) : Result Json :=
  let i := if i < 0 then i + items.length else i
  expect (if i < 0 then none else items[i.toNat]?) .outOfRange

def settledIndexes (notes : Json) : List (Int × Int) :=
  match notes.fieldOrNull "resultIdToNotes" with
  | .obj fields => fields.filterMap fun (key, note) =>
    if note.fieldOrNull "status" == .int 1 then triageIndex? key else none
  | _ => []

def settledIds (run notes : Json) : Result (List String) := do
  match run.fieldOrNull "runs" with
  | .arr [only] =>
    let results := ((only.fieldOrNull "results").arr?).getD []
    let ids <- ((settledIndexes notes).filter (·.1 == 0)).mapM fun (_, i) => do
      return (((<- itemAt results i).fieldOrNull "partialFingerprints").fieldOrNull "id").str?
    return ids.filterMap (·)
  | _ => return []

end ContractAudit.Report
