import ContractAudit.Text.Basic

/-! # Source positions

Offsets count characters, lines and columns start at one.
-/

namespace ContractAudit

open Text

/-- A file of the archive has an absolute name of its own; a name that no file has stands for itself. -/
structure FileName where
  short : String
  absolute : String
  deriving DecidableEq, Inhabited

structure SourceFile where
  name : FileName
  text : String
  lineStarts : Array Nat

namespace SourceFile

def breaksFrom (at_ : Nat) : List Char -> List Nat
  | [] => []
  | c :: cs => if c == '\n' then (at_ + 1) :: breaksFrom (at_ + 1) cs else breaksFrom (at_ + 1) cs

def ofText (name : FileName) (text : String) : SourceFile := ⟨name, text, (0 :: breaksFrom 0 text.toList).toArray⟩

def position (f : SourceFile) (offset : Nat) : Nat × Nat :=
  let before := f.lineStarts.toList.takeWhile (· ≤ offset)
  (before.length, offset - before.getLast?.getD 0 + 1)

end SourceFile

structure Source where
  start : Nat := 0
  length : Nat := 0
  file : FileName := ⟨"", ""⟩
  firstLine : Nat := 0
  lastLine : Nat := 0
  startColumn : Nat := 0
  endColumn : Nat := 0
  stop : Nat := 0
  deriving Inhabited

namespace Source

def ofRange (f : SourceFile) (start length : Nat) : Source :=
  let (line, column) := f.position start
  let (lastLine, lastColumn) := f.position (start + length)
  { start, length, file := f.name, firstLine := line, lastLine := lastLine
    startColumn := column, endColumn := lastColumn, stop := start + length }

def lines (s : Source) : List Nat :=
  if s.firstLine == 0 then []
  else (List.range (s.lastLine + 1 - s.firstLine)).map (· + s.firstLine)

def linesText (s : Source) (line letter : String) : String :=
  if s.firstLine == 0 then ""
  else if s.firstLine == s.lastLine then s!"{line}{letter}{s.firstLine}"
  else s!"{line}{letter}{s.firstLine}-{letter}{s.lastLine}"

/-- `line` stands before the line numbers. -/
def render (line : String) (s : Source) : String := s.file.short ++ s.linesText line ""

def detailed (line : String) (s : Source) : String := s.render line ++ s!" ({s.startColumn} - {s.endColumn})"

def markdown (line root : String) (s : Source) : String := root ++ s.file.short ++ s.linesText line "L"

def same (a b : Source) : Bool := a.start == b.start && a.file.short == b.file.short && a.stop == b.stop

end Source

/-! ## Paths -/

namespace Path

variable (s : String)

def parts : List String := (splitOn s "/").filter fun x => x != "" && x != "."

def normal : String :=
  let body := "/".intercalate (parts s)
  if startsWith s "/" then "/" ++ body
  else if body == "" then "." else body

def parent : String :=
  match findLast? "/" (normal s) with
  | some 0 => "/"
  | some i => take i (normal s)
  | none => "."

def stem : String :=
  let name := (parts s).getLast?.getD ""
  (findLast? "." name).elim name fun i => if 0 < i && i + 1 < name.length then take i name else name

def join (directory path : String) : String :=
  if startsWith path "/" then normal path else normal (directory ++ "/" ++ path)

end Path

/-! ## Counting lines of code

A line with the start of a block comment is a comment.
-/

namespace Source

structure LineCount where
  comments : Nat := 0
  code : Nat := 0
  all : Nat := 0

namespace LineCount

/-- What follows the first occurrence of a pattern. -/
def behind? (pat : List Char) : List Char -> Option (List Char)
  | [] => none
  | c :: cs => (afterPrefix? pat (c :: cs)).or (behind? pat cs)

/-- How a line counts as a comment and as code, and whether a block comment is open after it. -/
def ofLine (inside : Bool) (line : String) : Nat × Nat × Bool :=
  if inside then (1, 0, (behind? ['*', '/'] line.toList).isNone)
  else if startsWith (stripLeft line) "//" then (1, 0, false)
  else (behind? ['/', '*'] line.toList).elim (0, if strip line == "" then 0 else 1, false) fun rest =>
    (1, 0, (behind? ['*', '/'] rest).isNone)

def next (c : LineCount × Bool) (line : String) : LineCount × Bool :=
  let (comment, code, inside) := ofLine c.2 line
  (⟨c.1.comments + comment, c.1.code + code, c.1.all + 1⟩, inside)

def ofLines (lines : List String) : LineCount := (lines.foldl next ({}, false)).1

end LineCount

end Source

end ContractAudit
