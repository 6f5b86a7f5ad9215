import ContractAudit.Text.Wrap

/-! # Text tables

The first column is set flush left and the others flush right, or all are centred. A table may be narrowed to a width, all
columns in proportion.
-/

namespace ContractAudit.Report

open Text

inductive Align where
  | left
  | right
  | centre

structure TextTable where
  fields : List String
  rows : List (List String)
  aligned : Bool
  maxWidth : Option Nat

namespace TextTable

def new (fields : List String) : TextTable := ⟨fields, [], true, none⟩

def blanks (n : Int) : String := .ofList (.replicate n.toNat ' ')

/-- The odd blank of a centred text goes right of a text of odd width and left of one of even width. -/
def justify (text : String) (width : Int) (align : Align) : String :=
  let own := columnWidth text
  let excess := width - own
  match align with
  | .left => text ++ blanks excess
  | .right => blanks excess ++ text
  | .centre =>
    let half := .fdiv excess 2
    if Int.fmod excess 2 == 0 then blanks half ++ text ++ blanks half
    else if Int.fmod own 2 != 0 then blanks half ++ text ++ blanks (half + 1)
    else blanks (half + 1) ++ text ++ blanks half

def cellWidth (cell : String) : Int :=
  match (splitOn cell "\n").map columnWidth with
  | w :: ws => ws.foldl max w
  | [] => 0

def naturalWidths (fields : List String) (rows : List (List String)) : List Int :=
  rows.foldl (fun ws row => (ws.zip (row.map cellWidth)).map fun (a, b) => max a b) (fields.map cellWidth)

def narrowed (limit : Nat) (widths : List Int) : List Int :=
  let total := widths.foldl (fun n w => n + w + 2) 1
  if total ≤ (limit : Int) then widths
  else
    let scale := limit.toFloat / .ofInt total
    widths.map fun w => ((.ofInt w * scale).floor.toUInt64.toNat : Int)

def wrapCell (width : Int) (cell : String) : Result String := do
  let lines <- (splitOn cell "\n").mapM fun line =>
    if width < columnWidth line then return "\n".intercalate (<- wrap width.toNat line)
    else pure line
  return "\n".intercalate lines

def rule (widths : List Int) : String :=
  if widths.isEmpty then "++"
  else .join ("+" :: widths.map fun w => .ofList (.replicate (w + 2).toNat '-') ++ "+")

def line (cells : List (String × Int × Align)) : String :=
  if cells.isEmpty then "||"
  else .join ("|" :: cells.map fun (s, w, a) => " " ++ justify s w a ++ " |")

def rowLines (columns : List (Int × Align)) (row : List String) : List String :=
  let cells := row.map (splitOn · "\n")
  let height := cells.foldl (fun h c => max h c.length) 0
  (List.range height).map fun y => line ((cells.zip columns).map fun (c, w, a) => (c.getD y "", w, a))

def fieldNames (t : TextTable) : List String :=
  match t.fields, t.rows with
  | [], row :: _ => (List.range row.length).map fun n => s!"Field {n + 1}"
  | fields, _ => fields

def render (t : TextTable) : Result String := do
  if t.aligned && t.fields.isEmpty then throw .outOfRange
  if t.fields.eraseDups.length != t.fields.length then throw (.badValue "Field names must be unique")
  let fields := t.fieldNames
  for row in t.rows do
    if row.length != fields.length then
      throw (.badValue (s!"Row has incorrect number of values, (actual) {row.length}!=" ++ s!"{fields.length} (expected)"))
  let natural := naturalWidths fields t.rows
  let widths := t.maxWidth.elim natural fun limit => if limit == 0 then natural else narrowed limit natural
  let aligns := (List.range fields.length).map fun i => if !t.aligned then .centre else if i == 0 then .left else .right
  let columns := widths.zip aligns
  let header := line ((fields.zip columns).map fun (f, w, a) => (if w < columnWidth f then take w.toNat f else f, w, a))
  let rows <- t.rows.mapM fun row => (row.zip widths).mapM fun (c, w) => wrapCell w c
  let hr := rule widths
  return "\n".intercalate ([hr, header, hr] ++ rows.flatMap (rowLines columns) ++ [hr])

end TextTable

end ContractAudit.Report
