import ContractAudit.Report.Finding

/-! # Findings as documents -/

namespace ContractAudit

def Source.document (s : Source) : Json :=
  .obj [("start", .int s.start), ("length", .int s.length), ("filename_relative", .str s.file.short),
    ("filename_absolute", .str s.file.absolute), ("filename_short", .str s.file.short), ("is_dependency", .bool false),
    ("lines", .arr (s.lines.map fun (n : Nat) => .int n)), ("starting_column", .int s.startColumn),
    ("ending_column", .int s.endColumn)]

/-- A function names what it belongs to. -/
def Ancestor.document : List Ancestor -> Json
  | [] => .null
  | a :: rest =>
    let specific := a.signature.toList.map fun s =>
      ("type_specific_fields", .obj [("parent", document rest), ("signature", .str s)])
    .obj ([("type", .str a.kind), ("name", .str a.name), ("source_mapping", a.source.document)] ++ specific)

def Element.document (e : Element) : Json :=
  let specific := [e.lineage.map fun l => ("parent", Ancestor.document l), e.signature.map fun s => ("signature", .str s),
    e.directive.map fun d => ("directive", .arr (d.map .str))].filterMap id
  .obj ([("type", .str e.kind), ("name", .str e.name), ("source_mapping", e.source.document)] ++
    (if specific.isEmpty then [] else [("type_specific_fields", .obj specific)]) ++
    (if e.additional.isEmpty then [] else [("additional_fields", .obj e.additional)]))

namespace Report

def Patch.document (p : Patch) : Json :=
  .obj [("start", .int p.start), ("end", .int p.stop), ("old_string", .str p.old), ("new_string", .str p.new)]

def patchFields (r : Report) : List (String × Json) :=
  (if r.patches.isEmpty then [] else
    [("patches", .obj (r.patches.map fun (file, ps) => (file, .arr (ps.map Patch.document))))]) ++
    r.diffs.toList.map fun diffs => ("patches_diff", .obj (diffs.map fun (file, d) => (file, .str d)))

def document (r : Report) : Json :=
  .obj ([("elements", .arr (r.elements.map Element.document)), ("description", .str r.description),
    ("markdown", .str r.markdown), ("first_markdown_element", .str r.firstLink), ("id", .str r.id)] ++
    (if r.additional.isEmpty then [] else [("additional_fields", .obj r.additional)]) ++
    [("check", .str r.check), ("impact", .str r.impact.label), ("confidence", .str r.confidence.label)] ++ r.patchFields)

/-! ## Checklists -/

def byCheck (found : List Report) : Table String (List Report) := found.foldl (fun t r => t.alter r.check [] (· ++ [r])) []

def lastOf (found : List Report) (f : Report -> Severity) : String := ((found.getLast?.map f).map Severity.label).getD ""

def checklistItem (r : Report) (number : Nat) : List String :=
  [s!" - [ ] ID-{number}", r.markdown] ++ (if r.firstLink == "" then [] else [r.firstLink, "\n"])

/-- With a limit only five of each check are shown. -/
def checklistParts (limit : String) : Nat -> Table String (List Report) -> List String
  | _, [] => []
  | number, (check, found) :: rest =>
    let isCut := limit != "" && found.length > 5
    let shown := if isCut then found.take 5 else found
    [s!"## {check}", "Impact: " ++ lastOf found (·.impact), "Confidence: " ++ lastOf found (·.confidence)] ++
      ((shown.zipIdx number).flatMap fun (r, i) => checklistItem r i) ++
      (if isCut then ["**More results were found, check [" ++ limit ++ "](" ++ limit ++ ")**"] else []) ++
      checklistParts limit (number + shown.length) rest

def checklist (limit : String) (isComplete : Bool) (found : List Report) : List String :=
  let checks := byCheck found
  (if isComplete then [] else
    ["**THIS CHECKLIST IS NOT COMPLETE**. Use `--show-ignored-findings` to show all the results."]) ++ ["Summary"] ++
    (checks.map fun (check, found) => s!" - [{check}](#{check}) ({found.length} results) ({lastOf found (·.impact)})") ++
    checklistParts limit 0 checks

end Report

/-! ## Markdown -/

namespace Report.Markdown

open Text

def level (line : String) : Nat :=
  let bare := replace line "\t" ""
  let dashed := startsWith bare " -" || startsWith bare "-"
  count line "\t" + 1 + (if dashed then 1 else 0)

def items : List String -> Nat -> List String
  | [], _ => []
  | l :: rest, depth =>
    let next := level l
    let marks := times (depth - next) "</ul>" ++ times (next - depth) "<ul>" ++ "<li>"
    (marks ++ l) :: items rest next

/-- Its last character is the end of its last line. -/
def nestedList (text : String) : String := .join (items (splitOn (dropLast 1 text) "\n") 0)

def isOwnerChar (c : Char) : Bool := c.isAlpha || c == '-'

def isNameChar (c : Char) : Bool := c.isAlphanum || c == '_' || c == '.' || c == '-'

def isJoint (c : Char) : Bool := c == ':' || c == '/'

/-- The number of characters up to the name after the repository, and that name. -/
def branchAt? (cs : List Char) : Option (Nat × List Char) := do
  let rest <- afterPrefix? "https://github".toList cs
  match rest with
  | dot :: more =>
    if dot == '\n' then none
    else
      let rest <- afterPrefix? "com/".toList more
      let (owner, rest) := rest.span isOwnerChar
      if owner.isEmpty then none
      else match rest with
        | j :: rest =>
          if isJoint j then
            let (name, rest) := rest.span isNameChar
            if name.isEmpty then none
            else
              let rest := match rest with
                | k :: more => if isJoint k then more else rest
                | [] => rest
              some (cs.length - rest.length, rest.takeWhile isNameChar)
          else none
        | [] => none
  | [] => none

def findBranch? : List Char -> Nat -> Option (Nat × List Char)
  | [], _ => none
  | c :: cs, start =>
    match branchAt? (c :: cs) with
    | some (n, name) => some (start + n, name)
    | none => findBranch? cs (start + 1)

/-- An address of a repository ends with a slash, a missing branch is added, and the page of a tree becomes that of a file. -/
def root (url : String) : String :=
  (findBranch? url.toList 0).elim url fun (n, name) =>
    let url := if url.toList.getLast? == some '/' then url else url ++ "/"
    if name.isEmpty then url ++ "master/tree/"
    else if name == "tree".toList then take n url ++ "blob" ++ drop (n + 4) url
    else url

end Report.Markdown

end ContractAudit
