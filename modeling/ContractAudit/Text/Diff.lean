import ContractAudit.Text.Basic
import Std.Data.HashMap

/-! # Differences of texts

The longest run of common lines is taken first, then those before and after it. What differs is shown with three lines around
it.
-/

namespace ContractAudit.Text.Diff

structure Run where
  left : Nat
  right : Nat
  size : Nat

/-- In a long text, lines that occur very often do not count. -/
def placesOf (lines : Array String) : Std.HashMap String (List Nat) :=
  let places := (List.range lines.size).foldr (fun i (t : Std.HashMap String (List Nat)) =>
    let line := lines.getD i ""
    t.insert line (i :: t.getD line [])) {}
  if lines.size < 200 then places else places.filter fun _ is => is.length ≤ lines.size / 100 + 1

structure Range where
  left : Nat
  leftStop : Nat
  right : Nat
  rightStop : Nat
  deriving Inhabited

def growBack (a b : Array String) (r : Range) : Nat -> Run -> Run
  | 0, x => x
  | fuel + 1, x =>
    if r.left < x.left && r.right < x.right && a.getD (x.left - 1) "" == b.getD (x.right - 1) "" then
      growBack a b r fuel ⟨x.left - 1, x.right - 1, x.size + 1⟩
    else x

def growOn (a b : Array String) (r : Range) : Nat -> Run -> Run
  | 0, x => x
  | fuel + 1, x =>
    if x.left + x.size < r.leftStop && x.right + x.size < r.rightStop
      && a.getD (x.left + x.size) "" == b.getD (x.right + x.size) "" then
      growOn a b r fuel { x with size := x.size + 1 }
    else x

def longest (places : Std.HashMap String (List Nat)) (a b : Array String) (r : Range) : Run :=
  let (best, _) := (List.range (r.leftStop - r.left)).foldl (fun (best, ending) k =>
    let i := r.left + k
    let js := (places.getD (a.getD i "") []).filter fun j => r.right ≤ j && j < r.rightStop
    js.foldl (fun (best, now) j =>
      let size := (if j == 0 then 0 else ending.getD (j - 1) 0) + 1
      (if size > best.size then ⟨i + 1 - size, j + 1 - size, size⟩ else best, now.insert j size))
      (best, (∅ : Std.HashMap Nat Nat)))
    ((⟨r.left, r.right, 0⟩ : Run), (∅ : Std.HashMap Nat Nat))
  growOn a b r (a.size + 1) (growBack a b r (a.size + 1) best)

def runsIn (places : Std.HashMap String (List Nat)) (a b : Array String) : Nat -> Range -> List Run
  | 0, _ => []
  | fuel + 1, r =>
    let x := longest places a b r
    if x.size == 0 then []
    else
      let before := if r.left < x.left && r.right < x.right then
        runsIn places a b fuel { r with leftStop := x.left, rightStop := x.right } else []
      let after := if x.left + x.size < r.leftStop && x.right + x.size < r.rightStop then
        runsIn places a b fuel { r with left := x.left + x.size, right := x.right + x.size } else []
      before ++ x :: after

def joinRuns : List Run -> List Run
  | [] => []
  | x :: rest =>
    match joinRuns rest with
    | [] => [x]
    | y :: more =>
      if x.left + x.size == y.left && x.right + x.size == y.right then { x with size := x.size + y.size } :: more
      else x :: y :: more

structure Step where
  isEqual : Bool
  range : Range

def steps (leftSize rightSize : Nat) : Nat -> Nat -> List Run -> List Step
  | i, j, [] => if i < leftSize || j < rightSize then [⟨false, ⟨i, leftSize, j, rightSize⟩⟩] else []
  | i, j, x :: rest =>
    let change := if i < x.left || j < x.right then [.mk false ⟨i, x.left, j, x.right⟩] else []
    let next := steps leftSize rightSize (x.left + x.size) (x.right + x.size) rest
    change ++ .mk true ⟨x.left, x.left + x.size, x.right, x.right + x.size⟩ :: next

def around : Nat := 3

def Range.tail (r : Range) : Range :=
  { r with left := max r.left (r.leftStop - around), right := max r.right (r.rightStop - around) }

def Range.head (r : Range) : Range :=
  { r with leftStop := min r.leftStop (r.left + around), rightStop := min r.rightStop (r.right + around) }

def trimStart : List Step -> List Step
  | ⟨true, r⟩ :: rest => ⟨true, r.tail⟩ :: rest
  | ss => ss

def trimStop (ss : List Step) : List Step :=
  if let ⟨true, r⟩ :: rest := ss.reverse then (⟨true, r.head⟩ :: rest).reverse else ss

/-- `group` is the current group. -/
def groups : List Step -> List Step -> List (List Step)
  | group, [] => if group.all (·.isEqual) then [] else [group]
  | group, s :: rest =>
    if s.isEqual && 2 * around < s.range.leftStop - s.range.left then
      (group ++ [⟨true, s.range.head⟩]) :: groups [⟨true, s.range.tail⟩] rest
    else groups (group ++ [s]) rest

def rangeText (start stop : Nat) : String :=
  let length := stop - start
  if length == 1 then toString (start + 1)
  else if length == 0 then s!"{start},0"
  else s!"{start + 1},{length}"

def marked (mark : String) (lines : Array String) (start stop : Nat) : List String :=
  (lines.extract start stop).toList.map (mark ++ ·)

def groupLines (a b : Array String) (group : List Step) : List String :=
  let first := (group.head?.map (·.range)).getD default
  let last := (group.getLast?.map (·.range)).getD default
  s!"@@ -{rangeText first.left last.leftStop} +{rangeText first.right last.rightStop} @@" ::
    group.flatMap fun s =>
      if s.isEqual then marked " " a s.range.left s.range.leftStop
      else marked "-" a s.range.left s.range.leftStop ++ marked "+" b s.range.right s.range.rightStop

/-- Equal texts have no difference. -/
def unified (name : String) (left right : List String) : List String :=
  let a := left.toArray
  let b := right.toArray
  let runs := joinRuns (runsIn (placesOf b) a b (a.size + b.size + 1) ⟨0, a.size, 0, b.size⟩)
  let found := groups [] (trimStop (trimStart (steps a.size b.size 0 0 runs)))
  if found.isEmpty then [] else s!"--- {name}" :: s!"+++ {name}" :: found.flatMap (groupLines a b)

end ContractAudit.Text.Diff
