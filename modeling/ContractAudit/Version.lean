import ContractAudit.Number.Literal

/-! # Version numbers

A development build comes before a pre-release, that before the release, and the release before a post-release. Trailing
zeros of a release do not matter.
-/

namespace ContractAudit

open Number

inductive LocalPart where
  | word (s : String)
  | number (n : Nat)

structure Version where
  epoch : Nat
  release : List Nat
  pre : Option (Nat × Nat)
  post : Option Nat
  dev : Option Nat
  localParts : List LocalPart

namespace Version

def ofRelease (release : List Nat) : Version := ⟨0, release, none, none, none, []⟩

variable (v : Version) (cs : List Char)

def number? : Option (Nat × List Char) :=
  let (ds, rest) := cs.span Char.isDigit
  if ds.isEmpty then none else some (digitsValue ds, rest)

def releaseTail : Nat -> List Char -> List Nat × List Char
  | 0, cs => ([], cs)
  | n + 1, '.' :: cs =>
    match number? cs with
    | some (k, rest) =>
      let (ks, rest) := releaseTail n rest
      (k :: ks, rest)
    | none => ([], '.' :: cs)
  | _ + 1, cs => ([], cs)

def skipSeparator : List Char -> List Char
  | c :: cs => if c == '-' || c == '_' || c == '.' then cs else c :: cs
  | [] => []

def mark? (words : List (String × Nat)) (cs : List Char) : Option ((Nat × Nat) × List Char) :=
  let cs := skipSeparator cs
  words.findSome? fun (w, kind) => do
    let rest <- Text.afterPrefix? w.toList cs
    match number? (skipSeparator rest) with
    | some (n, more) => some ((kind, n), more)
    | none => some ((kind, 0), match rest with
      | c :: more => if c == '-' || c == '_' || c == '.' then more else rest
      | [] => [])

def preWords : List (String × Nat) :=
  [("alpha", 0), ("a", 0), ("beta", 1), ("b", 1), ("preview", 2), ("pre", 2), ("c", 2), ("rc", 2)]

def postWords : List (String × Nat) := [("post", 0), ("rev", 0), ("r", 0)]

def isLocalChar (c : Char) : Bool := c.isDigit || ('a' ≤ c && c ≤ 'z')

def localPart : LocalPart :=
  if cs.all Char.isDigit then .number (digitsValue cs) else .word (String.ofList cs)

def localParts? : Nat -> List Char -> Option (List LocalPart)
  | 0, _ => none
  | n + 1, cs =>
    let (p, rest) := cs.span isLocalChar
    if p.isEmpty then none
    else match rest with
      | [] => some [localPart p]
      | c :: more => if c == '-' || c == '_' || c == '.' then (localParts? n more).map (localPart p :: ·) else none

def parse? (s : String) : Option Version := do
  let cs := (stripList s.toList).map .toLower
  let cs := if let 'v' :: rest := cs then rest else cs
  let (first, rest) <- number? cs
  let (epoch, first, rest) <- match rest with
    | '!' :: more => do
      let (n, rest) <- number? more
      some (first, n, rest)
    | _ => some (0, first, rest)
  let (tail, rest) := releaseTail (rest.length + 1) rest
  let (pre, rest) := (mark? preWords rest).elim (none, rest) fun (m, rest) => (some m, rest)
  let implicit := if let '-' :: more := rest then number? more else none
  let (post, rest) := match implicit with
    | some (n, rest) => (some n, rest)
    | none => (mark? postWords rest).elim (none, rest) fun ((_, n), rest) => (some n, rest)
  let (dev, rest) := (mark? [("dev", 0)] rest).elim (none, rest) fun ((_, n), rest) => (some n, rest)
  match rest with
  | [] => some ⟨epoch, first :: tail, pre, post, dev, []⟩
  | '+' :: more =>
    let parts <- localParts? (more.length + 1) more
    some ⟨epoch, first :: tail, pre, post, dev, parts⟩
  | _ => none

def parse (s : String) : Result Version := expect (parse? s) (.badVersion ("Invalid version: " ++ Text.quoted s))

def trimmed (release : List Nat) : List Nat := (release.reverse.dropWhile (· == 0)).reverse

def compareLists : List Nat -> List Nat -> Ordering
  | [], [] => .eq
  | [], _ => .lt
  | _, [] => .gt
  | a :: as, b :: bs => (compare a b).then (compareLists as bs)

def preKey : List Nat :=
  v.pre.elim (if v.post.isNone && v.dev.isSome then [0] else [2]) fun (k, n) => [1, k, n]

def postKey : List Nat := v.post.elim [0] fun n => [1, n]

def devKey : List Nat := v.dev.elim [1] fun n => [0, n]

def compareLocal : List LocalPart -> List LocalPart -> Ordering
  | [], [] => .eq
  | [], _ => .lt
  | _, [] => .gt
  | a :: as, b :: bs =>
    (match a, b with
      | .word x, .word y => compare x y
      | .word _, .number _ => .lt
      | .number _, .word _ => .gt
      | .number x, .number y => compare x y).then (compareLocal as bs)

def order (a b : Version) : Ordering :=
  (compare a.epoch b.epoch).then <|
    (compareLists (trimmed a.release) (trimmed b.release)).then <|
      (compareLists a.preKey b.preKey).then <|
        (compareLists a.postKey b.postKey).then <|
          (compareLists a.devKey b.devKey).then (compareLocal a.localParts b.localParts)

def isBefore (a b : Version) : Bool := order a b == .lt

end Version

end ContractAudit
