import ContractAudit.Text.Basic

/-! # Regular expressions

A pattern tells from a place in a text the places where a match that starts there may end.
-/

namespace ContractAudit.Text

inductive CharItem where
  | range (first last : Char)
  | digit (wanted : Bool)
  | word (wanted : Bool)
  | blank (wanted : Bool)

def CharItem.isWord (c : Char) : Bool := c.isAlphanum || c == '_' || (128 ≤ c.toNat && c.isAlpha) || isAnyDigit c

def CharItem.holds (c : Char) : CharItem -> Bool
  | range first last => first ≤ c && c ≤ last
  | digit wanted => isDecimal c == wanted
  | word wanted => isWord c == wanted
  | blank wanted => isBlank c == wanted

inductive Pattern where
  | empty
  | any
  | oneOf (wanted : Bool) (items : List CharItem)
  | seq (first second : Pattern)
  | either (first second : Pattern)
  | times (p : Pattern) (least : Nat) (most : Option Nat)
  | ahead (wanted : Bool) (p : Pattern)
  | atStart
  | atEnd
  | atLastLine
  | atWordEdge (wanted : Bool)

namespace Pattern

variable (p : Pattern) (cs : List Char) (s : String)

def runTimes (step : List Nat -> List Nat) : Nat -> List Nat -> List Nat
  | 0, places => places
  | n + 1, places => runTimes step n (step places)

def runUpTo (step : List Nat -> List Nat) : Nat -> List Nat -> List Nat
  | 0, places => places
  | n + 1, places => runUpTo step n ((places ++ step places).eraseDups)

def isWordAt (text : Array Char) (i : Nat) : Bool := (text[i]?.map CharItem.isWord).getD false

def ends (text : Array Char) : Pattern -> Nat -> List Nat
  | empty, i => [i]
  | any, i => match text[i]? with
    | some c => if c == '\n' then [] else [i + 1]
    | none => []
  | oneOf wanted items, i => match text[i]? with
    | some c => if (items.any (CharItem.holds c)) == wanted then [i + 1] else []
    | none => []
  | seq a b, i => ((ends text a i).flatMap (ends text b)).eraseDups
  | either a b, i => (ends text a i ++ ends text b i).eraseDups
  | times p least most, i =>
    let step (places : List Nat) : List Nat := (places.flatMap (ends text p)).eraseDups
    let more := most.elim (text.size + 1) fun m => m - least
    runUpTo step more (runTimes step least [i])
  | ahead wanted p, i => if (ends text p i).isEmpty == wanted then [] else [i]
  | atStart, i => if i == 0 then [i] else []
  | atEnd, i => if i == text.size then [i] else []
  | atLastLine, i => if i == text.size || (i + 1 == text.size && text[i]? == some '\n') then [i] else []
  | atWordEdge wanted, i =>
    let before := i != 0 && isWordAt text (i - 1)
    if (before != isWordAt text i) == wanted then [i] else []

def isIn : Bool :=
  let text := s.toList.toArray
  (List.range (text.size + 1)).any fun i => !(ends text p i).isEmpty

def escaped? (c : Char) : Option Char :=
  match c with
  | 'n' => some '\n'
  | 't' => some '\t'
  | 'r' => some '\r'
  | 'f' => some (.ofNat 12)
  | 'v' => some (.ofNat 11)
  | 'a' => some (.ofNat 7)
  | c => if c.isAlphanum then none else some c

def class? : Char -> Option CharItem
  | 'd' => some (.digit true)
  | 'D' => some (.digit false)
  | 'w' => some (.word true)
  | 'W' => some (.word false)
  | 's' => some (.blank true)
  | 'S' => some (.blank false)
  | _ => none

def setItem? : List Char -> Option (CharItem × Option Char × List Char)
  | '\\' :: 'b' :: cs => some (.range (.ofNat 8) (.ofNat 8), some (.ofNat 8), cs)
  | '\\' :: c :: cs =>
    match class? c with
    | some k => some (k, none, cs)
    | none => (escaped? c).map fun d => (.range d d, some d, cs)
  | '\\' :: [] => none
  | c :: cs => some (.range c c, some c, cs)
  | [] => none

def setItems? : Nat -> List Char -> List CharItem -> Option (List CharItem × List Char)
  | 0, _, _ => none
  | _ + 1, ']' :: cs, items => some (items, cs)
  | n + 1, cs, items => do
    let (item, single, rest) <- setItem? cs
    match single, rest with
    | some first, '-' :: ']' :: rest => some (items ++ [.range first first, .range '-' '-'], rest)
    | some first, '-' :: rest => do
      let (_, last, rest) <- setItem? rest
      let last <- last
      if first ≤ last then setItems? n rest (items ++ [.range first last]) else none
    | none, '-' :: ']' :: rest => some (items ++ [item, .range '-' '-'], rest)
    | none, '-' :: _ => none
    | _, rest => setItems? n rest (items ++ [item])

/-- A bracket that comes first belongs to the set. -/
def set? : Option (Pattern × List Char) :=
  let (wanted, cs) := match cs with
    | '^' :: cs => (false, cs)
    | cs => (true, cs)
  match cs with
  | ']' :: cs => (setItems? (cs.length + 1) cs [.range ']' ']']).map fun (items, rest) => (oneOf wanted items, rest)
  | cs => (setItems? (cs.length + 1) cs []).map fun (items, rest) => (oneOf wanted items, rest)

def numeral : Option Nat × List Char :=
  let digits := cs.takeWhile Char.isDigit
  (if digits.isEmpty then none else some (digits.foldl (fun n d => n * 10 + (d.toNat - 48)) 0), cs.dropWhile Char.isDigit)

inductive Quantifier where
  | absent
  | wrong
  | between (least : Nat) (most : Option Nat) (rest : List Char)

/-- Braces that hold no numbers are plain text. -/
def quantifier : List Char -> Quantifier
  | '*' :: cs => .between 0 none cs
  | '+' :: cs => .between 1 none cs
  | '?' :: cs => .between 0 (some 1) cs
  | '\x7b' :: cs =>
    let (least, rest) := numeral cs
    match rest with
    | '\x7d' :: rest => match least with
      | some n => .between n (some n) rest
      | none => .absent
    | ',' :: rest =>
      let (most, rest) := numeral rest
      match rest with
      | '\x7d' :: rest =>
        let low := least.getD 0
        match most with
        | some m => if m < low then .wrong else .between low most rest
        | none => .between low none rest
      | _ => .absent
    | _ => .absent
  | _ => .absent

def isRepeatable : Pattern -> Bool
  | atStart | atEnd | atLastLine | atWordEdge _ => false
  | _ => true

/-- A lazy or greedy mark after it does not change what matches. -/
def withQuantifier? : Option (Pattern × List Char) :=
  match quantifier cs with
  | .absent => some (p, cs)
  | .wrong => none
  | .between least most rest =>
    if !isRepeatable p then none
    else
      let rest := match rest with
        | '?' :: rest | '+' :: rest => rest
        | rest => rest
      if let .absent := quantifier rest then some (times p least most, rest) else none

mutual
def alternatives? : Nat -> List Char -> Option (Pattern × List Char)
  | 0, _ => none
  | n + 1, cs => do
    let (first, rest) <- sequence? n cs empty
    match rest with
    | '|' :: rest => do
      let (second, rest) <- alternatives? n rest
      some (either first second, rest)
    | rest => some (first, rest)

def sequence? : Nat -> List Char -> Pattern -> Option (Pattern × List Char)
  | 0, _, _ => none
  | n + 1, cs, done =>
    match cs with
    | [] | '|' :: _ | ')' :: _ => some (done, cs)
    | _ => do
      let (part, rest) <- part? n cs
      let (part, rest) <- withQuantifier? part rest
      sequence? n rest (seq done part)

def part? : Nat -> List Char -> Option (Pattern × List Char)
  | 0, _ => none
  | n + 1, cs =>
    match cs with
    | '.' :: cs => some (any, cs)
    | '^' :: cs => some (atStart, cs)
    | '$' :: cs => some (atLastLine, cs)
    | '[' :: cs => set? cs
    | '*' :: _ | '+' :: _ | '?' :: _ => none
    | '(' :: '?' :: ':' :: cs => group? n cs id
    | '(' :: '?' :: '=' :: cs => group? n cs (ahead true)
    | '(' :: '?' :: '!' :: cs => group? n cs (ahead false)
    | '(' :: '?' :: 'P' :: '<' :: cs => group? n ((cs.dropWhile (· != '>')).drop 1) id
    | '(' :: '?' :: _ => none
    | '(' :: cs => group? n cs id
    | '\\' :: 'b' :: cs => some (atWordEdge true, cs)
    | '\\' :: 'B' :: cs => some (atWordEdge false, cs)
    | '\\' :: 'A' :: cs => some (atStart, cs)
    | '\\' :: 'Z' :: cs => some (atEnd, cs)
    | '\\' :: c :: cs =>
      match class? c with
      | some k => some (oneOf true [k], cs)
      | none => (escaped? c).map fun d => (oneOf true [.range d d], cs)
    | c :: cs =>
      match quantifier (c :: cs) with
      | .absent => if c == '\\' then none else some (oneOf true [.range c c], cs)
      | _ => none
    | [] => none

def group? (n : Nat) (cs : List Char) (wrap : Pattern -> Pattern) : Option (Pattern × List Char) :=
  match n with
  | 0 => none
  | n + 1 => do
    let (inner, rest) <- alternatives? n cs
    if let ')' :: rest := rest then some (wrap inner, rest) else none
end

def parse? : Option Pattern := if let some (p, []) := alternatives? (4 * s.length + 8) s.toList then some p else none

end Pattern

end ContractAudit.Text
