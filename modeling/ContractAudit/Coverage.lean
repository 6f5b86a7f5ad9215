import ContractAudit.Program.Contracts

/-! # Coverage by a specification

A specification names a behaviour of a contract in one line and the function it is about in the next line.
-/

namespace ContractAudit.Coverage

open Text

abbrev Entry := String × String

def contractIn? (line : String) : Option String :=
  match words line with
  | "behaviour" :: _ :: "of" :: contract :: _ => if startsWith line "behaviour" then some contract else none
  | _ => none

/-- Of blanks alone, the last one. -/
def functionIn? (line : String) : Option String := do
  let rest <- after? "interface" line
  let blanks := rest.toList.takeWhile isBlank
  let text := (rest.toList.dropWhile isBlank).takeWhile fun c => c != '\n' && c != '\r'
  if blanks.isEmpty then none
  else if !text.isEmpty then some (.ofList text)
  else if let c :: _ :: _ := (blanks.filter fun c => c != '\n' && c != '\r').reverse then some (.singleton c) else none

def typeOf (parameter : String) : String :=
  match (splitOn (strip parameter) " ").headD "" with
  | "uint" => "uint256"
  | "int" => "int256"
  | t => t

def signatureOf (function : String) : Result String :=
  match find? "(" function, find? ")" function with
  | some i, some j =>
    let parameters := .ofList (between (some (i + 1 : Nat)) (some j) function.toList)
    .ok (take (i + 1) function ++ ",".intercalate ((splitOn parameters ",").map typeOf) ++ ")")
  | _, _ => .error (.badValue "substring not found")

def coveredAfter : Option String -> List String -> Result (List Entry)
  | none, [] => .ok []
  | some _, [] => .error .outOfRange
  | some contract, line :: rest =>
    match functionIn? line with
    | some function => do return (contract, <- signatureOf function) :: (<- coveredAfter none rest)
    | none => coveredAfter (contractIn? line) rest
  | none, line :: rest => coveredAfter (contractIn? line) rest

def covered (lines : List String) : Result (List Entry) := coveredAfter none lines

def linesOf (text : String) : List String :=
  let text := replace (replace text "\x0d\n" "\n") "\x0d" "\n"
  let lines := (splitOn text "\n").map (· ++ "\n")
  if let "\n" :: rest := lines.reverse then rest.reverse else lines

def declared (p : Program) : List Entry :=
  let functions := p.allFunctions.filter fun f =>
    let x := p.function f
    p.functionContract? f == p.functionDeclarer? f && (p.functionContract? f).isSome && x.implemented == some true
      && x.kind != .constructor && !p.isInitial f
  let vars := (p.contracts.flatMap p.stateVariables).filter fun v =>
    let x := p.var v
    x.visibility == some "public" || x.visibility == some "external"
  let contractName (c : Option ContractId) : String := (c.map fun c => (p.contract c).name).getD ""
  functions.map (fun f => (contractName (p.functionContract? f), p.functionFullName f))
    ++ vars.map fun v => (contractName (p.stateOwner? v), p.getterSignature v)

structure Summary where
  covered : List Entry
  present : List Entry
  missing : List Entry

/-- Entries in order, each once. -/
def inOrder (es : List Entry) : List Entry :=
  es.eraseDups.mergeSort fun x y => decide (x.1 < y.1) || (x.1 == y.1 && decide (x.2 ≤ y.2))

def ofText (text : String) (programs : List Program) : Result Summary := do
  let named <- covered (linesOf text)
  let all := programs.flatMap declared
  return { covered := inOrder named, present := inOrder (all.filter named.contains)
           missing := inOrder (all.filter (!named.contains ·)) }

end ContractAudit.Coverage
