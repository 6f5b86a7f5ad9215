import ContractAudit.CommandLine.Run

/-! # The command line -/

namespace ContractAudit.CommandLine

open Text

def mentioned (words : List String) : List String :=
  let values := words.flatMap fun w => (find? "=" w).elim [w] fun i => [w, drop (i + 1) w]
  (["slither.config.json", "slither.db.json", "export.sarif", "export.sarif.sarifexplorer"] ++ values).eraseDups

def readFiles (names : List String) : IO (Table String String) := do
  names.flatMapM fun (name : String) => do
    try return [(name, <- IO.FS.readFile name)]
    catch _ => return []

partial def readLines (input : IO.FS.Stream) : IO (List String) := do
  let line <- input.getLine
  if line.isEmpty then return []
  return (if endsWith line "\n" then dropLast 1 line else line) :: (<- readLines input)

end ContractAudit.CommandLine

open ContractAudit CommandLine in
def main (words : List String) : IO UInt32 := do
  let files <- readFiles (mentioned words)
  let input <- if words.contains "--triage-mode" then readLines (<- IO.getStdin) else pure []
  let result := CommandLine.outcome { files, input := input } words
  result.said.forM (IO.print ·.said)
  result.written.forM fun (name, d) => IO.FS.writeFile name d.written
  match result.code with
  | .ok code => return UInt32.ofNat (code % 256).toNat
  | .error f =>
    IO.eprintln f.message
    return 1
