import ContractAudit.Hash.Sponge
import ContractAudit.Json
import ContractAudit.Number.Literal
import ContractAudit.Text.Utf8

/-! # Values in storage slots -/

namespace ContractAudit.Storage

open Text

/-- Offset and size are in bits, the offset counts from the end. -/
def cut (slot : List UInt8) (offset size : Int) : List UInt8 :=
  let size := .tdiv size 8
  let offset := .tdiv offset 8
  if offset == 0 then between (some (-size)) none slot
  else between (some (-(size + offset))) (some (-offset)) slot

inductive Raw where
  | bytes (bs : List UInt8)
  | json (j : Json)

def number : Raw -> Result Int
  | .bytes bs => .ok (Hash.bytesToNat bs)
  | .json (.int i) => .ok i
  | .json (.bool b) => .ok (if b then 1 else 0)
  | .json (.real x) => .ok (if x < 0 then -((-x).floor.toUInt64.toNat : Int) else x.floor.toUInt64.toNat)
  | .json (.str _) => .error (.badType "Pass in strings with keyword hexstr or text")
  | .json j => .error (.badType ("int() argument must be a string, a bytes-like object or a real number, not " ++
      Text.quoted j.kindName))

def withMark (s : String) : String :=
  if Text.startsWith s "0x" || Text.startsWith s "0X" then s else "0x" ++ s

def addressDigits? (s : String) : Option (List Char) :=
  let digits := match s.toList with
    | '0' :: 'x' :: rest => rest
    | cs => cs
  if digits.length == 40 && digits.all fun c => c.isDigit || ('a' ≤ c && c ≤ 'f') then some digits
  else none

def addressText : Raw -> Result String
  | .bytes bs => .ok ("0x" ++ Hash.bytesToHex bs)
  | .json (.str s) =>
    let body := (Text.after? "0x" s).getD ((Text.after? "0X" s).getD s)
    if body.toList.all fun c => c.isDigit || ('a' ≤ c && c ≤ 'f') || ('A' ≤ c && c ≤ 'F') then
      .ok (withMark (String.ofList (s.toList.map Char.toLower)))
    else .error (.badValue ("when sending a str, it must be a hex string. Got: " ++ Text.quoted s))
  | .json _ => .error (.badType "")

def rawText : Raw -> String
  | .bytes bs => quotedBytes bs
  | .json j => j.shown

/-- A letter is upper case where the digit of the hash of the address is above seven. -/
def checksumAddress (raw : Raw) : Result String := do
  let text <- addressText raw
  match addressDigits? text with
  | none =>
    throw (.badValue s!"Unknown format {rawText raw}, attempted to normalize to {text}")
  | some digits =>
    let hash := (Hash.bytesToHex (Hash.keccak256 (String.ofList digits).toUTF8)).toList
    let cased := (digits.zip hash).map fun (d, h) =>
      if 7 < (Text.hexValue? h).getD 0 then d.toUpper else d
    return "0x" ++ String.ofList cased

def read (type : String) (raw : Raw) : Result String := do
  if Text.contains type "int" then
    match raw with
    | .json (.str s) =>
      if Text.startsWith s "0x" then return toString (<- Number.hexadecimal s)
      return toString (<- number raw)
    | _ => return toString (<- number raw)
  if Text.contains type "bool" then return Text.ofBool ((<- number raw) != 0)
  match raw with
  | .bytes bs =>
    if Text.contains type "string" then
      let length := Hash.bytesToNat (Text.between (some (-2)) none bs) / 2
      return <- Text.ofUtf8 (bs.take length)
    if Text.contains type "address" then return <- checksumAddress raw
    return Hash.bytesToHex bs
  | .json (.str _) =>
    if Text.contains type "address" then return <- checksumAddress raw
    throw (.badType "")
  | .json _ => throw (.badType "")

def bytesOfHex? : List Char -> Option (List UInt8)
  | [] => some []
  | c :: rest =>
    if isBlank c then bytesOfHex? rest
    else match rest with
      | d :: rest => do
        let hi <- hexValue? c
        let lo <- hexValue? d
        let more <- bytesOfHex? rest
        some (.ofNat (hi * 16 + lo) :: more)
      | [] => none

end ContractAudit.Storage
