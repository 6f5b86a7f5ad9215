import ContractAudit.Fault

/-! # Decoding UTF-8

An ill-formed sequence is as long as it still could have become a character.
-/

namespace ContractAudit.Text

inductive Utf8Defect where
  | startByte
  | continuation
  | unexpectedEnd

def Utf8Defect.message : Utf8Defect -> String
  | startByte => "invalid start byte"
  | continuation => "invalid continuation byte"
  | unexpectedEnd => "unexpected end of data"

inductive Utf8Step where
  | char (c : Char) (length : Nat)
  | bad (length : Nat) (why : Utf8Defect)

/-- The first one lies between two bounds, all others in the common range. -/
def continuation (value count : Nat) (low high : Nat) (read : Nat) : List UInt8 -> Utf8Step
  | bytes =>
    match count, bytes with
    | 0, _ => .char (.ofNat value) read
    | _ + 1, [] => .bad read .unexpectedEnd
    | n + 1, b :: rest =>
      if low ≤ b.toNat && b.toNat ≤ high then continuation (value * 64 + (b.toNat - 128)) n 128 191 (read + 1) rest
      else .bad read .continuation

def utf8Step (b : UInt8) (rest : List UInt8) : Utf8Step :=
  let n := b.toNat
  if n < 128 then .char (.ofNat n) 1
  else if 194 ≤ n && n ≤ 223 then continuation (n - 192) 1 128 191 1 rest
  else if n == 224 then continuation 0 2 160 191 1 rest
  else if n == 237 then continuation 13 2 128 159 1 rest
  else if 225 ≤ n && n ≤ 239 then continuation (n - 224) 2 128 191 1 rest
  else if n == 240 then continuation 0 3 144 191 1 rest
  else if 241 ≤ n && n ≤ 243 then continuation (n - 240) 3 128 191 1 rest
  else if n == 244 then continuation 4 3 128 143 1 rest
  else .bad 1 .startByte

def decodeLossy : Nat -> List UInt8 -> List Char
  | 0, _ => []
  | _ + 1, [] => []
  | n + 1, b :: rest =>
    match utf8Step b rest with
    | .char c len => c :: decodeLossy n (rest.drop (len - 1))
    | .bad len _ => .ofNat 0xFFFD :: decodeLossy n (rest.drop (len - 1))

def ofUtf8Lossy (bytes : List UInt8) : String := .ofList (decodeLossy bytes.length bytes)

def utf8Fault (b : UInt8) (position length : Nat) (why : Utf8Defect) : Fault :=
  if length == 1 then
    let byte := padLeft 2 '0' (hexDigits b.toNat)
    .badUtf8 s!"'utf-8' codec can't decode byte 0x{byte} in position {position}: {why.message}"
  else .badUtf8 (s!"'utf-8' codec can't decode bytes in position {position}-{position + length - 1}: " ++ why.message)

def decodeStrict : Nat -> Nat -> List UInt8 -> Result (List Char)
  | 0, _, _ => .ok []
  | _ + 1, _, [] => .ok []
  | n + 1, position, b :: rest =>
    match utf8Step b rest with
    | .char c len => (decodeStrict n (position + len) (rest.drop (len - 1))).map (c :: ·)
    | .bad len why => .error (utf8Fault b position len why)

def ofUtf8 (bytes : List UInt8) : Result String := (decodeStrict bytes.length 0 bytes).map .ofList

end ContractAudit.Text
