import ContractAudit.Text.Quoted

/-! # Sponge hashes

The permutation on 25 lanes of 64 bits, and the two hashes of 256 bits built on it, which differ in the padding byte only.
-/

namespace ContractAudit.Hash

variable (s : Lanes) (bs : List UInt8)

abbrev Lanes := Array UInt64

def Lanes.at (x y : Nat) : UInt64 := s.getD (x % 5 + 5 * (y % 5)) 0

def roundConstants : List UInt64 :=
  [0x0000000000000001, 0x0000000000008082, 0x800000000000808A, 0x8000000080008000,
    0x000000000000808B, 0x0000000080000001, 0x8000000080008081, 0x8000000000008009,
    0x000000000000008A, 0x0000000000000088, 0x0000000080008009, 0x000000008000000A,
    0x000000008000808B, 0x800000000000008B, 0x8000000000008089, 0x8000000000008003,
    0x8000000000008002, 0x8000000000000080, 0x000000000000800A, 0x800000008000000A,
    0x8000000080008081, 0x8000000000008080, 0x0000000080000001, 0x8000000080008008]

def rotations : Array Nat := #[0, 1, 62, 28, 27, 36, 44, 6, 55, 20, 3, 10, 43, 25, 39, 41, 45, 15, 21, 8, 18, 2, 61, 56, 14]

def rotateLeft (w : UInt64) (n : Nat) : UInt64 := if n == 0 then w else (w <<< n.toUInt64) ||| (w >>> (64 - n).toUInt64)

def Lanes.ofFn (f : Nat -> Nat -> UInt64) : Lanes := Array.ofFn fun i : Fin 25 => f (i.val % 5) (i.val / 5)

def round (constant : UInt64) : Lanes :=
  let column (x : Nat) : UInt64 := s.at x 0 ^^^ s.at x 1 ^^^ s.at x 2 ^^^ s.at x 3 ^^^ s.at x 4
  let columns : Array UInt64 := #[column 0, column 1, column 2, column 3, column 4]
  let parity (x : Nat) : UInt64 := columns.getD (x % 5) 0
  let mixed := Lanes.ofFn fun x y => s.at x y ^^^ parity (x + 4) ^^^ rotateLeft (parity (x + 1)) 1
  let turned := Lanes.ofFn fun x y => rotateLeft (mixed.at x y) (rotations.getD (x + 5 * y) 0)
  -- lane `(x, y)` moves to `(y, 2 * x + 3 * y)`
  let moved := Lanes.ofFn fun x y => turned.at (x + 3 * y) x
  let bent := Lanes.ofFn fun x y => moved.at x y ^^^ ((moved.at (x + 1) y ^^^ 0xFFFFFFFFFFFFFFFF) &&& moved.at (x + 2) y)
  bent.set! 0 (bent.at 0 0 ^^^ constant)

def permute : Lanes := roundConstants.foldl round s

def rate : Nat := 136

variable (bytes : ByteArray) (message : ByteArray)

def wordAt (start : Nat) : UInt64 :=
  (List.range 8).foldl (fun w k => w ||| ((bytes.get! (start + k)).toUInt64 <<< (8 * k).toUInt64)) 0

def absorb (start : Nat) : Lanes :=
  permute (Array.ofFn fun i : Fin 25 =>
    s.getD i.val 0 ^^^ (if i.val < rate / 8 then wordAt bytes (start + 8 * i.val) else 0))

def padded (padding : UInt8) (bytes : ByteArray) : ByteArray :=
  let missing := rate - bytes.size % rate
  if missing == 1 then bytes.push (padding ||| 0x80)
  else
    let zeros := (List.range (missing - 2)).foldl (fun b _ => b.push 0) (bytes.push padding)
    zeros.push 0x80

def digest (padding : UInt8) (message : ByteArray) : List UInt8 :=
  let bytes := padded padding message
  let start : Lanes := .replicate 25 0
  let final := (List.range (bytes.size / rate)).foldl (fun s k => absorb s bytes (k * rate)) start
  (List.range 32).map fun k => (final.getD (k / 8) 0 >>> (8 * (k % 8)).toUInt64).toUInt8

def bytesToNat : Nat := bs.foldl (fun n b => n * 256 + b.toNat) 0

def bytesToHex : String := .join (bs.map fun b => Text.padLeft 2 '0' (Text.hexDigits b.toNat))

def keccak256 : List UInt8 := digest 0x01 message

def sha3 : List UInt8 := digest 0x06 message

def functionId (signature : String) : Nat := bytesToNat ((keccak256 signature.toUTF8).take 4)

def eventId (signature : String) : Nat := bytesToNat (keccak256 signature.toUTF8)

end ContractAudit.Hash
