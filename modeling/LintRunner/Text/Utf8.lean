/-!
Reading bytes as UTF-8. The strict reader refuses a malformed text; the lenient one puts a
replacement character in place of every longest malformed piece.
-/

namespace LintRunner.Text

/-- What a first byte asks of the bytes after it: the number of them, and the range of the first. -/
def tailsAfter (b : UInt8) : Option (Nat × UInt8 × UInt8) :=
  if b ≤ 0x7f then some (0, 0x80, 0xbf)
  else if b < 0xc2 then none
  else if b ≤ 0xdf then some (1, 0x80, 0xbf)
  else if b = 0xe0 then some (2, 0xa0, 0xbf)
  else if b = 0xed then some (2, 0x80, 0x9f)
  else if b ≤ 0xef then some (2, 0x80, 0xbf)
  else if b = 0xf0 then some (3, 0x90, 0xbf)
  else if b ≤ 0xf3 then some (3, 0x80, 0xbf)
  else if b = 0xf4 then some (3, 0x80, 0x8f)
  else none

/-- The longest stretch of at most `n` bytes that may follow. -/
def takeTails : Nat → UInt8 → UInt8 → List UInt8 → List UInt8
  | 0, _, _, _ => []
  | _ + 1, _, _, [] => []
  | n + 1, lo, hi, b :: rest =>
    if lo ≤ b && b ≤ hi then b :: takeTails n 0x80 0xbf rest else []

def leadBits (n : Nat) (b : UInt8) : Nat :=
  match n with
  | 0 => b.toNat
  | 1 => b.toNat % 0x20
  | 2 => b.toNat % 0x10
  | _ => b.toNat % 0x08

def codePoint (n : Nat) (lead : UInt8) (tails : List UInt8) : Nat :=
  tails.foldl (fun acc b => acc * 64 + b.toNat % 64) (leadBits n lead)

def replacement : Char := '\uFFFD'

/-- The character at the front, or none, and the number of further bytes it takes up. -/
def decodeFront (b : UInt8) (rest : List UInt8) : Option Char × Nat :=
  match tailsAfter b with
  | none => (none, 0)
  | some (n, lo, hi) =>
    let tails := takeTails n lo hi rest
    if tails.length = n then (some (Char.ofNat (codePoint n b tails)), n) else (none, tails.length)

/-- One entry per character; none stands for a malformed piece. -/
def decodePieces (bytes : List UInt8) : List (Option Char) :=
  match bytes with
  | [] => []
  | b :: rest =>
    let (c, used) := decodeFront b rest
    c :: decodePieces (rest.drop used)
  termination_by bytes.length
  decreasing_by
    simp only [List.length_drop, List.length_cons]
    omega

def decodeLenient (bytes : ByteArray) : List Char :=
  (decodePieces bytes.toList).map (·.getD replacement)

def decodeStrict (bytes : ByteArray) : Option (List Char) :=
  (decodePieces bytes.toList).mapM id

end LintRunner.Text
