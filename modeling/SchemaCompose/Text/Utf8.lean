import SchemaCompose.Text.Quoted

/-!
# UTF-8

Text is stored as octets in UTF-8.  Reading stops at the first sequence that no
character has, and says where that sequence stands and why it was refused.
-/

namespace SchemaCompose.Utf8

/-- Why a sequence of octets stands for no character. -/
inductive Cause where
  /-- The octet starts no character. -/
  | start
  /-- A character was begun, and the octet behind the ones reported does not
  continue it. -/
  | continuation
  /-- The octets end inside a character. -/
  | ending
deriving DecidableEq, Repr

/-- The octets that were refused: where they stand, the octets themselves and
why. -/
structure DecodeError where
  position : Nat
  octets : List UInt8
  cause : Cause
deriving DecidableEq, Repr

/-- The wording of a cause. -/
def Cause.message : Cause → Text
  | .start => "invalid start byte"
  | .continuation => "invalid continuation byte"
  | .ending => "unexpected end of data"

/-- The wording of a refusal. One octet is named, several are given by their
positions. -/
def DecodeError.message (error : DecodeError) : Text :=
  let place : Text :=
    match error.octets with
    | [octet] => "byte 0x" ++ Text.hexDigits 2 octet.toNat ++ " in position " ++
        Text.ofNat error.position
    | octets => "bytes in position " ++ Text.ofNat error.position ++ "-" ++
        Text.ofNat (error.position + octets.length - 1)
  "'utf-8' codec can't decode " ++ place ++ ": " ++ error.cause.message

/-- What the octets read so far of one character still ask for. -/
structure Pending where
  /-- The octets read, last first. -/
  read : List UInt8
  /-- The bits they carry. -/
  bits : Nat
  /-- How many octets are missing. -/
  missing : Nat
  /-- The least value that the next octet may have. -/
  low : Nat
  /-- The greatest value that the next octet may have. -/
  high : Nat

/-- What a first octet means: a whole character or the start of a longer one. -/
def first (octet : UInt8) : Option Pending :=
  let value := octet.toNat
  let pending (bits missing low high : Nat) : Option Pending :=
    some { read := [octet], bits, missing, low, high }
  if value ≤ 0x7F then pending value 0 0x80 0xBF
  else if 0xC2 ≤ value && value ≤ 0xDF then pending (value - 0xC0) 1 0x80 0xBF
  else if value = 0xE0 then pending 0 2 0xA0 0xBF
  else if value = 0xED then pending 0xD 2 0x80 0x9F
  else if 0xE1 ≤ value && value ≤ 0xEF then pending (value - 0xE0) 2 0x80 0xBF
  else if value = 0xF0 then pending 0 3 0x90 0xBF
  else if 0xF1 ≤ value && value ≤ 0xF3 then pending (value - 0xF0) 3 0x80 0xBF
  else if value = 0xF4 then pending 4 3 0x80 0x8F
  else none

/-- The characters of a sequence of octets that starts at `position`, where
`pending` says what is asked for by a character that has begun. -/
def decodeFrom :
    (position : Nat) → Option Pending → List UInt8 → Except DecodeError Text
  | _, none, [] => .ok []
  | position, some pending, [] => .error ⟨position, pending.read.reverse, .ending⟩
  | position, none, octet :: rest =>
    match first octet with
    | none => .error ⟨position, [octet], .start⟩
    | some pending =>
      if pending.missing = 0 then
        (decodeFrom (position + 1) none rest).map (Char.ofNat pending.bits :: ·)
      else decodeFrom position (some pending) rest
  | position, some pending, octet :: rest =>
    if pending.low ≤ octet.toNat && octet.toNat ≤ pending.high then
      let bits := pending.bits * 0x40 + (octet.toNat - 0x80)
      if pending.missing = 1 then
        (decodeFrom (position + pending.read.length + 1) none rest).map
          (Char.ofNat bits :: ·)
      else
        decodeFrom position
          (some ⟨octet :: pending.read, bits, pending.missing - 1, 0x80, 0xBF⟩) rest
    else .error ⟨position, pending.read.reverse, .continuation⟩

/-- The text that the octets stand for. -/
def decode (octets : List UInt8) : Except DecodeError Text :=
  decodeFrom 0 none octets

/-- The octets of one character. -/
def encodeChar (c : Char) : List UInt8 :=
  let code := c.toNat
  let tail (shift : Nat) : UInt8 := UInt8.ofNat (0x80 + code / shift % 0x40)
  if code < 0x80 then [UInt8.ofNat code]
  else if code < 0x800 then [UInt8.ofNat (0xC0 + code / 0x40), tail 1]
  else if code < 0x10000 then
    [UInt8.ofNat (0xE0 + code / 0x1000), tail 0x40, tail 1]
  else [UInt8.ofNat (0xF0 + code / 0x40000), tail 0x1000, tail 0x40, tail 1]

/-- The octets of a text. -/
def encode (text : Text) : List UInt8 :=
  text.flatMap encodeChar

/-- Every way of ending a line, written as one line feed. -/
def normalizeNewlines : Text → Text
  | [] => []
  | '\r' :: '\n' :: rest => '\n' :: normalizeNewlines rest
  | c :: rest => (if c = '\r' then '\n' else c) :: normalizeNewlines rest

end SchemaCompose.Utf8
