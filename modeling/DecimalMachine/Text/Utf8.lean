/-
  UTF-8: reading bytes as characters. Bytes that are no UTF-8 are refused, with the place and
  the reason of the first fault.
-/
namespace DecimalMachine.Text

inductive Utf8Fault
  | badStart
  | badContinuation
  | cutOff
deriving DecidableEq

/-- The bytes from `start` up to `stop` are no character; `byte` is the first of them. -/
structure Utf8Error where
  fault : Utf8Fault
  byte : UInt8
  start : Nat
  stop : Nat

def Utf8Fault.message : Utf8Fault → String
  | .badStart => "invalid start byte"
  | .badContinuation => "invalid continuation byte"
  | .cutOff => "unexpected end of data"

/-- The bytes that may follow a lead byte in second place; surrogates, code points beyond the
    last one and forms longer than needed are left out. -/
def secondByteRange (lead : Nat) : Nat × Nat :=
  if lead = 0xe0 then (0xa0, 0xbf)
  else if lead = 0xed then (0x80, 0x9f)
  else if lead = 0xf0 then (0x90, 0xbf)
  else if lead = 0xf4 then (0x80, 0x8f)
  else (0x80, 0xbf)

/-- Reads `need` more bytes of a character whose bits so far are `bits`, the first of them from
    the given range. Answers the code point, or the fault and how many bytes were good. -/
def continuation (bits seen : Nat) (range : Nat × Nat) :
    Nat → List UInt8 → Except (Utf8Fault × Nat) Nat
  | 0, _ => .ok bits
  | _ + 1, [] => .error (.cutOff, seen)
  | need + 1, b :: r =>
    if range.1 ≤ b.toNat && b.toNat ≤ range.2 then
      continuation (bits * 64 + (b.toNat - 0x80)) (seen + 1) (0x80, 0xbf) need r
    else .error (.badContinuation, seen)

/-- The characters of the bytes, of which the first stands at `pos`; `skip` bytes belong to a
    character read before. -/
def decodeUtf8From (pos : Nat) : Nat → List UInt8 → Except Utf8Error (List Char)
  | _, [] => .ok []
  | skip + 1, _ :: r => decodeUtf8From (pos + 1) skip r
  | 0, b :: r =>
    let n := b.toNat
    if n < 0x80 then (decodeUtf8From (pos + 1) 0 r).map (Char.ofNat n :: ·)
    else if n < 0xc2 || 0xf5 ≤ n then .error ⟨.badStart, b, pos, pos + 1⟩
    else
      let need := if n < 0xe0 then 1 else if n < 0xf0 then 2 else 3
      let bits := if n < 0xe0 then n - 0xc0 else if n < 0xf0 then n - 0xe0 else n - 0xf0
      match continuation bits 1 (secondByteRange n) need r with
      | .ok code => (decodeUtf8From (pos + 1) need r).map (Char.ofNat code :: ·)
      | .error (fault, good) => .error ⟨fault, b, pos, pos + good⟩

def decodeUtf8 (bytes : List UInt8) : Except Utf8Error (List Char) := decodeUtf8From 0 0 bytes

end DecimalMachine.Text
