import Rebuild.Text.Quoted

/-!
# Reading UTF-8

Bytes are read one at a time, with the sequence that is still open.  The byte that opens a sequence
says how many bytes follow and in which range the first of these lies; that range is what excludes
overlong forms, surrogates and values past the last code point.  The reading stops at the first
byte that fits nowhere and reports the bytes of the sequence it breaks.
-/

namespace Rebuild.Text

/-- A sequence of which some bytes are still missing.  The next one lies between `low` and
`high`. -/
structure OpenSequence where
  lead : UInt8
  length : Nat
  missing : Nat
  low : UInt8
  high : UInt8
  value : Nat

inductive Utf8Flaw where
  | start
  | continuation
  | ending

/-- Where reading stopped: the position and first byte of the broken sequence, and how many of its
bytes are in question. -/
structure Utf8Error where
  position : Nat
  lead : UInt8
  length : Nat
  flaw : Utf8Flaw

namespace OpenSequence

def ofLead? (b : UInt8) : Option OpenSequence :=
  if 0xc2 ≤ b ∧ b ≤ 0xdf then some ⟨b, 1, 1, 0x80, 0xbf, b.toNat - 0xc0⟩
  else if b = 0xe0 then some ⟨b, 1, 2, 0xa0, 0xbf, 0⟩
  else if b = 0xed then some ⟨b, 1, 2, 0x80, 0x9f, 0xd⟩
  else if 0xe1 ≤ b ∧ b ≤ 0xef then some ⟨b, 1, 2, 0x80, 0xbf, b.toNat - 0xe0⟩
  else if b = 0xf0 then some ⟨b, 1, 3, 0x90, 0xbf, 0⟩
  else if 0xf1 ≤ b ∧ b ≤ 0xf3 then some ⟨b, 1, 3, 0x80, 0xbf, b.toNat - 0xf0⟩
  else if b = 0xf4 then some ⟨b, 1, 3, 0x80, 0x8f, 4⟩
  else none

def extend (sequence : OpenSequence) (b : UInt8) : OpenSequence :=
  { sequence with
    length := sequence.length + 1
    missing := sequence.missing - 1
    low := 0x80
    high := 0xbf
    value := sequence.value * 64 + b.toNat % 64 }

end OpenSequence

def decodeFrom (position : Nat) : Option OpenSequence → List UInt8 → Except Utf8Error (List Char)
  | none, [] => .ok []
  | some sequence, [] =>
    .error ⟨position - sequence.length, sequence.lead, sequence.length, .ending⟩
  | none, b :: rest =>
    if b < 0x80 then (decodeFrom (position + 1) none rest).map (Char.ofNat b.toNat :: ·)
    else match OpenSequence.ofLead? b with
      | some sequence => decodeFrom (position + 1) (some sequence) rest
      | none => .error ⟨position, b, 1, .start⟩
  | some sequence, b :: rest =>
    if sequence.low ≤ b ∧ b ≤ sequence.high then
      let extended := sequence.extend b
      if extended.missing = 0 then
        (decodeFrom (position + 1) none rest).map (Char.ofNat extended.value :: ·)
      else decodeFrom (position + 1) (some extended) rest
    else .error ⟨position - sequence.length, sequence.lead, sequence.length, .continuation⟩

def decodeUtf8 (bytes : List UInt8) : Except Utf8Error (List Char) :=
  decodeFrom 0 none bytes

def Utf8Flaw.message : Utf8Flaw → String
  | .start => "invalid start byte"
  | .continuation => "invalid continuation byte"
  | .ending => "unexpected end of data"

def Utf8Error.message (error : Utf8Error) : String :=
  let place :=
    if error.length = 1 then
      s!"byte 0x{String.ofList (hex 2 error.lead.toNat)} in position {error.position}"
    else s!"bytes in position {error.position}-{error.position + error.length - 1}"
  s!"'utf-8' codec can't decode {place}: {error.flaw.message}"

end Rebuild.Text
