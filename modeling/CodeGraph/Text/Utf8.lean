import CodeGraph.Text.Lines

/-!
# Faults in UTF-8

`decode` is `decode?` with a reason: where the first character that is not well formed starts, and
how many of its bytes have been seen when that shows. The bytes that may follow a first byte are
given by their ranges (`followers?`).
-/

namespace CodeGraph.Text

/-- A character that is not well formed, by the position of its first byte. -/
structure Utf8Fault where
  start : Nat
  /-- How many bytes are of no use; nothing if the text ends inside the character. -/
  length : Option Nat
deriving DecidableEq, Inhabited

def Utf8Fault.message (f : Utf8Fault) : String :=
  match f.length with
  | some n => s!"invalid utf-8 sequence of {n} bytes from index {f.start}"
  | none => s!"incomplete utf-8 byte sequence from index {f.start}"

/-- The ranges of the bytes that follow a first byte; nothing if no character starts with it. -/
def followers? (first : Nat) : Option (List (Nat × Nat)) :=
  let tail := (0x80, 0xbf)
  if first < 0x80 then some []
  else if first < 0xc2 then none
  else if first < 0xe0 then some [tail]
  else if first = 0xe0 then some [(0xa0, 0xbf), tail]
  else if first = 0xed then some [(0x80, 0x9f), tail]
  else if first < 0xf0 then some [tail, tail]
  else if first = 0xf0 then some [(0x90, 0xbf), tail, tail]
  else if first < 0xf4 then some [tail, tail, tail]
  else if first = 0xf4 then some [(0x80, 0x8f), tail, tail]
  else none

/-- The first fault from a position on, of which `seen` bytes of the character at it have been read
and bytes in the ranges `owed` are to follow; the end if there is none. -/
def faultFrom (start seen : Nat) : (owed : List (Nat × Nat)) → List UInt8 → Utf8Fault
  | _, [] => ⟨start, none⟩
  | [], b :: bs =>
    match followers? b.toNat with
    | none => ⟨start, some 1⟩
    | some [] => faultFrom (start + 1) 0 [] bs
    | some owed => faultFrom start 1 owed bs
  | (low, high) :: owed, b :: bs =>
    if low ≤ b.toNat ∧ b.toNat ≤ high then
      if owed.isEmpty then faultFrom (start + seen + 1) 0 [] bs
      else faultFrom start (seen + 1) owed bs
    else ⟨start, some seen⟩

/-- The text that bytes encode in UTF-8, or where they stop doing so. -/
def decode (bytes : List UInt8) : Except Utf8Fault String :=
  match decode? bytes with
  | some s => .ok s
  | none => .error (faultFrom 0 0 [] bytes)

end CodeGraph.Text
