import CodeGraph.Text.Utf8

/-!
# Byte layouts

A `Layout` writes a type as bytes and reads it back from the front of a byte sequence, leaving the
rest. Numbers take a fixed number of bytes, least significant first; texts, lists and maps start
with their length as a 64-bit number; a choice starts with its 32-bit tag.

Reading fails on a sequence that ends early, on text that is not UTF-8 and on a byte or tag without
meaning; the `Fault` says which.
-/

namespace CodeGraph.Snapshot

/-- Bytes in order. -/
abbrev Bytes := List UInt8

/-- Why bytes cannot be read. -/
inductive Fault
  | endsEarly
  | notText (fault : Text.Utf8Fault)
  | notTruth (byte : UInt8)
  /-- A tag that is none of so many. -/
  | noChoice (tag count : Nat)
deriving DecidableEq, Inhabited

def Fault.message : Fault → String
  | endsEarly => "io error: "
  | notText fault => s!"string is not valid utf8: {fault.message}"
  | notTruth byte => s!"invalid u8 while decoding bool, expected 0 or 1, found {byte.toNat}"
  | noChoice tag count =>
    s!"invalid value: integer `{tag}`, expected variant index 0 <= i < {count}"

/-- A reader takes what it needs from the front. -/
abbrev Reader (α : Type) := Bytes → Except Fault (α × Bytes)

/-- How a type is written and read. -/
structure Layout (α : Type) where
  write : α → Bytes
  read : Reader α

/-- The low `width` bytes of a number, least significant first. -/
def writeNat : (width : Nat) → Nat → Bytes
  | 0, _ => []
  | width + 1, n => UInt8.ofNat n :: writeNat width (n / 256)

/-- A number of `width` bytes. -/
def readNat : (width : Nat) → Reader Nat
  | 0, bs => .ok (0, bs)
  | _ + 1, [] => .error .endsEarly
  | width + 1, b :: bs => do
    let (n, rest) ← readNat width bs
    return (b.toNat + 256 * n, rest)

/-- The first `count` bytes. -/
def readBytes : (count : Nat) → Reader Bytes
  | 0, bs => .ok ([], bs)
  | _ + 1, [] => .error .endsEarly
  | count + 1, b :: bs => do
    let (front, rest) ← readBytes count bs
    return (b :: front, rest)

/-- `count` things one after another. -/
def readMany {α : Type} (item : Reader α) : (count : Nat) → Reader (List α)
  | 0, bs => .ok ([], bs)
  | count + 1, bs => do
    let (a, rest) ← item bs
    let (as, rest) ← readMany item count rest
    return (a :: as, rest)

namespace Layout

/-- A number below `2 ^ 64`. -/
def word : Layout Nat := ⟨writeNat 8, readNat 8⟩

/-- A choice among at most `2 ^ 32`. -/
def tag : Layout Nat := ⟨writeNat 4, readNat 4⟩

/-- A truth value as the byte 0 or 1. -/
def bool : Layout Bool where
  write b := [if b then 1 else 0]
  read
    | [] => .error .endsEarly
    | 0 :: rest => .ok (false, rest)
    | 1 :: rest => .ok (true, rest)
    | byte :: _ => .error (.notTruth byte)

/-- A text as its length in bytes and its UTF-8 bytes. -/
def text : Layout String where
  write s := word.write s.utf8ByteSize ++ s.toByteArray.data.toList
  read bs := do
    let (count, rest) ← word.read bs
    let (front, rest) ← readBytes count rest
    let s ← (Text.decode front).mapError .notText
    return (s, rest)

variable {α β : Type}

/-- A list as its length and its items. -/
def list (item : Layout α) : Layout (List α) where
  write as := word.write as.length ++ as.flatMap item.write
  read bs := do
    let (count, rest) ← word.read bs
    readMany item.read count rest

/-- One thing after another. -/
def pair (first : Layout α) (second : Layout β) : Layout (α × β) where
  write p := first.write p.1 ++ second.write p.2
  read bs := do
    let (a, rest) ← first.read bs
    let (b, rest) ← second.read rest
    return ((a, b), rest)

/-- A type that is written as another one; reading may refuse. -/
def via (layout : Layout α) (image : β → α) (meaning : α → Except Fault β) : Layout β where
  write b := layout.write (image b)
  read bs := do
    let (a, rest) ← layout.read bs
    let b ← meaning a
    return (b, rest)

/-- An item of a fixed list of choices, as its position. -/
def choice [DecidableEq α] (all : List α) : Layout α :=
  tag.via (fun a => all.idxOf a) fun n =>
    match all[n]? with
    | some a => .ok a
    | none => .error (.noChoice n all.length)

end Layout

end CodeGraph.Snapshot
