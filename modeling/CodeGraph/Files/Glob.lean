/-!
# Globs

A glob is a pattern of paths: `?` stands for a byte, `*` for any run of bytes, `[a-z]` for a byte of
a class, `{a,b}` for either of its branches and `**` between slashes for any number of directories.
A backslash takes away what is special about the character after it.

A glob matches a path as a whole, byte by byte. Whether `?` and `*` match a slash is a choice
(`Glob.Options`), and so is what an opening bracket means that is never closed.
-/

namespace CodeGraph

namespace Glob

/-- One part of a glob. -/
inductive Part
  | char (c : Char)
  | anyByte
  /-- Any run of bytes. -/
  | star
  /-- Nothing, or anything up to a slash. -/
  | anyStart
  /-- A slash and anything after it. -/
  | anyEnd
  /-- A slash, or anything between two slashes, these included. -/
  | anyMiddle
  | oneOf (negated : Bool) (ranges : List (Char × Char))
  | choice (branches : List (List Part))
deriving Inhabited

structure Options where
  /-- Whether `?` and `*` match no slash. -/
  slashIsSpecial : Bool := false
  /-- Whether a bracket that is never closed stands for itself. -/
  bracketMayStandAlone : Bool := false
deriving DecidableEq, Inhabited

/-- Why a text is no glob. -/
inductive Fault
  | unclosedClass
  | reversedRange (low high : Char)
  | unopenedChoice
  | unclosedChoice
  | nothingEscaped
deriving DecidableEq, Inhabited

def Fault.message : Fault → String
  | unclosedClass => "unclosed character class; missing ']'"
  | reversedRange low high => s!"invalid range; '{low}' > '{high}'"
  | unopenedChoice =>
    "unopened alternate group; missing '\x7b' (maybe escape '\x7d' with '[\x7d]'?)"
  | unclosedChoice =>
    "unclosed alternate group; missing '\x7d' (maybe escape '\x7b' with '[\x7b]'?)"
  | nothingEscaped => "dangling '\\'"

end Glob

/-- A text that was to be a glob. -/
structure GlobError where
  glob : String
  fault : Glob.Fault
deriving DecidableEq, Inhabited

def GlobError.message (e : GlobError) : String :=
  s!"error parsing glob '{e.glob}': {e.fault.message}"

/-- A pattern of paths. -/
structure Glob where
  parts : List Glob.Part
  slashIsSpecial : Bool
deriving Inhabited

namespace Glob

/-! ## Reading -/

/-- What has been read of a character class. -/
structure ClassSoFar where
  /-- The ranges, the last one first. -/
  ranges : List (Char × Char) := []
  /-- Whether the last range waits for its upper end. -/
  isOpen : Bool := false

/-- Take one more character into a class. -/
def ClassSoFar.add (r : ClassSoFar) (c : Char) : Except Fault ClassSoFar :=
  match r.ranges with
  | [] => .ok ⟨[(c, c)], false⟩
  | (low, high) :: rest =>
    if r.isOpen then
      if c < low then .error (.reversedRange low c) else .ok ⟨(low, c) :: rest, false⟩
    else if c = '-' then .ok ⟨(low, high) :: rest, true⟩
    else .ok ⟨(c, c) :: (low, high) :: rest, false⟩

/-- The ranges of a class; a hyphen at its end stands for itself. -/
def ClassSoFar.close (r : ClassSoFar) : List (Char × Char) :=
  (if r.isOpen then ('-', '-') :: r.ranges else r.ranges).reverse

/-- The ranges of a class and what follows its closing bracket, which does not close it as its first
character. -/
def readClass (r : ClassSoFar) : List Char → Except Fault (List (Char × Char) × List Char)
  | [] => .error .unclosedClass
  | c :: cs =>
    if c = ']' ∧ r.ranges ≠ [] then .ok (r.close, cs)
    else
      match r.add c with
      | .error e => .error e
      | .ok r => readClass r cs

theorem length_le_of_readClass {r : ClassSoFar} {cs rest : List Char} {ranges : List (Char × Char)}
    (h : readClass r cs = .ok (ranges, rest)) : rest.length ≤ cs.length := by
  induction cs generalizing r with
  | nil => simp [readClass] at h
  | cons c cs ih =>
    rw [readClass] at h
    split at h
    · cases h; simp
    · split at h
      · cases h
      · exact Nat.le_succ_of_le (ih h)

/-- A group of branches that is not closed yet. -/
structure OpenChoice where
  /-- The parts before the group, reversed. -/
  before : List Part
  /-- The branches before the current one. -/
  branches : List (List Part)

/-- What has been read of a glob. -/
structure SoFar where
  /-- The parts of the current branch, reversed. -/
  parts : List Part := []
  /-- The open groups around it, the innermost first. -/
  choices : List OpenChoice := []
  /-- The last character. -/
  last : Option Char := none
  /-- Whether brackets stand for themselves from here on. -/
  bracketsAreChars : Bool := false

namespace SoFar

def push (s : SoFar) (last : Char) (p : Part) : SoFar := { s with parts := p :: s.parts, last }

def openChoice (s : SoFar) : SoFar :=
  { s with parts := [], choices := ⟨s.parts, []⟩ :: s.choices, last := some '\x7b' }

/-- A comma starts a new branch inside a group. -/
def comma (s : SoFar) : SoFar :=
  match s.choices with
  | [] => s.push ',' (.char ',')
  | c :: rest =>
    { s with
      parts := []
      choices := { c with branches := c.branches ++ [s.parts.reverse] } :: rest
      last := some ',' }

def closeChoice (s : SoFar) : Except Fault SoFar :=
  match s.choices with
  | [] => .error .unopenedChoice
  | c :: rest =>
    .ok { s with
      parts := .choice (c.branches ++ [s.parts.reverse]) :: c.before
      choices := rest
      last := some '\x7d' }

/-- Whether two stars may stand for directories: behind a slash, or at the start of a branch. -/
def atComponent (s : SoFar) : Bool :=
  s.last == some '/' || (!s.choices.isEmpty && (s.last == some ',' || s.last == some '\x7b'))

/-- The parts after two stars that stand for directories at the start of a branch. -/
def twoStarsFirst (s : SoFar) (last : Char) : SoFar := s.push last .anyStart

/-- The parts after two stars that stand for directories elsewhere; they take in the slash before
them. -/
def twoStarsLater (s : SoFar) (last : Char) (atEnd : Bool) : SoFar :=
  let parts := match s.parts with
    | .anyStart :: rest => .anyStart :: rest
    | .anyEnd :: rest => .anyEnd :: rest
    | _ :: rest => (if atEnd then .anyEnd else .anyMiddle) :: rest
    | [] => []
  { s with parts, last }

/-- The parts after two stars that stand for one. -/
def twoPlainStars (s : SoFar) : SoFar := (s.push '*' .star).push '*' .star

end SoFar

/-- Take one character and what belongs to it; the rest is to be read on. -/
def readPart (o : Options) (s : SoFar) (c : Char) (cs : List Char) :
    Except Fault (SoFar × List Char) :=
  match c with
  | '?' => .ok (s.push '?' .anyByte, cs)
  | '*' =>
    match cs with
    | '*' :: cs =>
      if s.parts.isEmpty then
        match cs with
        | [] => .ok (s.twoStarsFirst '*', cs)
        | '/' :: cs => .ok (s.twoStarsFirst '/', cs)
        | _ => .ok (s.twoPlainStars, cs)
      else if s.atComponent then
        match cs with
        | [] => .ok (s.twoStarsLater '*' true, cs)
        | '/' :: cs => .ok (s.twoStarsLater '/' false, cs)
        | d :: _ =>
          if !s.choices.isEmpty && (d == ',' || d == '\x7d') then .ok (s.twoStarsLater '*' true, cs)
          else .ok (s.twoPlainStars, cs)
      else .ok (s.twoPlainStars, cs)
    | _ => .ok (s.push '*' .star, cs)
  | '[' =>
    if s.bracketsAreChars then .ok (s.push '[' (.char '['), cs)
    else
      let negated := cs.head? == some '!' || cs.head? == some '^'
      match readClass {} (if negated then cs.drop 1 else cs) with
      | .ok (ranges, rest) => .ok (s.push ']' (.oneOf negated ranges), rest)
      | .error .unclosedClass =>
        if o.bracketMayStandAlone then
          .ok ({ s with bracketsAreChars := true }.push '[' (.char '['), cs)
        else .error .unclosedClass
      | .error e => .error e
  | '\x7b' => .ok (s.openChoice, cs)
  | '\x7d' => s.closeChoice.map (·, cs)
  | ',' => .ok (s.comma, cs)
  | '\\' =>
    match cs with
    | [] => .error .nothingEscaped
    | d :: cs => .ok (s.push d (.char d), cs)
  | c => .ok (s.push c (.char c), cs)

theorem length_le_of_readPart {o : Options} {s s' : SoFar} {c : Char} {cs rest : List Char}
    (h : readPart o s c cs = .ok (s', rest)) : rest.length ≤ cs.length := by
  unfold readPart at h
  split at h
  case h_3 =>
    split at h
    · grind
    · dsimp only at h
      split at h
      case h_1 hr =>
        have := length_le_of_readClass hr
        cases h
        grind
      all_goals grind
  case h_5 =>
    cases hc : s.closeChoice with
    | error e => rw [hc] at h; cases h
    | ok t => rw [hc] at h; cases h; exact Nat.le_refl _
  all_goals grind

/-- Read the rest of a glob. -/
def readFrom (o : Options) (s : SoFar) : List Char → Except Fault SoFar
  | [] => .ok s
  | c :: cs =>
    match _h : readPart o s c cs with
    | .error e => .error e
    | .ok (s, rest) => readFrom o s rest
termination_by cs => cs.length
decreasing_by
  have := length_le_of_readPart _h
  simp only [List.length_cons]
  omega

/-- The parts of a glob. -/
def readParts (o : Options) (glob : String) : Except Fault (List Part) := do
  let s ← readFrom o {} glob.toList
  if s.choices.isEmpty then return s.parts.reverse else throw .unclosedChoice

/-- Read a glob. -/
def ofText (o : Options) (glob : String) : Except GlobError Glob :=
  match readParts o glob with
  | .ok parts => .ok ⟨parts, o.slashIsSpecial⟩
  | .error fault => .error ⟨glob, fault⟩

/-! ## Matching -/

/-- The byte of a slash. -/
def slash : UInt8 := 47

def bytesOf (c : Char) : List UInt8 := (String.singleton c).toUTF8.toList

/-- What follows a given start. -/
def after? : List UInt8 → List UInt8 → Option (List UInt8)
  | [], s => some s
  | _ :: _, [] => none
  | b :: bs, c :: s => if b = c then after? bs s else none

/-- All ends of a text, itself included. -/
def tails : List UInt8 → List (List UInt8)
  | [] => [[]]
  | b :: s => (b :: s) :: tails s

/-- All ends of a text that skip no slash. -/
def tailsInComponent : List UInt8 → List (List UInt8)
  | [] => [[]]
  | b :: s => (b :: s) :: if b = slash then [] else tailsInComponent s

/-- What follows each slash. -/
def afterSlashes : List UInt8 → List (List UInt8)
  | [] => []
  | b :: s => if b = slash then s :: afterSlashes s else afterSlashes s

/-- The bytes of a range of characters: the bytes of both ends, and those between the last byte of
the lower and the first byte of the upper end. -/
def byteRanges (range : Char × Char) : List (UInt8 × UInt8) :=
  let (low, high) := range
  let single (b : UInt8) := (b, b)
  if low = high then (bytesOf low).map single
  else
    match (bytesOf low).reverse, bytesOf high with
    | l :: ls, h :: hs => ls.reverse.map single ++ [(l, h)] ++ hs.map single
    | _, _ => []

def inRanges (ranges : List (Char × Char)) (b : UInt8) : Bool :=
  (ranges.flatMap byteRanges).any fun (low, high) => low ≤ b && b ≤ high

mutual

/-- Whether a part is a group without a branch that matches something. -/
def Part.isVoid : Part → Bool
  | .choice branches => allVoid branches
  | _ => false

def partsVoid : List Part → Bool
  | [] => true
  | p :: ps => p.isVoid && partsVoid ps

def allVoid : List (List Part) → Bool
  | [] => true
  | b :: bs => partsVoid b && allVoid bs

end

mutual

/-- What may be left of a text behind a part. -/
def Part.rests (special : Bool) (s : List UInt8) : Part → List (List UInt8)
  | .char c => (after? (bytesOf c) s).toList
  | .anyByte =>
    match s with
    | [] => []
    | b :: s => if special && b == slash then [] else [s]
  | .star => if special then tailsInComponent s else tails s
  | .anyStart => s :: afterSlashes s
  | .anyEnd =>
    match s with
    | [] => []
    | b :: s => if b = slash then tails s else []
  | .anyMiddle =>
    match s with
    | [] => []
    | b :: s => if b = slash then s :: afterSlashes s else []
  | .oneOf negated ranges =>
    match s with
    | [] => []
    | b :: s => if inRanges ranges b != negated then [s] else []
  | .choice branches => if allVoid branches then [s] else restsOfAny special s branches

/-- What may be left behind parts one after another. -/
def restsOfAll (special : Bool) (ss : List (List UInt8)) : List Part → List (List UInt8)
  | [] => ss
  | p :: ps => restsOfAll special ((ss.flatMap fun s => p.rests special s).eraseDups) ps

/-- What may be left behind one of several branches; a branch that matches nothing is none. -/
def restsOfAny (special : Bool) (s : List UInt8) : List (List Part) → List (List UInt8)
  | [] => []
  | b :: bs =>
    (if partsVoid b then [] else restsOfAll special [s] b) ++ restsOfAny special s bs

end

/-- Whether a glob matches a path. Two stars alone match every path. -/
def accepts (g : Glob) (path : String) : Bool :=
  match g.parts with
  | [.anyStart] => true
  | parts => (restsOfAll g.slashIsSpecial [path.toUTF8.toList] parts).contains []

end Glob

end CodeGraph
