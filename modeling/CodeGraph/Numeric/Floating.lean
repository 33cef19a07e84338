/-!
# Floating-point words

`Single` and `Double` hold IEEE 754 numbers as their bit patterns, so storing, sending and comparing
them keeps every payload and every sign of zero. Arithmetic on `Single` rounds to nearest and gives
a definite pattern for a result that is not a number:

* an operand that is not a number passes through, quieted, the left one before the right one;
* an invalid operation gives the negative quiet pattern `Single.invalid`.

`Single.orderKey` is the IEEE total order as an order of integers.
-/

namespace CodeGraph

/-- A 32-bit floating-point number, as its bit pattern. -/
structure Single where
  bits : UInt32
deriving DecidableEq, Inhabited

/-- A 64-bit floating-point number, as its bit pattern. -/
structure Double where
  bits : UInt64
deriving DecidableEq, Inhabited

namespace Single

def zero : Single := ⟨0⟩

/-- The zero that leaves every number unchanged when added to it. -/
def negZero : Single := ⟨0x80000000⟩

def one : Single := ⟨0x3f800000⟩

def negOne : Single := ⟨0xbf800000⟩

/-- What an invalid operation gives. -/
def invalid : Single := ⟨0xffc00000⟩

def isNaN (x : Single) : Bool := 0x7f800000 < x.bits &&& 0x7fffffff

def isFinite (x : Single) : Bool := x.bits &&& 0x7f800000 != 0x7f800000

/-- Both zeros, and nothing else. -/
def isZero (x : Single) : Bool := x.bits &&& 0x7fffffff == 0

/-- The same pattern with the quiet bit set. -/
def quiet (x : Single) : Single := ⟨x.bits ||| 0x00400000⟩

/-- The pattern of a result that may be invalid. -/
def ofResult (r : Float32) : Single :=
  let w : Single := ⟨r.toBits⟩
  if w.isNaN then invalid else w

/-- Lift an operation on numbers: a left operand that is none goes first, then a right one. -/
def lift₂ (op : Float32 → Float32 → Float32) (x y : Single) : Single :=
  if x.isNaN then x.quiet
  else if y.isNaN then y.quiet
  else ofResult (op (Float32.ofBits x.bits) (Float32.ofBits y.bits))

def add (x y : Single) : Single := lift₂ (· + ·) x y

def mul (x y : Single) : Single := lift₂ (· * ·) x y

def div (x y : Single) : Single := lift₂ (· / ·) x y

def sqrt (x : Single) : Single :=
  if x.isNaN then x.quiet else ofResult (Float32.ofBits x.bits).sqrt

instance : Add Single := ⟨add⟩

instance : Mul Single := ⟨mul⟩

instance : Div Single := ⟨div⟩

/-- The sum from left to right, starting at negative zero. -/
def sum (xs : List Single) : Single := xs.foldl (· + ·) negZero

/-- Position in the IEEE total order: negative patterns descend below the non-negative ones. -/
def orderKey (x : Single) : Int :=
  if x.bits &&& 0x80000000 == 0 then (x.bits.toNat : Int)
  else -((x.bits &&& 0x7fffffff).toNat : Int) - 1

/-- Strictly greater than zero, which no pattern that is not a number is. -/
def isPositive (x : Single) : Bool :=
  x.bits &&& 0x80000000 == 0 && !x.isZero && !x.isNaN

def negate (x : Single) : Single := ⟨x.bits ^^^ 0x80000000⟩

/-- The number nearest to a word. -/
def ofWord (n : UInt64) : Single := ⟨n.toFloat32.toBits⟩

/-- The number in double width; exact for every number. -/
def toDouble (x : Single) : Double := ⟨(Float32.ofBits x.bits).toFloat.toBits⟩

end Single

namespace Double

def zero : Double := ⟨0⟩

def isFinite (x : Double) : Bool := x.bits &&& 0x7ff0000000000000 != 0x7ff0000000000000

def isNegative (x : Double) : Bool := x.bits &&& 0x8000000000000000 != 0

def negate (x : Double) : Double := ⟨x.bits ^^^ 0x8000000000000000⟩

/-- The nearest single-width number; a magnitude beyond the largest becomes infinite. -/
def toSingle (x : Double) : Single := ⟨(Float.ofBits x.bits).toFloat32.toBits⟩

/-- The number nearest to a natural number. -/
def ofNat (n : Nat) : Double := ⟨(Float.ofNat n).toBits⟩

/-- The number nearest to `m * 10 ^ e`. -/
def ofDecimal (m : Nat) (e : Int) : Double :=
  ⟨(Float.ofScientific m (e < 0) e.natAbs).toBits⟩

/-- Lift an operation on numbers. -/
def lift₂ (op : Float → Float → Float) (x y : Double) : Double :=
  ⟨(op (Float.ofBits x.bits) (Float.ofBits y.bits)).toBits⟩

instance : Mul Double := ⟨lift₂ (· * ·)⟩

instance : Div Double := ⟨lift₂ (· / ·)⟩

end Double

end CodeGraph
