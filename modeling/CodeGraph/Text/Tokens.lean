/-!
# Token estimates

Language models count tokens, which are estimated here as four characters each, rounded up.
`truncate` cuts a text down to an estimate; a `Budget` grants room for texts as long as their
estimates fit. The number of characters that tokens stand for is counted in a word of 64 bits and
stops at its largest number.
-/

namespace CodeGraph.Text

def charsPerToken : Nat := 4

/-- The estimated number of tokens of a text. -/
def estimateTokens (s : String) : Nat := (s.length + (charsPerToken - 1)) / charsPerToken

/-- The number of characters that tokens stand for, or the largest one of a word. -/
def charsOf (tokens : Nat) : Nat := min (tokens * charsPerToken) (UInt64.size - 1)

/-- The longest start of a text that is estimated to have at most `tokens` tokens. -/
def truncate (tokens : Nat) (s : String) : String :=
  String.ofList (s.toList.take (charsOf tokens))

/-- An allowance of tokens and what of it is used. -/
structure Budget where
  limit : Nat
  used : Nat := 0
deriving DecidableEq, Inhabited

namespace Budget

/-- Reserve room for a text, or nothing if it does not fit; answers whether it did. -/
def spend (b : Budget) (s : String) : Bool × Budget :=
  if b.used + estimateTokens s ≤ b.limit then (true, { b with used := b.used + estimateTokens s })
  else (false, b)

def remaining (b : Budget) : Nat := b.limit - b.used

end Budget

end CodeGraph.Text
