import CodeGraph.Numeric.Floating
import CodeGraph.Text.Character

/-!
# Word vectors

`words` splits a text into the words of its prose and of its identifiers: at characters that are
neither letters nor numbers, before a capital that follows a small letter and where ASCII digits
begin or end. `parseYamlFile`, `parse_yaml_file` and "parse yaml file" have the same words.

`wordVector` counts the words of a text in buckets chosen by a hash, half of the words downwards,
and scales the counts to length one.
-/

namespace CodeGraph.Embedding

open Text

/-- Whether a word ends between two adjacent letters or numbers. -/
def splitsWord (before after : Char) : Bool :=
  (isLowercase before && isUppercase after) || isAsciiDigit before != isAsciiDigit after

/-- The words of a text as they are spelled. -/
def pieces : List Char → List (List Char)
  | [] => []
  | c :: cs =>
    if isAlphanumeric c then
      match cs, pieces cs with
      | d :: _, piece :: rest =>
        if isAlphanumeric d && !splitsWord c d then (c :: piece) :: rest else [c] :: piece :: rest
      | _, rest => [c] :: rest
    else pieces cs

/-- The words of a text in lower case. -/
def words (cs : List Char) : List (List Char) := (pieces cs).map (·.flatMap lowercase)

/-- The 64-bit FNV-1a hash. -/
def hash (bytes : List UInt8) : UInt64 :=
  bytes.foldl (fun h b => (h ^^^ b.toUInt64) * 0x100000001b3) 0xcbf29ce484222325

/-- Count a word in its bucket, upwards if its hash is below `2 ^ 63`. -/
def countWord (dimensions : Nat) (counts : List Single) (word : List Char) : List Single :=
  let h := hash (String.ofList word).toByteArray.data.toList
  counts.modify (h.toNat % dimensions) (· + if h.toNat < 0x8000000000000000 then Single.one
    else Single.negOne)

/-- The vector divided by its length, unless that is zero. -/
def normalize (v : List Single) : List Single :=
  let length := (Single.sum (v.map fun x => x * x)).sqrt
  if length.isPositive then v.map (· / length) else v

/-- The vector of a text, of at least one dimension. -/
def wordVector (dimensions : Nat) (s : String) : List Single :=
  normalize ((words s.toList).foldl (countWord dimensions) (List.replicate dimensions Single.zero))

end CodeGraph.Embedding
