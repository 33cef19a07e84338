import CodeGraph.Text.Character

/-!
# Java syntax trees

A `Tree` is a node of the concrete syntax tree of a Java source: its kind, the field under which its
parent holds it, its text and lines, and its children in order. Children that are not *named* are
tokens.

`Tree.ofRows?` builds a tree from the pre-order list of its nodes. Every look-up among the
children answers a smaller tree (`size_lt_of_child?` and its kin), which is what
recursions over trees end by.
-/

namespace CodeGraph.Java

/-- A node of a syntax tree. Lines count from one. -/
inductive Tree
  | mk (kind : String) (isNamed : Bool) (field : String) (text : String)
      (startLine endLine : Nat) (children : List Tree)
deriving Inhabited

namespace Tree

def kind : Tree → String
  | mk k _ _ _ _ _ _ => k

def isNamed : Tree → Bool
  | mk _ n _ _ _ _ _ => n

/-- The field under which the parent holds the node, or nothing. -/
def field : Tree → String
  | mk _ _ f _ _ _ _ => f

/-- The node's part of the source. -/
def text : Tree → String
  | mk _ _ _ t _ _ _ => t

def startLine : Tree → Nat
  | mk _ _ _ _ s _ _ => s

def endLine : Tree → Nat
  | mk _ _ _ _ _ e _ => e

def children : Tree → List Tree
  | mk _ _ _ _ _ _ cs => cs

mutual

/-- The number of nodes. -/
def size : Tree → Nat
  | mk _ _ _ _ _ _ cs => sizes cs + 1

/-- The number of nodes of several trees. -/
def sizes : List Tree → Nat
  | [] => 0
  | t :: ts => size t + sizes ts

end

/-! ## Look-ups -/

/-- The first child held under a field. -/
def child? (t : Tree) (field : String) : Option Tree := t.children.find? (·.field == field)

/-- The children held under a field. -/
def childrenOf (t : Tree) (field : String) : List Tree := t.children.filter (·.field == field)

/-- The children that are no tokens. -/
def named (t : Tree) : List Tree := t.children.filter (·.isNamed)

/-- The first named child of a kind. -/
def childOfKind? (t : Tree) (kind : String) : Option Tree := t.named.find? (·.kind == kind)

/-- The first named child. -/
def first? (t : Tree) : Option Tree := t.named.head?

/-- Whether a token stands among the children. -/
def hasToken (t : Tree) (token : String) : Bool :=
  t.children.any fun c => !c.isNamed && c.kind == token

theorem size_le_sizes {c : Tree} {cs : List Tree} (h : c ∈ cs) : c.size ≤ sizes cs := by
  induction cs with
  | nil => simp at h
  | cons t ts ih =>
    rw [sizes]
    rcases List.mem_cons.1 h with rfl | h
    · omega
    · have := ih h; omega

@[grind →] theorem size_lt_of_mem_children {t c : Tree} (h : c ∈ t.children) : c.size < t.size := by
  cases t with
  | mk k n f x s e cs =>
    have : c.size ≤ sizes cs := size_le_sizes h
    rw [size]; omega

@[grind →] theorem size_lt_of_mem_named {t c : Tree} (h : c ∈ t.named) : c.size < t.size :=
  size_lt_of_mem_children (List.mem_filter.1 h).1

@[grind →] theorem size_lt_of_mem_childrenOf {t c : Tree} {field : String}
    (h : c ∈ t.childrenOf field) : c.size < t.size :=
  size_lt_of_mem_children (List.mem_filter.1 h).1

@[grind →] theorem size_lt_of_child? {t c : Tree} {field : String} (h : t.child? field = some c) :
    c.size < t.size :=
  size_lt_of_mem_children (List.mem_of_find?_eq_some h)

@[grind →] theorem size_lt_of_childOfKind? {t c : Tree} {kind : String}
    (h : t.childOfKind? kind = some c) : c.size < t.size :=
  size_lt_of_mem_named (List.mem_of_find?_eq_some h)

@[grind →] theorem size_lt_of_first? {t c : Tree} (h : t.first? = some c) : c.size < t.size :=
  size_lt_of_mem_named (List.mem_of_mem_head? h)

/-! ## Building from rows -/

/-- A node in pre-order: its depth and its place in the source, in bytes. -/
structure Row where
  depth : Nat
  kind : String
  isNamed : Bool
  field : String
  start : Nat
  stop : Nat
deriving Inhabited

/-- A source text by bytes, with the line of every byte offset. -/
structure Source where
  bytes : ByteArray
  lines : Array Nat

def Source.ofString (s : String) : Source where
  bytes := s.toByteArray
  lines := s.toByteArray.foldl
    (fun ls b => ls.push (ls.back?.getD 1 + if b = 10 then 1 else 0)) #[1]

def Source.line (s : Source) (offset : Nat) : Nat := s.lines[offset]?.getD 1

def Source.slice (s : Source) (start stop : Nat) : String :=
  (String.fromUTF8? (s.bytes.extract start stop)).getD ""

/-- The trees whose roots stand at a depth, at the front of the rows, and the rows after them. -/
def forest (source : Source) (depth : Nat) : (fuel : Nat) → List Row → List Tree × List Row
  | 0, rows => ([], rows)
  | _ + 1, [] => ([], [])
  | fuel + 1, r :: rows =>
    if r.depth = depth then
      let (inner, rows) := forest source (depth + 1) fuel rows
      let (next, rows) := forest source depth fuel rows
      (mk r.kind r.isNamed r.field (source.slice r.start r.stop) (source.line r.start)
        (source.line r.stop) inner :: next, rows)
    else ([], r :: rows)

/-- The tree of a source whose nodes are listed in pre-order. -/
def ofRows? (source : String) (rows : List Row) : Option Tree :=
  (forest (Source.ofString source) 0 (rows.length + 1) rows).1.head?

end Tree

end CodeGraph.Java
