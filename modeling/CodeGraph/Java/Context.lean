import CodeGraph.Java.Index

/-!
# Where a walk stands

A `Context` knows the types, type variables and local variables that are visible at one point of a
walk through a file, and the method or constructor whose body is being walked. Entering a class, a
method or a block remembers how much was visible, `exit` forgets what came since.
-/

namespace CodeGraph.Java

/-- The method or constructor whose body is being walked. -/
structure Executable where
  signature : String
  isConstructor : Bool
deriving DecidableEq, Inhabited

/-- A local variable or parameter; its type may be unknown. -/
structure Local where
  name : String
  type : Option ResolvedType
deriving DecidableEq, Inhabited

/-- How much was visible when a scope was entered, and the method it belongs to if it is one's. -/
structure Frame where
  executable : Option Executable
  classes : Nat
  typeVars : Nat
  locals : Nat
deriving DecidableEq, Inhabited

/-- What is visible, in order of appearance. Frames come innermost first. -/
structure Context where
  file : FileScope
  frames : List Frame
  classes : List String
  typeVars : List String
  locals : List Local
deriving DecidableEq, Inhabited

namespace Context

def ofFile (file : FileScope) : Context := ⟨file, [], [], [], []⟩

/-- Remember what is visible. -/
def mark (ctx : Context) (executable : Option Executable) : Context :=
  { ctx with
    frames := ⟨executable, ctx.classes.length, ctx.typeVars.length, ctx.locals.length⟩ ::
      ctx.frames }

def enterClass (ctx : Context) (qualified : String) (typeParams : List String) : Context :=
  let ctx := ctx.mark none
  { ctx with classes := ctx.classes ++ [qualified], typeVars := ctx.typeVars ++ typeParams }

def enterExecutable (ctx : Context) (executable : Executable) (typeParams : List String) :
    Context :=
  let ctx := ctx.mark (some executable)
  { ctx with typeVars := ctx.typeVars ++ typeParams }

def enterBlock (ctx : Context) : Context := ctx.mark none

/-- Forget what came since the last entry, if there was one. -/
def exit (ctx : Context) : Context :=
  match ctx.frames with
  | [] => ctx
  | frame :: frames =>
    { ctx with
      frames
      classes := ctx.classes.take frame.classes
      typeVars := ctx.typeVars.take frame.typeVars
      locals := ctx.locals.take frame.locals }

def declare (ctx : Context) (name : String) (type : Option ResolvedType) : Context :=
  { ctx with locals := ctx.locals ++ [⟨name, type⟩] }

/-- The latest visible variable of a name. -/
def local? (ctx : Context) (name : String) : Option Local :=
  ctx.locals.reverse.find? (·.name == name)

/-- The innermost enclosing class. -/
def currentClass? (ctx : Context) : Option String := ctx.classes.getLast?

/-- The innermost enclosing method or constructor. -/
def currentExecutable? (ctx : Context) : Option Executable := ctx.frames.findSome? (·.executable)

/-- Where type names are looked up. -/
def scope (ctx : Context) : TypeScope := ⟨ctx.file, ctx.classes, ctx.typeVars⟩

def depth (ctx : Context) : Nat := ctx.frames.length

end Context

end CodeGraph.Java
