/-!
# Methods

A method of a program, named by the type that declares it, its name and the types of its
parameters. Its canonical form `type:name(p1,p2)` is its identity: methods are compared, ordered and
stored by it.
-/

namespace CallDepth

structure Method where
  declaringType : String
  name : String
  params : List String
  canonical : String
  canonical_eq : canonical = declaringType ++ ":" ++ name ++ "(" ++ ",".intercalate params ++ ")"

namespace Method

/-- The method with the given parts; a single empty parameter means none. -/
def make (declaringType name : String) (params : List String) : Method :=
  let params := if params = [""] then [] else params
  { declaringType
    name
    params
    canonical := declaringType ++ ":" ++ name ++ "(" ++ ",".intercalate params ++ ")"
    canonical_eq := rfl }

/-- The type and the name of a method, which its overloads share. -/
def overloadKey (m : Method) : String := m.declaringType ++ "#" ++ m.name

instance : ToString Method := ⟨canonical⟩

def debugText (m : Method) : String := "Method(" ++ m.canonical ++ ")"

def compare (m n : Method) : Ordering := Ord.compare m.canonical n.canonical

/-- Whether two methods are the same, which their canonical forms decide. -/
def same (m n : Method) : Bool := m.canonical = n.canonical

end Method

end CallDepth
