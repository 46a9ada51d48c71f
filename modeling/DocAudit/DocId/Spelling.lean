import DocAudit.Api.TypeRef
/-!
# Parameter types inside documentation ids

An id of a method, constructor or indexer spells its parameter types by a small closed set of rules.

* `TypeRef.spell`: the spelling, or `none` if any part of the type is unresolved.
* `dottedPath`: the dotted name of a type, with primitive names qualified into `System` and arity
  suffixes removed.
-/

namespace DocAudit

/-- The primitive types: keyword and name in `System`. -/
def primitives : List (String × String) :=
  [("bool", "Boolean"), ("byte", "Byte"), ("sbyte", "SByte"), ("char", "Char"), ("short", "Int16"),
   ("ushort", "UInt16"), ("int", "Int32"), ("uint", "UInt32"), ("long", "Int64"),
   ("ulong", "UInt64"), ("float", "Single"), ("double", "Double"), ("decimal", "Decimal"),
   ("string", "String"), ("object", "Object"), ("nint", "IntPtr"), ("nuint", "UIntPtr")]

/-- The name in `System` of a primitive type that is given by its keyword or by that name. -/
def primitiveName? (name : String) : Option String :=
  (primitives.find? fun p => p.1 = name || p.2 = name).map (·.2)

/-- The namespace under which a type is spelled. A primitive name without namespace that is not
nested belongs to `System`. -/
def spelledNamespace (ns : Option String) (declaring : List String) (name : String) : String :=
  match ns.getD "" with
  | "" => if declaring = [] ∧ (primitiveName? name).isSome then "System" else ""
  | s => s

/-- The dotted name of a type: namespace if any, enclosing types and own name, without arity
suffixes. In the namespace `System` a keyword stands for the primitive type. -/
def dottedPath (ns : Option String) (declaring : List String) (name : String) : String :=
  let space := spelledNamespace ns declaring name
  let own := if space = "System" then (primitiveName? name).getD name else name
  let outer := if space = "" then [] else [space]
  ".".intercalate (outer ++ declaring.map stripArity ++ [stripArity own])

namespace TypeRef

mutual

/-- The spelling of a type inside an id, or `none` if a part of it is unresolved: constructed
generics carry their arguments in braces, arrays their brackets, references an `@`, and a type
parameter is its position behind a backtick. A nullable type has a short cut of its own. -/
def spell : TypeRef → Option String
  | named (some "System") "Nullable`1" [] [inner] =>
    (spell inner).map fun s => "System.Nullable\x7b" ++ s ++ "\x7d"
  | named ns name declaring [] => some (dottedPath ns declaring name)
  | named ns name declaring (a :: as) =>
    (spellAll (a :: as)).map fun ss =>
      dottedPath ns declaring name ++ "\x7b" ++ ",".intercalate ss ++ "\x7d"
  | array element rank => (spell element).map fun s => s ++ "[" ++ rankCommas rank ++ "]"
  | byRef element => (spell element).map (· ++ "@")
  | parameter position _ => some ("`" ++ position.toNat.repr)
  | unresolved _ => none

/-- The spellings of a list of types, if all of them have one. -/
def spellAll : List TypeRef → Option (List String)
  | [] => some []
  | t :: ts =>
    match spell t, spellAll ts with
    | some s, some ss => some (s :: ss)
    | _, _ => none

end

end TypeRef

end DocAudit
