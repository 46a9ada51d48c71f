/-!
# References to types

A `TypeRef` says which type a parameter, field or return value has. References nest: a generic
type holds its arguments, an array its element.

* `stripArity`: a type name without its arity suffix, a backtick and digits.
* `TypeRef.ind`: induction, with the arguments of a named type as a list.
* `TypeRef.shortName`: the spelling for people, `List<Int32>`.
* `TypeRef.nullableUnderlying`: the `T` of `System.Nullable<T>`.
-/

namespace DocAudit

/-- The name without a trailing backtick that is followed by one or more digits. -/
def stripArity (name : String) : String :=
  match name.toList.reverse.span Char.isDigit with
  | (_ :: _, '`' :: base) => String.ofList base.reverse
  | _ => name

/-- A structured reference to a type. -/
inductive TypeRef where
  /-- A type by name, with its enclosing types outermost first and its generic arguments. -/
  | named (ns : Option String) (name : String) (declaring : List String) (args : List TypeRef)
  | array (element : TypeRef) (rank : UInt32)
  | byRef (element : TypeRef)
  /-- A type parameter of the enclosing generic type. -/
  | parameter (position : UInt32) (name : Option String)
  /-- A type that could not be found when the metadata was collected. -/
  | unresolved (hint : Option String)

namespace TypeRef

instance : Inhabited TypeRef := ⟨unresolved none⟩

/-- Induction over references: a named type may use what is known of its arguments. -/
@[induction_eliminator]
theorem ind {P : TypeRef → Prop}
    (named : ∀ ns name declaring args, (∀ t ∈ args, P t) → P (named ns name declaring args))
    (array : ∀ element rank, P element → P (array element rank))
    (byRef : ∀ element, P element → P (byRef element))
    (parameter : ∀ position name, P (parameter position name))
    (unresolved : ∀ hint, P (unresolved hint)) (t : TypeRef) : P t :=
  @TypeRef.rec P (fun ts => ∀ t ∈ ts, P t) named array byRef parameter unresolved
    (fun _ h => nomatch h)
    (fun _ _ hd tl => List.forall_mem_cons.mpr ⟨hd, tl⟩) t

/-- The commas between the brackets of an array of the given rank. -/
def rankCommas (rank : UInt32) : String := String.ofList (List.replicate (rank.toNat - 1) ',')

mutual

/-- A spelling for people: names without namespaces, generic arguments in angle brackets. -/
def shortName : TypeRef → String
  | named _ name _ [] => stripArity name
  | named _ name _ (a :: as) =>
    stripArity name ++ "<" ++ ", ".intercalate (shortNames (a :: as)) ++ ">"
  | array element rank => element.shortName ++ "[" ++ rankCommas rank ++ "]"
  | byRef element => element.shortName ++ "&"
  | parameter position name => name.getD ("T" ++ position.toNat.repr)
  | unresolved hint => hint.getD "?"

/-- The short names of a list of types. -/
def shortNames : List TypeRef → List String
  | [] => []
  | t :: ts => t.shortName :: shortNames ts

end

theorem shortNames_eq_map (ts : List TypeRef) : shortNames ts = ts.map shortName := by
  induction ts with
  | nil => rfl
  | cons t ts ih => simp [shortNames, ih]

/-- The type that a nullable value type wraps. -/
def nullableUnderlying : TypeRef → Option TypeRef
  | named (some "System") "Nullable`1" [] [inner] => some inner
  | _ => none

end TypeRef

end DocAudit
