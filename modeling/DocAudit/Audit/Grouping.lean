import DocAudit.Api.Member
/-!
# Types by namespace

The types of a library are grouped by namespace in one pass. A table gives each namespace a slot,
which is the position of its group; a namespace that is new gets the next slot.

* `Grouping.add`: one more type.
* `byNamespace`: the groups of a list of types.
-/

namespace DocAudit

/-- Groups of types in the making, with the slots of their namespaces. -/
structure Grouping where
  groups : List (String × List TypeInfo) := []
  slots : List (String × Nat) := []

namespace Grouping

/-- A slot for a namespace, with an empty group in it if the namespace is new. -/
def reserve (g : Grouping) (ns : String) : Nat × Grouping :=
  match g.slots.lookup ns with
  | some slot => (slot, g)
  | none =>
    (g.groups.length, ⟨g.groups ++ [(ns, [])], (ns, g.groups.length) :: g.slots⟩)

/-- Puts a type behind the other types of its namespace. -/
def add (g : Grouping) (t : TypeInfo) : Grouping :=
  let (slot, g) := g.reserve t.namespaceName
  { g with groups := g.groups.modify slot fun (ns, ts) => (ns, ts ++ [t]) }

end Grouping

/-- Types grouped by namespace. Namespaces are in the order of their first types, and the types of
each in their own order. -/
def byNamespace (types : List TypeInfo) : List (String × List TypeInfo) :=
  (types.foldl Grouping.add {}).groups

end DocAudit
