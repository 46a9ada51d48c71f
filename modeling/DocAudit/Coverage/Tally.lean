import DocAudit.Coverage.Tree
/-!
# Counting errors up the tree

A node counts one error for its own missing summary and one for each child that has errors,
however many that child has. The tree as a whole adds up the counts of its namespaces.

* `Tally.rollUp`: the tally of a node.
* `Coverage.aggregate`: the tree with all tallies filled in, whatever they were before.
-/

namespace DocAudit

/-- The tally of a node, given whether its own summary is fine and which children have errors. -/
def Tally.rollUp (satisfied : Bool) (children : List Bool) : Tally :=
  let errors := (if satisfied then 0 else 1) + children.countP (·)
  { hasErrors := 0 < errors, errors }

def MemberNode.aggregate (m : MemberNode) : MemberNode :=
  { m with tally := Tally.rollUp m.summary.isSatisfied [] }

/-- A type with the tallies of its members and its own. -/
def TypeNode.aggregate (t : TypeNode) : TypeNode :=
  let t := { t with
    constructors := t.constructors.map MemberNode.aggregate
    methods := t.methods.map MemberNode.aggregate
    fields := t.fields.map MemberNode.aggregate
    properties := t.properties.map MemberNode.aggregate }
  { t with tally := Tally.rollUp t.summary.isSatisfied (t.members.map (·.tally.hasErrors)) }

/-- A namespace with the tallies of its types and its own. -/
def NamespaceNode.aggregate (n : NamespaceNode) : NamespaceNode :=
  let types := n.types.map TypeNode.aggregate
  { n with
    types
    tally := Tally.rollUp n.summary.isSatisfied (types.map (·.tally.hasErrors)) }

/-- A tree with all tallies filled in. -/
def Coverage.aggregate (c : Coverage) : Coverage :=
  let namespaces := c.namespaces.map NamespaceNode.aggregate
  { c with
    namespaces
    tally :=
      { hasErrors := namespaces.any (·.tally.hasErrors)
        errors := (namespaces.map (·.tally.errors)).foldr (· + ·) 0 } }

end DocAudit
