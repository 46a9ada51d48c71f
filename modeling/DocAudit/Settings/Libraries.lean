import DocAudit.Glob.Search
import DocAudit.Log
/-!
# Finding the libraries

The libraries to check are given as paths or globs, relative to the root directory of a
repository.

* `Expansion.ofPatterns`: the libraries that a list of patterns stands for.
-/

namespace DocAudit

/-- The libraries that patterns stand for, and the patterns that stand for none. -/
structure Expansion where
  found : List Path := []
  unmatched : List String := []
  log : List Event := []

/-- Whether a pattern has a wildcard. -/
def hasWildcard (pattern : String) : Bool :=
  pattern.toList.any fun c => c = '*' || c = '?' || c = '['

/-- The libraries that one pattern stands for. A path without wildcards need not exist; the
matches of a glob are in the order of paths. -/
def Expansion.ofPattern (disk : Disk) (root : Path) (pattern : String) : Expansion :=
  let full := root.join ⟨pattern⟩
  if !hasWildcard pattern then { found := [full] }
  else
    match Glob.ofText? full.text with
    | none => { unmatched := [pattern], log := [.invalidPattern pattern] }
    | some g =>
      match (g.search disk).mergeSort Path.le with
      | [] => { unmatched := [pattern] }
      | found => { found }

/-- The libraries that a list of patterns stands for, in order. Of neighbours that are the same
path only the first is kept. -/
def Expansion.ofPatterns (disk : Disk) (root : Path) (patterns : List String) : Expansion :=
  let each := patterns.map (Expansion.ofPattern disk root)
  { found := (each.flatMap (·.found)).eraseRepsBy Path.same
    unmatched := each.flatMap (·.unmatched)
    log := each.flatMap (·.log) }

end DocAudit
