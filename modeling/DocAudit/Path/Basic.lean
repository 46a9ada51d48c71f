/-!
# Paths

A `Path` is the text of a file name with slashes. Its meaning is its list of components, in which
repeated slashes, slashes at the end and `.` between slashes do not count; a `.` at the very start
of a relative path does. Two texts may spell the same path, and the text is kept for messages.

* `Path.components`: the meaning of a path.
* `Path.same`, `Path.le`: equality and order by components.
* `Path.parent?`, `Path.fileName?`, `Path.stem?`, `Path.withExtension`, `Path.join`.
* `Path.relativeTo`: a path seen from another directory.
-/

namespace DocAudit

/-- A file name with slashes. -/
structure Path where
  text : String
deriving DecidableEq, Repr

namespace Path

instance : Inhabited Path := ⟨⟨""⟩⟩

/-- One component of a path. -/
inductive Component where
  /-- The slash at the start of an absolute path. -/
  | root
  /-- A `.` at the start of a relative path. -/
  | current
  /-- A `..`. -/
  | parent
  | normal (name : String)
deriving DecidableEq, Repr

namespace Component

def text : Component → String
  | root => "/"
  | current => "."
  | parent => ".."
  | normal name => name

/-- The rank of the kinds of components in the order of paths. -/
def rank : Component → Nat
  | root => 0
  | current => 1
  | parent => 2
  | normal _ => 3

/-- Whether one component comes before or is equal to another one; names are in the order of their
code points. -/
def le : Component → Component → Bool
  | normal a, normal b => a ≤ b
  | a, b => a.rank ≤ b.rank

end Component

/-! ## The text and its pieces -/

def isAbsolute (p : Path) : Bool := p.text.toList.head? = some '/'

/-- The pieces of a text between slashes. -/
def piecesOf (text : List Char) : List String := (text.splitOn '/').map String.ofList

/-- The pieces between the slashes, without the slash at the start of an absolute path. -/
def pieces (p : Path) : List String :=
  match p.text.toList with
  | '/' :: cs => piecesOf cs
  | cs => piecesOf cs

/-- The path with the given pieces. -/
def ofPieces (isAbsolute : Bool) (pieces : List String) : Path :=
  ⟨(if isAbsolute then "/" else "") ++ "/".intercalate pieces⟩

/-- A piece that does not count, unless it opens a relative path as `.`. -/
def isIdle (piece : String) : Bool := piece = "" || piece = "."

/-- The component of a piece that does not open a relative path. -/
def component? (piece : String) : Option Component :=
  if isIdle piece then none
  else if piece = ".." then some .parent
  else some (.normal piece)

/-- The components of a path. -/
def components (p : Path) : List Component :=
  match p.isAbsolute, p.pieces with
  | true, ps => .root :: ps.filterMap component?
  | false, "." :: ps => .current :: ps.filterMap component?
  | false, ps => ps.filterMap component?

/-- Two paths are the same when their components are. -/
def same (p q : Path) : Bool := p.components = q.components

theorem same_refl (p : Path) : p.same p = true := decide_eq_true rfl

theorem same_comm (p q : Path) : p.same q = q.same p := decide_eq_decide.mpr eq_comm

/-- Paths that are the same are the same as the same paths. -/
theorem same_congr {p q : Path} (h : p.same q = true) : p.same = q.same := by
  funext r
  rw [same, same, of_decide_eq_true h]

/-- The order of lists of components. -/
def leComponents : List Component → List Component → Bool
  | [], _ => true
  | _ :: _, [] => false
  | a :: as, b :: bs => if a = b then leComponents as bs else a.le b

/-- The order of paths: component by component. -/
def le (p q : Path) : Bool := leComponents p.components q.components

/-! ## Parts of a path -/

/-- Pieces without idle ones at the end. -/
def trim (isAbsolute : Bool) (pieces : List String) : List String :=
  match isAbsolute, pieces with
  | false, "." :: ps => "." :: (ps.reverse.dropWhile isIdle).reverse
  | _, ps => (ps.reverse.dropWhile isIdle).reverse

/-- The pieces of a path without idle ones at the end. -/
def trimmedPieces (p : Path) : List String := trim p.isAbsolute p.pieces

/-- The path without its last component; a root and an empty path have no parent. -/
def parent? (p : Path) : Option Path :=
  match p.trimmedPieces with
  | [] => none
  | ps => some (ofPieces p.isAbsolute (trim p.isAbsolute ps.dropLast))

/-- The last component, if it is a name. -/
def fileName? (p : Path) : Option String :=
  match p.components.getLast? with
  | some (.normal name) => some name
  | _ => none

/-- A file name without its last extension. The dot of a name that has no other one, or only one at
its start, does not open an extension. -/
def stemOf (name : String) : String :=
  match name.toList.reverse.dropWhile (· != '.') with
  | _ :: c :: cs => String.ofList (c :: cs).reverse
  | _ => name

/-- The last component without its last extension, if it is a name. -/
def stem? (p : Path) : Option String := p.fileName?.map stemOf

/-- The path with its extension replaced, or with one added; a path that does not end in a name is
left as it is. The old extension goes first, and if that leaves `..` at the end, no name is left to
take the new one. -/
def withExtension (p : Path) (extension : String) : Path :=
  match p.stem? with
  | none => p
  | some stem =>
    let bare := stem ++ "."
    let name := if bare = ".." ∧ p.pieces.getLast? = p.fileName? then bare else bare ++ extension
    ofPieces p.isAbsolute (p.trimmedPieces.dropLast ++ [name])

/-- A path inside a directory; an absolute one stays as it is. -/
def join (p : Path) (q : Path) : Path :=
  if q.isAbsolute then q
  else if p.text = "" ∨ p.text.toList.getLast? = some '/' then ⟨p.text ++ q.text⟩
  else ⟨p.text ++ "/" ++ q.text⟩

/-- The path with the given components. -/
def ofComponents (cs : List Component) : Path :=
  cs.foldl (fun p c => p.join ⟨c.text⟩) ⟨""⟩

/-! ## Paths seen from a directory -/

/-- The components that lead from a directory to a path, behind steps that were made already: up to
where both part, and down again. A `.` that only the directory has costs a component of the path.
There are none if the directory goes up from a place that is not known. -/
def stepsBetween (steps : List Component) : List Component → List Component →
    Option (List Component)
  | as, [] => some (steps ++ as)
  | [], bs => some (steps ++ bs.map fun _ => .parent)
  | a :: as, b :: bs =>
    if steps = [] ∧ a = b then stepsBetween steps as bs
    else if b = .current then stepsBetween (steps ++ [a]) as bs
    else if b = .parent then none
    else some (steps ++ (b :: bs).map (fun _ => .parent) ++ a :: as)

/-- The path as it is seen from a directory. -/
def relativeTo? (p directory : Path) : Option Path :=
  if p.isAbsolute = directory.isAbsolute then
    (stepsBetween [] p.components directory.components).map ofComponents
  else if p.isAbsolute then some p
  else none

end Path

end DocAudit
