import DocAudit.Glob.Search
import DocAudit.Proofs.Places
/-!
# What a search finds

A glob is searched name by name, and what it stands for can be told without the search: the names
on the way from where it starts have to fit its patterns, and the way has to be there.

* `Disk.Regular`: a disk whose directories have names as the system gives them.
* `Glob.Fits`: the names that patterns stand for.
* `Disk.Reaches`: how a path goes on from another one.
* `Glob.LeavesDot`: that no empty name is looked up while a search is at a dot.
* **`Glob.search_sound`**, **`Glob.search_complete`**: a search finds what fits and is there.
-/

namespace DocAudit

open DocAudit.Path (IsName isIdle)

/-! ## Disks -/

/-- What may be on a disk: the entries of a directory have names, and no two of them the same. -/
inductive Entry.Regular : Entry → Prop
  | file (content : Content) : Regular (.file content)
  | directory {entries : List (String × Entry)} (names : ∀ p ∈ entries, IsName p.1)
      (distinct : (entries.map (·.1)).Nodup) (inside : ∀ p ∈ entries, Regular p.2) :
      Regular (.directory entries)

namespace Entry

theorem Regular.child? {e f : Entry} {name : String} (he : e.Regular)
    (hf : Entry.child? name e = some f) : f.Regular := by
  cases he with
  | file content => cases hf
  | directory _ _ inside =>
    obtain ⟨p, hp, rfl⟩ := Option.map_eq_some_iff.mp hf
    exact inside p (List.mem_of_find?_eq_some hp)

theorem Regular.at? {e f : Entry} {place : List String} (he : e.Regular)
    (hf : e.at? place = some f) : f.Regular := by
  induction place generalizing e with
  | nil =>
    obtain rfl : e = f := Option.some.inj hf
    exact he
  | cons name place ih =>
    have hsplit := e.at?_append [name] place
    rw [List.singleton_append, hf] at hsplit
    obtain ⟨child, hchild, hplace⟩ := Option.bind_eq_some_iff.mp hsplit.symm
    exact ih (he.child? hchild) hplace

theorem child?_of_mem {entries : List (String × Entry)} (h : (entries.map (·.1)).Nodup)
    {name : String} {e : Entry} (he : (name, e) ∈ entries) :
    Entry.child? name (.directory entries) = some e := by
  rw [Entry.child?]
  induction entries with
  | nil => cases he
  | cons p entries ih =>
    obtain ⟨hp, h⟩ := List.nodup_cons.mp h
    rcases List.mem_cons.mp he with rfl | he
    · rw [List.find?_cons_of_pos (by simp)]
      rfl
    · have hne : p.1 ≠ name := fun heq => hp (List.mem_map.mpr ⟨_, he, heq.symm⟩)
      rw [List.find?_cons_of_neg (by simpa using hne)]
      exact ih h he

end Entry

/-- A disk as the system has it. -/
def Disk.Regular (disk : Disk) : Prop := disk.root.Regular

/-! ## Going on from a path -/

namespace Disk

variable {disk : Disk} {t t' m : Path} {place place' middle : List String}
variable {name : String} {names names' : List String}

/-- The most that names behind a path add to its text. -/
def room : List String → Nat
  | [] => 0
  | name :: names => name.utf8ByteSize + 1 + room names

theorem room_cons : room (name :: names) = name.utf8ByteSize + 1 + room names := rfl

theorem room_singleton : room [name] = name.utf8ByteSize + 1 := rfl

theorem room_append : room (names ++ names') = room names + room names' := by
  induction names with
  | nil => exact (Nat.zero_add _).symm
  | cons name names ih => rw [List.cons_append, room_cons, room_cons, ih, ← Nat.add_assoc]

/-- A path goes on from another one, along names, to a place. -/
structure Reaches (disk : Disk) (t : Path) (place names : List String) (t' : Path)
    (place' : List String) : Prop where
  walk : walk disk.root place names = .ok place'
  visits : disk.Visits t' place'
  isAbsolute : t'.isAbsolute = t.isAbsolute
  steps : t'.steps = t.steps ++ names.filter fun name => !isIdle name
  lead : t'.lead.utf8ByteSize ≤ t.lead.utf8ByteSize + room names
  size : t'.text.utf8ByteSize ≤ t.text.utf8ByteSize ∨
    t'.text.utf8ByteSize < t.lead.utf8ByteSize + room names

theorem Reaches.refl (h : disk.Visits t place) : disk.Reaches t place [] t place where
  walk := rfl
  visits := h
  isAbsolute := rfl
  steps := (List.append_nil _).symm
  lead := Nat.le_refl _
  size := .inl (Nat.le_refl _)

theorem Reaches.trans (h : disk.Reaches t place names m middle)
    (h' : disk.Reaches m middle names' t' place') :
    disk.Reaches t place (names ++ names') t' place' where
  walk := walk_append_ok.mpr ⟨middle, h.walk, h'.walk⟩
  visits := h'.visits
  isAbsolute := h'.isAbsolute.trans h.isAbsolute
  steps := by rw [h'.steps, h.steps, List.filter_append, List.append_assoc]
  lead := by
    have hm := h.lead
    have ht' := h'.lead
    rw [room_append]
    omega
  size := by
    have hlead := h.lead
    have hm := h.size
    have ht' := h'.size
    rw [room_append]
    omega

/-- The system takes what is reached if it takes the path and all the names. -/
theorem Reaches.short (h : disk.Reaches t place names t' place')
    (ht : t.text.utf8ByteSize ≤ maxPathSize)
    (hnames : t.lead.utf8ByteSize + room names ≤ maxPathSize + 1) :
    t'.text.utf8ByteSize ≤ maxPathSize := by
  have hsize := h.size
  omega

theorem Reaches.same_dot_eq_false (h : disk.Reaches t place names t' place')
    (hname : name ∈ names) (hidle : isIdle name = false) : t'.same ⟨"."⟩ = false := by
  rw [Bool.eq_false_iff]
  intro hdot
  have hsteps : t'.steps = [] := Path.steps_eq_of_same hdot
  rw [h.steps, List.append_eq_nil_iff, List.filter_eq_nil_iff] at hsteps
  exact hsteps.2 name hname (by rw [hidle]; rfl)

theorem pieces_of_slash_notMem (h : '/' ∉ name.toList) : (⟨name⟩ : Path).pieces = [name] := by
  rw [Path.pieces_eq, Path.unrooted_of_isAbsolute_eq_false (Path.isAbsolute_of_slash_notMem h)]
  exact Path.piecesOf_of_slash_notMem h

theorem steps_of_slash_notMem (h : '/' ∉ name.toList) :
    (⟨name⟩ : Path).steps = [name].filter fun name => !isIdle name := by
  rw [Path.steps, pieces_of_slash_notMem h]

theorem Visits.reaches_join (h : disk.Visits t place) (hslash : '/' ∉ name.toList)
    (hnul : '\x00' ∉ name.toList) (hwalk : Disk.walk disk.root place [name] = .ok place') :
    disk.Reaches t place [name] (t.join ⟨name⟩) place' := by
  have hrelative := Path.isAbsolute_of_slash_notMem hslash
  have hsize : (t.join ⟨name⟩).text.utf8ByteSize = t.lead.utf8ByteSize + name.utf8ByteSize :=
    Path.size_join hrelative
  have hlead := (t.join ⟨name⟩).size_lead_le
  refine ⟨hwalk, ⟨Path.nul_notMem_join hrelative h.noNul hnul,
    Path.text_join_ne hrelative h.nonempty, ?_⟩, Path.isAbsolute_join hrelative, ?_, ?_, .inr ?_⟩
  · rwa [h.walk_join_iff hrelative, pieces_of_slash_notMem hslash]
  · rw [Path.steps_join hrelative, steps_of_slash_notMem hslash]
  all_goals
    rw [room_singleton]
    omega

theorem Visits.of_same_dot (h : disk.Visits t place) (hdot : t.same ⟨"."⟩ = true) :
    t.isAbsolute = false ∧ t.steps = [] ∧ place = disk.current := by
  have hrelative : t.isAbsolute = false := Path.isAbsolute_eq_of_same hdot
  have hsteps : t.steps = [] := Path.steps_eq_of_same hdot
  refine ⟨hrelative, hsteps, ?_⟩
  have hplace := walk_ok_foldl (walk_filter_ok h.walk)
  have hnil : (t.pieces.filter fun piece => !isIdle piece) = [] := hsteps
  rw [hnil, origin, hrelative] at hplace
  exact hplace

theorem Visits.walk_within_iff (h : disk.Visits t place) (hslash : '/' ∉ name.toList) :
    Disk.walk disk.root (disk.origin (Glob.within t name)) (Glob.within t name).pieces =
      .ok place' ↔ Disk.walk disk.root place [name] = .ok place' := by
  have hrelative := Path.isAbsolute_of_slash_notMem hslash
  unfold Glob.within
  split
  · next hdot =>
    obtain ⟨-, -, rfl⟩ := h.of_same_dot hdot
    rw [pieces_of_slash_notMem hslash, origin, hrelative]
    rfl
  · rw [h.walk_join_iff hrelative, pieces_of_slash_notMem hslash]

theorem size_within_le (hslash : '/' ∉ name.toList) :
    (Glob.within t name).text.utf8ByteSize ≤ t.lead.utf8ByteSize + name.utf8ByteSize := by
  unfold Glob.within
  split
  · exact Nat.le_add_left _ _
  · exact Nat.le_of_eq (Path.size_join (Path.isAbsolute_of_slash_notMem hslash))

theorem Visits.reaches_of_within (h : disk.Visits t place) (hslash : '/' ∉ name.toList)
    (h' : disk.Visits (Glob.within t name) place') :
    disk.Reaches t place [name] (Glob.within t name) place' := by
  have hrelative := Path.isAbsolute_of_slash_notMem hslash
  have hsize := size_within_le (t := t) hslash
  have hlead := (Glob.within t name).size_lead_le
  have hroom : room [name] = name.utf8ByteSize + 1 := room_singleton
  refine ⟨(h.walk_within_iff hslash).mp h'.walk, h', ?_, ?_, by omega, .inr (by omega)⟩ <;>
    unfold Glob.within <;> split
  · next hdot => rw [hrelative, (h.of_same_dot hdot).1]
  · exact Path.isAbsolute_join hrelative
  · next hdot => rw [(h.of_same_dot hdot).2.1, steps_of_slash_notMem hslash, List.nil_append]
  · rw [Path.steps_join hrelative, steps_of_slash_notMem hslash]

/-- The system takes the path that the search has for a name, but for no name behind a dot. -/
theorem Visits.within (h : disk.Visits t place) (hslash : '/' ∉ name.toList)
    (hnul : '\x00' ∉ name.toList) (hne : name ≠ "" ∨ t.same ⟨"."⟩ = false)
    (hwalk : Disk.walk disk.root place [name] = .ok place') :
    disk.Visits (Glob.within t name) place' := by
  have hrelative := Path.isAbsolute_of_slash_notMem hslash
  refine ⟨?_, ?_, (h.walk_within_iff hslash).mpr hwalk⟩ <;> unfold Glob.within <;> split
  · exact hnul
  · exact Path.nul_notMem_join hrelative h.noNul hnul
  · next hdot => exact hne.resolve_right (Bool.not_eq_false _ ▸ hdot)
  · exact Path.text_join_ne hrelative h.nonempty

/-- What a step leads to on a disk as the system has it: a name that is there. -/
theorem isName_of_walk (hdisk : disk.Regular)
    (hwalk : Disk.walk disk.root place [name] = .ok place') (hidle : isIdle name = false)
    (hparent : name ≠ "..") : IsName name := by
  obtain ⟨entries, hentries, -, hname⟩ := walk_singleton_ok.mp hwalk
  obtain ⟨p, hp, hpname⟩ := List.any_eq_true.mp (hname hidle hparent).2
  have hregular : (Entry.directory entries).Regular := Entry.Regular.at? hdisk hentries
  cases hregular with
  | directory names _ _ =>
    rw [← of_decide_eq_true hpname]
    exact names p hp

theorem walk_of_mem {entries : List (String × Entry)} {e : Entry} (hdisk : disk.Regular)
    (hentries : disk.root.at? place = some (.directory entries)) (he : (name, e) ∈ entries) :
    IsName name ∧ Disk.walk disk.root place [name] = .ok (place ++ [name]) ∧
      disk.root.at? (place ++ [name]) = some e := by
  have hregular : (Entry.directory entries).Regular := Entry.Regular.at? hdisk hentries
  cases hregular with
  | directory names distinct _ =>
    have hname := names _ he
    refine ⟨hname, walk_singleton_ok.mpr ⟨entries, hentries,
      (follow_name hname.leads hname.notParent place).symm, fun _ _ => ⟨hname.short, ?_⟩⟩, ?_⟩
    · exact List.any_eq_true.mpr ⟨_, he, decide_eq_true rfl⟩
    · rw [Entry.at?_snoc, hentries]
      exact Entry.child?_of_mem distinct he

end Disk

/-! ## Everything below a directory -/

namespace Glob

variable {disk : Disk} {t d : Path} {place place' : List String}

theorem descendantsOfAll_eq_map (path : Path) (entries : List (String × Entry)) :
    descendantsOfAll path entries = entries.map fun p =>
      (p.1, within path p.1 :: descendants (within path p.1) p.2) := by
  induction entries with
  | nil => rw [descendantsOfAll, List.map_nil]
  | cons p entries ih => rw [descendantsOfAll, ih, List.map_cons]

theorem mem_descendants_iff {path : Path} {entries : List (String × Entry)} :
    d ∈ descendants path (.directory entries) ↔ ∃ p ∈ entries,
      d = within path p.1 ∨ d ∈ descendants (within path p.1) p.2 := by
  rw [descendants, List.mem_flatMap]
  simp only [List.mem_mergeSort, descendantsOfAll_eq_map, List.mem_map]
  constructor
  · rintro ⟨_, ⟨p, hp, rfl⟩, hd⟩
    exact ⟨p, hp, List.mem_cons.mp hd⟩
  · rintro ⟨p, hp, hd⟩
    exact ⟨_, ⟨p, hp, rfl⟩, List.mem_cons.mpr hd⟩

/-- What is listed below a directory is reached by names. -/
theorem descendants_sound (hdisk : disk.Regular) {e : Entry} (h : disk.Visits t place)
    (he : disk.root.at? place = some e) (hd : d ∈ descendants t e) :
    ∃ dirs name place', (∀ n ∈ dirs ++ [name], IsName n) ∧
      disk.Reaches t place (dirs ++ [name]) d place' := by
  induction hsize : sizeOf e using Nat.strongRecOn generalizing t place e with
  | ind size ih =>
    cases e with
    | file content =>
      rw [descendants] at hd
      cases hd
    | directory entries =>
      obtain ⟨⟨name, child⟩, hchild, hd⟩ := mem_descendants_iff.mp hd
      obtain ⟨hname, hwalk, hat⟩ := Disk.walk_of_mem hdisk he hchild
      have hstep := h.reaches_of_within hname.noSlash
        (h.within hname.noSlash hname.noNul (.inl hname.ne_empty) hwalk)
      rcases hd with rfl | hd
      · exact ⟨[], name, _, List.forall_mem_singleton.mpr hname, hstep⟩
      · have hlt : sizeOf child < size := by
          have hmem := List.sizeOf_lt_of_mem hchild
          rw [Prod.mk.sizeOf_spec] at hmem
          rw [← hsize, Entry.directory.sizeOf_spec]
          omega
        obtain ⟨dirs, last, place', hnames, hreaches⟩ := ih _ hlt hstep.visits hat hd rfl
        exact ⟨name :: dirs, last, place', List.forall_mem_cons.mpr ⟨hname, hnames⟩,
          hstep.trans hreaches⟩

/-- What names reach is listed below the directory. -/
theorem descendants_complete (hdisk : disk.Regular) {e : Entry} {names : List String}
    (h : disk.Visits t place) (he : disk.root.at? place = some e)
    (hnames : ∀ n ∈ names, IsName n) (hne : names ≠ [])
    (hwalk : Disk.walk disk.root place names = .ok place') :
    ∃ d ∈ descendants t e, disk.Reaches t place names d place' := by
  induction names generalizing t place e with
  | nil => exact absurd rfl hne
  | cons name rest ih =>
    obtain ⟨hname, hrest⟩ := List.forall_mem_cons.mp hnames
    obtain ⟨middle, hfirst, hwalk⟩ := Disk.walk_cons_iff.mp hwalk
    obtain ⟨entries, hentries, -, hany⟩ := Disk.walk_singleton_ok.mp hfirst
    obtain ⟨⟨key, child⟩, hchild, hkey⟩ := List.any_eq_true.mp (hany hname.leads hname.notParent).2
    obtain rfl : key = name := of_decide_eq_true hkey
    obtain rfl : e = .directory entries := Option.some.inj (he.symm.trans hentries)
    obtain ⟨-, hthere, hat⟩ := Disk.walk_of_mem hdisk hentries hchild
    obtain rfl := Except.ok.inj (hfirst.symm.trans hthere)
    have hstep := h.reaches_of_within hname.noSlash
      (h.within hname.noSlash hname.noNul (.inl hname.ne_empty) hfirst)
    -- the last name is an entry itself, any other one leads to the entries below
    by_cases hnil : rest = []
    · subst hnil
      obtain rfl := Except.ok.inj hwalk
      exact ⟨_, mem_descendants_iff.mpr ⟨_, hchild, .inl rfl⟩, hstep⟩
    · obtain ⟨d, hd, hreaches⟩ := ih hstep.visits hat hrest hnil hwalk
      exact ⟨d, mem_descendants_iff.mpr ⟨_, hchild, .inr hd⟩, hstep.trans hreaches⟩

/-! ## Names that fit -/

/-- A pattern stands for the names that it matches; for a dot or two only if it starts with one, and
for no name, as between two slashes, only if it is empty. -/
def Pattern.StandsFor (p : Pattern) (name : String) : Prop :=
  p.matches name = true ∧
    (IsName name ∨ p.opensWithDot = true ∧ (name = "." ∨ name = "..") ∨ p = [] ∧ name = "")

/-- A name, one or two dots, or no name. -/
def IsStep (name : String) : Prop := IsName name ∨ (name = "." ∨ name = "..") ∨ name = ""

theorem IsStep.proper {name : String} (h : IsStep name) :
    '/' ∉ name.toList ∧ '\x00' ∉ name.toList := by
  rcases h with h | (rfl | rfl) | rfl
  · exact ⟨h.noSlash, h.noNul⟩
  · decide
  · decide
  · decide

theorem Pattern.StandsFor.isStep {p : Pattern} {name : String} (h : p.StandsFor name) :
    IsStep name := h.2.imp_right fun h => h.imp And.right And.right

/-- The names that patterns stand for, one behind the other: `**` stands for directories at any
depth, and at the end for at least one. -/
inductive Fits : List Pattern → List String → Prop
  | nil : Fits [] []
  | one {p : Pattern} {ps : List Pattern} {name : String} {names : List String}
      (single : p.isRecursive = false) (stands : p.StandsFor name) (rest : Fits ps names) :
      Fits (p :: ps) (name :: names)
  | deep {p q : Pattern} {ps : List Pattern} {dirs : List String} {name : String}
      {names : List String} (recursive : p.isRecursive = true)
      (dirs_names : ∀ n ∈ dirs ++ [name], IsName n) (stands : q.matches name = true)
      (rest : Fits ps names) : Fits (p :: q :: ps) (dirs ++ name :: names)
  | all {p : Pattern} {dirs : List String} (recursive : p.isRecursive = true)
      (dirs_names : ∀ n ∈ dirs, IsName n) (some_dir : dirs ≠ []) : Fits [p] dirs

/-- Whether only directories are meant: where a slash or `**` is at the end. -/
def wantsDirectory (onlyDirectories : Bool) (ps : List Pattern) : Bool :=
  onlyDirectories || ps.getLast?.any Pattern.isRecursive

/-! ### Literal patterns -/

theorem Token.char?_eq_some_iff {token : Token} {c : Char} :
    token.char? = some c ↔ token = .literal c := by
  cases token <;> simp [Token.char?]

theorem mapM_char?_eq_some_iff {p : Pattern} {cs : List Char} :
    p.mapM Token.char? = some cs ↔ p = cs.map .literal := by
  induction p generalizing cs with
  | nil => cases cs <;> simp
  | cons token p ih =>
    rw [List.mapM_cons, Option.bind_eq_bind, Option.bind_eq_some_iff]
    constructor
    · rintro ⟨c, hc, hcs⟩
      obtain ⟨cs, hrest, hcs⟩ := Option.bind_eq_some_iff.mp hcs
      obtain rfl := Option.some.inj hcs
      rw [List.map_cons, ← ih.mp hrest, ← Token.char?_eq_some_iff.mp hc]
    · intro h
      cases cs with
      | nil => cases h
      | cons c cs =>
        obtain ⟨rfl, hrest⟩ := List.cons.inj h
        exact ⟨c, rfl, Option.bind_eq_some_iff.mpr ⟨cs, ih.mpr hrest, rfl⟩⟩

theorem Pattern.literal?_eq_some_iff {p : Pattern} {name : String} :
    p.literal? = some name ↔ p = name.toList.map .literal := by
  rw [Pattern.literal?, Option.map_eq_some_iff]
  constructor
  · rintro ⟨cs, hcs, rfl⟩
    rw [String.toList_ofList]
    exact mapM_char?_eq_some_iff.mp hcs
  · exact fun h => ⟨_, mapM_char?_eq_some_iff.mpr h, String.ofList_toList⟩

theorem matchesChars_literal {cs ds : List Char} :
    Pattern.matchesChars (cs.map .literal) ds = true ↔ ds = cs := by
  induction cs generalizing ds with
  | nil => cases ds <;> simp [Pattern.matchesChars]
  | cons c cs ih =>
    cases ds with
    | nil => simp [Pattern.matchesChars]
    | cons d ds => simp [Pattern.matchesChars, Token.accepts, ih]

theorem Pattern.matches_iff_of_literal? {p : Pattern} {name other : String}
    (h : p.literal? = some name) : p.matches other = true ↔ other = name := by
  rw [Pattern.literal?_eq_some_iff.mp h, Pattern.matches, matchesChars_literal, String.toList_inj]

theorem Pattern.opensWithDot_of_literal? {p : Pattern} {name : String}
    (h : p.literal? = some name) (hdots : name = "." ∨ name = "..") :
    p.opensWithDot = true := by
  rw [Pattern.literal?_eq_some_iff.mp h]
  rcases hdots with rfl | rfl <;> rfl

/-- `**` matches no name. -/
theorem Pattern.not_isRecursive_of_matches {p : Pattern} {name : String}
    (h : p.matches name = true) : p.isRecursive = false := by
  rw [Pattern.isRecursive, decide_eq_false_iff_not]
  rintro rfl
  rw [Pattern.matches] at h
  cases hcs : name.toList <;> simp [hcs, Pattern.matchesChars, Token.accepts] at h

/-- A literal pattern spells a piece of a path. -/
def Pattern.Spelled (p : Pattern) : Prop := ∀ name, p.literal? = some name → '/' ∉ name.toList

/-! ## One pattern -/

/-- Whether a name without wildcards leads on from a path. -/
def leadsOn (disk : Disk) (path : Path) (name : String) : Bool :=
  if name = "." ∨ name = ".." then disk.isDirectory path else disk.exists (within path name)

/-- The paths to which a pattern leads, unless it is `**`. -/
def stepFrom (disk : Disk) (p : Pattern) (path : Path) : List Path :=
  match p.literal? with
  | some name => if leadsOn disk path name then [within path name] else []
  | none =>
    (if p.opensWithDot && disk.isDirectory path then
      ["..", "."].filter p.matches |>.map (fun name => path.join ⟨name⟩) else []) ++
    ((sortedChildren disk path).filter p.matches |>.map (within path))

/-- What one pattern leads to: its own text, a dot or two, or the entries of the directory. -/
theorem mem_stepFrom_iff {p : Pattern} {path : Path} :
    d ∈ stepFrom disk p path ↔
      (∃ name, p.literal? = some name ∧ leadsOn disk path name = true ∧ d = within path name) ∨
      p.literal? = none ∧ ∃ name, p.matches name = true ∧
        ((name = "." ∨ name = "..") ∧ p.opensWithDot = true ∧ disk.isDirectory path = true ∧
            d = path.join ⟨name⟩ ∨
          name ∈ disk.children path ∧ d = within path name) := by
  have hspecial (name : String) : name ∈ ["..", "."] ↔ name = "." ∨ name = ".." := by
    simp [or_comm]
  unfold stepFrom
  cases p.literal? with
  | some name =>
    simp only [Option.some.injEq, exists_eq_left', reduceCtorEq, false_and, or_false]
    cases leadsOn disk path name <;> simp
  | none =>
    simp only [reduceCtorEq, false_and, exists_false, false_or, true_and, List.mem_append,
      List.mem_map, List.mem_filter, sortedChildren, List.mem_mergeSort]
    constructor
    · rintro (hd | ⟨name, ⟨hchild, hmatches⟩, rfl⟩)
      · split at hd
        · next hopens =>
          obtain ⟨hopens, hdirectory⟩ := Bool.and_eq_true_iff.mp hopens
          simp only [List.mem_map, List.mem_filter, hspecial] at hd
          obtain ⟨name, ⟨hdots, hmatches⟩, rfl⟩ := hd
          exact ⟨name, hmatches, .inl ⟨hdots, hopens, hdirectory, rfl⟩⟩
        · cases hd
      · exact ⟨name, hmatches, .inr ⟨hchild, rfl⟩⟩
    · rintro ⟨name, hmatches, ⟨hdots, hopens, hdirectory, rfl⟩ | ⟨hchild, rfl⟩⟩
      · refine .inl ?_
        rw [hopens, hdirectory]
        simp only [Bool.and_self, if_true, List.mem_map, List.mem_filter, hspecial]
        exact ⟨name, ⟨hdots, hmatches⟩, rfl⟩
      · exact .inr ⟨name, ⟨hchild, hmatches⟩, rfl⟩

section Equations

variable {onlyDirectories : Bool} {p q : Pattern} {ps : List Pattern} {path : Path}

theorem mem_searchFrom_nil :
    d ∈ searchFrom disk onlyDirectories [] path ↔
      d = path ∧ (onlyDirectories = true → disk.isDirectory path = true) := by
  rw [searchFrom]
  cases onlyDirectories <;> cases disk.isDirectory path <;> simp

theorem searchFrom_cons (hp : p.isRecursive = false) :
    searchFrom disk onlyDirectories (p :: ps) path =
      (stepFrom disk p path).flatMap (searchFrom disk onlyDirectories ps) := by
  rw [searchFrom.eq_def]
  dsimp only
  rw [if_neg (Bool.eq_false_iff.mp hp), stepFrom]
  cases p.literal? with
  | none => rfl
  | some name =>
    dsimp only
    rw [apply_ite (List.flatMap _), List.flatMap_singleton]
    rfl

theorem mem_searchFrom_deep (hp : p.isRecursive = true) :
    d ∈ searchFrom disk onlyDirectories (p :: q :: ps) path ↔
      ∃ m ∈ below disk path, ∃ name, m.fileName? = some name ∧ q.matches name = true ∧
        d ∈ searchFrom disk onlyDirectories ps m := by
  rw [searchFrom, if_pos hp, List.mem_flatMap]
  refine exists_congr fun m => and_congr_right fun _ => ?_
  split
  · next name hname =>
    rw [hname]
    cases hmatches : q.matches name <;> simp [hmatches]
  · next hname => simp [hname]

theorem mem_searchFrom_all (hp : p.isRecursive = true) :
    d ∈ searchFrom disk onlyDirectories [p] path ↔
      d ∈ below disk path ∧ disk.isDirectory d = true := by
  rw [searchFrom.eq_def]
  dsimp only
  rw [if_pos hp, List.mem_filter]

end Equations

section Step

variable {p : Pattern} {m : Path} {name : String}

theorem ne_empty_of_dots (hdots : name = "." ∨ name = "..") : name ≠ "" := by
  rcases hdots with rfl | rfl <;> decide

theorem exists_walk_dots {entries : List (String × Entry)} (hdots : name = "." ∨ name = "..")
    (hentries : disk.root.at? place = some (.directory entries)) :
    ∃ place', Disk.walk disk.root place [name] = .ok place' := by
  refine ⟨_, Disk.walk_singleton_ok.mpr ⟨entries, hentries, rfl, fun hidle hparent => ?_⟩⟩
  rcases hdots with rfl | rfl
  · exact Bool.noConfusion hidle
  · exact absurd rfl hparent

/-- One pattern leads to names that it stands for. -/
theorem step_sound (hdisk : disk.Regular) (hp : p.Spelled) (h : disk.Visits t place)
    (hm : m ∈ stepFrom disk p t) :
    ∃ name place', p.StandsFor name ∧ disk.Reaches t place [name] m place' := by
  rcases mem_stepFrom_iff.mp hm with ⟨name, hliteral, hthere, rfl⟩ |
    ⟨-, name, hmatches, ⟨hdots, hopens, hdirectory, rfl⟩ | ⟨hchild, rfl⟩⟩
  · have hslash := hp name hliteral
    have hmatches := (Pattern.matches_iff_of_literal? hliteral).mpr rfl
    unfold leadsOn at hthere
    split at hthere
    · next hdots =>
      obtain ⟨-, entries, hentries⟩ := h.isDirectory_iff.mp hthere
      obtain ⟨place', hwalk⟩ := exists_walk_dots hdots hentries
      have hopens := Pattern.opensWithDot_of_literal? hliteral hdots
      have hnul := (IsStep.proper (.inr (.inl hdots))).2
      exact ⟨name, place', ⟨hmatches, .inr (.inl ⟨hopens, hdots⟩)⟩,
        h.reaches_of_within hslash (h.within hslash hnul (.inl (ne_empty_of_dots hdots)) hwalk)⟩
    · next hdots =>
      obtain ⟨hdot, hparent⟩ := not_or.mp hdots
      obtain ⟨-, place', hvisits⟩ := Disk.exists_iff.mp hthere
      have hreaches := h.reaches_of_within hslash hvisits
      by_cases hne : name = ""
      · have hnil := Pattern.literal?_eq_some_iff.mp hliteral
        rw [hne] at hnil
        exact ⟨name, place', ⟨hmatches, .inr (.inr ⟨hnil, hne⟩)⟩, hreaches⟩
      have hname := Disk.isName_of_walk hdisk hreaches.walk (by simp [isIdle, hne, hdot]) hparent
      exact ⟨name, place', ⟨hmatches, .inl hname⟩, hreaches⟩
  · obtain ⟨-, entries, hentries⟩ := h.isDirectory_iff.mp hdirectory
    obtain ⟨place', hwalk⟩ := exists_walk_dots hdots hentries
    obtain ⟨hslash, hnul⟩ := IsStep.proper (.inr (.inl hdots))
    exact ⟨name, place', ⟨hmatches, .inr (.inl ⟨hopens, hdots⟩)⟩,
      h.reaches_join hslash hnul hwalk⟩
  · obtain ⟨-, entries, e, hentries, he⟩ := h.mem_children_iff.mp hchild
    obtain ⟨hname, hwalk, -⟩ := Disk.walk_of_mem hdisk hentries he
    exact ⟨name, _, ⟨hmatches, .inl hname⟩,
      h.reaches_of_within hname.noSlash
        (h.within hname.noSlash hname.noNul (.inl hname.ne_empty) hwalk)⟩

/-- One pattern leads to each name that it stands for, but to no name from a dot. -/
theorem step_complete (h : disk.Visits t place)
    (hshort : t.text.utf8ByteSize ≤ Disk.maxPathSize)
    (hroom : t.lead.utf8ByteSize + Disk.room [name] ≤ Disk.maxPathSize + 1)
    (hname : p.StandsFor name) (hdot : p = [] → t.same ⟨"."⟩ = false)
    (hwalk : Disk.walk disk.root place [name] = .ok place') :
    ∃ m ∈ stepFrom disk p t, disk.Reaches t place [name] m place' := by
  obtain ⟨hslash, hnul⟩ := hname.isStep.proper
  obtain ⟨hmatches, hname⟩ := hname
  have hne : name ≠ "" ∨ t.same ⟨"."⟩ = false := by
    rcases hname with hname | ⟨-, hdots⟩ | ⟨hnil, -⟩
    · exact .inl hname.ne_empty
    · exact .inl (ne_empty_of_dots hdots)
    · exact .inr (hdot hnil)
  obtain ⟨entries, hentries, -, hmem⟩ := Disk.walk_singleton_ok.mp hwalk
  have hdirectory := h.isDirectory_iff.mpr ⟨hshort, entries, hentries⟩
  have hvisits := h.within hslash hnul hne hwalk
  have hreaches := h.reaches_of_within hslash hvisits
  cases hliteral : p.literal? with
  | some text =>
    obtain rfl := (Pattern.matches_iff_of_literal? hliteral).mp hmatches
    refine ⟨_, mem_stepFrom_iff.mpr (.inl ⟨name, hliteral, ?_, rfl⟩), hreaches⟩
    unfold leadsOn
    split
    · exact hdirectory
    · exact Disk.exists_iff.mpr ⟨hreaches.short hshort hroom, place', hvisits⟩
  | none =>
    rcases hname with hname | ⟨hopens, hdots⟩ | ⟨rfl, -⟩
    · obtain ⟨⟨key, e⟩, he, hkey⟩ := List.any_eq_true.mp (hmem hname.leads hname.notParent).2
      obtain rfl : key = name := of_decide_eq_true hkey
      have hchild := h.mem_children_iff.mpr ⟨hshort, entries, e, hentries, he⟩
      exact ⟨_, mem_stepFrom_iff.mpr (.inr ⟨hliteral, key, hmatches, .inr ⟨hchild, rfl⟩⟩), hreaches⟩
    · exact ⟨_, mem_stepFrom_iff.mpr
        (.inr ⟨hliteral, name, hmatches, .inl ⟨hdots, hopens, hdirectory, rfl⟩⟩),
        h.reaches_join hslash hnul hwalk⟩
    · cases hliteral

/-! ### Searching from a dot -/

/-- Whether a search that is at a dot may stay there: where no name or a dot may come next. -/
def Pattern.staysAtDot (p : Pattern) : Bool := p.isEmpty || p.opensWithDot && p.matches "."

/-- That no name is looked up from a dot, for then there would be no path to look up. -/
def LeavesDot (t : Path) (ps : List Pattern) : Prop :=
  t.same ⟨"."⟩ = false ∨ [] ∉ ps.takeWhile Pattern.staysAtDot

theorem LeavesDot.nonempty {ps : List Pattern} (h : LeavesDot t (p :: ps)) (hp : p = []) :
    t.same ⟨"."⟩ = false := by
  subst hp
  exact h.resolve_right fun hnil => hnil List.mem_cons_self

theorem Pattern.StandsFor.staysAtDot (h : p.StandsFor name) (hidle : isIdle name = true) :
    p.staysAtDot = true := by
  obtain ⟨hmatches, hname | ⟨hopens, rfl | rfl⟩ | ⟨rfl, -⟩⟩ := h
  · exact Bool.noConfusion (hidle.symm.trans hname.leads)
  · rw [Pattern.staysAtDot, hopens, hmatches, Bool.and_self, Bool.or_true]
  · cases hidle
  · rfl

/-- A search that is at a dot was at one before, and no name or a dot came next. -/
theorem LeavesDot.step {ps : List Pattern} (h : LeavesDot t (p :: ps)) (ht : disk.Visits t place)
    (hname : p.StandsFor name) (hreaches : disk.Reaches t place [name] m place') :
    LeavesDot m ps := by
  by_cases hm : m.same ⟨"."⟩ = true
  · refine .inr ?_
    have hidle : isIdle name = true := by
      by_contra hidle
      have hfar := hreaches.same_dot_eq_false List.mem_cons_self (Bool.eq_false_iff.mpr hidle)
      exact Bool.noConfusion (hm.symm.trans hfar)
    have hsteps : m.steps = [] := Path.steps_eq_of_same hm
    rw [hreaches.steps, List.append_eq_nil_iff] at hsteps
    have hrelative : t.isAbsolute = false :=
      hreaches.isAbsolute.symm.trans (Path.isAbsolute_eq_of_same hm)
    have hdot := Path.same_dot_of_steps hrelative hsteps.1 ht.nonempty
    have hnil := h.resolve_left (Bool.eq_false_iff.mp · hdot)
    rw [List.takeWhile_cons_of_pos (hname.staysAtDot hidle), List.mem_cons, not_or] at hnil
    exact hnil.2
  · exact .inl (Bool.eq_false_iff.mpr hm)

end Step

/-! ## The search -/

theorem wantsDirectory_cons {onlyDirectories : Bool} {p : Pattern} {ps : List Pattern}
    (hp : p.isRecursive = false) :
    wantsDirectory onlyDirectories (p :: ps) = wantsDirectory onlyDirectories ps := by
  unfold wantsDirectory
  cases ps with
  | nil => rw [List.getLast?_singleton, Option.any_some, hp, List.getLast?_nil, Option.any_none]
  | cons q ps => rw [List.getLast?_cons_cons]

theorem wantsDirectory_deep {onlyDirectories : Bool} {p q : Pattern} {ps : List Pattern}
    (hq : q.isRecursive = false) :
    wantsDirectory onlyDirectories (p :: q :: ps) = wantsDirectory onlyDirectories ps := by
  rw [wantsDirectory, List.getLast?_cons_cons]
  exact wantsDirectory_cons hq

theorem below_sound (hdisk : disk.Regular) (h : disk.Visits t place) (hd : d ∈ below disk t) :
    ∃ dirs name place', (∀ n ∈ dirs ++ [name], IsName n) ∧
      disk.Reaches t place (dirs ++ [name]) d place' := by
  unfold below at hd
  split at hd
  · next e he => exact descendants_sound hdisk h (h.entry?_eq_some_iff.mp he).2 hd
  · cases hd

theorem below_complete (hdisk : disk.Regular) {names : List String} (h : disk.Visits t place)
    (hshort : t.text.utf8ByteSize ≤ Disk.maxPathSize) (hnames : ∀ n ∈ names, IsName n)
    (hne : names ≠ []) (hwalk : Disk.walk disk.root place names = .ok place') :
    ∃ d ∈ below disk t, disk.Reaches t place names d place' := by
  obtain ⟨e, he⟩ := Option.isSome_iff_exists.mp h.isSome
  rw [below, h.entry?_eq_some_iff.mpr ⟨hshort, he⟩]
  exact descendants_complete hdisk h he hnames hne hwalk

theorem fileName?_of_reaches {dirs : List String} {name : String}
    (h : disk.Reaches t place (dirs ++ [name]) d place') (hname : IsName name) :
    d.fileName? = some name := by
  have hlast : [name].filter (fun n => !isIdle n) = [name] := by
    simp [hname.leads]
  have hsteps : d.steps = (t.steps ++ dirs.filter fun n => !isIdle n) ++ [name] := by
    rw [h.steps, List.filter_append, hlast, List.append_assoc]
  exact Path.fileName?_of_steps hsteps hname.leads hname.notParent

variable {onlyDirectories : Bool}

/-- **What a search finds is there and fits.** -/
theorem search_sound (hdisk : disk.Regular) :
    ∀ {ps : List Pattern} {t : Path} {place : List String}, (∀ p ∈ ps, p.Spelled) →
      disk.Visits t place → d ∈ searchFrom disk onlyDirectories ps t →
        ∃ names place', Fits ps names ∧ disk.Reaches t place names d place' ∧
          (wantsDirectory onlyDirectories ps = true → disk.isDirectory d = true)
  -- along the patterns, two at a time behind `**`, which takes the next one with it
  | [], t, place, _, h, hd => by
    obtain ⟨rfl, hdirectory⟩ := mem_searchFrom_nil.mp hd
    refine ⟨[], place, .nil, .refl h, fun hwants => hdirectory ?_⟩
    rwa [wantsDirectory, List.getLast?_nil, Option.any_none, Bool.or_false] at hwants
  | p :: ps, t, place, hspelled, h, hd => by
    obtain ⟨hp, hps⟩ := List.forall_mem_cons.mp hspelled
    by_cases hrecursive : p.isRecursive = true
    · cases ps with
      | nil =>
        obtain ⟨hd, hdirectory⟩ := (mem_searchFrom_all hrecursive).mp hd
        obtain ⟨dirs, name, place', hnames, hreaches⟩ := below_sound hdisk h hd
        exact ⟨_, place', .all hrecursive hnames (by simp), hreaches, fun _ => hdirectory⟩
      | cons q ps =>
        obtain ⟨m, hm, text, htext, hmatches, hd⟩ := (mem_searchFrom_deep hrecursive).mp hd
        obtain ⟨dirs, name, middle, hnames, hreaches⟩ := below_sound hdisk h hm
        have hname := hnames name (List.mem_append_right _ List.mem_cons_self)
        obtain rfl : text = name :=
          Option.some.inj (htext.symm.trans (fileName?_of_reaches hreaches hname))
        obtain ⟨names, place', hfits, hrest, hdirectory⟩ :=
          search_sound hdisk (List.forall_mem_cons.mp hps).2 hreaches.visits hd
        refine ⟨dirs ++ text :: names, place', .deep hrecursive hnames hmatches hfits, ?_, ?_⟩
        · rw [← List.singleton_append, ← List.append_assoc]
          exact hreaches.trans hrest
        · rwa [wantsDirectory_deep (Pattern.not_isRecursive_of_matches hmatches)]
    · rw [Bool.not_eq_true] at hrecursive
      rw [searchFrom_cons hrecursive] at hd
      obtain ⟨m, hm, hd⟩ := List.mem_flatMap.mp hd
      obtain ⟨name, middle, hstands, hreaches⟩ := step_sound hdisk hp h hm
      obtain ⟨names, place', hfits, hrest, hdirectory⟩ :=
        search_sound hdisk hps hreaches.visits hd
      refine ⟨name :: names, place', .one hrecursive hstands hfits, hreaches.trans hrest, ?_⟩
      rwa [wantsDirectory_cons hrecursive]

/-- **A search finds what is there and fits**, if the system takes paths as long and no name is
looked up from a dot. -/
theorem search_complete (hdisk : disk.Regular) {ps : List Pattern} {names : List String}
    (hfits : Fits ps names) (h : disk.Visits t place)
    (hshort : t.text.utf8ByteSize ≤ Disk.maxPathSize)
    (hroom : t.lead.utf8ByteSize + Disk.room names ≤ Disk.maxPathSize + 1)
    (hleaves : LeavesDot t ps) (hwalk : Disk.walk disk.root place names = .ok place')
    (hdirectory : wantsDirectory onlyDirectories ps = true →
      ∃ entries, disk.root.at? place' = some (.directory entries)) :
    ∃ d ∈ searchFrom disk onlyDirectories ps t, disk.Reaches t place names d place' := by
  -- by how the names fit; that the path so far leaves room for the names to come carries it
  induction hfits generalizing t place with
  | nil =>
    obtain rfl := Except.ok.inj hwalk
    refine ⟨t, mem_searchFrom_nil.mpr ⟨rfl, fun honly => ?_⟩, .refl h⟩
    exact h.isDirectory_iff.mpr ⟨hshort, hdirectory (by simp [wantsDirectory, honly])⟩
  | @one p ps name names single stands _ ih =>
    obtain ⟨middle, hfirst, hwalk⟩ := Disk.walk_cons_iff.mp hwalk
    rw [← List.singleton_append, Disk.room_append, ← Nat.add_assoc] at hroom
    have hfirst_room := Nat.le_of_add_right_le hroom
    obtain ⟨m, hm, hreaches⟩ :=
      step_complete h hshort hfirst_room stands hleaves.nonempty hfirst
    have hlead := hreaches.lead
    rw [wantsDirectory_cons single] at hdirectory
    obtain ⟨d, hd, hrest⟩ := ih hreaches.visits (hreaches.short hshort hfirst_room) (by omega)
      (hleaves.step h stands hreaches) hwalk hdirectory
    rw [searchFrom_cons single]
    exact ⟨d, List.mem_flatMap.mpr ⟨m, hm, hd⟩, hreaches.trans hrest⟩
  | @deep p q ps dirs name names recursive dirs_names stands _ ih =>
    have hnames : dirs ++ name :: names = (dirs ++ [name]) ++ names := by
      rw [List.append_assoc, List.singleton_append]
    rw [hnames] at hwalk hroom ⊢
    obtain ⟨middle, hfirst, hwalk⟩ := Disk.walk_append_ok.mp hwalk
    rw [Disk.room_append, ← Nat.add_assoc] at hroom
    have hfirst_room := Nat.le_of_add_right_le hroom
    obtain ⟨m, hm, hreaches⟩ := below_complete hdisk h hshort dirs_names (by simp) hfirst
    have hlast : name ∈ dirs ++ [name] := List.mem_append_right _ List.mem_cons_self
    have hname := dirs_names name hlast
    have hlead := hreaches.lead
    rw [wantsDirectory_deep (Pattern.not_isRecursive_of_matches stands)] at hdirectory
    obtain ⟨d, hd, hrest⟩ := ih hreaches.visits (hreaches.short hshort hfirst_room) (by omega)
      (.inl (hreaches.same_dot_eq_false hlast hname.leads)) hwalk hdirectory
    exact ⟨d, (mem_searchFrom_deep recursive).mpr
      ⟨m, hm, name, fileName?_of_reaches hreaches hname, stands, hd⟩, hreaches.trans hrest⟩
  | @all p dirs recursive dirs_names some_dir =>
    obtain ⟨d, hd, hreaches⟩ := below_complete hdisk h hshort dirs_names some_dir hwalk
    have hwants : wantsDirectory onlyDirectories [p] = true := by
      rw [wantsDirectory, List.getLast?_singleton, Option.any_some, recursive, Bool.or_true]
    exact ⟨d, (mem_searchFrom_all recursive).mpr ⟨hd, hreaches.visits.isDirectory_iff.mpr
      ⟨hreaches.short hshort hroom, hdirectory hwants⟩⟩, hreaches⟩

end Glob

end DocAudit
