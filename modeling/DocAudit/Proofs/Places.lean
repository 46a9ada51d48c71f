import DocAudit.Proofs.SamePlace
import Mathlib.Data.List.Basic
import Mathlib.Tactic.SplitIfs
/-!
# Where paths lead

A path is followed step by step from the directory in which it begins. Its text only has to be
looked at to read off where it begins and which steps it takes.

* `Path.alike`: paths that are the same without the dots that do not count; `Path.alike_iff`.
* **`Path.steps_join`**: a path inside a directory takes the steps of both.
* `Path.lead`: the text in front of what is inside a directory.
* `Disk.follow`, `Disk.Leads`: one step, and the place to which a path leads.
* **`Disk.entry?_eq_some_iff`**: what it takes for something to be at a path that ends in a name.
* `Disk.Visits`: a path that the system takes to a place, but for its length.
-/

namespace DocAudit

namespace Path

/-! ## The steps in a text -/

/-- The steps that a text spells. -/
def stepsIn (text : List Char) : List String := (piecesOf text).filter fun piece => !isIdle piece

theorem piecesOf_ne_nil (text : List Char) : piecesOf text ≠ [] := by
  rw [piecesOf, ne_eq, List.map_eq_nil_iff]
  exact List.splitOn_ne_nil _ _

theorem piecesOf_append_slash (l m : List Char) :
    piecesOf (l ++ '/' :: m) = piecesOf l ++ piecesOf m := by
  rw [piecesOf, List.splitOn_append_cons_self, List.map_append]
  rfl

theorem piecesOf_of_slash_notMem {name : String} (h : '/' ∉ name.toList) :
    piecesOf name.toList = [name] := by
  rw [piecesOf, List.splitOn_eq_singleton h, List.map_singleton, String.ofList_toList]

theorem stepsIn_nil : stepsIn [] = [] := by
  rw [stepsIn, piecesOf, List.splitOn_nil]
  rfl

theorem stepsIn_append_slash (l m : List Char) :
    stepsIn (l ++ '/' :: m) = stepsIn l ++ stepsIn m := by
  rw [stepsIn, piecesOf_append_slash, List.filter_append]
  rfl

/-- The slash at the start of an absolute path is no step. -/
theorem steps_eq_stepsIn (p : Path) : p.steps = stepsIn p.text.toList := by
  unfold steps pieces
  split
  · next cs hcs =>
    rw [hcs]
    exact (stepsIn_append_slash [] cs).symm
  · rfl

theorem getLast?_pieces_eq (p : Path) :
    p.pieces.getLast? = (piecesOf p.text.toList).getLast? := by
  unfold pieces
  split
  · next cs hcs =>
    have hpieces : piecesOf p.text.toList = piecesOf [] ++ piecesOf cs := by
      rw [hcs]
      exact piecesOf_append_slash [] cs
    rw [hpieces, List.getLast?_append_of_ne_nil _ (piecesOf_ne_nil cs)]
  · rfl

/-! ## The pieces in a text -/

theorem mem_of_mem_splitOn {text : List Char} :
    ∀ cs ∈ text.splitOn '/', ∀ c ∈ cs, c ∈ text ∧ c ≠ '/' := by
  induction text with
  | nil =>
    intro cs hcs
    obtain rfl := List.mem_singleton.mp (List.splitOn_nil '/' ▸ hcs)
    nofun
  | cons d text ih =>
    have hlater (cs : List Char) (hcs : cs ∈ text.splitOn '/') (c : Char) (hc : c ∈ cs) :
        c ∈ d :: text ∧ c ≠ '/' :=
      (ih cs hcs c hc).imp_left (List.mem_cons_of_mem d)
    intro cs hcs
    rw [List.splitOn_cons_eq_if_modifyHead] at hcs
    split at hcs
    · rcases List.mem_cons.mp hcs with rfl | hcs
      · nofun
      · exact hlater cs hcs
    · next hd =>
      obtain ⟨first, rest, hsplit⟩ := List.exists_cons_of_ne_nil (List.splitOn_ne_nil '/' text)
      rw [hsplit] at hlater hcs
      rcases List.mem_cons.mp hcs with rfl | hcs
      · refine List.forall_mem_cons.mpr ⟨⟨List.mem_cons_self, fun heq => ?_⟩,
          hlater first List.mem_cons_self⟩
        exact hd (beq_iff_eq.mpr heq)
      · exact hlater cs (List.mem_cons_of_mem _ hcs)

theorem mem_of_mem_piecesOf {text : List Char} {piece : String} (h : piece ∈ piecesOf text)
    {c : Char} (hc : c ∈ piece.toList) : c ∈ text ∧ c ≠ '/' := by
  obtain ⟨cs, hcs, rfl⟩ := List.mem_map.mp h
  rw [String.toList_ofList] at hc
  exact mem_of_mem_splitOn cs hcs c hc

theorem slash_notMem_of_mem_piecesOf {text : List Char} {piece : String}
    (h : piece ∈ piecesOf text) : '/' ∉ piece.toList :=
  fun hslash => (mem_of_mem_piecesOf h hslash).2 rfl

theorem slash_notMem_of_mem_pieces {p : Path} {piece : String} (h : piece ∈ p.pieces) :
    '/' ∉ piece.toList := by
  unfold pieces at h
  split at h <;> exact slash_notMem_of_mem_piecesOf h

theorem piecesOf_intercalate {ps : List String} (hps : ∀ piece ∈ ps, '/' ∉ piece.toList)
    (hne : ps ≠ []) : piecesOf ("/".intercalate ps).toList = ps := by
  have hslash : "/".toList = ['/'] := rfl
  rw [piecesOf, String.toList_intercalate, hslash, List.splitOn_intercalate, List.map_map]
  · exact (List.map_congr_left fun _ _ => String.ofList_toList).trans (List.map_id ps)
  · intro cs hcs
    obtain ⟨piece, hpiece, rfl⟩ := List.mem_map.mp hcs
    exact hps piece hpiece
  · rwa [ne_eq, List.map_eq_nil_iff]

theorem intercalate_piecesOf (text : List Char) :
    "/".intercalate (piecesOf text) = String.ofList text := by
  have hmap : (text.splitOn '/').map (String.toList ∘ String.ofList) = text.splitOn '/' :=
    (List.map_congr_left fun _ _ => String.toList_ofList).trans (List.map_id _)
  rw [← String.toList_inj, String.toList_intercalate, piecesOf, List.map_map, hmap]
  exact (List.intercalate_splitOn '/').trans String.toList_ofList.symm

theorem ofPieces_pieces (p : Path) : ofPieces p.isAbsolute p.pieces = p := by
  obtain ⟨text⟩ := p
  unfold ofPieces pieces isAbsolute
  congr 1
  dsimp only
  by_cases hhead : text.toList.head? = some '/'
  · obtain ⟨cs, hcs⟩ := List.head?_eq_some_iff.mp hhead
    rw [if_pos (decide_eq_true hhead), hcs]
    show "/" ++ "/".intercalate (piecesOf cs) = text
    rw [intercalate_piecesOf, ← String.toList_inj, hcs, String.toList_append]
    exact congrArg ('/' :: ·) String.toList_ofList
  · rw [if_neg (Bool.eq_false_iff.mp (decide_eq_false hhead)), String.empty_append]
    split
    · next cs hcs => exact absurd (congrArg List.head? hcs) hhead
    · rw [intercalate_piecesOf, String.ofList_toList]

section OfPieces

variable {ps : List String}

theorem steps_ofPieces (isAbsolute : Bool) (hps : ∀ piece ∈ ps, '/' ∉ piece.toList) :
    (ofPieces isAbsolute ps).steps = ps.filter fun piece => !isIdle piece := by
  have hsteps : stepsIn ("/".intercalate ps).toList = ps.filter fun piece => !isIdle piece := by
    by_cases hne : ps = []
    · subst hne
      exact stepsIn_nil
    · rw [stepsIn, piecesOf_intercalate hps hne]
  rw [steps_eq_stepsIn, ofPieces]
  cases isAbsolute with
  | false => rwa [if_neg Bool.false_ne_true, String.empty_append]
  | true =>
    rw [if_pos rfl, String.toList_append]
    exact (stepsIn_append_slash [] _).trans hsteps

theorem isAbsolute_ofPieces {isAbsolute : Bool} (hps : ∀ piece ∈ ps, '/' ∉ piece.toList)
    (hhead : isAbsolute = false → ps.head? ≠ some "") :
    (ofPieces isAbsolute ps).isAbsolute = isAbsolute := by
  cases isAbsolute with
  | true =>
    rw [ofPieces, if_pos rfl, Path.isAbsolute, String.toList_append]
    rfl
  | false =>
    rw [ofPieces, if_neg Bool.false_ne_true, String.empty_append, Path.isAbsolute]
    cases ps with
    | nil => rfl
    | cons piece ps =>
      have hne : piece.toList ≠ [] := fun h =>
        hhead rfl (congrArg some (String.toList_eq_nil_iff.mp h))
      have hslash : (piece.toList.head? = some '/') = False := eq_false fun h =>
        hps piece List.mem_cons_self (List.mem_of_mem_head? h)
      rw [decide_eq_false_iff_not]
      cases ps with
      | nil => simp [hslash]
      | cons next ps =>
        simp [List.head?_append_of_ne_nil _ hne, hslash]

end OfPieces

/-! ## Paths that are alike -/

/-- Paths that are the same once the dots that do not count are left out. -/
def alike (p q : Path) : Bool :=
  p.components.filter (· ≠ .current) = q.components.filter (· ≠ .current)

/-- A path has a component for each step, behind what tells where it begins. -/
theorem components_eq (p : Path) :
    ∃ start, p.components = start ++ p.steps.filterMap component? ∧
      start.filter (· ≠ .current) = if p.isAbsolute then [.root] else [] := by
  have hidle (ps : List String) :
      (ps.filter fun piece => !isIdle piece).filterMap component? = ps.filterMap component? := by
    rw [List.filterMap_filter]
    congr 1
    funext piece
    unfold component?
    by_cases h : isIdle piece = true
    · rw [h, if_pos rfl]
      rfl
    · rw [Bool.eq_false_iff.mpr h]
      rfl
  rw [steps, hidle]
  unfold components
  split
  · next habsolute =>
    rw [habsolute]
    exact ⟨[.root], rfl, rfl⟩
  · next hrelative hpieces =>
    rw [hrelative, hpieces]
    exact ⟨[.current], rfl, rfl⟩
  · next hrelative _ =>
    rw [hrelative]
    exact ⟨[], rfl, rfl⟩

theorem filter_components (p : Path) :
    p.components.filter (· ≠ .current) =
      (if p.isAbsolute then [.root] else []) ++ p.steps.filterMap component? := by
  obtain ⟨start, hcomponents, hstart⟩ := p.components_eq
  rw [hcomponents, List.filter_append, hstart]
  congr 1
  rw [List.filter_eq_self]
  intro c hc
  obtain ⟨piece, -, hpiece⟩ := List.mem_filterMap.mp hc
  unfold component? at hpiece
  split at hpiece
  · cases hpiece
  · split at hpiece <;> obtain rfl := Option.some.inj hpiece <;> rfl

theorem fileName?_of_steps {p : Path} {front : List String} {name : String}
    (h : p.steps = front ++ [name]) (hidle : isIdle name = false) (hparent : name ≠ "..") :
    p.fileName? = some name := by
  have hcomponent : component? name = some (.normal name) := by
    rw [component?, if_neg (Bool.eq_false_iff.mp hidle), if_neg hparent]
  obtain ⟨start, hcomponents, -⟩ := p.components_eq
  rw [h, List.filterMap_append, List.filterMap_cons_some hcomponent, List.filterMap_nil,
    ← List.append_assoc] at hcomponents
  rw [fileName?, hcomponents, List.getLast?_concat]

theorem ne_parent_of_mem_components {p : Path} {name : String}
    (h : .normal name ∈ p.components) : name ≠ ".." := by
  have hpieces (ps : List String) (hname : .normal name ∈ ps.filterMap component?) :
      name ≠ ".." := by
    obtain ⟨piece, -, hpiece⟩ := List.mem_filterMap.mp hname
    unfold component? at hpiece
    split_ifs at hpiece with hidle hparent
    · cases hpiece
    · obtain rfl := Component.normal.inj (Option.some.inj hpiece)
      exact hparent
  unfold components at h
  split at h
  · exact hpieces _ ((List.mem_cons.mp h).resolve_left nofun)
  · exact hpieces _ ((List.mem_cons.mp h).resolve_left nofun)
  · exact hpieces _ h

/-- The file name of a path is its last step, unless that one leads up. -/
theorem fileName?_eq_some_iff {p : Path} {name : String} :
    p.fileName? = some name ↔ name ≠ ".." ∧ ∃ front, p.steps = front ++ [name] := by
  constructor
  · intro h
    unfold fileName? at h
    split at h
    · next n hlast =>
      obtain rfl := Option.some.inj h
      obtain ⟨front, hcomponents⟩ := List.getLast?_eq_some_iff.mp hlast
      refine ⟨ne_parent_of_mem_components (List.mem_of_getLast? hlast),
        front.filterMap Component.piece?, ?_⟩
      rw [steps_eq_filterMap, hcomponents, List.filterMap_append]
      rfl
    · cases h
  · rintro ⟨hparent, front, hsteps⟩
    have hname : name ∈ p.steps := by simp [hsteps]
    exact fileName?_of_steps hsteps (by simpa using (List.mem_filter.mp hname).2) hparent

theorem steps_eq_filterMap_filter (p : Path) :
    p.steps = (p.components.filter (· ≠ .current)).filterMap Component.piece? := by
  rw [steps_eq_filterMap, List.filterMap_filter]
  congr 1
  funext c
  cases c <;> rfl

/-- **Paths are alike when they begin at the same place and take the same steps.** -/
theorem alike_iff {p q : Path} :
    p.alike q = true ↔ p.isAbsolute = q.isAbsolute ∧ p.steps = q.steps := by
  rw [alike, decide_eq_true_eq]
  constructor
  · intro h
    refine ⟨?_, by rw [steps_eq_filterMap_filter, h, ← steps_eq_filterMap_filter]⟩
    rw [Bool.eq_iff_iff, isAbsolute_iff, isAbsolute_iff]
    have hroot (r : Path) :
        .root ∈ r.components ↔ .root ∈ r.components.filter (· ≠ .current) := by
      rw [List.mem_filter]
      exact ⟨fun h => ⟨h, rfl⟩, And.left⟩
    rw [hroot p, hroot q, h]
  · rintro ⟨habsolute, hsteps⟩
    rw [filter_components, filter_components, habsolute, hsteps]

/-! ## Paths inside a directory -/

variable {p q : Path}

/-- The text in front of what is in a directory: the path with a slash at its end. -/
def lead (p : Path) : String :=
  if p.text = "" ∨ p.text.toList.getLast? = some '/' then p.text else p.text ++ "/"

theorem text_join (hq : q.isAbsolute = false) : (p.join q).text = p.lead ++ q.text := by
  unfold lead join
  rw [if_neg (Bool.eq_false_iff.mp hq)]
  split <;> rfl

/-- What is in a directory stands behind a slash, which the directory may end in already. -/
theorem lead_cases (p : Path) :
    p.text = "" ∧ p.lead = "" ∨
      ∃ l, p.lead.toList = l ++ ['/'] ∧
        (p.text.toList = l ++ ['/'] ∨ p.text.toList = l ∧ l ≠ []) := by
  unfold lead
  by_cases hempty : p.text = ""
  · exact .inl ⟨hempty, by rw [if_pos (.inl hempty), hempty]⟩
  refine .inr ?_
  by_cases hslash : p.text.toList.getLast? = some '/'
  · rw [if_pos (.inr hslash)]
    obtain ⟨l, hl⟩ := List.getLast?_eq_some_iff.mp hslash
    exact ⟨l, hl, .inl hl⟩
  · rw [if_neg (fun h => h.elim hempty hslash), String.toList_append]
    exact ⟨_, rfl, .inr ⟨rfl, fun h => hempty (String.toList_eq_nil_iff.mp h)⟩⟩

theorem toList_join (hq : q.isAbsolute = false) {l : List Char} (h : p.lead.toList = l ++ ['/']) :
    (p.join q).text.toList = l ++ '/' :: q.text.toList := by
  rw [text_join hq, String.toList_append, h, List.append_assoc]
  rfl

theorem stepsIn_lead (p : Path) : stepsIn p.lead.toList = p.steps := by
  rw [steps_eq_stepsIn]
  rcases p.lead_cases with ⟨hempty, hlead⟩ | ⟨l, hlead, hp | ⟨hp, -⟩⟩
  · rw [hempty, hlead]
  · rw [hp, hlead]
  · rw [hp, hlead, stepsIn_append_slash, stepsIn_nil, List.append_nil]

theorem head?_lead (p : Path) : p.lead.toList.head? = p.text.toList.head? := by
  rcases p.lead_cases with ⟨hempty, hlead⟩ | ⟨l, hlead, hp | ⟨hp, hl⟩⟩
  · rw [hempty, hlead]
  · rw [hp, hlead]
  · rw [hp, hlead, List.head?_append_of_ne_nil _ hl]

/-- **A path inside a directory takes the steps of both.** -/
theorem steps_join (hq : q.isAbsolute = false) : (p.join q).steps = p.steps ++ q.steps := by
  rw [steps_eq_stepsIn, steps_eq_stepsIn q, ← stepsIn_lead p]
  rcases p.lead_cases with ⟨-, hlead⟩ | ⟨l, hlead, -⟩
  · rw [text_join hq, hlead, String.empty_append]
    exact (congrArg (· ++ stepsIn q.text.toList) stepsIn_nil).symm
  · rw [toList_join hq hlead, hlead, stepsIn_append_slash, stepsIn_append_slash, stepsIn_nil,
      List.append_nil]

theorem isAbsolute_join (hq : q.isAbsolute = false) : (p.join q).isAbsolute = p.isAbsolute := by
  rw [isAbsolute, isAbsolute, ← head?_lead p, text_join hq, String.toList_append]
  rcases p.lead_cases with ⟨-, hlead⟩ | ⟨l, hlead, -⟩
  · rw [hlead]
    exact hq
  · rw [List.head?_append_of_ne_nil]
    rw [hlead]
    exact List.append_ne_nil_of_right_ne_nil _ (List.cons_ne_nil _ _)

/-- A text without one slash at its start. -/
def unrooted : List Char → List Char
  | '/' :: cs => cs
  | cs => cs

theorem unrooted_of_ne {text : List Char} (h : ∀ cs, text ≠ '/' :: cs) : unrooted text = text := by
  unfold unrooted
  split
  · next cs => exact absurd rfl (h cs)
  · rfl

theorem pieces_eq (p : Path) : p.pieces = piecesOf (unrooted p.text.toList) := by
  unfold pieces
  split
  · next cs hcs =>
    rw [hcs]
    rfl
  · next hrelative => rw [unrooted_of_ne hrelative]

theorem unrooted_of_isAbsolute_eq_false (h : p.isAbsolute = false) :
    unrooted p.text.toList = p.text.toList := by
  refine unrooted_of_ne fun cs hcs => ?_
  rw [isAbsolute, hcs] at h
  exact absurd rfl (of_decide_eq_false h)

theorem unrooted_append {l : List Char} (hl : l ≠ []) (m : List Char) :
    unrooted (l ++ m) = unrooted l ++ m := by
  obtain ⟨c, l, rfl⟩ := List.exists_cons_of_ne_nil hl
  by_cases hc : c = '/'
  · subst hc
    rfl
  · have hne (cs ds : List Char) : c :: cs ≠ '/' :: ds := fun h => hc (List.cons.inj h).1
    rw [unrooted_of_ne (hne l), List.cons_append, unrooted_of_ne (hne (l ++ m))]

theorem head?_piecesOf_ne {text : List Char} (hne : text ≠ []) (h : text.head? ≠ some '/') :
    (piecesOf text).head? ≠ some "" := by
  intro hhead
  obtain ⟨rest, hrest⟩ := List.head?_eq_some_iff.mp hhead
  have htext := intercalate_piecesOf text
  rw [hrest] at htext
  by_cases hnil : rest = []
  · rw [hnil, String.intercalate_singleton] at htext
    exact hne (by rw [← String.toList_ofList (l := text), ← htext, String.toList_empty])
  · rw [String.intercalate_cons_of_ne_nil hnil, String.empty_append] at htext
    refine h ?_
    rw [← String.toList_ofList (l := text), ← htext, String.toList_append]
    rfl

theorem head?_pieces_ne (habsolute : p.isAbsolute = false) (hne : p.text ≠ "") :
    p.pieces.head? ≠ some "" := by
  rw [pieces_eq, unrooted_of_isAbsolute_eq_false habsolute]
  exact head?_piecesOf_ne (fun h => hne (String.toList_eq_nil_iff.mp h))
    (of_decide_eq_false habsolute)

theorem same_dot_of_steps (habsolute : p.isAbsolute = false) (hsteps : p.steps = [])
    (hne : p.text ≠ "") : p.same ⟨"."⟩ = true := by
  have hidle : ∀ piece ∈ p.pieces, isIdle piece = true := by
    simpa [steps, List.filter_eq_nil_iff] using hsteps
  obtain ⟨piece, rest, hpieces⟩ := List.exists_cons_of_ne_nil p.pieces_ne_nil
  rw [hpieces] at hidle
  obtain ⟨hpiece, hrest⟩ := List.forall_mem_cons.mp hidle
  have hdot : piece = "." := by
    have hhead := head?_pieces_ne habsolute hne
    rw [hpieces, List.head?_cons, ne_eq, Option.some.injEq] at hhead
    simpa [isIdle, hhead] using hpiece
  have hnone : rest.filterMap component? = [] := by
    rw [List.filterMap_eq_nil_iff]
    exact fun piece hpiece => if_pos (hrest piece hpiece)
  have hcomponents : p.components = [.current] := by
    rw [components, habsolute, hpieces, hdot]
    exact congrArg (Component.current :: ·) hnone
  rw [same, hcomponents]
  rfl

/-- A path inside a directory has the pieces of both; a slash at the end of the directory opens no
piece of its own. -/
theorem exists_pieces_join (hq : q.isAbsolute = false) :
    ∃ front, (p.pieces = front ∨ p.pieces = front ++ [""]) ∧
      (p.join q).pieces = front ++ q.pieces := by
  have hpieces (l : List Char) (hjoin : (p.join q).text.toList = l ++ '/' :: q.text.toList)
      (hl : l ≠ []) : (p.join q).pieces = piecesOf (unrooted l) ++ q.pieces := by
    rw [pieces_eq, hjoin, unrooted_append hl, piecesOf_append_slash, pieces_eq q,
      unrooted_of_isAbsolute_eq_false hq]
  rcases p.lead_cases with ⟨hempty, hlead⟩ | ⟨l, hlead, hp | ⟨hp, hl⟩⟩
  · refine ⟨[], .inr ?_, ?_⟩
    · rw [pieces_eq, hempty]
      rfl
    · rw [pieces_eq, text_join hq, hlead, String.empty_append, ← pieces_eq, List.nil_append]
  · have hjoin := toList_join hq hlead
    by_cases hl : l = []
    · subst hl
      refine ⟨[], .inr ?_, ?_⟩
      · rw [pieces_eq, hp]
        rfl
      · rw [pieces_eq, hjoin, pieces_eq q, unrooted_of_isAbsolute_eq_false hq]
        rfl
    · refine ⟨_, .inr ?_, hpieces l hjoin hl⟩
      rw [pieces_eq, hp, unrooted_append hl, piecesOf_append_slash]
      rfl
  · exact ⟨_, .inl (by rw [pieces_eq, hp]), hpieces l (toList_join hq hlead) hl⟩

theorem size_join (hq : q.isAbsolute = false) :
    (p.join q).text.utf8ByteSize = p.lead.utf8ByteSize + q.text.utf8ByteSize := by
  rw [text_join hq, String.utf8ByteSize_append]

theorem size_lead_le (p : Path) : p.lead.utf8ByteSize ≤ p.text.utf8ByteSize + 1 := by
  unfold lead
  split
  · exact Nat.le_succ _
  · rw [String.utf8ByteSize_append]
    exact Nat.le_refl _

theorem text_join_ne (hq : q.isAbsolute = false) (hp : p.text ≠ "") : (p.join q).text ≠ "" := by
  obtain ⟨l, hlead, -⟩ := p.lead_cases.resolve_left fun h => hp h.1
  intro hempty
  have hjoin := toList_join hq hlead
  rw [hempty] at hjoin
  exact List.append_ne_nil_of_right_ne_nil _ (List.cons_ne_nil _ _) hjoin.symm

theorem nul_notMem_join (hq : q.isAbsolute = false) (hp : '\x00' ∉ p.text.toList)
    (hq' : '\x00' ∉ q.text.toList) : '\x00' ∉ (p.join q).text.toList := by
  rw [text_join hq, String.toList_append, List.mem_append, not_or]
  refine ⟨?_, hq'⟩
  unfold lead
  split
  · exact hp
  · rw [String.toList_append, List.mem_append, not_or]
    exact ⟨hp, by decide⟩

theorem isAbsolute_of_slash_notMem {name : String} (h : '/' ∉ name.toList) :
    (⟨name⟩ : Path).isAbsolute = false := by
  rw [isAbsolute, decide_eq_false_iff_not]
  intro hhead
  exact h (List.mem_of_mem_head? hhead)

theorem getLast?_pieces_join {name : String} (h : '/' ∉ name.toList) :
    (p.join ⟨name⟩).pieces.getLast? = some name := by
  have hrelative := isAbsolute_of_slash_notMem h
  have hname := piecesOf_of_slash_notMem h
  rw [getLast?_pieces_eq]
  rcases p.lead_cases with ⟨-, hlead⟩ | ⟨l, hlead, -⟩
  · rw [text_join hrelative, hlead, String.empty_append, hname]
    rfl
  · rw [toList_join hrelative hlead, piecesOf_append_slash, hname, List.getLast?_concat]

/-! ## Names -/

/-- A name that an entry of a directory may have. -/
structure IsName (name : String) : Prop where
  leads : isIdle name = false
  notParent : name ≠ ".."
  noSlash : '/' ∉ name.toList
  noNul : '\x00' ∉ name.toList
  short : name.utf8ByteSize ≤ Disk.maxNameSize

instance (name : String) : Decidable (IsName name) :=
  decidable_of_iff (isIdle name = false ∧ name ≠ ".." ∧ '/' ∉ name.toList ∧
    '\x00' ∉ name.toList ∧ name.utf8ByteSize ≤ Disk.maxNameSize)
    ⟨fun ⟨h₁, h₂, h₃, h₄, h₅⟩ => ⟨h₁, h₂, h₃, h₄, h₅⟩,
      fun h => ⟨h.leads, h.notParent, h.noSlash, h.noNul, h.short⟩⟩

theorem IsName.ne_empty {name : String} (h : IsName name) : name ≠ "" := by
  rintro rfl
  exact Bool.noConfusion h.leads

theorem IsName.steps {name : String} (h : IsName name) : (⟨name⟩ : Path).steps = [name] := by
  rw [steps_eq_stepsIn, stepsIn, piecesOf_of_slash_notMem h.noSlash, List.filter_cons_of_pos]
  · rfl
  · rw [h.leads]
    rfl

end Path

/-! ## Following the steps -/

namespace Entry

theorem at?_append (e : Entry) (xs ys : List String) :
    e.at? (xs ++ ys) = (e.at? xs).bind fun f => f.at? ys := by
  have hnone (ys : List String) :
      ys.foldl (fun (e : Option Entry) name => e.bind (child? name)) none = none := by
    induction ys with
    | nil => rfl
    | cons y ys ih => exact ih
  rw [at?, List.foldl_append]
  show ys.foldl _ (e.at? xs) = _
  cases e.at? xs with
  | none => exact hnone ys
  | some f => rfl

theorem at?_snoc (e : Entry) (place : List String) (name : String) :
    e.at? (place ++ [name]) = (e.at? place).bind (child? name) :=
  e.at?_append place [name]

theorem isSome_child? (name : String) (entries : List (String × Entry)) :
    (child? name (directory entries)).isSome = entries.any (·.1 = name) := by
  rw [child?, Option.isSome_map, List.isSome_find?]

theorem isSome_at?_of_append {e : Entry} {xs ys : List String} (h : (e.at? (xs ++ ys)).isSome) :
    (e.at? xs).isSome := by
  rw [at?_append] at h
  exact Option.isSome_of_isSome_bind h

end Entry

namespace Disk

open DocAudit.Path

/-- One step from a place. -/
def follow (place : List String) (piece : String) : List String :=
  if isIdle piece then place
  else if piece = ".." then place.dropLast
  else place ++ [piece]

theorem follow_name {piece : String} (hidle : isIdle piece = false) (hparent : piece ≠ "..")
    (place : List String) : follow place piece = place ++ [piece] := by
  rw [follow, if_neg (Bool.eq_false_iff.mp hidle), if_neg hparent]

/-- The place at which a path begins. -/
def origin (disk : Disk) (p : Path) : List String := if p.isAbsolute then [] else disk.current

section Walk

variable {root : Entry} {place place' : List String}

theorem walk_append_ok {xs ys : List String} :
    walk root place (xs ++ ys) = .ok place' ↔
      ∃ middle, walk root place xs = .ok middle ∧ walk root middle ys = .ok place' := by
  induction xs generalizing place with
  | nil =>
    constructor
    · exact fun h => ⟨place, rfl, h⟩
    · rintro ⟨middle, hmiddle, h⟩
      obtain rfl : place = middle := Except.ok.inj hmiddle
      exact h
  | cons x xs ih =>
    rw [List.cons_append, walk, walk]
    split
    · split_ifs
      · exact ih
      · exact ih
      · simp
      · exact ih
      · simp
    · simp
    · simp

theorem walk_cons_iff {piece : String} {pieces : List String} :
    walk root place (piece :: pieces) = .ok place' ↔
      ∃ middle, walk root place [piece] = .ok middle ∧ walk root middle pieces = .ok place' := by
  rw [← List.singleton_append, walk_append_ok]

/-- What a step takes: a directory, and a name in it unless the step stays there or goes up. -/
theorem walk_singleton_ok {piece : String} :
    walk root place [piece] = .ok place' ↔
      ∃ entries, root.at? place = some (.directory entries) ∧ place' = follow place piece ∧
        (isIdle piece = false → piece ≠ ".." →
          piece.utf8ByteSize ≤ maxNameSize ∧ entries.any (·.1 = piece) = true) := by
  rw [walk]
  unfold follow
  split
  · next entries hentries =>
    rw [hentries]
    simp only [Option.some.injEq, Entry.directory.injEq, exists_eq_left']
    have hstay (next : List String) : walk root next [] = .ok place' ↔ place' = next :=
      ⟨fun h => (Except.ok.inj h).symm, fun h => congrArg _ h.symm⟩
    split_ifs with hidle hparent hlong hmem
    · rw [hstay]
      exact (and_iff_left fun h => absurd hidle (Bool.eq_false_iff.mp h)).symm
    · rw [hstay]
      exact (and_iff_left fun _ h => absurd hparent h).symm
    · refine iff_of_false not_false fun h => ?_
      exact absurd (h.2 (Bool.eq_false_iff.mpr hidle) hparent).1 (Nat.not_le.mpr hlong)
    · rw [hstay]
      exact (and_iff_left fun _ _ => ⟨Nat.not_lt.mp hlong, hmem⟩).symm
    · refine iff_of_false not_false fun h => ?_
      exact absurd (h.2 (Bool.eq_false_iff.mpr hidle) hparent).2 hmem
  · next hfile => simp [hfile]
  · next hnone => simp [hnone]

theorem walk_ok_foldl {pieces : List String} (h : walk root place pieces = .ok place') :
    place' = pieces.foldl follow place := by
  induction pieces generalizing place with
  | nil => exact (Except.ok.inj h).symm
  | cons piece pieces ih =>
    obtain ⟨middle, hmiddle, h⟩ := walk_cons_iff.mp h
    obtain ⟨-, -, rfl, -⟩ := walk_singleton_ok.mp hmiddle
    exact ih h

theorem isSome_at?_of_walk {pieces : List String} (h : walk root place pieces = .ok place')
    (hplace : (root.at? place).isSome) : (root.at? place').isSome := by
  induction pieces generalizing place with
  | nil =>
    obtain rfl : place = place' := Except.ok.inj h
    exact hplace
  | cons piece pieces ih =>
    obtain ⟨middle, hmiddle, h⟩ := walk_cons_iff.mp h
    refine ih h ?_
    obtain ⟨entries, hentries, rfl, hname⟩ := walk_singleton_ok.mp hmiddle
    unfold follow
    split_ifs with hidle hparent
    · exact hplace
    · rcases List.eq_nil_or_concat place with rfl | ⟨front, last, rfl⟩
      · exact hplace
      · rw [List.concat_eq_append] at hplace ⊢
        rw [List.dropLast_concat]
        exact Entry.isSome_at?_of_append hplace
    · have hany := (hname (Bool.eq_false_iff.mpr hidle) hparent).2
      rw [Entry.at?_snoc, hentries, Option.bind_some, Entry.isSome_child?, hany]

theorem directory_of_walk {pieces : List String} (h : walk root place pieces = .ok place')
    (hdirectory : ∃ entries, root.at? place' = some (.directory entries)) :
    ∃ entries, root.at? place = some (.directory entries) := by
  cases pieces with
  | nil =>
    obtain rfl : place = place' := Except.ok.inj h
    exact hdirectory
  | cons piece pieces => exact (walk_cons_ok _ h).1

/-- On the way to a directory idle pieces can be put in. -/
theorem walk_of_filter_ok {pieces : List String}
    (h : walk root place (pieces.filter fun piece => !isIdle piece) = .ok place')
    (hdirectory : ∃ entries, root.at? place' = some (.directory entries)) :
    walk root place pieces = .ok place' := by
  induction pieces generalizing place with
  | nil => exact h
  | cons piece pieces ih =>
    refine walk_cons_iff.mpr ?_
    by_cases hidle : isIdle piece = true
    · rw [List.filter_cons_of_neg (by simpa using hidle)] at h
      obtain ⟨entries, hentries⟩ := directory_of_walk h hdirectory
      refine ⟨place, walk_singleton_ok.mpr ⟨entries, hentries, ?_, fun hname => ?_⟩, ih h⟩
      · rw [follow, if_pos hidle]
      · exact Bool.noConfusion (hidle.symm.trans hname)
    · rw [List.filter_cons_of_pos (by simpa using hidle)] at h
      obtain ⟨middle, hmiddle, h⟩ := walk_cons_iff.mp h
      exact ⟨middle, hmiddle, ih h⟩

theorem walk_filter_ok {pieces : List String} (h : walk root place pieces = .ok place') :
    walk root place (pieces.filter fun piece => !isIdle piece) = .ok place' := by
  induction pieces generalizing place with
  | nil => exact h
  | cons piece pieces ih =>
    obtain ⟨middle, hmiddle, h⟩ := walk_cons_iff.mp h
    by_cases hidle : isIdle piece = true
    · obtain ⟨-, -, rfl, -⟩ := walk_singleton_ok.mp hmiddle
      rw [List.filter_cons_of_neg (by simpa using hidle)]
      rw [follow, if_pos hidle] at h
      exact ih h
    · rw [List.filter_cons_of_pos (by simpa using hidle)]
      exact walk_cons_iff.mpr ⟨middle, hmiddle, ih h⟩

end Walk

variable {disk : Disk} {p : Path} {place : List String}

/-- The steps of a path lead to a place. -/
def Leads (disk : Disk) (p : Path) (place : List String) : Prop :=
  walk disk.root (disk.origin p) p.steps = .ok place

theorem leads_of_locate (h : disk.locate p = .ok place) : disk.Leads p place :=
  walk_filter_ok (disk.locate_ok h).2.2

/-- The place that a path spells is the one to which its steps lead. -/
theorem spelledPlace_eq (disk : Disk) (p : Path) :
    disk.spelledPlace p = p.steps.foldl follow (disk.origin p) := by
  rw [steps, List.foldl_filter]
  show p.pieces.foldl follow (disk.origin p) = _
  congr 1
  funext place piece
  by_cases hidle : isIdle piece = true
  · simp [follow, hidle]
  · simp [hidle]

theorem Leads.spelledPlace (h : disk.Leads p place) : disk.spelledPlace p = place := by
  rw [spelledPlace_eq]
  exact (walk_ok_foldl h).symm

theorem Leads.join_iff {q : Path} (h : disk.Leads p place) (hq : q.isAbsolute = false)
    {place' : List String} :
    disk.Leads (p.join q) place' ↔ walk disk.root place q.steps = .ok place' := by
  unfold Leads origin
  rw [isAbsolute_join hq, steps_join hq, walk_append_ok]
  constructor
  · rintro ⟨middle, hmiddle, h'⟩
    obtain rfl : place = middle := Except.ok.inj (h.symm.trans hmiddle)
    exact h'
  · exact fun h' => ⟨place, h, h'⟩

theorem exists_of_entry? {e : Entry} (h : disk.entry? p = some e) :
    ∃ place, disk.locate p = .ok place ∧ disk.root.at? place = some e := by
  unfold entry? at h
  split at h
  · next place hplace => exact ⟨place, hplace, h⟩
  · cases h

theorem entry?_of_locate (h : disk.locate p = .ok place) :
    disk.entry? p = disk.root.at? place := by
  unfold entry?
  rw [h]

theorem isDirectory_iff :
    disk.isDirectory p = true ↔ ∃ entries, disk.entry? p = some (.directory entries) := by
  unfold isDirectory
  split
  · next entries h => exact iff_of_true rfl ⟨entries, h⟩
  · next h => exact iff_of_false Bool.false_ne_true fun ⟨entries, he⟩ => h entries he

/-- **Something is at a path that ends in a name when its text can be used and its steps lead
somewhere.** -/
theorem entry?_eq_some_iff {e : Entry}
    (hname : ∃ piece, p.pieces.getLast? = some piece ∧ isIdle piece = false) :
    disk.entry? p = some e ↔ '\x00' ∉ p.text.toList ∧ p.text.utf8ByteSize ≤ maxPathSize ∧
      ∃ place, disk.Leads p place ∧ disk.root.at? place = some e := by
  constructor
  · intro h
    obtain ⟨place, hplace, hat⟩ := exists_of_entry? h
    obtain ⟨hnul, hshort, -⟩ := disk.locate_ok hplace
    exact ⟨hnul, hshort, place, leads_of_locate hplace, hat⟩
  · rintro ⟨hnul, hshort, place, hleads, hat⟩
    have hlocate : disk.locate p = .ok place :=
      (disk.locate_of_proper ⟨hnul, hshort, hname⟩).trans hleads
    rw [entry?_of_locate hlocate, hat]

theorem Leads.entry?_join {name : String} (h : disk.Leads p place) (hname : IsName name)
    (hnul : '\x00' ∉ p.text.toList)
    (hshort : (p.join ⟨name⟩).text.utf8ByteSize ≤ maxPathSize) :
    disk.entry? (p.join ⟨name⟩) = disk.root.at? (place ++ [name]) := by
  have hrelative := isAbsolute_of_slash_notMem hname.noSlash
  have hfollow := follow_name hname.leads hname.notParent place
  refine Option.ext fun e => ?_
  rw [entry?_eq_some_iff ⟨name, getLast?_pieces_join hname.noSlash, hname.leads⟩]
  simp only [h.join_iff hrelative, hname.steps, walk_singleton_ok]
  constructor
  · rintro ⟨-, -, _, ⟨-, -, rfl, -⟩, he⟩
    rwa [hfollow] at he
  · intro he
    refine ⟨nul_notMem_join hrelative hnul hname.noNul, hshort, _, ?_, he⟩
    rw [Entry.at?_snoc] at he
    obtain ⟨d, hd, hchild⟩ := Option.bind_eq_some_iff.mp he
    cases d with
    | file content => cases hchild
    | directory entries =>
      refine ⟨entries, hd, hfollow.symm, fun _ _ => ⟨hname.short, ?_⟩⟩
      rw [← Entry.isSome_child?, hchild]
      rfl

/-! ## What is at a path -/

/-- A path that the system takes, but for its length, leads to a place. -/
structure Visits (disk : Disk) (p : Path) (place : List String) : Prop where
  noNul : '\x00' ∉ p.text.toList
  nonempty : p.text ≠ ""
  walk : walk disk.root (disk.origin p) p.pieces = .ok place

theorem locate_eq_ok_iff :
    disk.locate p = .ok place ↔ disk.Visits p place ∧ p.text.utf8ByteSize ≤ maxPathSize := by
  constructor
  · intro h
    obtain ⟨hnul, hshort, hwalk⟩ := disk.locate_ok h
    refine ⟨⟨hnul, fun hempty => ?_, hwalk⟩, hshort⟩
    rw [locate, if_neg (by simpa using hnul), if_pos hempty] at h
    cases h
  · rintro ⟨⟨hnul, hne, hwalk⟩, hshort⟩
    rwa [locate, if_neg (by simpa using hnul), if_neg hne, if_neg (Nat.not_lt.mpr hshort)]

namespace Visits

theorem eq {place' : List String} (h : disk.Visits p place) (h' : disk.Visits p place') :
    place = place' :=
  Except.ok.inj (h.walk.symm.trans h'.walk)

theorem exists_origin (h : disk.Visits p place) :
    ∃ entries, disk.root.at? (disk.origin p) = some (.directory entries) := by
  obtain ⟨piece, pieces, hpieces⟩ := List.exists_cons_of_ne_nil p.pieces_ne_nil
  exact (walk_cons_ok _ (hpieces ▸ h.walk)).1

theorem isSome (h : disk.Visits p place) : (disk.root.at? place).isSome := by
  obtain ⟨entries, hentries⟩ := h.exists_origin
  exact isSome_at?_of_walk h.walk (by rw [hentries]; rfl)

theorem entry?_eq (h : disk.Visits p place) (hshort : p.text.utf8ByteSize ≤ maxPathSize) :
    disk.entry? p = disk.root.at? place :=
  entry?_of_locate (locate_eq_ok_iff.mpr ⟨h, hshort⟩)

/-- A path inside a directory is walked from where the directory is. -/
theorem walk_join_iff {q : Path} (h : disk.Visits p place) (hq : q.isAbsolute = false)
    {place' : List String} :
    Disk.walk disk.root (disk.origin (p.join q)) (p.join q).pieces = .ok place' ↔
      Disk.walk disk.root place q.pieces = .ok place' := by
  obtain ⟨front, hp, hjoin⟩ := exists_pieces_join (p := p) hq
  have hfront : Disk.walk disk.root (disk.origin p) front = .ok place := by
    rcases hp with hp | hp
    · rw [← hp]
      exact h.walk
    · have hwalk := h.walk
      rw [hp, walk_append_ok] at hwalk
      obtain ⟨middle, hmiddle, hlast⟩ := hwalk
      obtain ⟨-, -, rfl, -⟩ := walk_singleton_ok.mp hlast
      exact hmiddle
  have horigin : disk.origin (p.join q) = disk.origin p := by
    rw [origin, origin, isAbsolute_join hq]
  rw [hjoin, horigin, walk_append_ok]
  constructor
  · rintro ⟨middle, hmiddle, hrest⟩
    obtain rfl := Except.ok.inj (hfront.symm.trans hmiddle)
    exact hrest
  · exact fun hrest => ⟨place, hfront, hrest⟩

end Visits

theorem exists_iff :
    disk.exists p = true ↔
      p.text.utf8ByteSize ≤ maxPathSize ∧ ∃ place, disk.Visits p place := by
  rw [«exists», Option.isSome_iff_exists]
  constructor
  · rintro ⟨e, he⟩
    obtain ⟨place, hplace, -⟩ := exists_of_entry? he
    obtain ⟨hvisits, hshort⟩ := locate_eq_ok_iff.mp hplace
    exact ⟨hshort, place, hvisits⟩
  · rintro ⟨hshort, place, hvisits⟩
    rw [hvisits.entry?_eq hshort]
    exact Option.isSome_iff_exists.mp hvisits.isSome

/-- What is at a path is what is at the place to which it leads, if it is not too long. -/
theorem Visits.entry?_eq_some_iff (h : disk.Visits p place) {e : Entry} :
    disk.entry? p = some e ↔
      p.text.utf8ByteSize ≤ maxPathSize ∧ disk.root.at? place = some e := by
  constructor
  · intro he
    obtain ⟨place', hplace', hat⟩ := exists_of_entry? he
    obtain ⟨hvisits, hshort⟩ := locate_eq_ok_iff.mp hplace'
    obtain rfl := h.eq hvisits
    exact ⟨hshort, hat⟩
  · rintro ⟨hshort, hat⟩
    rw [h.entry?_eq hshort, hat]

theorem Visits.isDirectory_iff (h : disk.Visits p place) :
    disk.isDirectory p = true ↔ p.text.utf8ByteSize ≤ maxPathSize ∧
      ∃ entries, disk.root.at? place = some (.directory entries) := by
  rw [Disk.isDirectory_iff]
  simp only [h.entry?_eq_some_iff, exists_and_left]

theorem Visits.mem_children_iff (h : disk.Visits p place) {name : String} :
    name ∈ disk.children p ↔ p.text.utf8ByteSize ≤ maxPathSize ∧
      ∃ entries e, disk.root.at? place = some (.directory entries) ∧ (name, e) ∈ entries := by
  unfold children
  split
  · next entries hentries =>
    obtain ⟨hshort, hat⟩ := h.entry?_eq_some_iff.mp hentries
    rw [hat]
    simp [hshort]
  · next hentries =>
    refine iff_of_false List.not_mem_nil fun ⟨hshort, entries, _, hat, _⟩ => ?_
    exact hentries entries (h.entry?_eq_some_iff.mpr ⟨hshort, hat⟩)

end Disk

end DocAudit
