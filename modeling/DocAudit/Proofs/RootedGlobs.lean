import DocAudit.Proofs.GlobSearch
import DocAudit.Proofs.RepeatedLibraries
import Mathlib.Logic.Basic
/-!
# Globs relative to a root directory

The name of the root directory is put in front of a glob before the glob is read. If that name has
no wildcards, the glob means what it says: the search finds what is inside the directory and fits.
A name with wildcards is read as a pattern, too.

* `Glob.ofText?_lead`: reading a glob behind the name of a directory.
* **`globs_are_rooted`**: what a glob finds in a root directory without wildcards in its name.
-/

namespace DocAudit

open DocAudit.Path (IsName isIdle)

namespace Glob

/-! ## Texts without wildcards -/

/-- Whether a character is one of those that open a wildcard. -/
def IsWild (c : Char) : Prop := c = '*' ∨ c = '?' ∨ c = '['

theorem hasWildcard_eq_false_iff {text : String} :
    hasWildcard text = false ↔ ∀ c ∈ text.toList, ¬ IsWild c := by
  simp [hasWildcard, IsWild, not_or, and_assoc]

theorem not_isWild_slash : ¬ IsWild '/' := by
  simp [IsWild]

section Tokens

variable {atStart : Bool} {cs rest : List Char} {c : Char}

theorem tokens?_cons (hc : ¬ IsWild c) :
    tokens? atStart (c :: cs) = (tokens? (c = '/') cs).map (.literal c :: ·) := by
  rw [IsWild, not_or, not_or] at hc
  obtain ⟨hstar, hany, hclass⟩ := hc
  rw [tokens?.eq_def]
  split <;> simp_all

theorem tokens?_plain (hcs : ∀ c ∈ cs, ¬ IsWild c) :
    tokens? atStart cs = some (cs.map .literal) := by
  induction cs generalizing atStart with
  | nil => rw [tokens?, List.map_nil]
  | cons c cs ih =>
    obtain ⟨hc, hcs⟩ := List.forall_mem_cons.mp hcs
    rw [tokens?_cons hc, ih hcs]
    rfl

theorem tokens?_append_slash (hcs : ∀ c ∈ cs, ¬ IsWild c) :
    tokens? atStart (cs ++ '/' :: rest) =
      (tokens? true rest).map ((cs ++ ['/']).map .literal ++ ·) := by
  induction cs generalizing atStart with
  | nil => exact tokens?_cons not_isWild_slash
  | cons c cs ih =>
    obtain ⟨hc, hcs⟩ := List.forall_mem_cons.mp hcs
    rw [List.cons_append, tokens?_cons hc, ih hcs, Option.map_map]
    rfl

theorem exists_char?_eq_none (hc : IsWild c) {ts : List Token}
    (h : tokens? atStart (c :: cs) = some ts) :
    ∃ token rest, ts = token :: rest ∧ token.char? = none := by
  have hclass {cs : List Char} {p : Token × List Char} (hp : readClass cs = some p) :
      p.1.char? = none := by
    unfold readClass at hp
    split at hp <;> obtain ⟨q, -, rfl⟩ := Option.map_eq_some_iff.mp hp <;> rfl
  have hread {token : Token} {tail : Option (List Token)} (htoken : token.char? = none)
      (h : tail.map (token :: ·) = some ts) :
      ∃ token rest, ts = token :: rest ∧ token.char? = none := by
    obtain ⟨rest, -, rfl⟩ := Option.map_eq_some_iff.mp h
    exact ⟨token, rest, rfl, htoken⟩
  rw [tokens?.eq_def] at h
  split at h
  case h_1 hcons => cases hcons
  case h_2 => exact hread rfl h
  case h_3 => cases h
  case h_4 =>
    split at h
    · split at h
      · exact ⟨_, [], (Option.some.inj h).symm, rfl⟩
      · exact hread rfl h
      · cases h
    · cases h
  case h_5 => exact hread rfl h
  case h_6 =>
    split at h
    · cases h
    · next token rest hp => exact hread (hclass hp) h
  case h_7 hany _ _ hstar hbracket hcons =>
    obtain ⟨rfl, -⟩ := List.cons.inj hcons
    exact (hc.elim hstar fun hc => hc.elim hany hbracket).elim

/-- A pattern without wildcards is the text from which it was read. -/
theorem literal_of_tokens? {text : List Char}
    (h : tokens? atStart cs = some (text.map .literal)) : text = cs := by
  induction cs generalizing atStart text with
  | nil =>
    rw [tokens?, Option.some.injEq, eq_comm, List.map_eq_nil_iff] at h
    exact h
  | cons c cs ih =>
    by_cases hc : IsWild c
    · obtain ⟨token, rest, htokens, hchar⟩ := exists_char?_eq_none hc h
      cases text with
      | nil => cases htokens
      | cons d text =>
        obtain ⟨rfl, -⟩ := List.cons.inj htokens
        cases hchar
    · rw [tokens?_cons hc] at h
      obtain ⟨ts, hts, hcons⟩ := Option.map_eq_some_iff.mp h
      cases text with
      | nil => cases hcons
      | cons d text =>
        obtain ⟨hd, rfl⟩ := List.cons.inj hcons
        obtain rfl := Token.literal.inj hd
        rw [ih hts]

end Tokens

/-! ## Reading a glob behind the name of a directory -/

theorem piecesOf_nil : piecesOf [] = [] := rfl

/-- A slash at the end opens no piece, and any other one does. -/
theorem piecesOf_append_slash (l m : List Char) :
    piecesOf (l ++ '/' :: m) = Path.piecesOf l ++ piecesOf m := by
  have hne := Path.piecesOf_ne_nil m
  unfold piecesOf
  dsimp only
  rw [Path.piecesOf_append_slash, List.getLast?_append_of_ne_nil _ hne]
  split
  · rw [List.dropLast_append_of_ne_nil hne]
  · rfl

theorem mem_of_mem_piecesOf {text : List Char} {piece : String} (h : piece ∈ piecesOf text) :
    piece ∈ Path.piecesOf text := by
  unfold piecesOf at h
  dsimp only at h
  split at h
  · exact List.dropLast_subset _ h
  · exact h

theorem piecesOf_ne_nil {text : List Char} (hne : text ≠ []) : piecesOf text ≠ [] := by
  intro h
  have hpieces : Path.piecesOf text = [""] := by
    unfold piecesOf at h
    dsimp only at h
    split at h
    · next hlast =>
      obtain ⟨front, hfront⟩ := List.getLast?_eq_some_iff.mp hlast
      rw [hfront, List.dropLast_concat] at h
      rw [hfront, h, List.nil_append]
    · exact absurd h (Path.piecesOf_ne_nil text)
  have htext := Path.intercalate_piecesOf text
  rw [hpieces, String.intercalate_singleton] at htext
  exact hne (by rw [← String.toList_ofList (l := text), ← htext, String.toList_empty])

theorem exists_head?_piecesOf {text : List Char} (hne : text ≠ []) (h : text.head? ≠ some '/') :
    ∃ name names, piecesOf text = name :: names ∧ name ≠ "" := by
  obtain ⟨name, names, hnames⟩ := List.exists_cons_of_ne_nil (piecesOf_ne_nil hne)
  refine ⟨name, names, hnames, fun hempty => Path.head?_piecesOf_ne hne h ?_⟩
  have hprefix : piecesOf text <+: Path.piecesOf text := by
    unfold piecesOf
    dsimp only
    split
    · exact List.dropLast_prefix _
    · exact List.prefix_rfl
  rw [hnames, hempty] at hprefix
  obtain ⟨rest, hrest⟩ := hprefix
  rw [← hrest]
  rfl

/-- The names that a directory spells, but for slashes at its start and one at its end. -/
def rootNames (root : Path) : List String :=
  piecesOf (root.lead.toList.dropWhile (· = '/'))

theorem dropWhile_slash_cons (cs : List Char) :
    ('/' :: cs).dropWhile (· = '/') = cs.dropWhile (· = '/') := rfl

theorem dropWhile_slash {cs : List Char} (h : cs.head? ≠ some '/') :
    cs.dropWhile (· = '/') = cs := by
  cases cs with
  | nil => rfl
  | cons c cs =>
    refine List.dropWhile_cons_of_neg fun hc => h ?_
    rw [of_decide_eq_true hc]
    rfl

theorem piecesOf_lead_append {root : Path} (hroot : root.text ≠ "") {cs : List Char}
    (hcs : cs.head? ≠ some '/') :
    piecesOf ((root.lead.toList ++ cs).dropWhile (· = '/')) = rootNames root ++ piecesOf cs := by
  obtain ⟨l, hlead, -⟩ := root.lead_cases.resolve_left fun h => hroot h.1
  have hdrop := dropWhile_slash hcs
  have happend (m : List Char) : (l ++ '/' :: m).dropWhile (· = '/') =
      if (l.dropWhile (· = '/')).isEmpty then m.dropWhile (· = '/')
      else l.dropWhile (· = '/') ++ '/' :: m := by
    rw [List.dropWhile_append]
    rfl
  have hfull : root.lead.toList ++ cs = l ++ '/' :: cs := by
    rw [hlead, List.append_assoc]
    rfl
  rw [rootNames, hfull, hlead, happend, happend, hdrop]
  split
  · rfl
  · rw [piecesOf_append_slash, piecesOf_append_slash, piecesOf_nil, List.append_nil]

/-- The pattern that stands for a name only. -/
def Pattern.ofName (name : String) : Pattern := name.toList.map .literal

theorem Pattern.literal?_ofName (name : String) : (Pattern.ofName name).literal? = some name :=
  Pattern.literal?_eq_some_iff.mpr rfl

theorem mapM_ofText?_plain {names : List String}
    (h : ∀ name ∈ names, ∀ c ∈ name.toList, ¬ IsWild c) :
    names.mapM Pattern.ofText? = some (names.map Pattern.ofName) := by
  induction names with
  | nil => rfl
  | cons name names ih =>
    obtain ⟨hname, hnames⟩ := List.forall_mem_cons.mp h
    have hfirst : Pattern.ofText? name = some (Pattern.ofName name) := tokens?_plain hname
    rw [List.mapM_cons, hfirst, ih hnames]
    rfl

theorem exists_of_mem_mapM {α β : Type} {f : α → Option β} {as : List α} {bs : List β}
    (h : as.mapM f = some bs) {b : β} (hb : b ∈ bs) : ∃ a ∈ as, f a = some b := by
  induction as generalizing bs with
  | nil =>
    obtain rfl : [] = bs := Option.some.inj h
    cases hb
  | cons a as ih =>
    rw [List.mapM_cons] at h
    obtain ⟨b', hb', h⟩ := Option.bind_eq_some_iff.mp h
    obtain ⟨bs', hbs', h⟩ := Option.bind_eq_some_iff.mp h
    obtain rfl := Option.some.inj h
    rcases List.mem_cons.mp hb with rfl | hb
    · exact ⟨a, List.mem_cons_self, hb'⟩
    · obtain ⟨a', ha', hfa'⟩ := ih hbs' hb
      exact ⟨a', List.mem_cons_of_mem _ ha', hfa'⟩

theorem mem_of_mem_collapse {p : Pattern} {ps : List Pattern} (h : p ∈ collapse ps) : p ∈ ps := by
  fun_induction collapse ps with
  | case1 p q ps _ ih => exact List.mem_cons_of_mem _ (ih h)
  | case2 p' q ps _ ih =>
    rcases List.mem_cons.mp h with rfl | h
    · exact List.mem_cons_self
    · exact List.mem_cons_of_mem _ (ih h)
  | case3 ps => exact h

theorem head?_collapse (ps : List Pattern) : (collapse ps).head? = ps.head? := by
  fun_induction collapse ps with
  | case1 p q ps hboth ih =>
    obtain ⟨hp, hq⟩ := Bool.and_eq_true_iff.mp hboth
    rw [Pattern.isRecursive, decide_eq_true_eq] at hp hq
    rw [ih, List.head?_cons, List.head?_cons, hp, hq]
  | case2 p q ps _ => rfl
  | case3 ps => rfl

theorem collapse_append {ls ps : List Pattern} (h : ∀ p ∈ ls, p.isRecursive = false) :
    collapse (ls ++ ps) = ls ++ collapse ps := by
  induction ls with
  | nil => rfl
  | cons l ls ih =>
    obtain ⟨hl, hls⟩ := List.forall_mem_cons.mp h
    rw [List.cons_append, List.cons_append, ← ih hls]
    cases ls ++ ps with
    | nil => rfl
    | cons q qs => rw [collapse, hl, Bool.false_and, if_neg Bool.false_ne_true]

theorem Pattern.isRecursive_ofName (name : String) : (Pattern.ofName name).isRecursive = false := by
  rw [Pattern.isRecursive, Pattern.ofName, decide_eq_false_iff_not]
  cases name.toList <;> simp

section Reading

variable {root : Path} {pattern : String} {g : Glob}

theorem ofText?_eq_some_iff {text : String} :
    ofText? text = some g ↔ isValid text = true ∧
      ∃ ps, (piecesOf (text.toList.dropWhile (· = '/'))).mapM Pattern.ofText? = some ps ∧
        g = ⟨decide (text.toList.head? = some '/'), collapse ps,
          decide (text.toList.getLast? = some '/')⟩ := by
  unfold ofText?
  dsimp only
  split
  · next hvalid =>
    rw [Option.map_eq_some_iff]
    simp only [hvalid, true_and, eq_comm]
  · next hvalid =>
    simp [hvalid]

theorem not_isWild_of_mem_lead (hplain : hasWildcard root.text = false) :
    ∀ c ∈ root.lead.toList, ¬ IsWild c := by
  have htext := hasWildcard_eq_false_iff.mp hplain
  unfold Path.lead
  split
  · exact htext
  · intro c hc
    rcases List.mem_append.mp (String.toList_append ▸ hc) with hc | hc
    · exact htext c hc
    · have hslash : c = '/' := List.mem_singleton.mp hc
      rw [hslash]
      exact not_isWild_slash

theorem mem_lead_of_mem_rootNames {name : String} (h : name ∈ rootNames root) {c : Char}
    (hc : c ∈ name.toList) : c ∈ root.lead.toList ∧ c ≠ '/' :=
  (Path.mem_of_mem_piecesOf (mem_of_mem_piecesOf h) hc).imp_left
    fun hmem => (List.dropWhile_sublist _).subset hmem

/-- **A glob behind a directory without wildcards is read as the names of the directory and the
glob.** -/
theorem ofText?_lead (hroot : root.text ≠ "") (hplain : hasWildcard root.text = false)
    (hg : ofText? pattern = some g) (hrelative : g.isAbsolute = false) (hne : pattern ≠ "") :
    ofText? (root.lead ++ pattern) = some
      { isAbsolute := root.isAbsolute
        patterns := (rootNames root).map Pattern.ofName ++ g.patterns
        onlyDirectories := g.onlyDirectories } := by
  obtain ⟨hvalid, ps, hps, rfl⟩ := ofText?_eq_some_iff.mp hg
  have hhead : pattern.toList.head? ≠ some '/' := of_decide_eq_false hrelative
  have hplain := not_isWild_of_mem_lead hplain
  obtain ⟨l, hlead, -⟩ := root.lead_cases.resolve_left fun h => hroot h.1
  have hnil : pattern.toList ≠ [] := fun h => hne (String.toList_eq_nil_iff.mp h)
  rw [dropWhile_slash hhead] at hps
  refine ofText?_eq_some_iff.mpr
    ⟨?_, (rootNames root).map Pattern.ofName ++ ps, ?_, ?_⟩
  · have hl : ∀ c ∈ l, ¬ IsWild c := fun c hc =>
      hplain c (hlead ▸ List.mem_append_left _ hc)
    have hfull : (root.lead ++ pattern).toList = l ++ '/' :: pattern.toList := by
      rw [String.toList_append, hlead, List.append_assoc]
      rfl
    rw [isValid, hfull, tokens?_append_slash hl, Option.isSome_map]
    exact hvalid
  · have hnames : ∀ name ∈ rootNames root, ∀ c ∈ name.toList, ¬ IsWild c :=
      fun name hname c hc => hplain c (mem_lead_of_mem_rootNames hname hc).1
    rw [String.toList_append, piecesOf_lead_append hroot hhead, List.mapM_append,
      mapM_ofText?_plain hnames, hps]
    rfl
  · have hliterals : ∀ p ∈ (rootNames root).map Pattern.ofName,
        p.isRecursive = false := by
      intro p hp
      obtain ⟨name, -, rfl⟩ := List.mem_map.mp hp
      exact Pattern.isRecursive_ofName name
    have hleadne : root.lead.toList ≠ [] := by
      rw [hlead]
      exact List.append_ne_nil_of_right_ne_nil _ (List.cons_ne_nil _ _)
    rw [collapse_append hliterals, String.toList_append, List.head?_append_of_ne_nil _ hleadne,
      List.getLast?_append_of_ne_nil _ hnil, Path.head?_lead]
    rfl

theorem spelled_of_ofText? (hg : ofText? pattern = some g) (hrelative : g.isAbsolute = false) :
    ∀ p ∈ g.patterns, p.Spelled := by
  obtain ⟨-, ps, hps, rfl⟩ := ofText?_eq_some_iff.mp hg
  rw [dropWhile_slash (of_decide_eq_false hrelative)] at hps
  intro p hp name hname
  obtain ⟨piece, hpiece, hp⟩ := exists_of_mem_mapM hps (mem_of_mem_collapse hp)
  rw [Pattern.literal?_eq_some_iff.mp hname] at hp
  obtain rfl : name = piece := String.toList_inj.mp (literal_of_tokens? hp)
  exact Path.slash_notMem_of_mem_piecesOf (mem_of_mem_piecesOf hpiece)

theorem exists_head?_patterns (hg : ofText? pattern = some g) (hrelative : g.isAbsolute = false)
    (hne : pattern ≠ "") : ∃ p, g.patterns.head? = some p ∧ p ≠ [] := by
  obtain ⟨-, ps, hps, rfl⟩ := ofText?_eq_some_iff.mp hg
  have hhead : pattern.toList.head? ≠ some '/' := of_decide_eq_false hrelative
  obtain ⟨name, names, hnames, hname⟩ :=
    exists_head?_piecesOf (fun h => hne (String.toList_eq_nil_iff.mp h)) hhead
  rw [dropWhile_slash hhead, hnames, List.mapM_cons] at hps
  obtain ⟨p, hp, hps⟩ := Option.bind_eq_some_iff.mp hps
  obtain ⟨rest, -, hps⟩ := Option.bind_eq_some_iff.mp hps
  obtain rfl := Option.some.inj hps
  refine ⟨p, head?_collapse _, fun hnil => hname (String.toList_eq_nil_iff.mp ?_)⟩
  have htokens : tokens? true name.toList = some (([] : List Char).map .literal) :=
    hp.trans (congrArg some hnil)
  exact (literal_of_tokens? htokens).symm

end Reading

/-! ## Names in front of a glob -/

theorem Pattern.spelled_ofName {name : String} (hslash : '/' ∉ name.toList) :
    (Pattern.ofName name).Spelled := by
  intro other hother
  obtain rfl : name = other := Option.some.inj ((Pattern.literal?_ofName name).symm.trans hother)
  exact hslash

theorem Pattern.standsFor_ofName {name other : String} :
    (Pattern.ofName name).StandsFor other ↔ other = name ∧ IsStep name := by
  have hliteral := Pattern.literal?_ofName name
  rw [Pattern.StandsFor, Pattern.matches_iff_of_literal? hliteral]
  refine and_congr_right fun hother => ?_
  have hnil : Pattern.ofName name = [] ↔ name = "" := by
    rw [Pattern.ofName, List.map_eq_nil_iff, String.toList_eq_nil_iff]
  have hdots : (Pattern.ofName name).opensWithDot = true ∧ (name = "." ∨ name = "..") ↔
      name = "." ∨ name = ".." :=
    and_iff_right_of_imp (Pattern.opensWithDot_of_literal? hliteral)
  rw [hother, hnil, and_self, hdots, IsStep]

theorem Fits.of_cons {p : Pattern} {ps : List Pattern} {all : List String}
    (h : Fits (p :: ps) all) (hp : p.isRecursive = false) :
    ∃ name rest, all = name :: rest ∧ p.StandsFor name ∧ Fits ps rest := by
  generalize hqs : p :: ps = qs at h
  cases h with
  | nil => cases hqs
  | one _ stands rest =>
    obtain ⟨rfl, rfl⟩ := List.cons.inj hqs
    exact ⟨_, _, rfl, stands, rest⟩
  | deep recursive _ _ _ =>
    obtain ⟨rfl, -⟩ := List.cons.inj hqs
    exact Bool.noConfusion (hp.symm.trans recursive)
  | all recursive _ _ =>
    obtain ⟨rfl, -⟩ := List.cons.inj hqs
    exact Bool.noConfusion (hp.symm.trans recursive)

theorem fits_names_iff {names : List String} {ps : List Pattern} {all : List String} :
    Fits (names.map Pattern.ofName ++ ps) all ↔
      (∀ name ∈ names, IsStep name) ∧ ∃ rest, all = names ++ rest ∧ Fits ps rest := by
  induction names generalizing all with
  | nil => simp
  | cons name names ih =>
    constructor
    · intro h
      obtain ⟨other, tail, rfl, hstands, htail⟩ := h.of_cons (Pattern.isRecursive_ofName name)
      obtain ⟨rfl, hname⟩ := Pattern.standsFor_ofName.mp hstands
      obtain ⟨hnames, rest, rfl, hrest⟩ := ih.mp htail
      exact ⟨List.forall_mem_cons.mpr ⟨hname, hnames⟩, rest, rfl, hrest⟩
    · rintro ⟨hnames, rest, rfl, hrest⟩
      obtain ⟨hname, hnames⟩ := List.forall_mem_cons.mp hnames
      exact .one (Pattern.isRecursive_ofName name) (Pattern.standsFor_ofName.mpr ⟨rfl, hname⟩)
        (ih.mpr ⟨hnames, rest, rfl, hrest⟩)

theorem Fits.isStep {ps : List Pattern} {names : List String} (h : Fits ps names) :
    ∀ name ∈ names, IsStep name := by
  induction h with
  | nil => nofun
  | one _ stands _ ih =>
    exact List.forall_mem_cons.mpr ⟨stands.isStep, ih⟩
  | deep _ dirs_names _ _ ih =>
    intro name hname
    rw [← List.singleton_append, ← List.append_assoc] at hname
    exact (List.mem_append.mp hname).elim (fun h => .inl (dirs_names name h)) (ih name)
  | all _ dirs_names _ => exact fun name hname => .inl (dirs_names name hname)

theorem Fits.exists_head? {ps : List Pattern} {names : List String} (h : Fits ps names)
    (hps : ∃ p, ps.head? = some p ∧ p ≠ []) : ∃ name, names.head? = some name ∧ name ≠ "" := by
  have hdeep {dirs rest : List String} (hdirs : ∀ n ∈ dirs, IsName n) (hne : dirs ≠ []) :
      ∃ name, (dirs ++ rest).head? = some name ∧ name ≠ "" := by
    obtain ⟨name, dirs, rfl⟩ := List.exists_cons_of_ne_nil hne
    exact ⟨name, rfl, (hdirs name List.mem_cons_self).ne_empty⟩
  obtain ⟨p, hp, hne⟩ := hps
  cases h with
  | nil => cases hp
  | one _ stands _ =>
    obtain rfl := Option.some.inj hp
    refine ⟨_, rfl, ?_⟩
    rcases stands.2 with hname | ⟨-, hdots⟩ | ⟨hnil, -⟩
    · exact hname.ne_empty
    · exact ne_empty_of_dots hdots
    · exact absurd hnil hne
  | @deep _ _ _ dirs name names _ dirs_names _ _ =>
    rw [← List.singleton_append, ← List.append_assoc]
    exact hdeep dirs_names (by simp)
  | all _ dirs_names some_dir =>
    rw [← List.append_nil names]
    exact hdeep dirs_names some_dir

/-! ## The names of a directory -/

section RootNames

variable {disk : Disk} {root : Path} {place place' : List String}

theorem room_eq_size_intercalate {ps : List String} (hne : ps ≠ []) :
    Disk.room ps = ("/".intercalate ps).utf8ByteSize + 1 := by
  have hslash : "/".utf8ByteSize = 1 := rfl
  induction ps with
  | nil => exact absurd rfl hne
  | cons piece ps ih =>
    rw [Disk.room_cons]
    cases ps with
    | nil => rw [String.intercalate_singleton, Disk.room]
    | cons next ps =>
      rw [ih (List.cons_ne_nil _ _), String.intercalate_cons_cons, String.utf8ByteSize_append,
        String.utf8ByteSize_append, hslash]
      omega

theorem room_piecesOf (text : String) :
    Disk.room (Path.piecesOf text.toList) = text.utf8ByteSize + 1 := by
  rw [room_eq_size_intercalate (Path.piecesOf_ne_nil _), Path.intercalate_piecesOf,
    String.ofList_toList]

theorem room_dropWhile_slash (cs : List Char) :
    Disk.room (piecesOf (cs.dropWhile (· = '/'))) + (if cs.head? = some '/' then 1 else 0) ≤
      Disk.room (piecesOf cs) := by
  induction cs with
  | nil => exact Nat.le_refl _
  | cons c cs ih =>
    by_cases hc : c = '/'
    · have hpieces : piecesOf ('/' :: cs) = "" :: piecesOf cs := piecesOf_append_slash [] cs
      have hempty : "".utf8ByteSize = 0 := rfl
      rw [hc, List.head?_cons, if_pos rfl, hpieces, Disk.room_cons, hempty, dropWhile_slash_cons]
      omega
    · have hhead : (c :: cs).head? ≠ some '/' := by simpa using hc
      rw [dropWhile_slash hhead, if_neg hhead]
      exact Nat.le_refl _

theorem room_rootNames_le (hroot : root.text ≠ "") :
    Disk.room (rootNames root) + (if root.isAbsolute then 1 else 0) ≤ root.lead.utf8ByteSize := by
  obtain ⟨l, hlead, -⟩ := root.lead_cases.resolve_left fun h => hroot h.1
  have hempty : "".utf8ByteSize = 0 := rfl
  have hpieces : Path.piecesOf root.lead.toList = piecesOf root.lead.toList ++ [""] := by
    rw [hlead, Path.piecesOf_append_slash, piecesOf_append_slash, piecesOf_nil, List.append_nil]
    rfl
  have hroom := room_piecesOf root.lead
  rw [hpieces, Disk.room_append, Disk.room_singleton, hempty] at hroom
  have hdrop := room_dropWhile_slash root.lead.toList
  rw [Path.head?_lead] at hdrop
  rw [rootNames, Path.isAbsolute]
  simp only [decide_eq_true_eq]
  omega

/-- The names of a directory are its steps, but for dots between them. -/
theorem filter_rootNames (root : Path) :
    (rootNames root).filter (fun name => !isIdle name) = root.steps := by
  have hpieces (cs : List Char) :
      (piecesOf cs).filter (fun name => !isIdle name) = Path.stepsIn cs := by
    rw [Path.stepsIn, piecesOf]
    split
    · next hlast =>
      obtain ⟨front, hfront⟩ := List.getLast?_eq_some_iff.mp hlast
      rw [hfront, List.dropLast_concat, List.filter_append]
      exact (List.append_nil _).symm
    · rfl
  have hdrop (cs : List Char) : Path.stepsIn (cs.dropWhile (· = '/')) = Path.stepsIn cs := by
    induction cs with
    | nil => rfl
    | cons c cs ih =>
      by_cases hc : c = '/'
      · rw [hc, dropWhile_slash_cons, ih]
        exact (Path.stepsIn_append_slash [] cs).symm
      · rw [dropWhile_slash (by simpa using hc)]
  rw [rootNames, hpieces, hdrop, Path.stepsIn_lead]

theorem walk_rootNames (h : disk.Visits root place)
    (hdirectory : ∃ entries, disk.root.at? place = some (.directory entries)) :
    Disk.walk disk.root (disk.origin root) (rootNames root) = .ok place := by
  refine Disk.walk_of_filter_ok ?_ hdirectory
  rw [filter_rootNames]
  exact Disk.walk_filter_ok h.walk

theorem isStep_of_walk (hdisk : disk.Regular) {names : List String}
    (hwalk : Disk.walk disk.root place names = .ok place') : ∀ name ∈ names, IsStep name := by
  induction names generalizing place with
  | nil => nofun
  | cons name names ih =>
    obtain ⟨middle, hfirst, hwalk⟩ := Disk.walk_cons_iff.mp hwalk
    refine List.forall_mem_cons.mpr ⟨?_, ih hwalk⟩
    by_cases hname : (name = "." ∨ name = "..") ∨ name = ""
    · exact .inr hname
    · obtain ⟨hdots, hempty⟩ := not_or.mp hname
      obtain ⟨hdot, hparent⟩ := not_or.mp hdots
      exact .inl (Disk.isName_of_walk hdisk hfirst (by simp [isIdle, hdot, hempty]) hparent)

/-! ## The search from where the directory begins -/

/-- The path from which a glob behind a directory is searched. -/
def startOf (root : Path) : Path := ⟨if root.isAbsolute then "/" else "."⟩

theorem isAbsolute_startOf (root : Path) : (startOf root).isAbsolute = root.isAbsolute := by
  unfold startOf
  cases root.isAbsolute <;> rfl

theorem steps_startOf (root : Path) : (startOf root).steps = [] := by
  unfold startOf
  cases root.isAbsolute <;> decide

theorem visits_startOf (h : disk.Visits root place) :
    disk.Visits (startOf root) (disk.origin root) := by
  obtain ⟨entries, hentries⟩ := h.exists_origin
  have horigin : disk.origin (startOf root) = disk.origin root := by
    rw [Disk.origin, Disk.origin, isAbsolute_startOf]
  have hpieces : ∃ piece, (startOf root).pieces = [piece] ∧ isIdle piece = true := by
    unfold startOf
    cases root.isAbsolute
    · exact ⟨".", by decide, rfl⟩
    · exact ⟨"", by decide, rfl⟩
  obtain ⟨piece, hpieces, hidle⟩ := hpieces
  refine ⟨?_, ?_, ?_⟩
  · unfold startOf
    cases root.isAbsolute <;> decide
  · unfold startOf
    cases root.isAbsolute <;> decide
  · rw [horigin, hpieces]
    refine Disk.walk_singleton_ok.mpr ⟨entries, hentries, ?_, fun hname => ?_⟩
    · rw [Disk.follow, if_pos hidle]
    · exact Bool.noConfusion (hidle.symm.trans hname)

/-- A search that has taken the first names of a directory, with room for the others and for what
is inside of the directory. -/
structure Entered (disk : Disk) (root : Path) (first rest : List String) (m : Path)
    (middle : List String) : Prop where
  names : rootNames root = first ++ rest
  reaches : disk.Reaches (startOf root) (disk.origin root) first m middle
  short : m.text.utf8ByteSize ≤ Disk.maxPathSize
  room : m.lead.utf8ByteSize + Disk.room rest ≤ root.lead.utf8ByteSize
  leaves : ∀ ps : List Pattern,
    LeavesDot (startOf root) ((rootNames root).map Pattern.ofName ++ ps) →
      LeavesDot m (rest.map Pattern.ofName ++ ps)
  search : ∀ (onlyDirectories : Bool) (ps : List Pattern) (d : Path),
    d ∈ searchFrom disk onlyDirectories (rest.map Pattern.ofName ++ ps) m →
      d ∈ searchFrom disk onlyDirectories
        ((rootNames root).map Pattern.ofName ++ ps) (startOf root)

theorem entered_of_isAbsolute (h : disk.Visits root place) (habsolute : root.isAbsolute = true) :
    Entered disk root [] (rootNames root) (startOf root) (disk.origin root) := by
  have hroom := room_rootNames_le h.nonempty
  rw [habsolute, if_pos rfl] at hroom
  have hslash : startOf root = ⟨"/"⟩ := by rw [startOf, habsolute, if_pos rfl]
  have hsize : (startOf root).text.utf8ByteSize ≤ Disk.maxPathSize ∧
      (startOf root).lead.utf8ByteSize = 1 := by
    rw [hslash]
    decide
  exact ⟨rfl, .refl (visits_startOf h), hsize.1, by omega, fun _ hps => hps,
    fun _ _ _ hd => hd⟩

theorem exists_head?_rootNames (hroot : root.text ≠ "") (hrelative : root.isAbsolute = false) :
    ∃ name names, rootNames root = name :: names ∧ name ≠ "" := by
  obtain ⟨l, hlead, -⟩ := root.lead_cases.resolve_left fun h => hroot h.1
  have hhead : root.lead.toList.head? ≠ some '/' := by
    rw [Path.head?_lead]
    exact of_decide_eq_false hrelative
  rw [rootNames, dropWhile_slash hhead]
  refine exists_head?_piecesOf ?_ hhead
  rw [hlead]
  exact List.append_ne_nil_of_right_ne_nil _ (List.cons_ne_nil _ _)

theorem exists_entered_of_relative (hdisk : disk.Regular) (h : disk.Visits root place)
    (hshort : root.text.utf8ByteSize ≤ Disk.maxPathSize)
    (hdirectory : ∃ entries, disk.root.at? place = some (.directory entries))
    (hrelative : root.isAbsolute = false) :
    ∃ first rest m middle, Entered disk root first rest m middle := by
  have hstart := visits_startOf h
  have hwalk := walk_rootNames h hdirectory
  have hsteps := isStep_of_walk hdisk hwalk
  have hroom := room_rootNames_le h.nonempty
  have hdot : startOf root = ⟨"."⟩ := by
    rw [startOf, hrelative, if_neg Bool.false_ne_true]
  obtain ⟨name, rest, hnames, hne⟩ := exists_head?_rootNames h.nonempty hrelative
  rw [hnames] at hwalk hsteps
  rw [hnames, Disk.room_cons] at hroom
  have hstep := hsteps name List.mem_cons_self
  obtain ⟨hslash, hnul⟩ := hstep.proper
  obtain ⟨middle, hfirst, -⟩ := Disk.walk_cons_iff.mp hwalk
  have hwithin : within (startOf root) name = ⟨name⟩ := by
    rw [hdot]
    rfl
  have hvisits := hstart.within hslash hnul (.inl hne) hfirst
  have hreaches := hstart.reaches_of_within hslash hvisits
  rw [hwithin] at hvisits hreaches
  have hlead := root.size_lead_le
  have hname : (⟨name⟩ : Path).lead.utf8ByteSize ≤ name.utf8ByteSize + 1 := Path.size_lead_le _
  have hsize : (⟨name⟩ : Path).text.utf8ByteSize ≤ Disk.maxPathSize := by
    show name.utf8ByteSize ≤ _
    omega
  refine ⟨[name], rest, ⟨name⟩, middle, hnames, hreaches, hsize, by omega, fun ps hps => ?_,
    fun _ ps d hd => ?_⟩
  · rw [hnames, List.map_cons, List.cons_append] at hps
    exact hps.step hstart (Pattern.standsFor_ofName.mpr ⟨rfl, hstep⟩) hreaches
  rw [hnames, List.map_cons, List.cons_append, searchFrom_cons (Pattern.isRecursive_ofName name)]
  refine List.mem_flatMap.mpr ⟨⟨name⟩, mem_stepFrom_iff.mpr (.inl ⟨name, ?_, ?_, hwithin.symm⟩), hd⟩
  · exact Pattern.literal?_ofName name
  · unfold leadsOn
    split
    · have hdirectory := Disk.directory_of_walk hwalk hdirectory
      refine hstart.isDirectory_iff.mpr ⟨?_, hdirectory⟩
      rw [hdot]
      decide
    · rw [hwithin]
      exact Disk.exists_iff.mpr ⟨hsize, middle, hvisits⟩

end RootNames

end Glob

/-! ## Globs behind a root directory -/

section Rooted

variable {disk : Disk} {root : Path} {pattern : String} {g : Glob}

/-- A path inside of a directory that a glob means: its names fit, and it is there, as a directory
if only these are meant. -/
structure Glob.Means (disk : Disk) (root : Path) (g : Glob) (q : Path) : Prop where
  relative : q.isAbsolute = false
  fits : Glob.Fits g.patterns q.pieces
  there : ∃ place, disk.Visits (root.join q) place ∧
    (Glob.wantsDirectory g.onlyDirectories g.patterns = true →
      ∃ entries, disk.root.at? place = some (.directory entries))

theorem pieces_ofPieces {names : List String} (h : ∀ name ∈ names, Glob.IsStep name)
    (hfirst : ∃ name, names.head? = some name ∧ name ≠ "") :
    (Path.ofPieces false names).isAbsolute = false ∧
      (Path.ofPieces false names).pieces = names := by
  have hslash : ∀ name ∈ names, '/' ∉ name.toList := fun name hname => (h name hname).proper.1
  obtain ⟨name, hname, hne⟩ := hfirst
  have hrelative : (Path.ofPieces false names).isAbsolute = false :=
    Path.isAbsolute_ofPieces hslash fun _ hhead =>
      hne (Option.some.inj (hname.symm.trans hhead))
  refine ⟨hrelative, ?_⟩
  rw [Path.pieces_eq, Path.unrooted_of_isAbsolute_eq_false hrelative, Path.ofPieces,
    if_neg Bool.false_ne_true, String.empty_append]
  exact Path.piecesOf_intercalate hslash (List.ne_nil_of_mem (List.mem_of_mem_head? hname))

theorem nul_notMem_ofPieces {names : List String} (h : ∀ name ∈ names, Glob.IsStep name) :
    '\x00' ∉ (Path.ofPieces false names).text.toList := by
  rw [Path.ofPieces, if_neg Bool.false_ne_true, String.empty_append]
  induction names with
  | nil => exact List.not_mem_nil
  | cons name names ih =>
    obtain ⟨hname, hnames⟩ := List.forall_mem_cons.mp h
    cases names with
    | nil =>
      rw [String.intercalate_singleton]
      exact hname.proper.2
    | cons next names =>
      rw [String.intercalate_cons_cons, String.toList_append, String.toList_append,
        List.mem_append, List.mem_append]
      rintro ((hnul | hnul) | hnul)
      · exact hname.proper.2 hnul
      · exact absurd hnul (by decide)
      · exact ih hnames hnul

/-- What is reached along the names of a directory and those of a path in it is that path. -/
theorem alike_of_reaches {q d : Path} {place place' : List String} (hq : q.isAbsolute = false)
    (h : disk.Reaches (Glob.startOf root) place (Glob.rootNames root ++ q.pieces) d place') :
    d.alike (root.join q) = true := by
  have hsteps : q.steps = q.pieces.filter fun name => !isIdle name := rfl
  rw [Path.alike_iff, h.isAbsolute, h.steps, Glob.isAbsolute_startOf, Glob.steps_startOf,
    List.nil_append, List.filter_append, Glob.filter_rootNames, Path.isAbsolute_join hq,
    Path.steps_join hq, hsteps]
  exact ⟨rfl, rfl⟩

theorem wantsDirectory_append {onlyDirectories : Bool} {ls ps : List Glob.Pattern} (hne : ps ≠ []) :
    Glob.wantsDirectory onlyDirectories (ls ++ ps) = Glob.wantsDirectory onlyDirectories ps := by
  rw [Glob.wantsDirectory, Glob.wantsDirectory, List.getLast?_append_of_ne_nil _ hne]

section Search

variable {place : List String} {d q : Path}

/-- Everything found behind a directory is meant. -/
theorem rooted_sound (hdisk : disk.Regular) (h : disk.Visits root place)
    (hdirectory : ∃ entries, disk.root.at? place = some (.directory entries))
    (hspelled : ∀ p ∈ g.patterns, p.Spelled) (hne : g.patterns ≠ [])
    (hfirst : ∃ p, g.patterns.head? = some p ∧ p ≠ [])
    (hd : d ∈ Glob.searchFrom disk g.onlyDirectories
      ((Glob.rootNames root).map Glob.Pattern.ofName ++ g.patterns)
      (Glob.startOf root)) :
    ∃ q, g.Means disk root q ∧ d.alike (root.join q) = true := by
  have hwalk := Glob.walk_rootNames h hdirectory
  have hall : ∀ p ∈ (Glob.rootNames root).map Glob.Pattern.ofName ++ g.patterns,
      p.Spelled := by
    intro p hp
    rcases List.mem_append.mp hp with hp | hp
    · obtain ⟨name, hname, rfl⟩ := List.mem_map.mp hp
      exact Glob.Pattern.spelled_ofName (Glob.isStep_of_walk hdisk hwalk name hname).proper.1
    · exact hspelled p hp
  -- what the names of the directory leave are the names of the path inside of it
  obtain ⟨names, place', hfits, hreaches, hwants⟩ :=
    Glob.search_sound hdisk hall (Glob.visits_startOf h) hd
  obtain ⟨-, rest, rfl, hrest⟩ := Glob.fits_names_iff.mp hfits
  obtain ⟨hrelative, hpieces⟩ := pieces_ofPieces hrest.isStep (hrest.exists_head? hfirst)
  refine ⟨Path.ofPieces false rest, ⟨hrelative, by rwa [hpieces], place', ?_, fun hwanted => ?_⟩,
    alike_of_reaches hrelative (by rwa [hpieces])⟩
  · obtain ⟨middle, hmiddle, hlast⟩ := Disk.walk_append_ok.mp hreaches.walk
    obtain rfl := Except.ok.inj (hwalk.symm.trans hmiddle)
    refine ⟨Path.nul_notMem_join hrelative h.noNul (nul_notMem_ofPieces hrest.isStep),
      Path.text_join_ne hrelative h.nonempty, ?_⟩
    rwa [h.walk_join_iff hrelative, hpieces]
  · exact (hreaches.visits.isDirectory_iff.mp
      (hwants (by rwa [wantsDirectory_append hne]))).2

/-- Everything meant is found behind the directory, if the system takes its path. -/
theorem rooted_complete (hdisk : disk.Regular) (h : disk.Visits root place)
    (hshort : root.text.utf8ByteSize ≤ Disk.maxPathSize)
    (hdirectory : ∃ entries, disk.root.at? place = some (.directory entries))
    (hleaves : Glob.LeavesDot (Glob.startOf root)
      ((Glob.rootNames root).map Glob.Pattern.ofName ++ g.patterns))
    (hne : g.patterns ≠ []) (hq : g.Means disk root q)
    (hsize : (root.join q).text.utf8ByteSize ≤ Disk.maxPathSize) :
    ∃ d ∈ Glob.searchFrom disk g.onlyDirectories
      ((Glob.rootNames root).map Glob.Pattern.ofName ++ g.patterns)
      (Glob.startOf root), d.alike (root.join q) = true := by
  obtain ⟨hrelative, hfits, place', hvisits, hwants⟩ := hq
  have hroot := Glob.walk_rootNames h hdirectory
  have hsteps := Glob.isStep_of_walk hdisk hroot
  have hinside := (h.walk_join_iff hrelative).mp hvisits.walk
  -- a search from `.` has no room for all names of a path of full length, so that the first of
  -- them, which takes the place of the dot, comes before the bound
  obtain ⟨first, rest, m, middle, hentered⟩ : ∃ first rest m middle,
      Glob.Entered disk root first rest m middle := by
    cases habsolute : root.isAbsolute with
    | true => exact ⟨_, _, _, _, Glob.entered_of_isAbsolute h habsolute⟩
    | false =>
      exact Glob.exists_entered_of_relative hdisk h hshort hdirectory habsolute
  have hreaches := hentered.reaches
  rw [hentered.names] at hroot hsteps
  obtain ⟨middle', hmiddle, hrest⟩ := Disk.walk_append_ok.mp hroot
  obtain rfl := Except.ok.inj (hreaches.walk.symm.trans hmiddle)
  have hroom : m.lead.utf8ByteSize + Disk.room (rest ++ q.pieces) ≤ Disk.maxPathSize + 1 := by
    have hpieces : Disk.room q.pieces = q.text.utf8ByteSize + 1 := by
      rw [Path.pieces_eq, Path.unrooted_of_isAbsolute_eq_false hrelative, Glob.room_piecesOf]
    have hbound := hentered.room
    rw [Path.size_join hrelative] at hsize
    rw [Disk.room_append]
    omega
  have hfits := Glob.fits_names_iff.mpr
    ⟨fun name hname => hsteps name (List.mem_append_right _ hname), q.pieces, rfl, hfits⟩
  obtain ⟨d, hd, hfound⟩ := Glob.search_complete hdisk hfits hreaches.visits hentered.short hroom
    (hentered.leaves _ hleaves) (Disk.walk_append_ok.mpr ⟨place, hrest, hinside⟩)
    (fun hwanted => hwants (by rwa [wantsDirectory_append hne] at hwanted))
  have hall := hreaches.trans hfound
  rw [← List.append_assoc, ← hentered.names] at hall
  exact ⟨d, hentered.search _ _ _ hd, alike_of_reaches hrelative hall⟩

end Search

variable (disk) in
theorem ofPatterns_singleton {full : Glob} (hwild : hasWildcard pattern = true)
    (hfull : Glob.ofText? (root.join ⟨pattern⟩).text = some full) :
    (Expansion.ofPatterns disk root [pattern]).found =
        ((full.search disk).mergeSort Path.le).eraseRepsBy Path.same ∧
      (Expansion.ofPatterns disk root [pattern]).unmatched =
        (if (Expansion.ofPatterns disk root [pattern]).found = [] then [pattern] else []) ∧
      (Expansion.ofPatterns disk root [pattern]).log = [] := by
  have heach : Expansion.ofPattern disk root pattern =
      { found := (full.search disk).mergeSort Path.le
        unmatched := if (full.search disk).mergeSort Path.le = [] then [pattern] else [] } := by
    unfold Expansion.ofPattern
    dsimp only
    rw [hwild, hfull, Bool.not_true, if_neg Bool.false_ne_true]
    dsimp only
    cases (full.search disk).mergeSort Path.le with
    | nil => rfl
    | cons d found => rfl
  have hfound : (Expansion.ofPatterns disk root [pattern]).found =
      ((full.search disk).mergeSort Path.le).eraseRepsBy Path.same := by
    rw [Expansion.found_ofPatterns, Expansion.listed, List.flatMap_singleton, heach]
  refine ⟨hfound, ?_, ?_⟩
  · simp only [hfound, eraseRepsBy_eq_nil_iff]
    rw [Expansion.ofPatterns, List.map_singleton, List.flatMap_singleton, heach]
    exact List.append_nil _
  · rw [Expansion.ofPatterns, List.map_singleton, List.flatMap_singleton, heach]
    rfl

/-- **Globs are relative to the root directory, if its name has no wildcards.** On a disk as the
system has it, what is found behind a root directory is what the glob means inside of it, each path
up to dots, and the glob is unmatched if nothing is found. Only where two slashes follow a dot that
the search starts with, something that is meant may be missed. -/
theorem globs_are_rooted (hdisk : disk.Regular) (hroot : disk.isDirectory root = true)
    (hplain : hasWildcard root.text = false) (hwild : hasWildcard pattern = true)
    (hg : Glob.ofText? pattern = some g) (hrelative : g.isAbsolute = false) :
    (∀ d ∈ (Expansion.ofPatterns disk root [pattern]).found,
      ∃ q, g.Means disk root q ∧ d.alike (root.join q) = true) ∧
    (Glob.LeavesDot (Glob.startOf root)
        ((Glob.rootNames root).map Glob.Pattern.ofName ++ g.patterns) →
      ∀ q, g.Means disk root q → (root.join q).text.utf8ByteSize ≤ Disk.maxPathSize →
        ∃ d ∈ (Expansion.ofPatterns disk root [pattern]).found, d.alike (root.join q) = true) ∧
    (Expansion.ofPatterns disk root [pattern]).unmatched =
      (if (Expansion.ofPatterns disk root [pattern]).found = [] then [pattern] else []) ∧
    (Expansion.ofPatterns disk root [pattern]).log = [] := by
  obtain ⟨entries, hentries⟩ := Disk.isDirectory_iff.mp hroot
  obtain ⟨place, hplace, hat⟩ := Disk.exists_of_entry? hentries
  obtain ⟨hvisits, hshort⟩ := Disk.locate_eq_ok_iff.mp hplace
  have hdirectory : ∃ entries, disk.root.at? place = some (.directory entries) := ⟨entries, hat⟩
  have hne : pattern ≠ "" := by
    rintro rfl
    cases hwild
  have hfirst := Glob.exists_head?_patterns hg hrelative hne
  have hps : g.patterns ≠ [] := by
    obtain ⟨p, hp, -⟩ := hfirst
    exact List.ne_nil_of_mem (List.mem_of_mem_head? hp)
  have hspelled := Glob.spelled_of_ofText? hg hrelative
  have hrel : (⟨pattern⟩ : Path).isAbsolute = false := by
    obtain ⟨-, ps, -, rfl⟩ := Glob.ofText?_eq_some_iff.mp hg
    exact hrelative
  have hfull := Glob.ofText?_lead hvisits.nonempty hplain hg hrelative hne
  have htext : (root.join ⟨pattern⟩).text = root.lead ++ pattern := Path.text_join hrel
  rw [← htext] at hfull
  obtain ⟨hfound, hunmatched, hlog⟩ := ofPatterns_singleton disk hwild hfull
  have hsearch : Glob.search ⟨root.isAbsolute,
      (Glob.rootNames root).map Glob.Pattern.ofName ++ g.patterns, g.onlyDirectories⟩ disk =
      Glob.searchFrom disk g.onlyDirectories
        ((Glob.rootNames root).map Glob.Pattern.ofName ++ g.patterns) (Glob.startOf root) := by
    exact if_neg (List.append_ne_nil_of_right_ne_nil _ hps)
  rw [hsearch] at hfound
  refine ⟨fun d hd => ?_, fun hleaves q hq hsize => ?_, hunmatched, hlog⟩
  · rw [hfound] at hd
    exact rooted_sound hdisk hvisits hdirectory hspelled hps hfirst
      (List.mem_mergeSort.mp (mem_of_mem_eraseReps hd))
  · obtain ⟨d, hd, halike⟩ :=
      rooted_complete hdisk hvisits hshort hdirectory hleaves hps hq hsize
    have hsorted : d ∈ List.mergeSort _ Path.le := List.mem_mergeSort.mpr hd
    obtain ⟨d', hd', hsame⟩ := exists_same_mem_eraseReps hsorted
    rw [hfound]
    refine ⟨d', hd', ?_⟩
    rwa [← Path.alike_congr hsame]

/-- A library in a directory with brackets in its name, and one in the directory that this name
stands for as a pattern. -/
def bracketDisk : Disk where
  root := .directory [
    ("lib1", .directory [("B.dll", .file (.text ""))]),
    ("lib[1]", .directory [("A.dll", .file (.text ""))])]
  current := []

theorem regular_bracketDisk : bracketDisk.Regular := by
  have hfile (content : Content) : Entry.Regular (.file content) := .file content
  have hsingle {name : String} {e : Entry} (hname : IsName name) (he : e.Regular) :
      Entry.Regular (.directory [(name, e)]) :=
    .directory (List.forall_mem_singleton.mpr hname) (by simp)
      (List.forall_mem_singleton.mpr he)
  refine .directory ?_ (by decide) ?_
  · exact List.forall_mem_cons.mpr ⟨by decide, List.forall_mem_singleton.mpr (by decide)⟩
  · exact List.forall_mem_cons.mpr ⟨hsingle (by decide) (hfile _),
      List.forall_mem_singleton.mpr (hsingle (by decide) (hfile _))⟩

/-- The glob of all libraries in a directory. -/
def libraryGlob : Glob where
  isAbsolute := false
  patterns := [[.anyChars, .literal '.', .literal 'd', .literal 'l', .literal 'l']]
  onlyDirectories := false

theorem ofText?_libraryGlob : Glob.ofText? "*.dll" = some libraryGlob := by
  decide +kernel

theorem globs_are_rooted_library :
    bracketDisk.Regular ∧ bracketDisk.isDirectory ⟨"lib1"⟩ = true ∧
    hasWildcard "lib1" = false ∧ hasWildcard "*.dll" = true ∧
    Glob.ofText? "*.dll" = some libraryGlob ∧ libraryGlob.isAbsolute = false ∧
    (∀ d ∈ (Expansion.ofPatterns bracketDisk ⟨"lib1"⟩ ["*.dll"]).found,
      ∃ q, libraryGlob.Means bracketDisk ⟨"lib1"⟩ q ∧
        d.alike ((⟨"lib1"⟩ : Path).join q) = true) ∧
    ∀ q, libraryGlob.Means bracketDisk ⟨"lib1"⟩ q →
      ((⟨"lib1"⟩ : Path).join q).text.utf8ByteSize ≤ Disk.maxPathSize →
        ∃ d ∈ (Expansion.ofPatterns bracketDisk ⟨"lib1"⟩ ["*.dll"]).found,
          d.alike ((⟨"lib1"⟩ : Path).join q) = true := by
  have hdirectory : bracketDisk.isDirectory ⟨"lib1"⟩ = true := by decide +kernel
  have hplain : hasWildcard "lib1" = false := by decide +kernel
  have hwild : hasWildcard "*.dll" = true := by decide +kernel
  have hleaves : Glob.LeavesDot (Glob.startOf ⟨"lib1"⟩)
      ((Glob.rootNames ⟨"lib1"⟩).map Glob.Pattern.ofName ++ libraryGlob.patterns) :=
    .inr (by decide +kernel)
  obtain ⟨hsound, hcomplete, -⟩ :=
    globs_are_rooted regular_bracketDisk hdirectory hplain hwild ofText?_libraryGlob rfl
  exact ⟨regular_bracketDisk, hdirectory, hplain, hwild, ofText?_libraryGlob, rfl, hsound,
    hcomplete hleaves⟩

/-- The same glob behind a name with brackets. -/
def bracketGlob : Glob where
  isAbsolute := false
  patterns :=
    [.literal 'l', .literal 'i', .literal 'b', .oneOf [⟨'1', '1'⟩]] :: libraryGlob.patterns
  onlyDirectories := false

theorem ofText?_bracketGlob : Glob.ofText? "lib[1]/*.dll" = some bracketGlob := by
  decide +kernel

theorem search_bracketGlob : bracketGlob.search bracketDisk = [⟨"lib1/B.dll"⟩] := by
  have hstep {p : Glob.Pattern} {path : Path} (hliteral : p.literal? = none)
      (hdot : p.opensWithDot = false)
      (hsorted : (bracketDisk.children path).Pairwise (fun a b => decide (a ≤ b) = true)) :
      Glob.stepFrom bracketDisk p path =
        ((bracketDisk.children path).filter p.matches).map (Glob.within path) := by
    rw [Glob.stepFrom, hliteral, hdot, Glob.sortedChildren, List.mergeSort_of_pairwise hsorted]
    rfl
  have hroot : Glob.stepFrom bracketDisk
      [.literal 'l', .literal 'i', .literal 'b', .oneOf [⟨'1', '1'⟩]] ⟨"."⟩ = [⟨"lib1"⟩] := by
    rw [hstep (by decide +kernel) rfl (by decide +kernel)]
    decide +kernel
  have hlibrary : Glob.stepFrom bracketDisk
      [.anyChars, .literal '.', .literal 'd', .literal 'l', .literal 'l'] ⟨"lib1"⟩ =
        [⟨"lib1/B.dll"⟩] := by
    rw [hstep (by decide +kernel) rfl (by decide +kernel)]
    decide +kernel
  have hsearch : bracketGlob.search bracketDisk =
      Glob.searchFrom bracketDisk false bracketGlob.patterns ⟨"."⟩ := rfl
  rw [hsearch, bracketGlob, libraryGlob, Glob.searchFrom_cons rfl, hroot, List.flatMap_singleton,
    Glob.searchFrom_cons rfl, hlibrary, List.flatMap_singleton, Glob.searchFrom]
  rfl

/-- The name of the root directory is read as a pattern: the library in it is missed, and one in
another directory is found. -/
theorem root_read_as_pattern :
    bracketDisk.Regular ∧ bracketDisk.isDirectory ⟨"lib[1]"⟩ = true ∧
    (Expansion.ofPatterns bracketDisk ⟨"lib[1]"⟩ ["*.dll"]).found = [⟨"lib1/B.dll"⟩] ∧
    libraryGlob.Means bracketDisk ⟨"lib[1]"⟩ ⟨"A.dll"⟩ ∧
    ¬ ∃ d ∈ (Expansion.ofPatterns bracketDisk ⟨"lib[1]"⟩ ["*.dll"]).found,
      d.alike ((⟨"lib[1]"⟩ : Path).join ⟨"A.dll"⟩) = true := by
  have hfound : (Expansion.ofPatterns bracketDisk ⟨"lib[1]"⟩ ["*.dll"]).found =
      [⟨"lib1/B.dll"⟩] := by
    have htext : ((⟨"lib[1]"⟩ : Path).join ⟨"*.dll"⟩).text = "lib[1]/*.dll" := by decide +kernel
    have hfull := ofText?_bracketGlob
    rw [← htext] at hfull
    rw [(ofPatterns_singleton _ (by decide +kernel) hfull).1, search_bracketGlob,
      List.mergeSort_singleton]
    rfl
  have hthere : bracketDisk.exists ((⟨"lib[1]"⟩ : Path).join ⟨"A.dll"⟩) = true := by
    decide +kernel
  have hfits : Glob.Fits libraryGlob.patterns (⟨"A.dll"⟩ : Path).pieces := by
    have hpieces : (⟨"A.dll"⟩ : Path).pieces = ["A.dll"] := by decide +kernel
    rw [hpieces]
    exact .one rfl ⟨by decide +kernel, .inl (by decide +kernel)⟩ .nil
  obtain ⟨-, place, hvisits⟩ := Disk.exists_iff.mp hthere
  refine ⟨regular_bracketDisk, by decide +kernel, hfound, ⟨by decide +kernel, hfits, place,
    hvisits, nofun⟩, ?_⟩
  rw [hfound]
  rintro ⟨d, hd, halike⟩
  obtain rfl := List.mem_singleton.mp hd
  revert halike
  decide +kernel

end Rooted

end DocAudit
