import DocAudit.Proofs.WrittenDocumentation
import Mathlib.Data.List.Forall2
import Mathlib.Logic.Relation
/-!
# Markup noise in documentation files

What a documentation file says about its members can be found among much else. Comments and
instructions may stand anywhere, other elements among the members and in their blocks, and tags
around any part of a summary. None of it changes what is found under an id.

* `Scattered`, `Wrapped`: remarks and split texts anywhere, and tags around parts of a text.
* `BlockNoise`, `MembersNoise`, `Noise`: one edit in a member, in the list of members, and in a
  document, given by its outermost nodes.
* `SameFirst`: two lists of entries with the same first entry for each key.
* **`Scattered.innerTexts_eq`**, **`Wrapped.innerTexts_eq`**: the text stays.
* **`Noise.sameFirst`**: one edit leaves the first entry for each id as it is.
* **`markup_noise_ignored`**: so do any number of them.
-/

namespace DocAudit

namespace Xml

/-! ## Edits of trees -/

/-- A comment or a processing instruction. -/
def Node.IsRemark (n : Node) : Prop := n = comment ∨ n = instruction

/-- A list of nodes with one remark more, or with a text in two pieces, at any depth. -/
inductive Scattered : List Node → List Node → Prop
  | remark (before after : List Node) {n : Node} (hn : n.IsRemark) :
      Scattered (before ++ after) (before ++ n :: after)
  | split (before after : List Node) (s t : String) :
      Scattered (before ++ .text (s ++ t) :: after) (before ++ .text s :: .text t :: after)
  | inside (before after : List Node) (name : String) (attributes : List Attribute)
      {children children' : List Node} (h : Scattered children children') :
      Scattered (before ++ .element name attributes children :: after)
        (before ++ .element name attributes children' :: after)

/-- A list of nodes with a new element around a run of them, at any depth. -/
inductive Wrapped : List Node → List Node → Prop
  | wrap (before run after : List Node) (name : String) (attributes : List Attribute) :
      Wrapped (before ++ run ++ after) (before ++ .element name attributes run :: after)
  | inside (before after : List Node) (name : String) (attributes : List Attribute)
      {children children' : List Node} (h : Wrapped children children') :
      Wrapped (before ++ .element name attributes children :: after)
        (before ++ .element name attributes children' :: after)

namespace Node

theorem innerTexts_append (ns ms : List Node) :
    innerTexts (ns ++ ms) = innerTexts ns ++ innerTexts ms := by
  induction ns with
  | nil => exact String.empty_append.symm
  | cons n ns ih => rw [List.cons_append, innerTexts, innerTexts, ih, String.append_assoc]

theorem IsRemark.innerText_eq {n : Node} (h : n.IsRemark) : n.innerText = "" := by
  rcases h with rfl | rfl <;> rfl

/-- Whether a node is an element of a wanted name. -/
def isElementWith (wanted : String → Bool) : Node → Bool
  | element name _ _ => wanted name
  | _ => false

theorem isElement_eq (name : String) : isElement name = isElementWith (· = name) := by
  funext n
  cases n <;> rfl

theorem IsRemark.isElementWith_eq {n : Node} (h : n.IsRemark) (wanted : String → Bool) :
    n.isElementWith wanted = false := by
  rcases h with rfl | rfl <;> rfl

end Node

open Node

variable {ns ns' : List Node}

/-- **Remarks are no text, and a text in two pieces is the same text.** -/
theorem Scattered.innerTexts_eq (h : Scattered ns ns') : innerTexts ns' = innerTexts ns := by
  induction h with
  | remark before after hn =>
    rw [innerTexts_append, innerTexts_append, innerTexts, hn.innerText_eq, String.empty_append]
  | split before after s t =>
    simp only [innerTexts_append, innerTexts, innerText, String.append_assoc]
  | inside before after name attributes _ ih =>
    simp only [innerTexts_append, innerTexts, innerText, ih]

/-- **Tags around a part of a text change nothing in it.** -/
theorem Wrapped.innerTexts_eq (h : Wrapped ns ns') : innerTexts ns' = innerTexts ns := by
  induction h with
  | wrap before run after name attributes =>
    simp only [innerTexts_append, innerTexts, innerText, String.append_assoc]
  | inside before after name attributes _ ih =>
    simp only [innerTexts_append, innerTexts, innerText, ih]

/-! ## Finding elements again -/

section Options

variable {α β : Type} {R : α → α → Prop} {S : β → β → Prop} {o o' : Option α}

theorem rel_refl (hrefl : ∀ a, R a a) (o : Option α) : Option.Rel R o o := by
  cases o with
  | none => exact .none
  | some a => exact .some (hrefl a)

theorem rel_mono {R' : α → α → Prop} (h : Option.Rel R o o') (himp : ∀ a a', R a a' → R' a a') :
    Option.Rel R' o o' := by
  cases h with
  | none => exact .none
  | some h => exact .some (himp _ _ h)

theorem rel_map {f g : α → β} (h : Option.Rel R o o') (hfg : ∀ a a', R a a' → S (f a) (g a')) :
    Option.Rel S (o.map f) (o'.map g) := by
  cases h with
  | none => exact .none
  | some h => exact .some (hfg _ _ h)

theorem exists_of_rel_some {a : α} (h : Option.Rel R (some a) o) : ∃ a', o = some a' ∧ R a a' := by
  cases h with
  | some h => exact ⟨_, rfl, h⟩

theorem eq_of_rel (h : Option.Rel (· = ·) o o') : o = o' := by
  cases h with
  | none => rfl
  | some h => rw [h]

end Options

/-- The same node, or the same element with remarks and split texts scattered inside. -/
inductive Node.Alike : Node → Node → Prop
  | refl (n : Node) : Alike n n
  | inside (name : String) (attributes : List Attribute) {children children' : List Node}
      (h : Scattered children children') :
      Alike (.element name attributes children) (.element name attributes children')

theorem Node.Alike.innerText_eq {n n' : Node} (h : n.Alike n') : n'.innerText = n.innerText := by
  cases h with
  | refl n => rfl
  | inside _ _ h => exact h.innerTexts_eq

/-- **The elements of a name stay**, each with its name and attributes. -/
theorem Scattered.filter (h : Scattered ns ns') (wanted : String → Bool) :
    List.Forall₂ Node.Alike (ns.filter (isElementWith wanted))
      (ns'.filter (isElementWith wanted)) := by
  have hsame (xs : List Node) : List.Forall₂ Node.Alike xs xs :=
    List.forall₂_same.mpr fun n _ => .refl n
  cases h with
  | remark before after hn =>
    rw [List.filter_append, List.filter_append, List.filter_cons, hn.isElementWith_eq wanted,
      if_neg Bool.false_ne_true]
    exact hsame _
  | split before after s t =>
    simp only [List.filter_append, List.filter_cons, isElementWith, Bool.false_eq_true, if_false]
    exact hsame _
  | inside before after name attributes h =>
    rw [List.filter_append, List.filter_append]
    refine List.rel_append (hsame _) ?_
    by_cases hname : wanted name = true
    · have hkept (children : List Node) :
          isElementWith wanted (.element name attributes children) = true := hname
      rw [List.filter_cons_of_pos (hkept _), List.filter_cons_of_pos (hkept _)]
      exact .cons (.inside name attributes h) (hsame _)
    · have hleft (children : List Node) :
          ¬ isElementWith wanted (.element name attributes children) = true := hname
      rw [List.filter_cons_of_neg (hleft _), List.filter_cons_of_neg (hleft _)]
      exact hsame _

theorem Scattered.find? (h : Scattered ns ns') (wanted : String → Bool) :
    Option.Rel Node.Alike (ns.find? (isElementWith wanted))
      (ns'.find? (isElementWith wanted)) := by
  rw [← List.head?_filter, ← List.head?_filter]
  have hfilter := h.filter wanted
  generalize ns.filter (isElementWith wanted) = ms at hfilter ⊢
  generalize ns'.filter (isElementWith wanted) = ms' at hfilter ⊢
  cases hfilter with
  | nil => exact .none
  | cons hn _ => exact .some hn

theorem find?_replaced {R : Node → Node → Prop} (hrefl : ∀ n, R n n) {p : Node → Bool}
    {n n' : Node} (hp : p n' = p n) (h : R n n') (before after : List Node) :
    Option.Rel R ((before ++ n :: after).find? p) ((before ++ n' :: after).find? p) := by
  rw [List.find?_append, List.find?_append, List.find?_cons, List.find?_cons, hp]
  cases before.find? p with
  | some m => exact rel_refl hrefl (some m)
  | none =>
    cases p n with
    | true => exact .some h
    | false => exact rel_refl hrefl _

theorem find?_append_of_mem {α : Type} {p : α → Bool} {before : List α} {a : α} (ha : a ∈ before)
    (hp : p a = true) (after : List α) : (before ++ after).find? p = before.find? p := by
  rw [List.find?_append, Option.or_of_isSome (List.find?_isSome.mpr ⟨a, ha, hp⟩)]

/-- The root element among the outermost nodes of a document. -/
def rootElement? (document : List Node) : Option Node :=
  document.find? (isElementWith fun _ => true)

end Xml

open Xml Xml.Node

namespace Documentation

/-! ## Edits of documentation -/

/-- The children of a member with noise in them: a text, a remark or another element, a further
summary, or tags around a part of a summary. -/
inductive BlockNoise : List Node → List Node → Prop
  | other (before after : List Node) {n : Node} (hn : n.isElement "summary" = false) :
      BlockNoise (before ++ after) (before ++ n :: after)
  | further (before after : List Node) {first n : Node} (hfirst : first ∈ before)
      (hsummary : first.isElement "summary") (hn : n.isElement "summary") :
      BlockNoise (before ++ after) (before ++ n :: after)
  | wrapped (before after : List Node) (attributes : List Attribute)
      {children children' : List Node} (h : Wrapped children children') :
      BlockNoise (before ++ .element "summary" attributes children :: after)
        (before ++ .element "summary" attributes children' :: after)

/-- The list of members with noise in it: a text, a remark or another element, a member without a
name or with the name of an earlier one, or noise in a member. -/
inductive MembersNoise : List Node → List Node → Prop
  | other (before after : List Node) {n : Node} (hn : n.isElement "member" = false) :
      MembersNoise (before ++ after) (before ++ n :: after)
  | unnamed (before after : List Node) {n : Node} (hn : n.isElement "member")
      (hname : n.attribute? "name" = none) : MembersNoise (before ++ after) (before ++ n :: after)
  | repeated (before after : List Node) {first n : Node} {id : String} (hfirst : first ∈ before)
      (hmember : first.isElement "member") (hn : n.isElement "member")
      (hid : first.attribute? "name" = some id) (hname : n.attribute? "name" = some id) :
      MembersNoise (before ++ after) (before ++ n :: after)
  | block (before after : List Node) (attributes : List Attribute) {children children' : List Node}
      (h : BlockNoise children children') :
      MembersNoise (before ++ .element "member" attributes children :: after)
        (before ++ .element "member" attributes children' :: after)

/-- The outermost nodes of a document with noise in them: remarks and split texts at any depth, or
noise in the list of members, which is the root element or a child of it. -/
inductive Noise : List Node → List Node → Prop
  | scattered {document document' : List Node} (h : Scattered document document') :
      Noise document document'
  | atRoot (before after : List Node) (attributes : List Attribute)
      {members members' : List Node} (h : MembersNoise members members') :
      Noise (before ++ .element "members" attributes members :: after)
        (before ++ .element "members" attributes members' :: after)
  | inDoc (before after : List Node) (attributes : List Attribute) (before' after' : List Node)
      (attributes' : List Attribute) {members members' : List Node}
      (h : MembersNoise members members') :
      Noise
        (before ++ .element "doc" attributes
          (before' ++ .element "members" attributes' members :: after') :: after)
        (before ++ .element "doc" attributes
          (before' ++ .element "members" attributes' members' :: after') :: after)

/-! ## What is read of a member -/

/-- The text of the summary among the children of a member. -/
def summary? (children : List Node) : Option String :=
  (children.find? (isElement "summary")).map innerText

variable {ns ns' : List Node}

theorem entry?_eq (name : String) (attributes : List Attribute) (children : List Node) :
    entry? (.element name attributes children) =
      ((Node.element name attributes []).attribute? "name").map fun id =>
        (id, ⟨summary? children⟩) := rfl

theorem entry?_unnamed {n : Node} (h : n.attribute? "name" = none) : entry? n = none := by
  unfold entry?
  rw [h, Option.map_none]

theorem entry?_named {n : Node} {id : String} (h : n.attribute? "name" = some id) :
    ∃ f, entry? n = some (id, f) := by
  unfold entry?
  rw [h, Option.map_some]
  exact ⟨_, rfl⟩

theorem summary?_scattered (h : Scattered ns ns') : summary? ns' = summary? ns := by
  have hfound := h.find? (· = "summary")
  rw [← isElement_eq] at hfound
  exact (eq_of_rel (rel_map hfound fun _ _ hn => hn.innerText_eq.symm)).symm

theorem entry?_alike {n n' : Node} (h : n.Alike n') : entry? n' = entry? n := by
  cases h with
  | refl n => rfl
  | inside name attributes h => rw [entry?_eq, entry?_eq, summary?_scattered h]

/-- **Noise in a member leaves its summary as it is.** -/
theorem BlockNoise.summary?_eq (h : BlockNoise ns ns') : summary? ns' = summary? ns := by
  unfold summary?
  cases h with
  | other before after hn => rw [List.find?_append, List.find?_append, List.find?_cons, hn]
  | further before after hfirst hsummary hn =>
    -- the first summary comes before the new one
    rw [find?_append_of_mem hfirst hsummary, find?_append_of_mem hfirst hsummary]
  | wrapped before after attributes h =>
    rw [List.find?_append, List.find?_append, List.find?_cons, List.find?_cons]
    cases before.find? (isElement "summary") with
    | some m => rfl
    | none => exact congrArg some h.innerTexts_eq

/-! ## What is read of a list of members -/

/-- The entries that the members among some nodes give. -/
def listed (ns : List Node) : List (String × Fragment) :=
  (ns.filter (isElement "member")).filterMap entry?

theorem listed_append (ns ms : List Node) : listed (ns ++ ms) = listed ns ++ listed ms := by
  rw [listed, List.filter_append, List.filterMap_append]
  rfl

theorem listed_cons (n : Node) (ns : List Node) : listed (n :: ns) =
    (if n.isElement "member" then Option.toList <| entry? n else []) ++ listed ns := by
  unfold listed
  rw [List.filter_cons]
  split
  · rw [List.filterMap_cons]
    cases entry? n <;> rfl
  · rfl

theorem listed_scattered (h : Scattered ns ns') : listed ns' = listed ns := by
  have hmembers := h.filter (· = "member")
  rw [← isElement_eq] at hmembers
  unfold listed
  generalize ns.filter (isElement "member") = members at hmembers ⊢
  generalize ns'.filter (isElement "member") = members' at hmembers ⊢
  induction hmembers with
  | nil => rfl
  | cons hn _ ih => rw [List.filterMap_cons, List.filterMap_cons, entry?_alike hn, ih]

/-- Two lists of entries have the same first entry for each key. -/
def SameFirst (es fs : List (String × Fragment)) : Prop :=
  ∀ key, fs.find? (·.1 = key) = es.find? (·.1 = key)

theorem SameFirst.refl (es : List (String × Fragment)) : SameFirst es es := fun _ => rfl

theorem SameFirst.trans {es fs gs : List (String × Fragment)} (h : SameFirst es fs)
    (h' : SameFirst fs gs) : SameFirst es gs := fun key => (h' key).trans (h key)

theorem sameFirst_repeated {before after : List (String × Fragment)} {e : String × Fragment}
    (h : e.1 ∈ before.map (·.1)) : SameFirst (before ++ after) (before ++ e :: after) := by
  intro key
  by_cases hkey : e.1 = key
  · obtain ⟨first, hfirst, hsame⟩ := List.mem_map.mp h
    have hfound := find?_append_of_mem (p := (·.1 = key)) hfirst
      (decide_eq_true (hsame.trans hkey))
    rw [hfound, hfound]
  · rw [List.find?_append, List.find?_append, List.find?_cons, decide_eq_false hkey]

/-- **Noise in a list of members leaves the first entry for each id as it is.** -/
theorem MembersNoise.sameFirst (h : MembersNoise ns ns') : SameFirst (listed ns) (listed ns') := by
  cases h with
  | other before after hn =>
    rw [listed_append, listed_append, listed_cons, hn]
    exact .refl _
  | @unnamed before after n hn hname =>
    rw [listed_append, listed_append, listed_cons, if_pos hn, entry?_unnamed hname]
    exact .refl _
  | @repeated before after first n id hfirst hmember hn hid hname =>
    obtain ⟨f, hf⟩ := entry?_named hname
    obtain ⟨f₀, hf₀⟩ := entry?_named hid
    have hlisted : (id, f₀) ∈ listed before :=
      List.mem_filterMap.mpr ⟨first, List.mem_filter.mpr ⟨hfirst, hmember⟩, hf₀⟩
    rw [listed_append, listed_append, listed_cons, if_pos hn, hf]
    exact sameFirst_repeated (List.mem_map.mpr ⟨_, hlisted, rfl⟩)
  | block before after attributes h =>
    rw [listed_append, listed_append, listed_cons, listed_cons, entry?_eq, entry?_eq,
      h.summary?_eq]
    exact .refl _

/-! ## What is read of a document -/

/-- The entries of a document with the given root element. -/
def rootEntries? (root : Node) : Option (List (String × Fragment)) :=
  (members? root).map fun members => listed members.children

theorem ofNode?_eq (root : Node) :
    ofNode? root = (rootEntries? root).map fun es => ⟨assembly? root, firstOfEach es⟩ := by
  rw [ofNode?, rootEntries?, Option.map_map]
  rfl

/-- Two root elements that are read alike. -/
def ReadAlike (root root' : Node) : Prop :=
  Option.Rel SameFirst (rootEntries? root) (rootEntries? root')

theorem ReadAlike.refl (root : Node) : ReadAlike root root := rel_refl .refl _

/-- Two lists of members with the same first entry for each id. -/
def SameMembers (members members' : Node) : Prop :=
  SameFirst (listed members.children) (listed members'.children)

theorem sameMembers_of_alike {n n' : Node} (h : n.Alike n') : SameMembers n n' := by
  cases h with
  | refl n => exact .refl _
  | inside name attributes h =>
    intro key
    exact congrArg (List.find? (·.1 = key)) (listed_scattered h)

theorem readAlike_of_members? {root root' : Node}
    (h : Option.Rel SameMembers (members? root) (members? root')) : ReadAlike root root' :=
  rel_map h fun _ _ h => h

theorem members?_doc (attributes : List Attribute) (children : List Node) :
    members? (.element "doc" attributes children) = children.find? (isElement "members") := rfl

theorem members?_root (attributes : List Attribute) (children : List Node) :
    members? (.element "members" attributes children) =
      some (.element "members" attributes children) := rfl

theorem members?_other {name : String} (hdoc : name ≠ "doc") (hmembers : name ≠ "members")
    (attributes : List Attribute) (children : List Node) :
    members? (.element name attributes children) = none := by
  rw [members?, if_neg, if_neg]
  · simpa [isElement] using hmembers
  · simpa [isElement] using hdoc

theorem readAlike_of_alike {root root' : Node} (h : root.Alike root') : ReadAlike root root' := by
  refine readAlike_of_members? ?_
  cases h with
  | refl root => exact rel_refl (fun _ => .refl _) _
  | inside name attributes h =>
    by_cases hdoc : name = "doc"
    · subst hdoc
      rw [members?_doc, members?_doc, isElement_eq]
      exact rel_mono (h.find? _) fun _ _ => sameMembers_of_alike
    · by_cases hmembers : name = "members"
      · subst hmembers
        rw [members?_root, members?_root]
        exact .some (sameMembers_of_alike (.inside _ attributes h))
      · rw [members?_other hdoc hmembers, members?_other hdoc hmembers]
        exact .none

theorem rootElement?_noise {document document' : List Node} (h : Noise document document') :
    Option.Rel ReadAlike (rootElement? document) (rootElement? document') := by
  cases h with
  | scattered h => exact rel_mono (h.find? _) fun _ _ => readAlike_of_alike
  | atRoot before after attributes h =>
    refine find?_replaced .refl (by rfl) (readAlike_of_members? ?_) before after
    rw [members?_root, members?_root]
    exact .some h.sameFirst
  | inDoc before after attributes before' after' attributes' h =>
    refine find?_replaced .refl (by rfl) (readAlike_of_members? ?_) before after
    rw [members?_doc, members?_doc]
    exact find?_replaced (fun _ => .refl _) (by rfl) h.sameFirst before' after'

/-- **One edit leaves the first entry for each id as it is.** -/
theorem Noise.sameFirst {document document' : List Node} (h : Noise document document')
    {root : Node} {es : List (String × Fragment)} (hroot : rootElement? document = some root)
    (hes : rootEntries? root = some es) :
    ∃ root' es', rootElement? document' = some root' ∧ rootEntries? root' = some es' ∧
      SameFirst es es' := by
  have hfound := rootElement?_noise h
  rw [hroot] at hfound
  obtain ⟨root', hroot', hread⟩ := exists_of_rel_some hfound
  rw [ReadAlike, hes] at hread
  obtain ⟨es', hes', hsame⟩ := exists_of_rel_some hread
  exact ⟨root', es', hroot', hes', hsame⟩

/-- Any number of edits leave the first entry for each id as it is. -/
theorem sameFirst_of_edits {document document' : List Node}
    (h : Relation.ReflTransGen Noise document document') {root : Node}
    {es : List (String × Fragment)} (hroot : rootElement? document = some root)
    (hes : rootEntries? root = some es) :
    ∃ root' es', rootElement? document' = some root' ∧ rootEntries? root' = some es' ∧
      SameFirst es es' := by
  induction h with
  | refl => exact ⟨root, es, hroot, hes, .refl es⟩
  | tail _ hedit ih =>
    obtain ⟨root₁, es₁, hroot₁, hes₁, hsame₁⟩ := ih
    obtain ⟨root₂, es₂, hroot₂, hes₂, hsame₂⟩ := hedit.sameFirst hroot₁ hes₁
    exact ⟨root₂, es₂, hroot₂, hes₂, hsame₁.trans hsame₂⟩

/-- What has a list of members is an element, and alone it is the root of a document. -/
theorem rootElement?_singleton {root members : Node} (h : members? root = some members) :
    rootElement? [root] = some root := by
  cases root with
  | element name attributes children => rfl
  | text _ => cases h
  | comment => cases h
  | instruction => cases h

/-! ## What is found under an id -/

theorem SameFirst.length_firstOfEach_eq {es fs : List (String × Fragment)} (h : SameFirst es fs) :
    (firstOfEach fs).length = (firstOfEach es).length := by
  have hkey (gs : List (String × Fragment)) (key : String) :
      key ∈ (gs.map (·.1)).toFinset ↔ (gs.find? (·.1 = key)).isSome = true := by
    simp [List.find?_isSome]
  have hkeys : (fs.map (·.1)).toFinset = (es.map (·.1)).toFinset := by
    ext key
    rw [hkey, hkey, h key]
  rw [length_firstOfEach, length_firstOfEach, hkeys]

end Documentation

/-- **Markup noise does not change what is found in a documentation file.** Take the tree of any
file that is accepted, and put noise into it, any number of times: comments and instructions
anywhere, texts split in two, texts and other elements among the members and in their blocks,
members without a name or with the name of an earlier one, further summaries behind the first, and
elements around any part of a summary. The tree is still accepted, has the same number of ids, and
under each id the same is found. -/
theorem markup_noise_ignored {text : String} {d : Documentation}
    (h : Documentation.ofText text = .ok d) :
    ∃ root, Node.ofText? text = some root ∧
      ∀ document, Relation.ReflTransGen Documentation.Noise [root] document →
        ∃ root' d', rootElement? document = some root' ∧
          Documentation.ofNode? root' = some d' ∧ d'.size = d.size ∧
          ∀ id, d'.fragment id = d.fragment id := by
  obtain ⟨root, hroot, hd⟩ : ∃ root, Node.ofText? text = some root ∧
      Documentation.ofNode? root = some d := by
    unfold Documentation.ofText at h
    split at h
    · cases h
    · next root hroot =>
      split at h
      · cases h
      · next d' hd =>
        cases h
        exact ⟨root, hroot, hd⟩
  refine ⟨root, hroot, fun document hedits => ?_⟩
  rw [Documentation.ofNode?_eq] at hd
  obtain ⟨es, hes, rfl⟩ := Option.map_eq_some_iff.mp hd
  obtain ⟨members, hmembers, -⟩ := Option.map_eq_some_iff.mp hes
  obtain ⟨root', es', hroot', hes', hsame⟩ := Documentation.sameFirst_of_edits hedits
    (Documentation.rootElement?_singleton hmembers) hes
  have hd' : Documentation.ofNode? root' =
      some ⟨Documentation.assembly? root', Documentation.firstOfEach es'⟩ := by
    rw [Documentation.ofNode?_eq, hes', Option.map_some]
  refine ⟨root', _, hroot', hd', hsame.length_firstOfEach_eq, fun id => ?_⟩
  rw [Documentation.fragment, Documentation.fragment, Documentation.find?_firstOfEach,
    Documentation.find?_firstOfEach, hsame id]

/-- A comment before the root element, tags in a summary, and a second member with the same name. -/
theorem markup_noise_ignored_axe :
    let e : XmlText × XmlText := (⟨"T:Axe", by decide⟩, ⟨"An axe.", by decide⟩)
    let text := Documentation.documentText .standard [e]
    let member (children : List Node) : Node :=
      .element "member" [⟨none, "name", "T:Axe"⟩] [.element "summary" [] children]
    let document : List Node := [.comment, .element "doc" [] [.element "members" []
      [member [.element "see" [] [.text "An axe."]], member [.text "Two axes."]]]]
    ∃ d root, Documentation.ofText text = .ok d ∧ Node.ofText? text = some root ∧
      Relation.ReflTransGen Documentation.Noise [root] document ∧
        ∃ root' d', rootElement? document = some root' ∧
          Documentation.ofNode? root' = some d' ∧ d'.size = d.size ∧
          ∀ id, d'.fragment id = d.fragment id := by
  intro e text member document
  let root := Node.element "doc" [] [.element "members" [] [member [.text "An axe."]]]
  have hnode : Documentation.documentNode [e] = root := by
    have htext : textNodes "An axe.".toList = [.text "An axe."] := by
      rw [textNodes, if_neg (by decide), String.ofList_toList]
    show Node.element "doc" [] [.element "members" [] [member (textNodes "An axe.".toList)]] = _
    rw [htext]
  have hd := Documentation.ofText_documentText .standard [e]
  obtain ⟨root', hroot, hnoise⟩ := markup_noise_ignored hd
  obtain rfl : root' = root := by
    have hread := hroot.symm.trans (Documentation.ofText?_documentText .standard [e])
    exact (Option.some.inj hread).trans hnode
  have houter : Documentation.Noise [root] [.comment, root] :=
    .scattered (.remark [] [root] (.inl rfl))
  have htags : Documentation.Noise [.comment, root] [.comment, .element "doc" []
      [.element "members" [] [member [.element "see" [] [.text "An axe."]]]]] :=
    .inDoc [.comment] [] [] [] [] []
      (.block [] [] _ (.wrapped [] [] [] (.wrap [] [.text "An axe."] [] "see" [])))
  have hsecond : Documentation.Noise [.comment, .element "doc" [] [.element "members" []
      [member [.element "see" [] [.text "An axe."]]]]] document :=
    .inDoc [.comment] [] [] [] [] []
      (.repeated [_] [] List.mem_cons_self rfl rfl (by rfl) (by rfl))
  have hedits : Relation.ReflTransGen Documentation.Noise [root] document :=
    ((Relation.ReflTransGen.single houter).tail htags).tail hsecond
  exact ⟨_, root, hd, hroot, hedits, hnoise document hedits⟩

end DocAudit
