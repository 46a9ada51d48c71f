import DocAudit.Json.Reader
import Mathlib.Data.List.DropRight
import Mathlib.Data.List.Forall2
/-!
# What readers take and leave

* `Reader.run`: a reader without the proof that the rest is shorter, with an equation for each way
  to build readers out of others.
* `Reader.CoversUpTo`: wherever one reader takes something another one does, too, and leaves the
  same.
* **`Json.ignored_covers`**: a value can be skipped wherever it can be read.
-/

namespace DocAudit

namespace Text

/-- What a reader takes from the front of a text, and what it leaves. -/
def Reader.run {α : Type} (read : Reader α) (s : List Char) : Option (α × List Char) :=
  (read s).map fun p => (p.1, p.2.1)

namespace Reader

variable {α β : Type} (read : Reader α) (s : List Char)

theorem length_lt_of_run {read : Reader α} {s t : List Char} {a : α}
    (h : read.run s = some (a, t)) : t.length < s.length := by
  obtain ⟨p, -, hp⟩ := Option.map_eq_some_iff.mp h
  rw [← (Prod.mk.inj hp).2]
  exact p.2.2

theorem run_map (f : α → β) : (read.map f).run s = (read.run s).map fun p => (f p.1, p.2) := by
  simp only [run, Reader.map, Option.map_map, Function.comp_def]

theorem run_skipping (p : Char → Bool) : (skipping p read).run s = read.run (s.dropWhile p) := by
  unfold run skipping
  cases read (s.dropWhile p) <;> rfl

theorem run_followedBy (next : α → Reader β) :
    (read.followedBy next).run s = (read.run s).bind fun p => (next p.1).run p.2 := by
  unfold run followedBy
  cases h : read s with
  | none => rfl
  | some p => simp only [Option.map_map, Function.comp_def, Option.map_some, Option.bind_some]; rfl

variable (blank : Char → Bool) (close : Char)

theorem run_separated : (separated blank close read).run s = (read.run s).bind fun p =>
    match p.2.dropWhile blank with
    | [] => none
    | c :: q =>
      if c = close then some ([p.1], q)
      else if c = ',' then ((separated blank close read).run q).map fun r => (p.1 :: r.1, r.2)
      else none := by
  unfold run
  rw [separated]
  cases read s with
  | none => rfl
  | some p =>
    obtain ⟨a, r⟩ := p
    rw [Option.map_some, Option.bind_some]
    dsimp only
    split
    next h => rw [h]; rfl
    next c q h =>
      by_cases hclose : c = close
      · simp only [h, if_pos hclose, Option.map_some]
      · by_cases hcomma : c = ','
        · simp only [h, if_neg hclose, if_pos hcomma, Option.map_map, Function.comp_def,
            Rest.weaken]
        · simp only [h, if_neg hclose, if_neg hcomma, Option.map_none]

theorem run_separated_of_run {read : Reader α} {s t : List Char} {a : α}
    (h : read.run s = some (a, t)) : (separated blank close read).run s =
      match t.dropWhile blank with
      | [] => none
      | c :: q =>
        if c = close then some ([a], q)
        else if c = ',' then ((separated blank close read).run q).map fun r => (a :: r.1, r.2)
        else none := by
  rw [run_separated, h, Option.bind_some]

theorem run_enclosed : (enclosed blank close read).run s =
    match (character close).run (s.dropWhile blank) with
    | some p => some ([], p.2)
    | none => (separated blank close read).run s := by
  rw [← run_skipping]
  unfold run enclosed
  cases skipping blank (character close) s <;> rfl

/-! ## Readers that keep up with others -/

variable {α β : Type}

/-- On texts up to a length, wherever `read` takes something `other` takes something related to it
and leaves the same. -/
def CoversUpTo (n : Nat) (R : α → β → Prop) (read : Reader α) (other : Reader β) : Prop :=
  ∀ s a t, s.length ≤ n → read.run s = some (a, t) → ∃ b, other.run s = some (b, t) ∧ R a b

variable {n : Nat} {R : α → β → Prop} {read : Reader α} {other : Reader β}

theorem CoversUpTo.refl (n : Nat) (read : Reader α) : CoversUpTo n (· = ·) read read :=
  fun _ a _ _ hrun => ⟨a, hrun, rfl⟩

theorem CoversUpTo.map {γ δ : Type} {S : γ → δ → Prop} {f : α → γ} {g : β → δ}
    (h : CoversUpTo n R read other) (hfg : ∀ a b, R a b → S (f a) (g b)) :
    CoversUpTo n S (read.map f) (other.map g) := by
  intro s c t hs hrun
  rw [run_map] at hrun ⊢
  obtain ⟨⟨a, u⟩, hread, heq⟩ := Option.map_eq_some_iff.mp hrun
  cases heq
  obtain ⟨b, hother, hab⟩ := h s a u hs hread
  exact ⟨g b, by rw [hother]; rfl, hfg a b hab⟩

theorem CoversUpTo.followedBy {γ δ : Type} {S : γ → δ → Prop} {next : α → Reader γ}
    {next' : β → Reader δ} (h : CoversUpTo n R read other)
    (hnext : ∀ a b, R a b → CoversUpTo n S (next a) (next' b)) :
    CoversUpTo n S (read.followedBy next) (other.followedBy next') := by
  intro s c t hs hrun
  rw [run_followedBy] at hrun ⊢
  obtain ⟨⟨a, u⟩, hread, hrest⟩ := Option.bind_eq_some_iff.mp hrun
  have hu := length_lt_of_run hread
  obtain ⟨b, hother, hab⟩ := h s a u hs hread
  obtain ⟨d, hd, hcd⟩ := hnext a b hab u c t (by omega) hrest
  exact ⟨d, by rw [hother, Option.bind_some, hd], hcd⟩

theorem CoversUpTo.skipping (h : CoversUpTo n R read other) (p : Char → Bool) :
    CoversUpTo n R (skipping p read) (skipping p other) := by
  intro s a t hs hrun
  rw [run_skipping] at hrun ⊢
  exact h _ a t (Nat.le_trans (length_dropWhile_le p s) hs) hrun

/-- Both readers take their items at the same places, so the lists end at the same place. -/
theorem CoversUpTo.separated (h : CoversUpTo n R read other) (blank : Char → Bool) (close : Char) :
    CoversUpTo n (List.Forall₂ R) (separated blank close read) (separated blank close other) := by
  intro s
  induction hn : s.length using Nat.strongRecOn generalizing s with
  | _ m ih =>
    subst hn
    intro as t hs hrun
    rw [run_separated] at hrun ⊢
    obtain ⟨⟨a, u⟩, hitem, hrest⟩ := Option.bind_eq_some_iff.mp hrun
    obtain ⟨b, hitem', hab⟩ := h s a u hs hitem
    have hu : u.length < s.length := length_lt_of_run hitem
    have hdrop := length_dropWhile_le blank u
    rw [hitem', Option.bind_some]
    dsimp only at hrest ⊢
    cases hq : u.dropWhile blank with
    | nil => rw [hq] at hrest; cases hrest
    | cons c q =>
      rw [hq] at hrest hdrop
      rw [List.length_cons] at hdrop
      dsimp only at hrest ⊢
      by_cases hclose : c = close
      · rw [if_pos hclose] at hrest ⊢
        cases hrest
        exact ⟨[b], rfl, .cons hab .nil⟩
      · rw [if_neg hclose] at hrest ⊢
        by_cases hcomma : c = ','
        · rw [if_pos hcomma] at hrest ⊢
          obtain ⟨⟨as, v⟩, hmore, heq⟩ := Option.map_eq_some_iff.mp hrest
          cases heq
          obtain ⟨bs, hmore', hbs⟩ := ih q.length (by omega) q rfl as v (by omega) hmore
          exact ⟨b :: bs, by rw [hmore', Option.map_some], .cons hab hbs⟩
        · rw [if_neg hcomma] at hrest
          cases hrest

theorem CoversUpTo.enclosed (h : CoversUpTo n R read other) (blank : Char → Bool) (close : Char) :
    CoversUpTo n (List.Forall₂ R) (enclosed blank close read) (enclosed blank close other) := by
  intro s as t hs hrun
  rw [run_enclosed] at hrun ⊢
  cases hclose : (character close).run (s.dropWhile blank) with
  | some p =>
    rw [hclose] at hrun
    cases hrun
    exact ⟨[], rfl, .nil⟩
  | none =>
    rw [hclose] at hrun
    exact h.separated blank close s as t hs hrun

end Reader

end Text

namespace Json

open Text

/-! ## Skipping values -/

theorem run_stringBody (skipped : Bool) (c : Char) (s : List Char) :
    (stringBody skipped).run (c :: s) =
      if c = '"' then some ([], s)
      else if c = '\\' then
        ((escape skipped).run s).bind fun p =>
          ((stringBody skipped).run p.2).map fun q => (p.1 :: q.1, q.2)
      else if c < ' ' then none
      else ((stringBody skipped).run s).map fun q => (c :: q.1, q.2) := by
  unfold Reader.run
  rw [stringBody]
  split
  · rfl
  · split
    · cases escape skipped s with
      | none => rfl
      | some p =>
        obtain ⟨x, r⟩ := p
        dsimp only [Option.map_some, Option.bind_some]
        cases stringBody skipped r.1 <;> rfl
    · split
      · rfl
      · cases stringBody skipped s <;> rfl

theorem run_escape_unicode (skipped : Bool) (s : List Char) :
    (escape skipped).run ('u' :: s) = (unicodeEscape skipped).run s := by
  unfold Reader.run
  rw [escape, Option.map_map]
  rfl

/-- A lone surrogate is fine in a string that is skipped. -/
theorem unicodeEscape_single {skipped : Bool} {a b c d : Char} {n : Nat}
    (hn : hexUnit? a b c d = some n) (h : (n < 0xd800 ∨ 0xdfff < n) ∨ skipped = true)
    (s : List Char) :
    ∃ x, (unicodeEscape skipped).run (a :: b :: c :: d :: s) = some (x, s) := by
  unfold Reader.run
  rw [unicodeEscape]
  simp only [hn]
  by_cases hplain : n < 0xd800 ∨ 0xdfff < n
  · exact ⟨Char.ofNat n, by rw [if_pos hplain]; rfl⟩
  · exact ⟨'\ufffd', by rw [if_neg hplain, if_pos (h.resolve_left hplain)]; rfl⟩

/-- The two ways to write one character: one unit, or a pair of surrogates. -/
theorem of_run_unicodeEscape {s u : List Char} {x : Char}
    (h : (unicodeEscape false).run s = some (x, u)) :
    ∃ a b c d n r, s = a :: b :: c :: d :: r ∧ hexUnit? a b c d = some n ∧
      (((n < 0xd800 ∨ 0xdfff < n) ∧ r = u) ∨
        ∃ e f g i m, r = '\\' :: 'u' :: e :: f :: g :: i :: u ∧ hexUnit? e f g i = some m) := by
  unfold Reader.run at h
  obtain ⟨p, hp, heq⟩ := Option.map_eq_some_iff.mp h
  obtain ⟨rfl, rfl⟩ := Prod.mk.inj heq
  unfold unicodeEscape at hp
  split at hp
  next a b c d r =>
    split at hp
    · cases hp
    next n hn =>
      refine ⟨a, b, c, d, n, r, rfl, hn, ?_⟩
      by_cases hplain : n < 0xd800 ∨ 0xdfff < n
      · rw [if_pos hplain] at hp
        obtain rfl := Option.some.inj hp
        exact .inl ⟨hplain, rfl⟩
      · simp only [if_neg hplain, Bool.false_eq_true, if_false] at hp
        right
        split at hp
        · cases hp
        · split at hp
          next e f g i t =>
            split at hp
            · cases hp
            next m hm =>
              split at hp
              · obtain rfl := Option.some.inj hp
                exact ⟨e, f, g, i, m, rfl, hm⟩
              · cases hp
          · cases hp
  · cases hp

/-- What stands for one character in a string that is read is skipped as one character, or as two
if it is a pair of surrogates. -/
theorem escape_skipped {s u : List Char} {x : Char} (h : (escape false).run s = some (x, u)) :
    (∃ y, (escape true).run s = some (y, u)) ∨
      ∃ y z v, (escape true).run s = some (y, '\\' :: v) ∧ (escape true).run v = some (z, u) := by
  cases s with
  | nil => cases h
  | cons c s =>
    by_cases hc : c = 'u'
    · subst hc
      rw [run_escape_unicode] at h
      obtain ⟨a, b, c, d, n, r, rfl, hn, ⟨hplain, rfl⟩ | ⟨e, f, g, i, m, rfl, hm⟩⟩ :=
        of_run_unicodeEscape h
      · obtain ⟨y, hy⟩ := unicodeEscape_single hn (.inl hplain) r
        exact .inl ⟨y, by rw [run_escape_unicode, hy]⟩
      · obtain ⟨y, hy⟩ := unicodeEscape_single hn (.inr rfl) ('\\' :: 'u' :: e :: f :: g :: i :: u)
        obtain ⟨z, hz⟩ := unicodeEscape_single hm (.inr rfl) u
        exact .inr ⟨y, z, 'u' :: e :: f :: g :: i :: u, by rw [run_escape_unicode, hy],
          by rw [run_escape_unicode, hz]⟩
    · refine .inl ⟨x, ?_⟩
      rw [← h]
      unfold Reader.run
      unfold escape
      dsimp only
      split
      · exact absurd rfl hc
      all_goals rfl

theorem stringBody_skipped (s : List Char) : ∀ {cs t}, (stringBody false).run s = some (cs, t) →
    ∃ ds, (stringBody true).run s = some (ds, t) := by
  induction hn : s.length using Nat.strongRecOn generalizing s with
  | _ m ih =>
    subst hn
    intro cs t h
    cases s with
    | nil =>
      rw [Reader.run, stringBody] at h
      cases h
    | cons c s =>
      rw [run_stringBody] at h ⊢
      by_cases hquote : c = '"'
      · rw [if_pos hquote] at h ⊢
        cases h
        exact ⟨[], rfl⟩
      rw [if_neg hquote] at h ⊢
      by_cases hback : c = '\\'
      · rw [if_pos hback] at h ⊢
        obtain ⟨⟨x, u⟩, hx, hu⟩ := Option.bind_eq_some_iff.mp h
        obtain ⟨⟨ds, t'⟩, hds, heq⟩ := Option.map_eq_some_iff.mp hu
        cases heq
        have hlt := Reader.length_lt_of_run hx
        obtain ⟨es, hes⟩ := ih u.length (by rw [List.length_cons]; omega) u rfl hds
        rcases escape_skipped hx with ⟨y, hy⟩ | ⟨y, z, v, hy, hz⟩
        · exact ⟨y :: es, by rw [hy, Option.bind_some, hes]; rfl⟩
        · refine ⟨y :: z :: es, ?_⟩
          rw [hy, Option.bind_some, run_stringBody, if_neg (by decide), if_pos rfl, hz,
            Option.bind_some, hes]
          rfl
      rw [if_neg hback] at h ⊢
      by_cases hcontrol : c < ' '
      · rw [if_pos hcontrol] at h
        cases h
      · rw [if_neg hcontrol] at h ⊢
        obtain ⟨⟨ds, t'⟩, hds, heq⟩ := Option.map_eq_some_iff.mp h
        cases heq
        obtain ⟨es, hes⟩ := ih s.length (by rw [List.length_cons]; omega) s rfl hds
        exact ⟨c :: es, by rw [hes]; rfl⟩

theorem stringLiteral_skipped (n : Nat) :
    Reader.CoversUpTo n (fun _ _ => True) (stringLiteral false) (stringLiteral true) := by
  refine (Reader.CoversUpTo.refl n _).followedBy fun _ _ _ => ?_
  have hbody : Reader.CoversUpTo n (fun _ _ => True) (stringBody false) (stringBody true) := by
    intro s cs t _ hrun
    obtain ⟨ds, hds⟩ := stringBody_skipped s hrun
    exact ⟨ds, hds, trivial⟩
  exact hbody.map fun _ _ _ => trivial

theorem finite_skipped {s t : List Char} {v : Json} (h : (finite false).run s = some (v, t)) :
    (finite true).run s = some (v, t) := by
  unfold Reader.run finite at h ⊢
  cases hw : numeral s with
  | none => simp [hw] at h
  | some p =>
    simp only [hw, Bool.false_or, Bool.true_or, if_true] at h ⊢
    split at h
    · exact h
    · cases h

theorem run_scalar (skipped : Bool) (s : List Char) :
    (scalar skipped).run s =
      if s.head? = some 'n' then (literal "null" null).run s
      else if s.head? = some 't' then (literal "true" (bool true)).run s
      else if s.head? = some 'f' then (literal "false" (bool false)).run s
      else if s.head? = some '"' then ((stringLiteral skipped).map string).run s
      else (finite skipped).run s := by
  unfold scalar Reader.run
  dsimp only
  generalize s.head? = first
  split_ifs with hn ht hf hq
  · rw [hn]; rfl
  · rw [ht]; rfl
  · rw [hf]; rfl
  · rw [hq]; rfl
  · split <;> simp_all

theorem scalar_skipped {s t : List Char} {v : Json} (h : (scalar false).run s = some (v, t)) :
    ∃ w, (scalar true).run s = some (w, t) := by
  have hstring : Reader.CoversUpTo s.length (fun _ _ => True) ((stringLiteral false).map string)
      ((stringLiteral true).map string) := (stringLiteral_skipped _).map fun _ _ _ => trivial
  rw [run_scalar] at h ⊢
  split_ifs at h ⊢
  · exact ⟨v, h⟩
  · exact ⟨v, h⟩
  · exact ⟨v, h⟩
  · obtain ⟨w, hw, -⟩ := hstring s v t (Nat.le_refl _) h
    exact ⟨w, hw⟩
  · exact ⟨v, finite_skipped h⟩

theorem run_scalar_open (skipped : Bool) {c : Char} (hc : c = '[' ∨ c = '{') (s : List Char) :
    (scalar skipped).run (c :: s) = none := by
  rw [run_scalar]
  rcases hc with rfl | rfl <;> simp [finite, Reader.run, numeral, unsigned, integerPart, digits]

theorem run_valueWithin_zero (skipped : Bool) (s : List Char) :
    (valueWithin skipped 0).run s = (scalar skipped).run (s.dropWhile isSpace) := by
  rw [valueWithin, Reader.run_skipping]

theorem run_valueWithin_succ (skipped : Bool) (depth : Nat) (s : List Char) :
    (valueWithin skipped (depth + 1)).run s =
      match s.dropWhile isSpace with
      | '[' :: t => ((enclosed isSpace ']' (valueWithin skipped depth)).run t).map fun p =>
          (array p.1, p.2)
      | '{' :: t =>
        ((enclosed isSpace '}' (valueWithin.skippedField skipped (valueWithin skipped depth))).run
          t).map fun p => (object p.1, p.2)
      | s => (scalar skipped).run s := by
  rw [valueWithin, Reader.run_skipping]
  generalize s.dropWhile isSpace = s
  unfold Reader.run
  split <;> simp [Option.map_map, Function.comp_def, Rest.andThen]

theorem skippedField_skipped {n : Nat} {read other : Reader Json}
    (h : Reader.CoversUpTo n (fun _ _ => True) read other) :
    Reader.CoversUpTo n (fun _ _ => True) (valueWithin.skippedField false read)
      (valueWithin.skippedField true other) := by
  refine Reader.CoversUpTo.skipping ?_ isSpace
  refine (stringLiteral_skipped n).followedBy fun _ _ _ => ?_
  exact (Reader.CoversUpTo.refl n _).followedBy fun _ _ _ => h.map fun _ _ _ => trivial

/-- A container begins behind the white space. -/
def Opens (s : List Char) : Prop := ∃ c r, s.dropWhile isSpace = c :: r ∧ (c = '[' ∨ c = '{')

theorem run_valueWithin_of_not_opens {s : List Char} (h : ¬ Opens s) (skipped : Bool)
    (depth : Nat) :
    (valueWithin skipped depth).run s = (scalar skipped).run (s.dropWhile isSpace) := by
  cases depth with
  | zero => exact run_valueWithin_zero skipped s
  | succ depth =>
    rw [run_valueWithin_succ]
    split
    next t ht => exact absurd ⟨_, t, ht, .inl rfl⟩ h
    next t ht => exact absurd ⟨_, t, ht, .inr rfl⟩ h
    next => rfl

theorem run_valueWithin_zero_of_opens {s : List Char} (h : Opens s) (skipped : Bool) :
    (valueWithin skipped 0).run s = none := by
  obtain ⟨c, r, hs, hc⟩ := h
  rw [run_valueWithin_zero, hs, run_scalar_open skipped hc]

theorem Opens.pos {s : List Char} (h : Opens s) : 0 < s.length := by
  obtain ⟨c, r, hs, -⟩ := h
  have := length_dropWhile_le isSpace s
  rw [hs, List.length_cons] at this
  omega

/-- A value that can be read can be skipped, if as many levels may be skipped, or if there are not
more characters than levels. -/
theorem valueWithin_skipped (levels : Nat) : ∀ (depth : Nat) {s t : List Char} {v : Json},
    (valueWithin false depth).run s = some (v, t) → depth ≤ levels ∨ s.length ≤ levels →
      ∃ w, (valueWithin true levels).run s = some (w, t) := by
  induction levels with
  | zero =>
    intro depth s t v h hle
    by_cases hs : Opens s
    · rcases hle with hle | hle
      · rw [Nat.le_zero.mp hle, run_valueWithin_zero_of_opens hs] at h
        cases h
      · have := hs.pos
        omega
    · rw [run_valueWithin_of_not_opens hs] at h ⊢
      exact scalar_skipped h
  | succ levels ih =>
    intro depth s t v h hle
    by_cases hs : Opens s
    · cases depth with
      | zero =>
        rw [run_valueWithin_zero_of_opens hs] at h
        cases h
      | succ depth =>
        obtain ⟨c, r, hr, hc⟩ := hs
        have hlt := length_dropWhile_le isSpace s
        rw [hr, List.length_cons] at hlt
        have hcovers : Reader.CoversUpTo r.length (fun _ _ => True) (valueWithin false depth)
            (valueWithin true levels) := by
          intro s' a t' hs' hrun
          obtain ⟨w, hw⟩ := ih depth hrun (by omega)
          exact ⟨w, hw, trivial⟩
        rw [run_valueWithin_succ, hr] at h ⊢
        rcases hc with rfl | rfl
        · obtain ⟨⟨vs, t'⟩, hrun, heq⟩ := Option.map_eq_some_iff.mp h
          cases heq
          obtain ⟨ws, hws, -⟩ := hcovers.enclosed isSpace ']' r vs t' (Nat.le_refl _) hrun
          exact ⟨array ws, by simp only [hws, Option.map_some]⟩
        · obtain ⟨⟨fs, t'⟩, hrun, heq⟩ := Option.map_eq_some_iff.mp h
          cases heq
          obtain ⟨gs, hgs, -⟩ :=
            (skippedField_skipped hcovers).enclosed isSpace '}' r fs t' (Nat.le_refl _) hrun
          exact ⟨object gs, by simp only [hgs, Option.map_some]⟩
    · rw [run_valueWithin_of_not_opens hs] at h ⊢
      exact scalar_skipped h

theorem run_value_dropWhile (depth : Nat) (s : List Char) :
    (value depth).run (s.dropWhile isSpace) = (value depth).run s := by
  unfold value
  cases depth with
  | zero => rw [run_valueWithin_zero, run_valueWithin_zero, List.dropWhile_idempotent]
  | succ depth => rw [run_valueWithin_succ, run_valueWithin_succ, List.dropWhile_idempotent]

theorem value_covers (depth n : Nat) :
    Reader.CoversUpTo n (· = ·) (value depth) (skipping isSpace (value depth)) := by
  intro s v t _ hrun
  exact ⟨v, by rw [Reader.run_skipping, run_value_dropWhile, hrun], rfl⟩

/-- **A value that can be read can be skipped**, and what follows it is the same. -/
theorem ignored_covers (depth n : Nat) :
    Reader.CoversUpTo n (fun _ _ => True) (value depth) (skipping isSpace ignored) := by
  intro s v t _ hrun
  rw [← run_value_dropWhile] at hrun
  obtain ⟨w, hw⟩ := valueWithin_skipped _ depth hrun (.inr (Nat.le_refl _))
  exact ⟨w, by rw [Reader.run_skipping]; exact hw, trivial⟩

theorem only_eq_some_iff {α : Type} (read : Reader α) (text : String) (a : α) :
    only read text = some a ↔
      ∃ t, read.run text.toList = some (a, t) ∧ t.all isSpace = true := by
  unfold only Reader.run
  cases read text.toList with
  | none => simp
  | some p => simp [and_comm]

/-! ## Values as they are written -/

@[simp] theorem run_character (c d : Char) (s : List Char) :
    (character c).run (d :: s) = if d = c then some ((), s) else none := by
  unfold Reader.run character
  dsimp only
  split <;> rfl

/-- Characters that stand for themselves in a string. -/
def Plain (cs : List Char) : Prop := ∀ c ∈ cs, c ≠ '"' ∧ c ≠ '\\' ∧ ¬ c < ' '

theorem run_stringBody_of_plain {cs : List Char} (h : Plain cs) (skipped : Bool) (t : List Char) :
    (stringBody skipped).run (cs ++ '"' :: t) = some (cs, t) := by
  induction cs with
  | nil => rw [List.nil_append, run_stringBody, if_pos rfl]
  | cons c cs ih =>
    obtain ⟨⟨hquote, hescape, hcontrol⟩, hcs⟩ := List.forall_mem_cons.mp h
    rw [List.cons_append, run_stringBody, if_neg hquote, if_neg hescape, if_neg hcontrol, ih hcs]
    rfl

theorem run_stringLiteral_of_plain {s : String} (h : Plain s.toList) (skipped : Bool)
    (t : List Char) :
    (stringLiteral skipped).run ('"' :: (s.toList ++ '"' :: t)) = some (s, t) := by
  rw [stringLiteral, Reader.run_followedBy, run_character, if_pos rfl, Option.bind_some,
    Reader.run_map, run_stringBody_of_plain h, Option.map_some, String.ofList_toList]

theorem run_value_string {s : String} (h : Plain s.toList) (depth : Nat) (t : List Char) :
    (value depth).run ('"' :: (s.toList ++ '"' :: t)) = some (string s, t) := by
  have hopens : ¬ Opens ('"' :: (s.toList ++ '"' :: t)) := by simp [Opens, isSpace]
  rw [value, run_valueWithin_of_not_opens hopens, List.dropWhile_cons_of_neg (by decide),
    run_scalar]
  simp [Reader.run_map, run_stringLiteral_of_plain h]

theorem run_value_null (depth : Nat) (t : List Char) :
    (value depth).run ('n' :: 'u' :: 'l' :: 'l' :: t) = some (null, t) := by
  have hopens : ¬ Opens ('n' :: 'u' :: 'l' :: 'l' :: t) := by simp [Opens, isSpace]
  have hshorter : t.length < t.length + 1 + 1 + 1 + 1 := by omega
  rw [value, run_valueWithin_of_not_opens hopens, List.dropWhile_cons_of_neg (by decide),
    run_scalar]
  simp [literal, word, hshorter, Reader.run]

theorem run_value_emptyArray (depth : Nat) (t : List Char) :
    (value (depth + 1)).run ('[' :: ']' :: t) = some (array [], t) := by
  rw [value, run_valueWithin_succ]
  simp [isSpace, Reader.run_enclosed]

theorem run_value_array {c : Char} (hc : isSpace c = false ∧ c ≠ ']') (depth : Nat)
    (s : List Char) : (value (depth + 1)).run ('[' :: c :: s) =
      ((separated isSpace ']' (value depth)).run (c :: s)).map fun p => (array p.1, p.2) := by
  have hbracket : isSpace '[' = false := by decide
  rw [value, run_valueWithin_succ]
  simp [hbracket, Reader.run_enclosed, hc.1, hc.2, value]

theorem run_value_object (depth : Nat) (s : List Char) :
    (value (depth + 1)).run ('{' :: '"' :: s) =
      ((separated isSpace '}' (valueWithin.skippedField false (value depth))).run
        ('"' :: s)).map fun p => (object p.1, p.2) := by
  rw [value, run_valueWithin_succ]
  simp [isSpace, Reader.run_enclosed, value]

theorem run_skippedField {name : String} (h : Plain name.toList) (read : Reader Json)
    (s : List Char) :
    (valueWithin.skippedField false read).run ('"' :: (name.toList ++ '"' :: ':' :: s)) =
      (read.run s).map fun p => ((name, p.1), p.2) := by
  rw [valueWithin.skippedField, Reader.run_skipping, List.dropWhile_cons_of_neg (by decide),
    Reader.run_followedBy, run_stringLiteral_of_plain h]
  simp [Reader.run_followedBy, Reader.run_skipping, Reader.run_map, isSpace]

end Json

end DocAudit
