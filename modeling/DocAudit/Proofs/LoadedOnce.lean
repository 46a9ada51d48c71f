import DocAudit.Docs.Cache
/-!
# Documentation is loaded once

Calls for documentation go through one cache, one after the other, and between them the files may
change in any way. The first call for a path that succeeds decides what all later calls for this
path get.

* `DocCall`, `DocCache.answers`: calls that come one after the other, and their answers.
* `answered`: the same answers, read off the files at the times of the calls, without a cache.
* `DocCache.Remembers`: what a cache holds after some calls; `DocCache.Remembers.step` is its step.
* **`DocCache.answers_eq`**: the cache answers as it should.
* **`documentation_loaded_once`**: what the first and the later calls for a path get.
-/

namespace DocAudit

/-- A call for the documentation at a path, with the files as they are at the time of the call. -/
structure DocCall where
  disk : Disk
  path : Path

/-- A call with its answer. -/
structure AnsweredCall where
  call : DocCall
  answer : Except LoadError Documentation

namespace DocCache

/-- The answer to a call. -/
def answer (cache : DocCache) (c : DocCall) : Except LoadError Documentation :=
  (cache.get c.disk c.path).1

/-- The cache behind a call. -/
def next (cache : DocCache) (c : DocCall) : DocCache := (cache.get c.disk c.path).2.1

/-- The answers to calls that come one after the other. -/
def answers (cache : DocCache) : List DocCall → List AnsweredCall
  | [] => []
  | c :: calls => ⟨c, cache.answer c⟩ :: answers (cache.next c) calls

end DocCache

/-! ## Answers without a cache -/

namespace DocCall

/-- What the file at the path holds at the time of the call. -/
def load (c : DocCall) : Except LoadError Documentation := DocCache.load c.disk c.path

/-- The documentation that the call could load for a path. -/
def loadedFor? (p : Path) (c : DocCall) : Option Documentation :=
  if c.path.same p then c.load.toOption else none

variable {c : DocCall} {p q : Path} {d : Documentation}

theorem loadedFor?_eq_some_iff :
    c.loadedFor? p = some d ↔ c.path.same p = true ∧ c.load = .ok d := by
  unfold loadedFor?
  cases c.load with
  | error e => simp [Except.toOption]
  | ok d' => simp [Except.toOption]

theorem loadedFor?_congr (h : p.same q = true) : loadedFor? p = loadedFor? q := by
  funext c
  rw [loadedFor?, loadedFor?, Path.same_comm, Path.same_congr h, Path.same_comm]

end DocCall

/-- The documentation that comes from the first of the calls that can load some for a path. -/
def firstLoaded? (calls : List DocCall) (p : Path) : Option Documentation :=
  calls.findSome? (DocCall.loadedFor? p)

section FirstLoaded

variable {p q : Path} (calls : List DocCall)

theorem firstLoaded?_append (calls' : List DocCall) (p : Path) :
    firstLoaded? (calls ++ calls') p = (firstLoaded? calls p).or (firstLoaded? calls' p) :=
  List.findSome?_append

theorem firstLoaded?_singleton (c : DocCall) (p : Path) :
    firstLoaded? [c] p = c.loadedFor? p := by
  rw [firstLoaded?, List.findSome?_singleton]

theorem firstLoaded?_congr (h : p.same q = true) : firstLoaded? calls p = firstLoaded? calls q := by
  rw [firstLoaded?, DocCall.loadedFor?_congr h, firstLoaded?]

theorem firstLoaded?_filter (p : Path) :
    firstLoaded? (calls.filter (·.path.same p)) p = firstLoaded? calls p := by
  induction calls with
  | nil => rfl
  | cons c calls ih =>
    rw [← List.singleton_append, List.filter_append, firstLoaded?_append, firstLoaded?_append, ih,
      firstLoaded?_singleton, DocCall.loadedFor?]
    by_cases h : c.path.same p = true
    · rw [List.filter_cons, if_pos h, List.filter_nil, firstLoaded?_singleton, DocCall.loadedFor?]
    · rw [List.filter_cons, if_neg h, List.filter_nil, if_neg h]
      rfl

end FirstLoaded

/-- What a call gets after some others: what the first of them for its path has loaded, or else
what it can load itself. -/
def answerAfter (before : List DocCall) (c : DocCall) : Except LoadError Documentation :=
  match firstLoaded? before c.path with
  | some d => .ok d
  | none => c.load

/-- The answers to calls that come one after the other, behind some earlier ones. -/
def answered (before : List DocCall) : List DocCall → List AnsweredCall
  | [] => []
  | c :: calls => ⟨c, answerAfter before c⟩ :: answered (before ++ [c]) calls

theorem map_call_answered (calls : List DocCall) : ∀ before : List DocCall,
    (answered before calls).map (·.call) = calls := by
  induction calls with
  | nil => exact fun _ => rfl
  | cons c calls ih =>
    intro before
    rw [answered, List.map_cons, ih]

/-- **The answer to a call depends on the calls before it**, and not on those behind. -/
theorem answer_of_answered_eq {calls : List DocCall} {a : AnsweredCall}
    {after : List AnsweredCall} : ∀ {earlier : List DocCall} {before : List AnsweredCall},
      answered earlier calls = before ++ a :: after →
        a.answer = answerAfter (earlier ++ before.map (·.call)) a.call := by
  induction calls with
  | nil =>
    intro earlier before h
    exact absurd h.symm (List.append_ne_nil_of_right_ne_nil _ (List.cons_ne_nil _ _))
  | cons c calls ih =>
    intro earlier before h
    rw [answered] at h
    cases before with
    | nil =>
      obtain ⟨rfl, -⟩ := List.cons.inj h
      rw [List.map_nil, List.append_nil]
    | cons b before =>
      obtain ⟨rfl, hrest⟩ := List.cons.inj h
      rw [ih hrest, List.map_cons, List.append_assoc, List.singleton_append]

/-- **The answers to the calls for one path are as if there were no others.** -/
theorem filter_answered (p : Path) (calls : List DocCall) : ∀ before : List DocCall,
    (answered before calls).filter (·.call.path.same p) =
      answered (before.filter (·.path.same p)) (calls.filter (·.path.same p)) := by
  induction calls with
  | nil => exact fun _ => rfl
  | cons c calls ih =>
    intro before
    have hrest := ih (before ++ [c])
    rw [List.filter_append, List.filter_cons, List.filter_nil] at hrest
    rw [answered, List.filter_cons, List.filter_cons]
    by_cases h : c.path.same p = true
    · have hanswer : answerAfter before c = answerAfter (before.filter (·.path.same p)) c := by
        rw [answerAfter, answerAfter, firstLoaded?_congr before h,
          firstLoaded?_congr (before.filter _) h, firstLoaded?_filter]
      rw [if_pos h] at hrest
      rw [if_pos h, if_pos h, answered, hanswer, hrest]
    · rw [if_neg h, List.append_nil] at hrest
      rw [if_neg h, if_neg h, hrest]

/-! ## The cache -/

namespace DocCache

/-- The cache holds under each path what the first of the calls for it has loaded. -/
def Remembers (cache : DocCache) (calls : List DocCall) : Prop :=
  ∀ p, cache.find? p = firstLoaded? calls p

theorem remembers_empty : Remembers {} [] := fun _ => rfl

theorem find?_congr (cache : DocCache) {p q : Path} (h : p.same q = true) :
    cache.find? p = cache.find? q := by
  have hsame : (fun e : Path × Documentation => e.1.same p) = fun e => e.1.same q := by
    funext e
    rw [Path.same_comm, Path.same_congr h, Path.same_comm]
  rw [find?, hsame, find?]

theorem find?_snoc (cache : DocCache) (p q : Path) (d : Documentation) :
    find? ⟨cache.entries ++ [(q, d)]⟩ p =
      (cache.find? p).or (if q.same p then some d else none) := by
  rw [find?, List.find?_append, find?]
  cases cache.entries.find? fun e => e.1.same p with
  | some e => rfl
  | none =>
    rw [Option.none_or, List.find?_singleton]
    split <;> rfl

section Call

variable {cache : DocCache} {c : DocCall}

theorem call_of_find?_eq_some {d : Documentation} (h : cache.find? c.path = some d) :
    cache.answer c = .ok d ∧ cache.next c = cache := by
  rw [answer, next, get, h]
  exact ⟨rfl, rfl⟩

theorem call_of_find?_eq_none (h : cache.find? c.path = none) :
    cache.answer c = c.load ∧
      cache.next c = match c.load with
        | .ok d => ⟨cache.entries ++ [(c.path, d)]⟩
        | .error _ => cache := by
  rw [answer, next, get, h, DocCall.load]
  cases load c.disk c.path with
  | error e => exact ⟨rfl, rfl⟩
  | ok d => simp [store, h]

/-- **A call that fails leaves the cache as it is.** -/
theorem next_eq_of_answer_eq_error {e : LoadError} (h : cache.answer c = .error e) :
    cache.next c = cache := by
  cases hfind : cache.find? c.path with
  | some d => exact (call_of_find?_eq_some hfind).2
  | none =>
    obtain ⟨hanswer, hnext⟩ := call_of_find?_eq_none hfind
    rw [hnext, ← hanswer, h]

end Call

namespace Remembers

variable {cache : DocCache} {before : List DocCall} (h : cache.Remembers before) (c : DocCall)

include h

theorem answer_eq : cache.answer c = answerAfter before c := by
  rw [answerAfter, ← h c.path]
  cases hfind : cache.find? c.path with
  | some d => exact (call_of_find?_eq_some hfind).1
  | none => exact (call_of_find?_eq_none hfind).1

/-- **One more call is remembered**, if it is the first one for its path that succeeds. -/
theorem step : (cache.next c).Remembers (before ++ [c]) := by
  intro p
  rw [firstLoaded?_append, firstLoaded?_singleton, ← h p]
  cases hfind : cache.find? c.path with
  | some d =>
    -- nothing is added, and for this path nothing has to be
    rw [(call_of_find?_eq_some hfind).2]
    by_cases hsame : c.path.same p = true
    · rw [← cache.find?_congr hsame, hfind, Option.some_or]
    · rw [DocCall.loadedFor?, if_neg hsame, Option.or_none]
  | none =>
    rw [(call_of_find?_eq_none hfind).2, DocCall.loadedFor?]
    cases c.load with
    | error e => simp [Except.toOption]
    | ok d => exact cache.find?_snoc p c.path d

end Remembers

theorem answers_eq_answered (calls : List DocCall) :
    ∀ {cache : DocCache} {before : List DocCall}, cache.Remembers before →
      cache.answers calls = answered before calls := by
  induction calls with
  | nil => exact fun _ => rfl
  | cons c calls ih =>
    intro cache before h
    rw [answers, answered, h.answer_eq c, ih (h.step c)]

/-- **The cache answers all calls as it should**: with what the first successful call for the same
path has loaded. -/
theorem answers_eq (calls : List DocCall) : answers {} calls = answered [] calls :=
  answers_eq_answered calls remembers_empty

end DocCache

/-! ## First and later calls -/

section First

variable {calls : List DocCall} {before after : List AnsweredCall} {a : AnsweredCall}
  (h : answered [] calls = before ++ a :: after)

include h

/-- Where all calls for a path have failed, none of them could load anything for it. -/
theorem firstLoaded?_eq_none_of_failed
    (hfailed : ∀ b ∈ before, b.call.path.same a.call.path = true → ∀ d, b.answer ≠ .ok d) :
    firstLoaded? (before.map (·.call)) a.call.path = none := by
  rw [Option.eq_none_iff_forall_ne_some]
  intro d hd
  obtain ⟨earlier, c, later, hsplit, hc, hnone⟩ := List.findSome?_eq_some_iff.mp hd
  obtain ⟨hsame, hload⟩ := DocCall.loadedFor?_eq_some_iff.mp hc
  obtain ⟨front, rest, rfl, rfl, hrest⟩ := List.map_eq_append_iff.mp hsplit
  obtain ⟨b, back, rfl, rfl, -⟩ := List.map_eq_cons_iff.mp hrest
  -- the call that could load something was the first one, so it has not failed
  have hb : b.answer = .ok d := by
    have hfirst : firstLoaded? (front.map (·.call)) b.call.path = none := by
      rw [firstLoaded?_congr _ hsame]
      exact List.findSome?_eq_none_iff.mpr hnone
    rw [List.append_assoc, List.cons_append] at h
    rw [answer_of_answered_eq h, List.nil_append, answerAfter, hfirst]
    exact hload
  exact hfailed b (List.mem_append_right _ List.mem_cons_self) hsame d hb

/-- A later call for the same path gets what the first successful one has loaded. -/
theorem answer_of_mem_after {d : Documentation} {b : AnsweredCall} (hb : b ∈ after)
    (hsame : b.call.path.same a.call.path = true) (hload : a.call.load = .ok d)
    (hnone : firstLoaded? (before.map (·.call)) a.call.path = none) : b.answer = .ok d := by
  obtain ⟨front, back, rfl⟩ := List.append_of_mem hb
  have ha : a.call.loadedFor? a.call.path = some d :=
    DocCall.loadedFor?_eq_some_iff.mpr ⟨Path.same_refl _, hload⟩
  rw [List.append_cons, ← List.append_assoc] at h
  rw [answer_of_answered_eq h, List.nil_append, answerAfter, firstLoaded?_congr _ hsame,
    List.map_append, List.map_append, List.map_singleton, firstLoaded?_append, firstLoaded?_append,
    firstLoaded?_singleton, hnone, ha]
  rfl

end First

/-- **Documentation is loaded once.** Calls come one after the other, and between them the files
may change in any way. A call for a path that has not succeeded before gets what its file holds at
that time. If that is documentation, all later calls for the path get the same, whatever has become
of the file. So a call never fails where its file can be loaded; a call that fails leaves the cache
as it is, and the answers to the calls for one path are as if no other calls were made. -/
theorem documentation_loaded_once (calls : List DocCall) :
    let run := DocCache.answers {} calls
    run.map (·.call) = calls ∧
    (∀ before a after, run = before ++ a :: after →
      (∀ b ∈ before, b.call.path.same a.call.path = true → ∀ d, b.answer ≠ .ok d) →
        a.answer = a.call.load ∧
        ∀ d, a.answer = .ok d →
          (∃ text, a.call.disk.read a.call.path = .ok text ∧ Documentation.ofText text = .ok d) ∧
          ∀ b ∈ after, b.call.path.same a.call.path = true → b.answer = .ok d) ∧
    (∀ a ∈ run, ∀ d, a.call.load = .ok d → ∃ d', a.answer = .ok d') ∧
    (∀ (cache : DocCache) c e, cache.answer c = .error e → cache.next c = cache) ∧
    ∀ p, run.filter (·.call.path.same p) = DocCache.answers {} (calls.filter (·.path.same p)) := by
  intro run
  have hrun : run = answered [] calls := DocCache.answers_eq calls
  refine ⟨?_, fun before a after h hfailed => ?_, fun a ha d hload => ?_,
    fun cache c e => DocCache.next_eq_of_answer_eq_error, fun p => ?_⟩
  · rw [hrun, map_call_answered]
  · rw [hrun] at h
    have hnone := firstLoaded?_eq_none_of_failed h hfailed
    have hanswer : a.answer = a.call.load := by
      rw [answer_of_answered_eq h, List.nil_append, answerAfter, hnone]
    refine ⟨hanswer, fun d hd => ?_⟩
    rw [hanswer] at hd
    exact ⟨DocCache.load_ok_iff.mp hd, fun b hb hsame => answer_of_mem_after h hb hsame hd hnone⟩
  · obtain ⟨before, after, h⟩ := List.append_of_mem ha
    rw [hrun] at h
    rw [answer_of_answered_eq h, answerAfter]
    split
    · next d' _ => exact ⟨d', rfl⟩
    · exact ⟨d, hload⟩
  · rw [hrun, filter_answered, DocCache.answers_eq]
    rfl

end DocAudit
