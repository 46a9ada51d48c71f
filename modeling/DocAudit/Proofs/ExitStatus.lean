import DocAudit.Proofs.PrintedSummary
import DocAudit.Proofs.Reporting
import DocAudit.Proofs.Tallies
import DocAudit.Run
/-!
# What the exit status tells

A run ends with an exit status and, unless it was stopped, with a printed summary. Both tell how
the checks of its libraries came out, and they tell the same.

* `Outcome.ofLibraries`: how the checks come out.
* `CheckRequest`: the files and what the command line says.
* **`exit_status_tells_summary`**: the exit status and the summary of a run.
-/

namespace DocAudit

/-! ## Outcomes -/

/-- How the check of a library came out: its tree, or why there is none. -/
abbrev Outcome := Except LoadError Coverage

namespace Outcome

/-- The library could not be loaded. -/
def isFatal : Outcome → Bool
  | .ok _ => false
  | .error _ => true

/-- The tree of the library has errors. -/
def hasErrors : Outcome → Bool
  | .ok c => c.hasErrors
  | .error _ => false

/-- The number of errors at the root of the tree. -/
def errors : Outcome → Nat
  | .ok c => c.errors
  | .error _ => 0

def failed (o : Outcome) : Bool := o.isFatal || o.hasErrors

/-- How the checks of libraries come out, one after the other. -/
def ofLibraries (disk : Disk) (options : AuditOptions) : DocCache → List Path → List Outcome
  | _, [] => []
  | cache, library :: libraries =>
    let c := checkLibrary disk options cache library
    c.outcome :: ofLibraries disk options c.cache libraries

theorem length_ofLibraries (disk : Disk) (options : AuditOptions) (cache : DocCache)
    (libraries : List Path) :
    (ofLibraries disk options cache libraries).length = libraries.length := by
  induction libraries generalizing cache with
  | nil => rfl
  | cons library libraries ih => rw [ofLibraries, List.length_cons, ih, List.length_cons]

end Outcome

theorem map_checkLibraries {α : Type} (disk : Disk) (root : Path) (options : AuditOptions)
    (f : LibraryReport → α) (g : Outcome → α)
    (hfg : ∀ library c, f (LibraryReport.ofCheck root library c) = g c.outcome)
    (cache : DocCache) (libraries : List Path) :
    (checkLibraries disk root options cache libraries).1.map (fun l => f l.report) =
      (Outcome.ofLibraries disk options cache libraries).map g := by
  induction libraries generalizing cache with
  | nil => rfl
  | cons library libraries ih =>
    rw [checkLibraries, Outcome.ofLibraries, List.map_cons, List.map_cons, ih, hfg]

namespace LibraryReport

variable (root library : Path) (c : LibraryCheck)

theorem isSome_error_ofCheck :
    (ofCheck root library c).error.isSome = Outcome.isFatal c.outcome := by
  unfold ofCheck
  cases c.outcome <;> rfl

theorem failed_ofCheck : (ofCheck root library c).failed = Outcome.failed c.outcome := by
  unfold ofCheck
  cases c.outcome <;> rfl

theorem errors_ofCheck : (ofCheck root library c).errors = Outcome.errors c.outcome := by
  unfold ofCheck
  cases c.outcome <;> rfl

end LibraryReport

/-! ## Errors of a tree -/

theorem outcome_checkLibrary {disk : Disk} {options : AuditOptions} {cache : DocCache}
    {library : Path} {c : Coverage}
    (h : (checkLibrary disk options cache library).outcome = .ok c) :
    ∃ c₀ : Coverage, c = c₀.aggregate := by
  unfold checkLibrary at h
  split at h
  · cases h
  · split at h
    · cases h
    · dsimp only at h
      rw [Auditor.result_check] at h
      cases h
      exact ⟨_, rfl⟩

theorem Outcome.hasErrors_iff {disk : Disk} {options : AuditOptions} {cache : DocCache}
    {libraries : List Path} {o : Outcome} (h : o ∈ ofLibraries disk options cache libraries) :
    o.hasErrors = true ↔ 0 < o.errors := by
  induction libraries generalizing cache with
  | nil => cases h
  | cons library libraries ih =>
    rcases List.mem_cons.mp h with heq | h
    · cases o with
      | error e => exact iff_of_false Bool.false_ne_true (Nat.lt_irrefl 0)
      | ok c =>
        obtain ⟨c₀, rfl⟩ := outcome_checkLibrary heq.symm
        exact c₀.tallied_aggregate.pos_iff
    · exact ih h

/-! ## Options for reporting -/

/-- What is reported plays no part in how a check comes out. -/
theorem checkLibrary_onlyMissing (disk : Disk) (o : AuditOptions) (cache : DocCache)
    (library : Path) (onlyMissing : Bool) :
    (checkLibrary disk { o with onlyMissing } cache library).outcome =
        (checkLibrary disk o cache library).outcome ∧
      (checkLibrary disk { o with onlyMissing } cache library).cache =
        (checkLibrary disk o cache library).cache := by
  unfold checkLibrary
  split
  · exact ⟨rfl, rfl⟩
  · split
    · exact ⟨rfl, rfl⟩
    · dsimp only
      rw [Auditor.result_check, Auditor.result_check]
      exact ⟨rfl, rfl⟩

theorem Outcome.ofLibraries_onlyMissing (disk : Disk) (o : AuditOptions) (onlyMissing : Bool)
    (cache : DocCache) (libraries : List Path) :
    ofLibraries disk { o with onlyMissing } cache libraries =
      ofLibraries disk o cache libraries := by
  induction libraries generalizing cache with
  | nil => rfl
  | cons library libraries ih =>
    obtain ⟨houtcome, hcache⟩ := checkLibrary_onlyMissing disk o cache library onlyMissing
    rw [ofLibraries, ofLibraries, houtcome, hcache, ih]

theorem Settings.resolve_eq (disk : Disk) (given : GivenSettings) :
    (resolve disk given).1 =
      merge (detectRoot disk ⟨given.root.getD "."⟩) given
        ((SettingsFile.load disk (detectRoot disk ⟨given.root.getD "."⟩)).1.getD {}) := by
  unfold resolve
  generalize detectRoot disk ⟨given.root.getD "."⟩ = root
  dsimp only

/-! ## Runs -/

namespace CheckRun

theorem summarises_lines (r : CheckRun) (color : Bool) {checked : List CheckedLibrary}
    (h : r.checked = some checked) :
    Summarises (r.lines color) (Totals.ofReports (checked.map (·.report))) := by
  unfold lines
  rw [h]
  dsimp only
  unfold Console.reports
  by_cases hjson : Console.isJson r.output = true
  · rw [if_pos hjson, if_pos hjson, List.nil_append]
    exact .document _ _
  · rw [if_neg hjson, if_neg hjson, Console.reportLines, List.map_append, ← List.append_assoc]
    exact .line _ _ _

end CheckRun

/-- A check that is asked for: the files, whether colours are wanted, and what the words of the
command line say. -/
structure CheckRequest where
  disk : Disk
  color : Bool
  verbose : Bool
  quiet : Bool
  libraries : List String
  root : Option String
  output : Option String
  reportAll : Bool
  includeDelegateMembers : Bool

namespace CheckRequest

variable (q : CheckRequest)

def command : Command where
  verbose := q.verbose
  quiet := q.quiet
  action := .check q.libraries q.root q.output q.reportAll q.includeDelegateMembers

/-- What the program leaves behind. -/
def result : ProgramResult := q.command.run q.disk q.color

/-- The settings from the command line. -/
def given : GivenSettings where
  root := q.root
  libraries := q.libraries
  output := q.output
  onlyMissing := if q.reportAll then some false else none
  skipDelegateMembers := if q.includeDelegateMembers then some false else none

def settings : Settings := (Settings.resolve q.disk q.given).1

/-- The libraries that the settings stand for. -/
def paths : List Path :=
  (Expansion.ofPatterns q.disk q.settings.root q.settings.libraries).found

/-- How the checks of the libraries come out. -/
def outcomes : List Outcome := Outcome.ofLibraries q.disk q.settings.options {} q.paths

/-- The numbers that the outcomes give. -/
def totals : Totals where
  libraries := q.paths.length
  failed := q.outcomes.countP Outcome.failed
  errors := (q.outcomes.map Outcome.errors).foldr (· + ·) 0

/-- The run behind a request. -/
def run : CheckRun := CheckRun.start q.disk q.given

theorem result_eq : q.result =
    { exitCode := q.run.exitCode
      out := q.run.lines q.color
      err := q.run.notices.filterMap (Notice.line? q.command.logLevel q.color) } := rfl

theorem runProgram_of_parse {words : List String} (h : Command.parse words = .ok q.command) :
    runProgram q.disk q.color words = .ok q.result := by
  rw [runProgram, h]
  rfl

theorem checked_run : q.run.checked =
    if q.settings.libraries = [] ∨ q.paths = [] then none
    else some (checkLibraries q.disk q.settings.root q.settings.options {} q.paths).1 := by
  unfold run paths settings CheckRun.start
  obtain ⟨s, events⟩ := Settings.resolve q.disk q.given
  dsimp only
  by_cases hlibraries : s.libraries = []
  · rw [if_pos (by simp [Settings.hasLibraries, hlibraries]), if_pos (.inl hlibraries)]
  · rw [if_neg (by simp [Settings.hasLibraries, hlibraries])]
    by_cases hpaths : (Expansion.ofPatterns q.disk s.root s.libraries).found = []
    · rw [if_pos hpaths]
      exact (if_pos (.inr hpaths)).symm
    · rw [if_neg hpaths]
      exact (if_neg (not_or.mpr ⟨hlibraries, hpaths⟩)).symm

theorem map_report_checked {α : Type} (f : LibraryReport → α) (g : Outcome → α)
    (hfg : ∀ library c, f (LibraryReport.ofCheck q.settings.root library c) = g c.outcome) :
    (checkLibraries q.disk q.settings.root q.settings.options {} q.paths).1.map
      (fun l => f l.report) = q.outcomes.map g :=
  map_checkLibraries _ _ _ f g hfg _ _

theorem any_report_checked (f : LibraryReport → Bool) (g : Outcome → Bool)
    (hfg : ∀ library c, f (LibraryReport.ofCheck q.settings.root library c) = g c.outcome) :
    (checkLibraries q.disk q.settings.root q.settings.options {} q.paths).1.any
      (fun l => f l.report) = q.outcomes.any g := by
  have h := congrArg (List.any · id) (q.map_report_checked f g hfg)
  simpa only [List.any_map, Function.id_comp] using h

theorem ofReports_checked :
    Totals.ofReports
      ((checkLibraries q.disk q.settings.root q.settings.options {} q.paths).1.map (·.report)) =
      q.totals := by
  have hfailed := q.map_report_checked LibraryReport.failed Outcome.failed
    (LibraryReport.failed_ofCheck _)
  have herrors := q.map_report_checked LibraryReport.errors Outcome.errors
    (LibraryReport.errors_ofCheck _)
  have hlength := congrArg List.length hfailed
  have hcount := congrArg (List.countP id) hfailed
  rw [List.length_map, List.length_map] at hlength
  simp only [List.countP_map, Function.id_comp] at hcount
  simp only [Totals.ofReports, totals, List.length_map, List.countP_map, List.map_map,
    Function.comp_def, herrors, hcount, hlength]
  rw [outcomes, Outcome.length_ofLibraries]

theorem totals_failed : q.totals.failed = q.outcomes.countP Outcome.failed := by
  simp only [totals]

theorem totals_errors :
    q.totals.errors = (q.outcomes.map Outcome.errors).foldr (· + ·) 0 := by
  simp only [totals]

/-- **Errors make a library fail.** -/
theorem failed_pos_of_errors_pos (h : 0 < q.totals.errors) : 0 < q.totals.failed := by
  rw [totals_errors, ← List.sum_eq_foldr, List.sum_pos_iff_exists_pos_nat] at h
  obtain ⟨n, hn, hpos⟩ := h
  obtain ⟨o, ho, rfl⟩ := List.mem_map.mp hn
  rw [totals_failed, List.countP_pos_iff]
  refine ⟨o, ho, ?_⟩
  rw [Outcome.failed, (Outcome.hasErrors_iff ho).mpr hpos, Bool.or_true]

/-! ### The exit status -/

theorem exitCode_of_stopped (h : q.settings.libraries = [] ∨ q.paths = []) :
    q.result.exitCode = 2 := by
  rw [result_eq, CheckRun.exitCode, checked_run, if_pos h]

theorem exitCode_of_checked (h : ¬ (q.settings.libraries = [] ∨ q.paths = [])) :
    q.result.exitCode =
      if q.outcomes.any Outcome.isFatal then 2
      else if q.outcomes.any Outcome.failed then 1
      else 0 := by
  rw [result_eq, CheckRun.exitCode, checked_run, if_neg h]
  dsimp only
  rw [q.any_report_checked (fun r => r.error.isSome) Outcome.isFatal
      (LibraryReport.isSome_error_ofCheck _),
    q.any_report_checked LibraryReport.failed Outcome.failed (LibraryReport.failed_ofCheck _)]

/-- **The exit status tells what went wrong.** -/
theorem exitCode_result : q.result.exitCode =
    if q.settings.libraries = [] ∨ q.paths = [] ∨ ∃ o ∈ q.outcomes, o.isFatal = true then 2
    else if ∃ o ∈ q.outcomes, o.hasErrors = true then 1
    else 0 := by
  by_cases hstopped : q.settings.libraries = [] ∨ q.paths = []
  · rw [q.exitCode_of_stopped hstopped, if_pos (hstopped.imp_right .inl)]
  rw [q.exitCode_of_checked hstopped]
  by_cases hfatal : ∃ o ∈ q.outcomes, o.isFatal = true
  · rw [if_pos (List.any_eq_true.mpr hfatal), if_pos (.inr (.inr hfatal))]
  rw [if_neg (c := q.outcomes.any Outcome.isFatal = true) (fun h => hfatal (List.any_eq_true.mp h)),
    if_neg (c := _ ∨ _) (fun h => hstopped (h.imp_right (Or.resolve_right · hfatal)))]
  -- no library is fatal, so one fails exactly when its tree has errors
  have hfailed : q.outcomes.any Outcome.failed = true ↔ ∃ o ∈ q.outcomes, o.hasErrors = true := by
    rw [List.any_eq_true]
    refine exists_congr fun o => and_congr_right fun ho => ?_
    have hloaded : o.isFatal = false := Bool.eq_false_iff.mpr fun h => hfatal ⟨o, ho, h⟩
    rw [Outcome.failed, hloaded, Bool.false_or]
  by_cases herrors : ∃ o ∈ q.outcomes, o.hasErrors = true
  · rw [if_pos (hfailed.mpr herrors), if_pos herrors]
  · rw [if_neg (fun h => herrors (hfailed.mp h)), if_neg herrors]

theorem exitCode_eq_zero_iff : q.result.exitCode = 0 ↔
    ¬ (q.settings.libraries = [] ∨ q.paths = []) ∧ q.totals.failed = 0 := by
  by_cases hstopped : q.settings.libraries = [] ∨ q.paths = []
  · rw [q.exitCode_of_stopped hstopped]
    exact iff_of_false (by omega) fun h => h.1 hstopped
  rw [q.exitCode_of_checked hstopped, totals_failed, List.countP_eq_zero]
  by_cases hfailed : q.outcomes.any Outcome.failed = true
  · obtain ⟨o, ho, hofailed⟩ := List.any_eq_true.mp hfailed
    refine iff_of_false ?_ fun h => h.2 o ho hofailed
    rw [if_pos hfailed]
    split <;> omega
  · have hfatal : ¬ q.outcomes.any Outcome.isFatal = true := by
      intro h
      obtain ⟨o, ho, hofatal⟩ := List.any_eq_true.mp h
      exact hfailed (List.any_eq_true.mpr ⟨o, ho, by rw [Outcome.failed, hofatal, Bool.true_or]⟩)
    rw [if_neg hfatal, if_neg hfailed]
    exact iff_of_true rfl
      ⟨hstopped, fun o ho h => hfailed (List.any_eq_true.mpr ⟨o, ho, h⟩)⟩

/-! ### The summary -/

/-- **A summary is printed unless there is nothing to check, and it has the numbers of the
outcomes.** -/
theorem summarises_out_iff (t : Totals) : Summarises q.result.out t ↔
    ¬ (q.settings.libraries = [] ∨ q.paths = []) ∧ t = q.totals := by
  rw [result_eq]
  dsimp only
  by_cases hstopped : q.settings.libraries = [] ∨ q.paths = []
  · rw [CheckRun.lines, checked_run, if_pos hstopped]
    exact iff_of_false (not_summarises_nil t) fun h => h.1 hstopped
  · have hprinted := q.run.summarises_lines q.color (q.checked_run.trans (if_neg hstopped))
    rw [ofReports_checked] at hprinted
    constructor
    · exact fun h => ⟨hstopped, h.unique hprinted⟩
    · rintro ⟨-, rfl⟩
      exact hprinted

/-! ### Other ways to print -/

variable (output : Option String) (reportAll : Bool)

theorem settings_output_reportAll : ∃ output' onlyMissing,
    ({ q with output, reportAll } : CheckRequest).settings =
      { q.settings with
        output := output', options := { q.settings.options with onlyMissing } } := by
  rw [settings, settings, Settings.resolve_eq, Settings.resolve_eq]
  exact ⟨_, _, rfl⟩

theorem paths_output_reportAll :
    ({ q with output, reportAll } : CheckRequest).paths = q.paths := by
  obtain ⟨_, _, h⟩ := q.settings_output_reportAll output reportAll
  rw [paths, h, paths]

theorem outcomes_output_reportAll :
    ({ q with output, reportAll } : CheckRequest).outcomes = q.outcomes := by
  obtain ⟨_, _, h⟩ := q.settings_output_reportAll output reportAll
  rw [outcomes, paths_output_reportAll, h, outcomes, Outcome.ofLibraries_onlyMissing]

theorem totals_output_reportAll :
    ({ q with output, reportAll } : CheckRequest).totals = q.totals := by
  rw [totals, paths_output_reportAll, outcomes_output_reportAll, totals]

end CheckRequest

/-- **The exit status tells what the summary tells.** This is so whichever words ask for the check,
and whatever the files are. The exit status is 2 if there is nothing to
check or some library could not be loaded, else 1 if some tree has errors, else 0. A summary is
printed unless there is nothing to check. It has the number of libraries, the number of those that
could not be loaded or have errors, and all errors at the roots of the trees. So the exit status is
0 when a summary without failed libraries is printed, and only then; and there are no errors
without a failed library. Neither the kind of output nor what is reported changes the exit status
or these numbers. -/
theorem exit_status_tells_summary (q : CheckRequest) :
    (∀ words, Command.parse words = .ok q.command →
      runProgram q.disk q.color words = .ok q.result) ∧
    q.result.exitCode =
      (if q.settings.libraries = [] ∨ q.paths = [] ∨ ∃ o ∈ q.outcomes, o.isFatal = true then 2
      else if ∃ o ∈ q.outcomes, o.hasErrors = true then 1
      else 0) ∧
    (∀ t, Summarises q.result.out t ↔ ¬ (q.settings.libraries = [] ∨ q.paths = []) ∧ t = q.totals) ∧
    (q.result.exitCode = 0 ↔ ∃ t, Summarises q.result.out t ∧ t.failed = 0) ∧
    (∀ t, Summarises q.result.out t → 0 < t.errors → 0 < t.failed) ∧
    ∀ output reportAll,
      (CheckRequest.result { q with output, reportAll }).exitCode = q.result.exitCode ∧
        ∀ t, Summarises (CheckRequest.result { q with output, reportAll }).out t ↔
          Summarises q.result.out t := by
  refine ⟨fun words => q.runProgram_of_parse, q.exitCode_result, q.summarises_out_iff, ?_, ?_,
    fun output reportAll => ⟨?_, ?_⟩⟩
  · rw [q.exitCode_eq_zero_iff]
    constructor
    · rintro ⟨hstarted, hfailed⟩
      exact ⟨q.totals, (q.summarises_out_iff _).mpr ⟨hstarted, rfl⟩, hfailed⟩
    · rintro ⟨t, ht, hfailed⟩
      obtain ⟨hstarted, rfl⟩ := (q.summarises_out_iff t).mp ht
      exact ⟨hstarted, hfailed⟩
  · intro t ht herrors
    obtain ⟨-, rfl⟩ := (q.summarises_out_iff t).mp ht
    exact q.failed_pos_of_errors_pos herrors
  · obtain ⟨_, _, hsettings⟩ := q.settings_output_reportAll output reportAll
    rw [CheckRequest.exitCode_result, CheckRequest.exitCode_result, q.paths_output_reportAll,
      q.outcomes_output_reportAll, hsettings]
  · intro t
    obtain ⟨_, _, hsettings⟩ := q.settings_output_reportAll output reportAll
    rw [CheckRequest.summarises_out_iff, CheckRequest.summarises_out_iff,
      q.paths_output_reportAll, q.totals_output_reportAll, hsettings]

end DocAudit
