import StatusShell.Console
import StatusShell.Proofs.CursorLimit
import StatusShell.Proofs.Display
import StatusShell.Proofs.Termination

namespace StatusShell

variable {σ : Type}

theorem Fault.message_ne_empty {fault : Fault} (h : fault.isExecution = true) :
    fault.message ≠ "" := by
  have hnamed : ∃ program rest, fault.message = program ++ ": " ++ rest := by
    rcases fault with _ | _ | _ | _ | program | ⟨program, cause⟩
    case unexplained => exact ⟨program, "failed to execute", by simp [message, String.append_assoc]⟩
    case execution => cases cause <;> exact ⟨program, _, rfl⟩
    all_goals cases h
  obtain ⟨program, rest, hmessage⟩ := hnamed
  rw [hmessage]
  intro hempty
  have hlength := congrArg String.length hempty
  simp at hlength

/-- The run reports that its source was rejected. -/
def SourceRun.ReportsRejection (run : SourceRun σ) : Prop :=
  ∃ report, run.ending = .value report ∧ report.exitCode = 2 ∧ report.error ≠ none

namespace Source

variable {frames : Nat} {executor : Executor σ} {allowance : Nat} {source : Source} {start : σ}

theorem report_cases {report : Report}
    (h : (source.run frames executor allowance start).ending = .value report) :
    (∃ rejection, source.parse frames = .error rejection ∧ report = .rejected rejection) ∨
      (∃ statements, source.parse frames = .ok statements) ∧
        (report.error = none ∨ ∃ fault : Fault, fault.isExecution = true ∧
          report.error = some fault.message ∧ (report.exitCode = 127 ∨ report.exitCode = 126)) := by
  rcases hparse : source.parse frames with rejection | statements
  · simp only [Source.run, hparse] at h
    cases h
    exact .inl ⟨rejection, rfl, rfl⟩
  · simp only [Source.run, hparse] at h
    refine .inr ⟨⟨statements, rfl⟩, ?_⟩
    -- Statements that end report no error; of the faults only some are reported at all.
    rcases hending : (execScript executor allowance statements ⟨0, 0, start⟩).ending with
      status | fault | _
    · rw [hending] at h
      cases h
      exact .inl rfl
    · rw [hending, Report.ofEnding] at h
      split at h
      · next hexecution =>
          cases h
          refine .inr ⟨fault, hexecution, rfl, ?_⟩
          cases fault.isNotFound
          · exact .inr rfl
          · exact .inl rfl
      · cases h
    · rw [hending] at h
      cases h

theorem error_ne_empty_of_run {report : Report}
    (h : (source.run frames executor allowance start).ending = .value report) :
    report.error ≠ some "" := by
  rcases report_cases h with
    ⟨rejection, -, rfl⟩ | ⟨-, herror | ⟨fault, hexecution, herror, -⟩⟩
  · show some "failed to parse" ≠ some ""
    decide
  · rw [herror]
    rintro ⟨⟩
  · rw [herror]
    exact fun hempty => Fault.message_ne_empty hexecution (Option.some.inj hempty)

theorem reportsRejection_iff :
    (source.run frames executor allowance start).ReportsRejection ↔
      ∃ rejection, source.parse frames = .error rejection := by
  constructor
  · rintro ⟨report, hending, hcode, herror⟩
    rcases report_cases hending with
      ⟨rejection, hparse, -⟩ | ⟨-, hnone | ⟨fault, -, -, hother⟩⟩
    · exact ⟨rejection, hparse⟩
    · exact absurd hnone herror
    · omega
  · rintro ⟨rejection, hparse⟩
    refine ⟨.rejected rejection, ?_, rfl, ?_⟩
    · simp only [Source.run, hparse]
    · rintro ⟨⟩

theorem parse_eq_of_ne_tooDeep {frames' : Nat} (h : source.parse frames ≠ .error .tooDeep)
    (h' : source.parse frames' ≠ .error .tooDeep) :
    source.parse frames = source.parse frames' := by
  rcases hchars : source.chars with rejection | text
  · rw [parse, parse, hchars]
    rfl
  · have hread : ∀ frames, source.parse frames = readText frames text := by
      intro frames
      rw [parse, hchars]
      rfl
    rw [hread] at h h'
    rw [hread, hread]
    rcases Nat.le_total frames frames' with hle | hle
    · exact (Grammar.Cursor.readText_eq_of_le hle h).symm
    · exact Grammar.Cursor.readText_eq_of_le hle h'

end Source

namespace CommandLine

namespace Frontend

section

variable (frontend : Frontend)

/-- What the tool writes about an error, if there is one. -/
def errorLine : Option String → String
  | none => ""
  | some error => frontend.echo ("cinnamon: " ++ error ++ "\n")

/-- The tool ran a script, and ends as the run does. -/
structure Ran (run : SourceRun Host) (conclusion : Conclusion) : Prop where
  reported {report : Report} : run.ending = .value report → report.error ≠ some "" ∧
    conclusion = .exits report.exitCode "" (frontend.errorLine report.error)
  verbatim {report : Report} {error : String} : run.ending = .value report →
    report.error = some error → '\x1b' ∉ error.toList →
      conclusion = .exits report.exitCode "" ("cinnamon: " ++ error ++ "\n")
  escaped {fault : Fault} : run.ending = .fault fault →
    fault.isInterrupt = false ∨ frontend.settle fault = none → conclusion = .breaks fault ""
  settled {fault : Fault} {code : Nat} {words : String} : run.ending = .fault fault →
    frontend.settle fault = some (code, words) → conclusion = .exits code "" words

end

/-- The tool listed a script, and tells apart what the run does. -/
structure Listed (frames : Nat) (source : Source) (run : SourceRun Host)
    (conclusion : Conclusion) : Prop where
  rejected : run.ReportsRejection → conclusion = .exits 2 "" "cinnamon: failed to parse\n"
  listed : ¬ run.ReportsRejection → ∃ statements, source.parse frames = .ok statements ∧
    conclusion = .exits 0 (StatusShell.listing statements) ""

variable {frontend : Frontend}

theorem complaint_eq (message : String) :
    frontend.complaint message = frontend.errorLine (some message) := rfl

theorem conclude_of_report {run : SourceRun Host} {report : Report}
    (h : run.ending = .value report) (herror : report.error ≠ some "") :
    frontend.conclude false run = .exits report.exitCode "" (frontend.errorLine report.error) := by
  have htold : report.error.filter (· ≠ "") = report.error := by
    rcases hreport : report.error with _ | error
    · rfl
    · rw [hreport] at herror
      simpa using herror
  simp only [conclude, h, htold]
  rcases report.error with _ | error
  · rfl
  · simp [complaint_eq]

section

variable (hlawful : frontend.Lawful)
include hlawful

theorem errorLine_eq {error : String} (h : '\x1b' ∉ error.toList) :
    frontend.errorLine (some error) = "cinnamon: " ++ error ++ "\n" := by
  apply hlawful.echo_eq
  simp [h]

theorem ran_conclude (frames : Nat) (source : Source) (executor : Executor Host)
    (allowance : Nat) (host : Host) :
    frontend.Ran (source.run frames executor allowance host)
      (frontend.conclude false (source.run frames executor allowance host)) where
  reported hending := by
    have herror := Source.error_ne_empty_of_run hending
    exact ⟨herror, conclude_of_report hending herror⟩
  verbatim hending herror hplain := by
    rw [conclude_of_report hending (Source.error_ne_empty_of_run hending), herror,
      errorLine_eq hlawful hplain]
  escaped hending hthrough := by
    have hnone := hthrough.elim hlawful.settle_eq_none id
    simp only [conclude, hending, release, hnone]
    rfl
  settled hending hsome := by
    simp only [conclude, hending, release, hsome]
    simp

theorem listed_listSource (frames : Nat) (source : Source) (executor : Executor Host)
    (allowance : Nat) (host : Host) {frames' : Nat}
    (h : source.parse frames' = source.parse frames) :
    Listed frames source (source.run frames' executor allowance host)
      (frontend.listSource frames source) where
  rejected hrejection := by
    obtain ⟨rejection, hparse⟩ := Source.reportsRejection_iff.mp hrejection
    simp only [listSource, h ▸ hparse, complaint_eq]
    have hplain : '\x1b' ∉ "failed to parse".toList := by decide
    exact congrArg (Conclusion.exits 2 "") (errorLine_eq hlawful hplain)
  listed hread := by
    rcases hparse : source.parse frames with rejection | statements
    · exact absurd (Source.reportsRejection_iff.mpr ⟨rejection, h.trans hparse⟩) hread
    · refine ⟨statements, rfl, ?_⟩
      have hecho := hlawful.echo_eq (Source.escape_not_mem_listing hparse)
      simp only [listSource, hparse, hecho]

end

end Frontend

namespace Options

theorem take_listingOption (options : Options) :
    options.take listingOption = some { options with listing := true } := rfl

theorem take_of_paths {name : String} {taken : Options} (h : unset.take name = some taken)
    (hpaths : taken.paths ≠ []) (options : Options) :
    options.take name = some { options with paths := options.paths ++ [name] } := by
  have hother : ∀ {other : Options}, other.paths = [] → some other ≠ some taken := by
    rintro _ hnil ⟨⟩
    exact hpaths hnil
  rw [take] at h ⊢
  split_ifs at h ⊢
  · exact absurd h (hother rfl)
  · exact absurd h (hother rfl)
  · exact absurd h (hother rfl)
  · exact absurd h (hother rfl)
  · split at h
    · split_ifs at h
      exact absurd h (hother rfl)
    · rfl

theorem takeAll_replicate (options : Options) (count : Nat) (args : List String) :
    options.takeAll (List.replicate count listingOption ++ args) =
      takeAll { options with listing := options.listing || 0 < count } args := by
  induction count generalizing options with
  | zero => simp
  | succ count ih =>
      rw [List.replicate_succ, List.cons_append, takeAll, if_neg (by decide), take_listingOption]
      simp [ih]

theorem paths_ne_nil_of_order {options : Options} {listing verbose : Bool} {path : Path}
    (h : options.order = .handle listing verbose path) : options.paths ≠ [] := by
  intro hpaths
  rw [order, hpaths] at h
  cases hnotice : options.notice <;> simp [hnotice] at h

theorem order_single (listing : Bool) (name : String) :
    order ⟨listing, false, none, [name]⟩ =
      if name.toList.contains '\x00' then .misuse else .handle listing false (.ofString name) := rfl

end Options

namespace Order

open Options

theorem ofArgs_scriptArgs {name : String} {path : Path}
    (h : ofArgs [name] = .handle false false path) (before behind : Nat) :
    ofArgs (scriptArgs before name behind) = .handle (0 < before + behind) false path := by
  have hdashes : name ≠ "--" := by
    rintro rfl
    cases h
  have htakeAll : ∀ options : Options, ∀ args,
      options.takeAll (name :: args) = (options.take name).bind (·.takeAll args) := by
    intro options args
    rw [takeAll, if_neg hdashes]
    cases options.take name <;> rfl
  rw [ofArgs, htakeAll] at h
  rcases htake : unset.take name with _ | taken
  · rw [htake] at h
    cases h
  · rw [htake] at h
    have horder : taken.order = .handle false false path := h
    have htake' := take_of_paths htake (paths_ne_nil_of_order horder)
    obtain rfl : { unset with paths := [name] } = taken :=
      Option.some.inj ((htake' unset).symm.trans htake)
    have hread : ∀ listing, Options.order ⟨listing, false, none, [name]⟩ =
        .handle listing false path := by
      intro listing
      have hsingle := (order_single false name).symm.trans horder
      rw [order_single]
      split_ifs at hsingle ⊢
      cases hsingle
      rfl
    have hsome : (scriptArgs before name behind).isEmpty = false := by
      cases before <;> rfl
    have hbehind := List.append_nil (List.replicate behind listingOption)
    rw [ofArgs, hsome, scriptArgs, takeAll_replicate, htakeAll, htake', Option.bind_some, ← hbehind,
      takeAll_replicate]
    have hlisting : (decide (0 < before) || decide (0 < behind)) =
        decide (0 < before + behind) := by
      rw [Bool.eq_iff_iff]
      simp only [Bool.or_eq_true, decide_eq_true_eq]
      omega
    rw [← hlisting]
    exact hread _

end Order

theorem console_lawful : console.Lawful where
  order_scriptArgs := Order.ofArgs_scriptArgs
  echo_eq := Text.plain_eq_self
  settle_eq_none h := by
    simp only [console, h]
    rfl

end CommandLine

end StatusShell
