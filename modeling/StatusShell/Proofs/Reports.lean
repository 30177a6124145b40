import StatusShell.Proofs.Accounts
import StatusShell.Proofs.Shape
import StatusShell.Report

namespace StatusShell

variable {σ : Type}

namespace Node

mutual

theorem stray?_of_wellFormed : (node : Node) → node.wellFormed = true → node.stray? = none
  | .comment _, _ => rfl
  | .command _, _ => rfl
  | .block statements, h => by
      rw [wellFormed] at h
      exact firstStray?_of_wellFormedAll statements h
  | .ifThen predicate branch, h => by
      simp only [wellFormed, Bool.and_eq_true] at h
      exact stray?_of_wellFormed branch h.2
  | .ifElse predicate branch otherwise, h => by
      simp only [wellFormed, Bool.and_eq_true] at h
      rw [stray?, stray?_of_wellFormed branch h.1.1.2, stray?_of_wellFormed otherwise h.2]
      rfl
  | .loop predicate body, h => by
      simp only [wellFormed, Bool.and_eq_true] at h
      exact stray?_of_wellFormed body h.2
  | .stray _, h => by
      rw [wellFormed] at h
      cases h

theorem firstStray?_of_wellFormedAll : (statements : List Node) →
    wellFormedAll statements = true → firstStray? statements = none
  | [], _ => rfl
  | statement :: statements, h => by
      simp only [wellFormedAll, Bool.and_eq_true] at h
      rw [firstStray?, stray?_of_wellFormed statement h.1,
        firstStray?_of_wellFormedAll statements h.2]
      rfl

end

end Node

namespace Status

/-- The code that a shell would show for a status, before it is clamped: a
signal is counted up from 128, and a verdict has the code 1. -/
def shellCode : Status → Int
  | .process code => if code < 0 then 128 - code else code
  | .verdict _ _ => 1

theorem exitCode_le (status : Option Status) : exitCode status ≤ 255 := by
  rcases status with _ | code | ⟨label, success⟩
  · exact Nat.zero_le _
  · rw [exitCode, codeOf]
    split <;> omega
  · rw [exitCode]
    split <;> omega

theorem exitCode_eq_zero_iff {status : Option Status} : exitCode status = 0 ↔ Passing status := by
  rcases status with _ | code | ⟨label, success⟩
  · simp [exitCode, Passing]
  · simp only [exitCode, codeOf, Passing, Option.mem_def, Option.some.injEq, forall_eq', succeeded,
      decide_eq_true_eq]
    split <;> omega
  · cases success <;> simp [exitCode, Passing, succeeded]

theorem exitCode_of_failure {status : Status} (h : status.succeeded = false) :
    (exitCode (some status) : Int) = max 1 (min status.shellCode 255) := by
  cases status with
  | process code =>
      have hcode : code ≠ 0 := by simpa [succeeded] using h
      rw [exitCode, codeOf, shellCode]
      split <;> omega
  | verdict label success =>
      obtain rfl : success = false := h
      rfl

end Status

theorem Source.firstStray?_of_parse {frames : Nat} {source : Source} {statements : List Node}
    (h : source.parse frames = .ok statements) : Node.firstStray? statements = none := by
  obtain ⟨text, htext⟩ := exists_readText_of_parse h
  exact Node.firstStray?_of_wellFormedAll statements (wellFormedAll_of_readText htext)

theorem Fault.isNotFound_iff {fault : Fault} : fault.isNotFound = true ↔
    ∃ program os, fault = .execution program (.os os) ∧ os.kind = .notFound := by
  constructor
  · intro h
    rw [isNotFound.eq_def] at h
    split at h
    · next program os => exact ⟨program, os, rfl, by simpa using h⟩
    · cases h
  · rintro ⟨program, os, rfl, hkind⟩
    simp [isNotFound, hkind]

theorem Request.answer_of_fault? {request : Request} {fault : Fault}
    (h : request.fault? = some fault) (hother : fault.isExecution = false) :
    request.answer = .fault fault ∧ ∀ os, fault ≠ .os os := by
  rw [Request.fault?] at h
  split at h
  · cases h
  · next cause hanswer =>
      have hcause : ∀ os, cause ≠ .os os := by
        rintro os rfl
        cases h
        cases hother
      rw [Fault.blamedOn_eq_self hcause] at h
      cases h
      exact ⟨hanswer, hcause⟩

theorem exists_mem_of_lastAnswer {made : List Request} {answer : Answer}
    (h : lastAnswer made = some answer) :
    ∃ request ∈ made, request.role = .statement ∧ request.answer = answer := by
  obtain ⟨request, hlast, hanswer⟩ := Option.map_eq_some_iff.mp h
  obtain ⟨hmem, hrole⟩ := List.mem_filter.mp (List.mem_of_getLast? hlast)
  exact ⟨request, hmem, of_decide_eq_true hrole, hanswer⟩

/-- A request that succeeded, if it was made for a statement. -/
def Request.Passed (request : Request) : Prop :=
  request.role = .statement → ∃ status, request.answer = .status status ∧ status.succeeded = true

namespace Trace.FailFast

variable {trace : Trace σ (Option Status)} {request : Request}

theorem ending_of_fault? (h : trace.FailFast id none) {fault : Fault}
    (hmem : request ∈ requests trace.events) (hfault : request.fault? = some fault) :
    trace.ending = .fault fault := by
  obtain ⟨before, after, hmade⟩ := List.append_of_mem hmem
  rw [Request.fault?] at hfault
  split at hfault
  · cases hfault
  · next cause hanswer =>
      cases hfault
      exact (h.ending_of_fault hmade hanswer).2

theorem passing_iff (h : trace.FailFast id none) {last : Option Status}
    (hending : trace.ending = .value last) :
    Passing last ↔ ∀ request ∈ requests trace.events, request.Passed := by
  constructor
  · intro hpassing request hmem hrole
    obtain ⟨before, after, hmade⟩ := List.append_of_mem hmem
    cases hanswer : request.answer with
    | status status =>
        refine ⟨status, rfl, ?_⟩
        by_contra hfailed
        have hstop := h.ending_of_failure hmade hrole hanswer (by simpa using hfailed)
        rw [hending] at hstop
        obtain rfl : last = some status := by simpa using hstop.2
        exact hfailed (hpassing status rfl)
    | fault cause =>
        have hstop := (h.ending_of_fault hmade hanswer).2
        rw [hending] at hstop
        cases hstop
  · rintro hpassed status hlast
    obtain rfl : last = some status := hlast
    have hshown : lastAnswer (requests trace.events) = some (.status status) := by
      simpa using (h.shown hending).symm
    obtain ⟨request, hmem, hrole, hanswer⟩ := exists_mem_of_lastAnswer hshown
    obtain ⟨found, hfound, hsuccess⟩ := hpassed request hmem hrole
    rw [hanswer] at hfound
    cases hfound
    exact hsuccess

end Trace.FailFast

namespace Report

/-- What a report tells about a source and the requests that were made for it. -/
structure Describes (report : Report) (parsed : Except Rejection (List Node))
    (made : List Request) : Prop where
  exitCode_le : report.exitCode ≤ 255
  exitCode_eq_zero_iff : report.exitCode = 0 ↔
    (∃ statements, parsed = .ok statements) ∧ (∀ request ∈ made, request.fault? = none) ∧
      ∀ request ∈ made, request.Passed
  error_isSome_iff : report.error.isSome = true ↔
    (∃ rejection, parsed = .error rejection) ∨
      ∃ request ∈ made, ∃ fault, request.fault? = some fault ∧ fault.isExecution = true
  status_of_error : report.error.isSome = true → report.status = none
  /-- Nothing runs of a source that is rejected. -/
  rejected {rejection : Rejection} : parsed = .error rejection →
    report.exitCode = 2 ∧ report.commandsRun = 0 ∧ made = []
  /-- There is a report only on faults in running a program, and its exit code
  tells those apart where there is no such program. -/
  faulted {request : Request} {fault : Fault} : request ∈ made → request.fault? = some fault →
    fault.isExecution = true ∧ (report.exitCode = 127 ∨ report.exitCode = 126) ∧
      (report.exitCode = 127 ↔
        ∃ program os, fault = .execution program (.os os) ∧ os.kind = .notFound)
  commandsRun_eq : report.commandsRun = made.length
  exitCode_of_failure {status : Status} : report.error = none → report.status = some status →
    status.succeeded = false → (report.exitCode : Int) = max 1 (min status.shellCode 255)

theorem describes_rejected (rejection : Rejection) :
    (Report.rejected rejection).Describes (.error rejection) [] where
  exitCode_le := by simp [Report.rejected, rejectedCode]
  exitCode_eq_zero_iff := by simp [Report.rejected, rejectedCode]
  error_isSome_iff := by simp [Report.rejected]
  status_of_error _ := rfl
  rejected _ := ⟨rfl, rfl, rfl⟩
  faulted h := by simp at h
  commandsRun_eq := rfl
  exitCode_of_failure h := by cases h

variable {trace : Trace σ (Option Status)} {statements : List Node}

theorem describes_of_value {status : Option Status} (hfast : trace.FailFast id none)
    (hending : trace.ending = .value status) :
    Describes ⟨status, Status.exitCode status, (requests trace.events).length, none⟩
      (.ok statements) (requests trace.events) := by
  have hquiet : ∀ request ∈ requests trace.events, request.fault? = none := by
    intro request hmem
    by_contra hne
    obtain ⟨fault, hfault⟩ := Option.ne_none_iff_exists'.mp hne
    have hfaulted := hfast.ending_of_fault? hmem hfault
    rw [hending] at hfaulted
    cases hfaulted
  refine ⟨Status.exitCode_le status, ?_, ?_, nofun, nofun, ?_, rfl, ?_⟩
  · rw [Status.exitCode_eq_zero_iff, hfast.passing_iff hending]
    exact ⟨fun hpassed => ⟨⟨statements, rfl⟩, hquiet, hpassed⟩, fun h => h.2.2⟩
  · refine ⟨nofun, ?_⟩
    rintro (⟨rejection, ⟨⟩⟩ | ⟨request, hmem, fault, hfault, _⟩)
    rw [hquiet request hmem] at hfault
    cases hfault
  · intro request fault hmem hfault
    rw [hquiet request hmem] at hfault
    cases hfault
  · rintro found - hfound hfailed
    obtain rfl : status = some found := hfound
    exact Status.exitCode_of_failure hfailed

theorem describes_of_fault {fault : Fault} {request : Request}
    (hfast : trace.FailFast id none) (hmem : request ∈ requests trace.events)
    (hfault : request.fault? = some fault) (hexecution : fault.isExecution = true) :
    Describes ⟨none, if fault.isNotFound then notFoundCode else notRunnableCode,
        (requests trace.events).length, some fault.message⟩
      (.ok statements) (requests trace.events) := by
  have hending := hfast.ending_of_fault? hmem hfault
  have hcode : ∀ found : Bool, (if found then notFoundCode else notRunnableCode) = 127 ∨
      (if found then notFoundCode else notRunnableCode) = 126 := by decide
  refine ⟨?_, ?_, ?_, fun _ => rfl, nofun, ?_, rfl, nofun⟩
  · rcases hcode fault.isNotFound with h | h <;> simp [h]
  · constructor
    · intro hzero
      rcases hcode fault.isNotFound with h | h <;> simp [h] at hzero
    · rintro ⟨-, hquiet, -⟩
      rw [hquiet request hmem] at hfault
      cases hfault
  · exact ⟨fun _ => .inr ⟨request, hmem, fault, hfault, hexecution⟩, fun _ => rfl⟩
  · intro other found hother hfound
    have hsame := hfast.ending_of_fault? hother hfound
    rw [hending] at hsame
    cases hsame
    refine ⟨hexecution, hcode _, ?_⟩
    rw [← Fault.isNotFound_iff]
    cases fault.isNotFound <;> simp [notFoundCode, notRunnableCode]

end Report

/-- How the run of a source may end, after the requests given. -/
inductive Ending.ExplainedBy (parsed : Except Rejection (List Node)) (made : List Request)
    (least : Nat) : Ending Report → Prop where
  /-- It ends in a report that describes them. -/
  | reported {report : Report} : report.Describes parsed made →
      ExplainedBy parsed made least (.value report)
  /-- A fault that does not concern the running of a program escapes as the
  executor gave it. -/
  | escaped {cause : Fault} {before : List Request} {request : Request} :
      made = before ++ [request] → request.answer = .fault cause → (∀ os, cause ≠ .os os) →
        cause.isExecution = false → ExplainedBy parsed made least (.fault cause)
  /-- It is unfinished only after at least the given number of requests. -/
  | unfinished : least ≤ made.length → ExplainedBy parsed made least .unfinished

theorem Report.ofEnding_explained {trace : Trace σ (Option Status)} {start : σ} {least : Nat}
    (hfast : trace.FailFast id none) (haccounts : trace.Accounts ⟨0, 0, start⟩ least)
    (statements : List Node) :
    (Report.ofEnding trace.state.commandCount trace.ending).ExplainedBy (.ok statements)
      (requests trace.events) least := by
  have hcount : trace.state.commandCount = (requests trace.events).length := by
    simpa using haccounts.counted
  rw [hcount]
  cases hending : trace.ending with
  | value status => exact .reported (describes_of_value hfast hending)
  | fault fault =>
      obtain ⟨before, request, hmade, hfault⟩ := haccounts.faulted hending
      rw [ofEnding]
      split
      · next hexecution =>
          have hmem : request ∈ requests trace.events := by simp [hmade]
          exact .reported (describes_of_fault hfast hmem hfault hexecution)
      · next hexecution =>
          have hother : fault.isExecution = false := by simpa using hexecution
          obtain ⟨hanswer, hos⟩ := Request.answer_of_fault? hfault hother
          exact .escaped hmade hanswer hos hother
  | unfinished => exact .unfinished (haccounts.unfinished hending)

end StatusShell
