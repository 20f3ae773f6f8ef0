import Lox.Proofs.Session.Moments
import Lox.Proofs.Session.Turns

/-
  The flags of errors at the prompts of a dialogue.

  The flags are cleared after each source that is run, and when
  the session starts over. A snippet to be shown as a tree is
  read like a source, and then nothing clears the flag that its
  faults have raised. So the flag of errors at a prompt tells
  of the last text that has settled the flags: it is raised if
  this was a snippet with faults. The flag of run-time errors
  is clear at every prompt.

  Key definitions include:
    * `Submission.ofText`
    * `Submission.Settles`
    * `Submission.IsFaulty`
    * `Dialogue.prompted`
    * `flags_at_prompt`
-/

------------------------------------------------------------
-- What A Text Is Taken For
------------------------------------------------------------

namespace Lox.Console

/-
  What a text from the prompt is taken for: nothing at all, a
  command, or a source to be run.
-/
inductive Submission where
  | nothing
  | command (request : Request)
  | source (text : String)
deriving DecidableEq, Repr

namespace Submission

def ofText (text : String) : Submission :=
  let text := normalize text
  if Text.isAllBlank text.toList then .nothing
  else
    match Request.read? text with
    | some request => .command request
    | none => .source text

/-
  Whether the flags are set anew, whatever they were: by each
  source that is run, by a snippet that is read, and when the
  session starts over.
-/
def Settles : Submission → Prop
  | .nothing => False
  | .command request =>
      request.name = "/reset" ∨
        (request.name = "/ast" ∧ request.argument ≠ "")
  | .source _ => True

/- A snippet to be shown that has errors in it. -/
def IsFaulty (limits : Limits) : Submission → Prop
  | .command request =>
      request.name = "/ast" ∧ request.argument ≠ "" ∧
        ((tokenize request.argument).errors ≠ [] ∨
          (parse limits (tokenize request.argument).tokens).errors
            ≠ [])
  | _ => False

end Submission

/- What an entry hands in; an interrupt hands in nothing. -/
def Entry.submission (entry : Entry) : Submission :=
  match entry.answer.1 with
  | .text text => .ofText text
  | _ => .nothing

end Lox.Console

namespace Lox.Session

open Lox.Console

/- A turn does what is done with the kind of its text. -/
theorem turn_eq (s : Session) (text : String) :
    s.turn text =
      match Submission.ofText text with
      | .nothing => (s, .ok ())
      | .command request => (s.obey request, .ok ())
      | .source source => handOn (s.run source) := by
  unfold turn Submission.ofText obeyLine
  dsimp only
  by_cases hBlank :
      Text.isAllBlank (Console.normalize text).toList = true
  · rw [if_pos hBlank, if_pos hBlank]
  · rw [if_neg hBlank, if_neg hBlank]
    cases Request.read? (Console.normalize text) with
    | none => rfl
    | some request => rfl

end Lox.Session

------------------------------------------------------------
-- Flags After A Turn
------------------------------------------------------------

namespace Lox.Console

/-
  How the flags of a session have come from those of another
  one by what was handed in meanwhile.
-/
structure Submission.Leads
    (submission : Submission)
    (before after : Session) :
    Prop where
  limits : after.limits = before.limits
  hadRuntimeError :
    before.reporter.hadRuntimeError = false →
      after.reporter.hadRuntimeError = false
  hadError :
    after.reporter.hadError = true ↔
      submission.IsFaulty before.limits ∨
        (¬ submission.Settles ∧ before.reporter.hadError = true)

namespace Submission.Leads

variable {s after : Session} {submission : Submission}

/- What has to do with no flag leaves them. -/
theorem of_reporter
    (hKeeps : ¬ submission.Settles)
    (hSound : ¬ submission.IsFaulty s.limits)
    (hLimits : after.limits = s.limits)
    (hReporter : after.reporter = s.reporter) :
    submission.Leads s after := by
  refine ⟨hLimits, ?_, ?_⟩
  · intro hClear
    rw [hReporter]
    exact hClear
  · rw [hReporter]
    simp [hKeeps, hSound]

/- What clears the flags and has no fault to report. -/
theorem of_clear
    (hSettles : submission.Settles)
    (hSound : ¬ submission.IsFaulty s.limits)
    (hLimits : after.limits = s.limits)
    (hClear :
      after.reporter.hadError = false ∧
        after.reporter.hadRuntimeError = false) :
    submission.Leads s after := by
  refine ⟨hLimits, fun _ => hClear.2, ?_⟩
  rw [hClear.1]
  simp [hSettles, hSound]

end Submission.Leads

/- The command of a name. -/
theorem Command.name_of_ofName?
    {text : String}
    {command : Command}
    (hNamed : Command.ofName? text = some command) :
    text = command.name := by
  unfold ofName? at hNamed
  have hSame := List.find?_some hNamed
  exact (of_decide_eq_true hSame).symm

end Lox.Console

namespace Lox.Session

open Lox.Console

variable (s : Session)

/- A snippet is read like a source that is then not run. -/
theorem showSnippet_frame (source : String) :
    (s.showSnippet source).limits = s.limits ∧
      (s.showSnippet source).reporter =
        (s.clearFlags.reportAll
          (s.readReports source)).reporter := by
  have hFrame :=
    s.clearFlags.reportAll_frame (s.readReports source)
  have hLimits := congrArg Session.limits hFrame
  unfold showSnippet
  rw [parse_eq]
  by_cases hNone : s.readReports source = []
  · rw [if_pos hNone]
    exact ⟨hLimits, rfl⟩
  · rw [if_neg hNone]
    exact ⟨hLimits, rfl⟩

theorem leads_snippet
    {request : Request}
    (hName : request.name = "/ast")
    (hSome : request.argument ≠ "") :
    (Submission.command request).Leads s
      (s.showSnippet request.argument) := by
  rcases s.showSnippet_frame request.argument with
    ⟨hLimits, hReporter⟩
  rcases s.flags_read request.argument with ⟨hError, hRuntime⟩
  have hFaulty :
      (Submission.command request).IsFaulty s.limits ↔
        s.readReports request.argument ≠ [] := by
    unfold Submission.IsFaulty
    rw [Ne, readReports_eq_nil_iff, not_and_or]
    simp [hName, hSome]
  have hSettles : (Submission.command request).Settles :=
    .inr ⟨hName, hSome⟩
  refine ⟨hLimits, ?_, ?_⟩
  · intro _
    rw [hReporter, hRuntime]
  · rw [hReporter, hError, hFaulty]
    simp [hSettles]

/- Commands, one by one. -/
theorem leads_obey (request : Request) :
    (Submission.command request).Leads s (s.obey request) := by
  unfold obey
  cases hCommand : Command.ofName? request.name with
  | none =>
      have hOther :
          ∀ command : Command, request.name ≠ command.name := by
        intro command hName
        rw [hName] at hCommand
        revert hCommand
        cases command <;> decide
      apply Submission.Leads.of_reporter
      · rintro (hName | ⟨hName, _⟩)
        · exact hOther .reset hName
        · exact hOther .ast hName
      · rintro ⟨hName, _⟩
        exact hOther .ast hName
      · rfl
      · rfl
  | some command =>
      have hName := Command.name_of_ofName? hCommand
      cases command with
      | ast =>
          dsimp only
          by_cases hEmpty : request.argument.isEmpty = true
          · rw [if_pos hEmpty]
            have hNone : request.argument = "" :=
              String.isEmpty_iff.mp hEmpty
            apply Submission.Leads.of_reporter
            · simp [Submission.Settles, hName, hNone, Command.name]
            · simp [Submission.IsFaulty, hNone]
            · rfl
            · rfl
          · rw [if_neg hEmpty]
            apply s.leads_snippet hName
            intro hNone
            exact hEmpty (String.isEmpty_iff.mpr hNone)
      | clear =>
          apply Submission.Leads.of_reporter
          · simp [Submission.Settles, hName, Command.name]
          · simp [Submission.IsFaulty, hName, Command.name]
          · rfl
          · rfl
      | traceback =>
          apply Submission.Leads.of_reporter
          · simp [Submission.Settles, hName, Command.name]
          · simp [Submission.IsFaulty, hName, Command.name]
          all_goals
            dsimp only [switchTracing]
            cases Switch.read? request.argument <;> rfl
      | reset =>
          apply Submission.Leads.of_clear
          · exact .inl hName
          · simp [Submission.IsFaulty, hName, Command.name]
          · rfl
          · exact ⟨rfl, rfl⟩

/- A turn that another prompt follows. -/
theorem leads_turn
    {after : Session}
    {text : String}
    (hTurn : s.turn text = (after, .ok ())) :
    (Submission.ofText text).Leads s after := by
  rw [turn_eq] at hTurn
  cases hText : Submission.ofText text with
  | nothing =>
      rw [hText] at hTurn
      cases hTurn
      exact .of_reporter id id rfl rfl
  | command request =>
      rw [hText] at hTurn
      cases hTurn
      exact s.leads_obey request
  | source source =>
      rw [hText] at hTurn
      dsimp only at hTurn
      have hLimits := (s.run_frame source).1
      cases hRun : s.run source with
      | mk ran outcome =>
          rw [hRun] at hTurn hLimits
          cases outcome with
          | error interrupt => cases hTurn
          | ok status =>
              cases hTurn
              exact .of_clear trivial id hLimits ⟨rfl, rfl⟩

end Lox.Session

------------------------------------------------------------
-- Prompts
------------------------------------------------------------

namespace Lox.Console

namespace Dialogue

/-
  The dialogue as it is when the user is asked again, after
  some entries, if it gets that far.
-/
def prompted (d : Dialogue) : List Entry → Option Dialogue
  | [] => some d
  | entry :: entries =>
      match d.step entry with
      | (d, .ok true) => d.prompted entries
      | _ => none

theorem prompted_cons
    {d after : Dialogue}
    {entry : Entry}
    {entries : List Entry}
    (hPrompted : d.prompted (entry :: entries) = some after) :
    ∃ next,
      d.step entry = (next, .ok true) ∧
        next.prompted entries = some after := by
  unfold prompted at hPrompted
  split at hPrompted
  · rename_i next hStep
    exact ⟨next, hStep, hPrompted⟩
  · cases hPrompted

/- From a prompt on, the dialogue goes on as from any other. -/
theorem run_prompted
    {d after : Dialogue}
    {entries : List Entry}
    (hPrompted : d.prompted entries = some after)
    (more : List Entry) :
    d.run (entries ++ more) = after.run more := by
  induction entries generalizing d with
  | nil =>
      cases hPrompted
      rfl
  | cons entry entries ih =>
      rcases prompted_cons hPrompted with ⟨next, hStep, hRest⟩
      rw [List.cons_append, run, hStep]
      exact ih hRest

/- A step that another prompt follows. -/
theorem leads_step
    {d after : Dialogue}
    {entry : Entry}
    (hStep : d.step entry = (after, .ok true)) :
    entry.submission.Leads d.session after.session := by
  unfold step at hStep
  unfold Entry.submission
  rcases hAnswer : entry.answer with ⟨answer, seen⟩
  rw [hAnswer] at hStep
  cases answer with
  | eof => cases hStep
  | interrupt =>
      cases hStep
      exact .of_reporter id id rfl rfl
  | text text =>
      dsimp only at hStep ⊢
      cases hTurn : (d.see seen).session.turn text with
      | mk turned outcome =>
          rw [hTurn] at hStep
          cases outcome with
          | error interrupt => cases hStep
          | ok =>
              cases hStep
              exact d.session.leads_turn hTurn

end Dialogue

/-
  The last of some entries that settles the flags hands in a
  snippet with faults.
-/
def EndsFaulty (limits : Limits) (entries : List Entry) : Prop :=
  ∃ earlier entry later,
    entries = earlier ++ entry :: later ∧
      entry.submission.IsFaulty limits ∧
      ∀ other ∈ later, ¬ other.submission.Settles

theorem endsFaulty_cons
    {limits : Limits}
    {entry : Entry}
    {entries : List Entry} :
    EndsFaulty limits (entry :: entries) ↔
      EndsFaulty limits entries ∨
        (entry.submission.IsFaulty limits ∧
          ∀ other ∈ entries, ¬ other.submission.Settles) := by
  constructor
  · rintro ⟨earlier, faulty, later, hEntries, hFaulty, hLater⟩
    cases earlier with
    | nil =>
        cases hEntries
        exact .inr ⟨hFaulty, hLater⟩
    | cons first earlier =>
        cases hEntries
        exact .inl ⟨earlier, faulty, later, rfl, hFaulty, hLater⟩
  · rintro (⟨earlier, faulty, later, rfl, hFaulty, hLater⟩ | hFirst)
    · exact
        ⟨entry :: earlier, faulty, later, rfl, hFaulty, hLater⟩
    · exact ⟨[], entry, entries, rfl, hFirst⟩

/-
  The flags at a prompt, from those at an earlier one, by
  induction on the entries between the two.
-/
theorem Dialogue.flags_prompted
    {d after : Dialogue}
    {entries : List Entry}
    (hPrompted : d.prompted entries = some after) :
    (d.session.reporter.hadRuntimeError = false →
      after.session.reporter.hadRuntimeError = false) ∧
    (after.session.reporter.hadError = true ↔
      EndsFaulty d.session.limits entries ∨
        ((∀ entry ∈ entries, ¬ entry.submission.Settles) ∧
          d.session.reporter.hadError = true)) := by
  induction entries generalizing d with
  | nil =>
      cases hPrompted
      refine ⟨id, ?_⟩
      simp [EndsFaulty]
  | cons entry entries ih =>
      rcases prompted_cons hPrompted with ⟨next, hStep, hRest⟩
      have hLeads := leads_step hStep
      rcases ih hRest with ⟨hRuntime, hError⟩
      refine ⟨fun hClear => hRuntime (hLeads.hadRuntimeError hClear), ?_⟩
      rw [hError, hLeads.hadError, hLeads.limits, endsFaulty_cons,
        List.forall_mem_cons]
      tauto

end Lox.Console

namespace Lox

open Console

/-
  Whenever the user is asked again in a dialogue, whatever was
  entered until then, the flag of run-time errors is clear, and
  the flag of errors is raised if and only if the last entry
  that has settled the flags asked for the tree of a snippet
  with errors in it. The dialogue goes on from there.
-/
theorem flags_at_prompt
    (settings : Settings)
    (clock : Clock)
    (natives : List Native)
    {entries : List Entry}
    {d : Dialogue}
    (hPrompted :
      (openDialogue (.start settings clock natives)).prompted
        entries = some d) :
    d.session.reporter.hadRuntimeError = false ∧
    (d.session.reporter.hadError = true ↔
      EndsFaulty (.ofDepth settings.recursionLimit) entries) ∧
    ∀ more,
      (openDialogue (.start settings clock natives)).run
        (entries ++ more) = d.run more := by
  rcases Dialogue.flags_prompted hPrompted with ⟨hRuntime, hError⟩
  refine
    ⟨hRuntime rfl, hError.trans ?_, Dialogue.run_prompted hPrompted⟩
  constructor
  · rintro (hFaulty | ⟨_, hRaised⟩)
    · exact hFaulty
    · cases hRaised
  · exact .inl

/- The prompts after a snippet that breaks off see its flag. -/
theorem flags_at_prompt_snippet :
    ∃ d : Dialogue,
      (openDialogue (.start {} ⟨[]⟩ [])).prompted
          [.line "/ast 1 +", .line "/clear"] = some d ∧
        d.session.reporter.hadRuntimeError = false ∧
        d.session.reporter.hadError = true := by
  have hAsks :
      ((openDialogue (.start {} ⟨[]⟩ [])).prompted
        [.line "/ast 1 +", .line "/clear"]).isSome := by
    decide +kernel
  rcases Option.isSome_iff_exists.mp hAsks with ⟨d, hPrompted⟩
  rcases flags_at_prompt {} ⟨[]⟩ [] hPrompted with
    ⟨hRuntime, hError, _⟩
  have hSnippet :
      Submission.ofText "/ast 1 +" = .command ⟨"/ast", "1 +"⟩ := by
    decide +kernel
  have hClear :
      Submission.ofText "/clear" = .command ⟨"/clear", ""⟩ := by
    decide +kernel
  have hErrors :
      (parse (.ofDepth 20000) (tokenize "1 +").tokens).errors
        ≠ [] := by
    decide +kernel
  refine ⟨d, hPrompted, hRuntime, hError.mpr ?_⟩
  refine ⟨[], .line "/ast 1 +", [.line "/clear"], rfl, ?_, ?_⟩
  · show (Submission.ofText "/ast 1 +").IsFaulty _
    rw [hSnippet]
    exact ⟨rfl, by decide, .inr hErrors⟩
  · intro other hMem
    rw [List.mem_singleton.mp hMem]
    show ¬ (Submission.ofText "/clear").Settles
    rw [hClear]
    simp [Submission.Settles]

/- Nothing clears the flag that such a snippet has raised. -/
theorem flag_raised_at_prompt :
    ((openDialogue (.start {} ⟨[]⟩ [])).prompted
        [.line "/ast 1 +"]).map
      (fun d =>
        (d.session.reporter.hadError,
          d.session.reporter.hadRuntimeError)) =
      some (true, false) := by
  decide +kernel

end Lox
