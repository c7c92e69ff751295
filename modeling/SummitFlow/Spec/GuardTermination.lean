import SummitFlow.Services.PublicationCommand
import SummitFlow.Spec.GuardDepth

/-!
# The guard comes to an end

Both evaluators of the guard call themselves on here-document bodies, on substitutions and on
the arguments of `bash -c` and `eval`, and one of them on remote commands too.  Each of these
texts is shorter than the command it stands in, whatever the quotes and here-documents of that
command are like, so no chain of calls goes on forever and the evaluators are the recursive
functions of the source.  The loops that take wrappers off an argument vector shorten it in
every round, and end because no wrapper is left.
-/

namespace SummitFlow.Guard

open PosixPath (pathName)

/-! ## Publication -/

/-- The texts `evaluate_publication_command` calls itself on. -/
def publicationCalls (host : Host) (command : String) : List String :=
  nestedTexts host command ++ (commandSegments host command).flatMap shellTexts

theorem judgePublication_eq (host : Host) (evaluate : String → Decision) (command : String) :
    judgePublication host evaluate command =
      if (splitHeredocs host command.toList).2.2.any fun body =>
          disablesHooks host (String.ofList body) then hookDisable
      else
        match judgeNested evaluate (nestedTexts host command) with
        | some decision => decision
        | none =>
          ((commandSegments host command).findSome? (publicationSegment host evaluate)).getD .pass :=
  rfl

/-- Every text a command calls for is shorter than the command. -/
theorem length_publicationCalls {host : Host} {command text : String}
    (h : text ∈ publicationCalls host command) : text.length < command.length := by
  rcases List.mem_append.mp h with htext | htext
  · exact length_nestedTexts htext
  · obtain ⟨segment, hsegment, hshell⟩ := List.mem_flatMap.mp htext
    have hweight := weight_commandSegments hsegment
    have hlength := length_shellTexts hshell
    omega

theorem findSome?_congr {α β : Type} {f g : α → Option β} {xs : List α}
    (h : ∀ x ∈ xs, f x = g x) : xs.findSome? f = xs.findSome? g := by
  induction xs with
  | nil => rfl
  | cons x xs ih =>
    rw [List.forall_mem_cons] at h
    rw [List.findSome?_cons, List.findSome?_cons, h.1, ih h.2]

section

variable {host : Host} {evaluate evaluate' : String → Decision}

/-- A segment asks for the judgement of what it runs in a shell only. -/
theorem publicationSegment_congr {segment : List String}
    (h : ∀ text ∈ shellTexts segment, evaluate text = evaluate' text) :
    publicationSegment host evaluate segment = publicationSegment host evaluate' segment := by
  unfold publicationSegment
  unfold shellTexts at h
  cases hunwrap : unwrap segment with
  | nil => rfl
  | cons arg rest =>
    rw [hunwrap] at h
    dsimp only at h ⊢
    have hcommand : (shellCommand (executableOf arg) (arg :: rest)).map evaluate =
        (shellCommand (executableOf arg) (arg :: rest)).map evaluate' := by
      unfold shellCommand
      split
      · next hshell =>
        rw [if_pos hshell] at h
        apply Option.map_congr
        intro text htext
        exact h text (Option.mem_toList.mpr (Option.mem_filter_iff.mp htext).1)
      · rfl
    rw [hcommand]

theorem judgePublication_congr {command : String}
    (h : ∀ text ∈ publicationCalls host command, evaluate text = evaluate' text) :
    judgePublication host evaluate command = judgePublication host evaluate' command := by
  have hnested : (nestedTexts host command).map evaluate =
      (nestedTexts host command).map evaluate' :=
    List.map_congr_left fun text htext => h text (List.mem_append_left _ htext)
  have hsegments : ∀ segment ∈ commandSegments host command,
      publicationSegment host evaluate segment = publicationSegment host evaluate' segment := by
    intro segment hsegment
    apply publicationSegment_congr
    intro text htext
    exact h text (List.mem_append_right _ (List.mem_flatMap.mpr ⟨segment, hsegment, htext⟩))
  rw [judgePublication_eq, judgePublication_eq, judgeNested, judgeNested, hnested,
    findSome?_congr hsegments]

end

theorem judgePublication_descends (host : Host) :
    Descends (judgePublication host) (fun command nested => nested ∈ publicationCalls host command)
      String.length where
  only _ _ _ h := judgePublication_congr h
  smaller _ _ h := length_publicationCalls h

/-- The equation of the source: the function judges the commands nested in its own. -/
theorem evaluatePublicationCommand_eq (host : Host) (command : String) :
    evaluatePublicationCommand host command =
      judgePublication host (evaluatePublicationCommand host) command :=
  (judgePublication_descends host).unfolded_self (fun _ => .pass) command

/-! ## The loops over wrappers -/

/-- A round of the loop of `unwrap_segment_with_privilege`. -/
def wrapperRound : List String → Option (List String)
  | [] => none
  | token :: args => unwrapOnce (Str.casefold (pathName token)) args

/-- A round of the loop of `_unwrap`. -/
def keywordRound : List String → Option (List String)
  | [] => none
  | arg :: args =>
    if arg ∈ shellKeywords then some (unwrapSegment args)
    else if executableOf arg = "xargs" then some (unwrapSegment (skipXargs args))
    else none

theorem length_wrapperRound {args rest : List String} (h : wrapperRound args = some rest) :
    rest.length < args.length := by
  cases args with
  | nil => cases h
  | cons token args =>
    have hsuffix := (unwrapOnce_suffix h).length_le
    rw [List.length_cons]
    omega

theorem length_keywordRound {args rest : List String} (h : keywordRound args = some rest) :
    rest.length < args.length := by
  cases args with
  | nil => cases h
  | cons arg args =>
    rw [keywordRound] at h
    rw [List.length_cons]
    split at h
    · obtain rfl := Option.some.inj h
      have hsuffix := (unwrapSegment_suffix args).length_le
      omega
    · split at h
      · obtain rfl := Option.some.inj h
        have hsuffix := (unwrapSegment_suffix (skipXargs args)).length_le
        have hskip := (skipXargs_suffix args).length_le
        omega
      · cases h

theorem unwrapLoop_eq_runRounds (n : Nat) (tokens : List String) (privileged : Bool) :
    (unwrapLoop n tokens privileged).1 = runRounds wrapperRound n tokens := by
  induction n generalizing tokens privileged with
  | zero => rfl
  | succ n ih =>
    cases tokens with
    | nil => rfl
    | cons token args =>
      rw [unwrapLoop, runRounds, wrapperRound]
      cases unwrapOnce (Str.casefold (pathName token)) args with
      | none => rfl
      | some rest => exact ih rest _

theorem unwrapKeywords_eq_runRounds (n : Nat) (args : List String) :
    unwrapKeywords n args = runRounds keywordRound n args := by
  induction n generalizing args with
  | zero => rfl
  | succ n ih =>
    cases args with
    | nil => rfl
    | cons arg args =>
      rw [unwrapKeywords, runRounds, keywordRound]
      split
      · exact ih _
      · split
        · exact ih _
        · rfl

/-- The loop of `unwrap_segment_with_privilege` runs until no wrapper is left. -/
theorem unwrapSegment_finishes (segment : List String) :
    Finishes wrapperRound (segment.dropWhile isAssignment) (unwrapSegment segment) := by
  rw [unwrapSegment, unwrapSegmentWithPrivilege, unwrapLoop_eq_runRounds]
  exact finishes_runRounds (fun _ _ => length_wrapperRound) (List.dropWhile_suffix _).length_le

/-- The loop of `_unwrap` runs until no keyword and no `xargs` is left. -/
theorem unwrap_finishes (segment : List String) :
    Finishes keywordRound (unwrapSegment segment) (unwrap segment) := by
  rw [unwrap, unwrapKeywords_eq_runRounds]
  exact finishes_runRounds (fun _ _ => length_keywordRound) (unwrapSegment_suffix segment).length_le

/-! ## Termination -/

/-- A command makes one of the evaluators judge another text. -/
def Calls (host : Host) (command nested : String) : Prop :=
  nested ∈ irreversibleCalls host command ∨ nested ∈ publicationCalls host command

theorem Calls.shorter {host : Host} {command nested : String} (h : Calls host command nested) :
    nested.length < command.length := by
  cases h with
  | inl h => exact length_irreversibleCalls h
  | inr h => exact length_publicationCalls h

/-- On every text the guard comes to a decision.  Each evaluator is its body with itself for the
    calls; it asks for its own values at strictly shorter texts only, so that no chain of calls
    is infinite; unfolding the body once more than the command has characters gives the
    decision, whatever stands for the calls below.  The loops over wrappers shorten the argument
    vector round by round until they end. -/
theorem evaluation_terminates (host : Host) :
    (∀ command cwd, evaluateIrreversibleCommand host command cwd =
      judge host (fun nested working => evaluateIrreversibleCommand host nested (some working))
        command (workingDirectory host cwd)) ∧
    (∀ command, evaluatePublicationCommand host command =
      judgePublication host (evaluatePublicationCommand host) command) ∧
    Descends (irreversibleBody host) (fun call nested => nested.1 ∈ irreversibleCalls host call.1)
      (fun call => call.1.length) ∧
    Descends (judgePublication host) (fun command nested => nested ∈ publicationCalls host command)
      String.length ∧
    (∀ command nested, Calls host command nested → nested.length < command.length) ∧
    WellFounded (fun nested command => Calls host command nested) ∧
    (∀ stop command cwd depth, command.length < depth →
      unfolded (irreversibleBody host) stop depth (command, cwd) =
        evaluateIrreversibleCommand host command cwd) ∧
    (∀ stop command depth, command.length < depth →
      unfolded (judgePublication host) stop depth command =
        evaluatePublicationCommand host command) ∧
    (∀ args rest, wrapperRound args = some rest → rest.length < args.length) ∧
    (∀ args rest, keywordRound args = some rest → rest.length < args.length) ∧
    (∀ segment, Finishes wrapperRound (segment.dropWhile isAssignment) (unwrapSegment segment)) ∧
    ∀ segment, Finishes keywordRound (unwrapSegment segment) (unwrap segment) := by
  have hirreversible : ∀ stop command cwd depth, command.length < depth →
      unfolded (irreversibleBody host) stop depth (command, cwd) =
        evaluateIrreversibleCommand host command cwd := by
    intro stop command cwd depth hdepth
    have hself : ∀ call : String × Option String,
        evaluateIrreversibleCommand host call.1 call.2 =
          irreversibleBody host (fun nested => evaluateIrreversibleCommand host nested.1 nested.2)
            call :=
      fun call => evaluateIrreversibleCommand_eq host call.1 call.2
    exact (irreversibleBody_descends host).unfolded_eq hself stop hdepth
  have hpublication : ∀ stop command depth, command.length < depth →
      unfolded (judgePublication host) stop depth command =
        evaluatePublicationCommand host command := by
    intro stop command depth hdepth
    exact (judgePublication_descends host).unfolded_eq (evaluatePublicationCommand_eq host) stop
      hdepth
  have hchains : WellFounded (fun nested command => Calls host command nested) :=
    wellFounded_of_smaller fun _ _ => Calls.shorter
  exact ⟨evaluateIrreversibleCommand_eq host, evaluatePublicationCommand_eq host,
    irreversibleBody_descends host, judgePublication_descends host, fun _ _ => Calls.shorter,
    hchains, hirreversible, hpublication, fun _ _ => length_wrapperRound,
    fun _ _ => length_keywordRound, unwrapSegment_finishes, unwrap_finishes⟩

end SummitFlow.Guard
