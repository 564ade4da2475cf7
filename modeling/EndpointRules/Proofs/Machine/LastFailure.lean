import EndpointRules.Proofs.Machine.History

/-!
# What is known of the last failure

The status of a machine tells how the last body ended that was run since the registers were filled.
The failure that is kept beside it is another matter: it is that of the last body that failed, and a
body that returns later does not erase it.  So the failure describes the last body exactly as long
as no body returns behind one that has failed.
-/

namespace EndpointRules

namespace Machine

/-! ## The runs since the registers were filled -/

/-- The operation fills the registers. -/
def Operation.fills : Operation → Bool
  | .reset _ _ => true
  | .evaluate _ _ => true
  | _ => false

/-- The result of a run. -/
def BodyRun.result (setup : Setup) (r : BodyRun) : Except Failure Exit :=
  (r.machine.run setup r.body).1

/-- The runs since the registers were last filled, `runs` being those before the history. -/
def recentRuns (setup : Setup) (m : Machine) (runs : List BodyRun) :
    List Operation → List BodyRun
  | [] => runs
  | op :: history =>
    (op.apply setup m).recentRuns setup ((if op.fills then [] else runs) ++ op.runs setup m) history

/-- The status that results of bodies lead to: how the last one ended. -/
def Status.ofResults (results : List (Except Failure Exit)) : Status :=
  match results.getLast? with
  | none => .ready
  | some (.ok _) => .halted
  | some (.error _) => .trapped

/-- The last failure among results of bodies. -/
def lastFailure? (results : List (Except Failure Exit)) : Option Failure :=
  (results.filterMap fun
    | .ok _ => none
    | .error failure => some failure).getLast?

variable {setup : Setup} {m k : Machine} {runs runs' : List BodyRun}
  {results : List (Except Failure Exit)}

theorem Status.ofResults_append (result : Except Failure Exit) :
    Status.ofResults (results ++ [result]) = match result with
      | .ok _ => .halted
      | .error _ => .trapped := by
  rw [Status.ofResults, List.getLast?_concat]
  cases result <;> rfl

theorem lastFailure?_append (result : Except Failure Exit) :
    lastFailure? (results ++ [result]) = match result with
      | .ok _ => lastFailure? results
      | .error failure => some failure := by
  cases result with
  | ok exit => simp [lastFailure?]
  | error failure => simp [lastFailure?]

/-- There is a last failure if there is a failure. -/
theorem lastFailure?_eq_none_iff :
    lastFailure? results = none ↔ ∀ result ∈ results, ∃ exit, result = .ok exit := by
  rw [lastFailure?, List.getLast?_eq_none_iff, List.filterMap_eq_nil_iff]
  refine forall₂_congr fun result _ => ?_
  cases result <;> simp

/-- The last of the results is a failure exactly if they lead to the status of a failure. -/
theorem Status.ofResults_eq_trapped_iff :
    Status.ofResults results = .trapped ↔ ∃ failure, results.getLast? = some (.error failure) := by
  rw [Status.ofResults]
  split
  · next hlast => simp [hlast]
  · next hlast => simp [hlast]
  · next hlast => simp [hlast]

theorem lastFailure?_of_getLast? {failure : Failure}
    (h : results.getLast? = some (.error failure)) : lastFailure? results = some failure := by
  obtain ⟨before, rfl⟩ := List.getLast?_eq_some_iff.1 h
  exact lastFailure?_append _

/-! ## What runs leave -/

/-- The status and the failure of the machine are those that results of bodies lead to. -/
structure Reflects (m : Machine) (results : List (Except Failure Exit)) : Prop where
  status : m.status = Status.ofResults results
  trap : m.trap = lastFailure? results

theorem Reflects.run (h : m.Reflects results) (setup : Setup) (body : Body) :
    (m.run setup body).2.Reflects (results ++ [(m.run setup body).1]) := by
  refine ⟨?_, ?_⟩
  · rw [status_run]
    cases (m.run setup body).1 with
    | ok exit => exact (Status.ofResults_append (.ok exit)).symm
    | error failure => exact (Status.ofResults_append (.error failure)).symm
  · rw [trap_run, h.trap]
    cases (m.run setup body).1 with
    | ok exit => exact (lastFailure?_append (.ok exit)).symm
    | error failure => exact (lastFailure?_append (.error failure)).symm

theorem Reflects.note (h : m.Reflects results) (mode : Trace.Mode) (event : Trace.Event) :
    (m.note mode event).Reflects results := by
  by_cases hrecords : mode.records event
  · simp only [Machine.note, hrecords, if_true]
    exact ⟨h.status, h.trap⟩
  · simp only [Machine.note, hrecords]
    exact h

theorem Makes.reflects (h : m.Makes setup runs k) (hm : m.Reflects results) :
    k.Reflects (results ++ runs.map (·.result setup)) := by
  induction h with
  | refl => simpa using hm
  | run _ body ih =>
    rw [List.map_append, ← List.append_assoc]
    exact ih.run setup body
  | note _ _ ih => exact ih.note _ _

/-- Filling the registers forgets what results have led to. -/
theorem Reflects.filled (h : m.Reflects (runs.map (·.result setup))) (op : Operation) :
    (op.filled setup m).Reflects ((if op.fills then [] else runs).map (·.result setup)) := by
  cases op with
  | reset context parameters => exact ⟨rfl, rfl⟩
  | evaluate context parameters => exact ⟨rfl, rfl⟩
  | test index => exact h
  | resolve index => exact h
  | decide => exact h

theorem Reflects.after (h : m.Reflects (runs.map (·.result setup))) (history : List Operation) :
    (m.after setup history).Reflects
      ((m.recentRuns setup runs history).map (·.result setup)) := by
  induction history generalizing m runs with
  | nil => exact h
  | cons op history ih =>
    refine ih ?_
    rw [List.map_append]
    exact (makes_apply setup m op).reflects (h.filled op)

/-- The runs since the registers were last filled are the last ones of all. -/
theorem recentRuns_suffix (setup : Setup) (m : Machine) (runs : List BodyRun)
    (history : List Operation) :
    m.recentRuns setup runs history <:+ runs ++ m.runsOf setup history := by
  induction history generalizing m runs with
  | nil => simp [recentRuns, runsOf]
  | cons op history ih =>
    have hrest := ih (op.apply setup m) ((if op.fills then [] else runs) ++ op.runs setup m)
    rw [List.append_assoc] at hrest
    refine hrest.trans ?_
    by_cases hfills : op.fills
    · simp only [hfills, if_true, List.nil_append, runsOf]
      exact List.suffix_append _ _
    · simp only [hfills, runsOf]
      exact List.suffix_refl _

/-! ## The last failure and the last body -/

/-- The failure that the machine keeps describes the last body that was run: there is one exactly if
    the status says so, and then it is the failure of that body. -/
structure KnowsLast (m : Machine) (last : Option (Except Failure Exit)) : Prop where
  trap_isSome_iff : m.trap.isSome ↔ m.status = .trapped
  last_of_trapped : m.status = .trapped →
    ∃ failure, last = some (.error failure) ∧ m.trap = some failure

/-- After every history, the status is that of the last body since the registers were filled, and
    the failure that is kept is the last one since then.  If the status is that of a failure, the
    last body of all has ended with the failure that is kept.  So this failure describes the last
    body exactly if that body has failed or no body has since the registers were filled. -/
theorem knowsLast_iff (setup : Setup) (cache : Option Uri.Cache) (history : List Operation) :
    let m := (start setup cache).after setup history
    let all := ((start setup cache).runsOf setup history).map (·.result setup)
    let recent := ((start setup cache).recentRuns setup [] history).map (·.result setup)
    m.status = Status.ofResults recent ∧ m.trap = lastFailure? recent ∧
      (m.status = .trapped →
        ∃ failure, all.getLast? = some (.error failure) ∧ m.trap = some failure) ∧
      (m.KnowsLast all.getLast? ↔
        m.status = .trapped ∨ ∀ result ∈ recent, ∃ exit, result = .ok exit) := by
  intro m all recent
  have hnew : (start setup cache).Reflects (([] : List BodyRun).map (·.result setup)) := ⟨rfl, rfl⟩
  have hreflects : m.Reflects recent := hnew.after history
  have hlast : m.status = .trapped →
      ∃ failure, all.getLast? = some (.error failure) ∧ m.trap = some failure := by
    intro htrapped
    rw [hreflects.status] at htrapped
    obtain ⟨failure, hrecent⟩ := Status.ofResults_eq_trapped_iff.1 htrapped
    refine ⟨failure, ?_, ?_⟩
    · obtain ⟨before, hall⟩ := recentRuns_suffix setup (start setup cache) [] history
      have hresults : all = before.map (·.result setup) ++ recent := by
        simp only [all, recent, ← List.map_append, hall, List.nil_append]
      rw [hresults, List.getLast?_append, hrecent, Option.some_or]
    · rw [hreflects.trap, lastFailure?_of_getLast? hrecent]
  refine ⟨hreflects.status, hreflects.trap, hlast, ?_, ?_⟩
  · intro hknows
    by_cases htrapped : m.status = .trapped
    · exact .inl htrapped
    · have hnone : m.trap = none := by
        simpa using mt hknows.trap_isSome_iff.1 htrapped
      rw [hreflects.trap, lastFailure?_eq_none_iff] at hnone
      exact .inr hnone
  · intro h
    refine ⟨?_, hlast⟩
    rcases h with htrapped | hreturned
    · obtain ⟨failure, -, htrap⟩ := hlast htrapped
      simp [htrapped, htrap]
    · have htrap : m.trap = none := by
        rw [hreflects.trap, lastFailure?_eq_none_iff]
        exact hreturned
      have hstatus : m.status ≠ .trapped := by
        intro htrapped
        obtain ⟨failure, -, hfailure⟩ := hlast htrapped
        cases htrap.symm.trans hfailure
      simp [hstatus, htrap]

/-- A program of two conditions: the first returns from an empty stack, the second returns true. -/
def recovering : Program where
  parts := {
    code := #[0x28, 0x00, 0x00, 0x28]
    conditions := #[0, 1]
    constants := #[.boolean true]
    diagram := { entries := #[], root := 1 } }
  starts := [0, 1]
  starts_eq := by decide
  check_eq := by cbv

/-- A history in which a condition fails and the next one returns. -/
def recovery : List Operation := [.reset [] [], .test 0, .test 1]

/-- The status is that of the return, and the failure is still there. -/
theorem not_knowsLast_recovering :
    let m := (start (plainSetup recovering) none).after (plainSetup recovering) recovery
    let all := ((start (plainSetup recovering) none).runsOf (plainSetup recovering) recovery).map
      (·.result (plainSetup recovering))
    m.status = .halted ∧ m.trap = some ⟨.stackUnderflow, some 0⟩ ∧ ¬ m.KnowsLast all.getLast? := by
  have hstatus : ((start (plainSetup recovering) none).after (plainSetup recovering)
      recovery).status = .halted := by decide +kernel
  have htrap : ((start (plainSetup recovering) none).after (plainSetup recovering)
      recovery).trap = some ⟨.stackUnderflow, some 0⟩ := by decide +kernel
  refine ⟨hstatus, htrap, ?_⟩
  intro hknows
  have htrapped := hknows.trap_isSome_iff.1 (by simp [htrap])
  cases hstatus.symm.trans htrapped

end Machine

end EndpointRules
