import EndpointRules.Proofs.Machine.BodyRuns

/-!
# Bounds of evaluations

Every evaluation ends, and the program alone tells how soon.  A run of a body carries out its
instructions at increasing addresses inside the body and ends by a return instruction or in a
failure; a walk through the diagram runs no more bodies than there are nodes, and one result at most
follows.  None of this depends on how the registers are filled or on what the functions do, nor does
it take the diagram to be acyclic or the code to be reached by falling through.
-/

namespace EndpointRules

namespace Machine

namespace BodyRun

variable {setup : Setup} {sort : BodySort} {r : BodyRun}

/-- The run returns, by a return instruction that is the last one it carries out. -/
def Returns (setup : Setup) (r : BodyRun) : Prop :=
  ∃ exit m, r.machine.run setup r.body = (.ok exit, m) ∧ m.status = .halted ∧
    ∃ a op, (r.executed setup).getLast? = some a ∧
      (r.machine.setting setup).fetch r.body a = .ok op ∧ op.isReturn = true

/-- The run fails, in the last instruction that it carries out or where no other can be fetched, and
    the machine keeps the failure. -/
def Traps (setup : Setup) (r : BodyRun) : Prop :=
  ∃ failure m, r.machine.run setup r.body = (.error failure, m) ∧ m.status = .trapped ∧
    m.trap = some failure ∧
    ∃ a, failure.address = some a ∧ r.body.start ≤ a ∧
      ((r.executed setup).getLast? = some a ∨
        (r.machine.setting setup).fetch r.body a = .error failure.fault)

/-- The bounds of a run of a body. -/
structure Bounded (setup : Setup) (r : BodyRun) : Prop where
  increasing : (r.executed setup).Pairwise (· < ·)
  /-- At every address an instruction stands in the body, with all its operands. -/
  inside : ∀ a ∈ r.executed setup, r.body.start ≤ a ∧
    ∃ op, (r.machine.setting setup).fetch r.body a = .ok op ∧ a + op.length ≤ r.body.stop
  length_le : (r.executed setup).length ≤ r.body.stop - r.body.start
  ends : r.Returns setup ∨ r.Traps setup

theorem executes (setup : Setup) (r : BodyRun) :
    ∃ g, (r.machine.setting setup).Executes r.body
      (Setting.entry r.body r.machine.frame) (r.executed setup)
      (r.machine.run setup r.body).1 g := by
  have h := (r.machine.setting setup).executes_executed r.body r.machine.frame
    (setup.mode == .instructions) r.machine.events
  rw [← (run_eq_runBody setup r.body r.machine).1] at h
  exact ⟨_, h⟩

theorem returns_or_traps (setup : Setup) (r : BodyRun) : r.Returns setup ∨ r.Traps setup := by
  obtain ⟨g, h⟩ := r.executes setup
  have hstatus := status_run setup r.body r.machine
  have htrap := trap_run setup r.body r.machine
  cases hrun : r.machine.run setup r.body with
  | mk result m =>
    rw [hrun] at h hstatus htrap
    cases result with
    | ok exit => exact .inl ⟨exit, m, hrun, hstatus, h.exists_return rfl⟩
    | error failure => exact .inr ⟨failure, m, hrun, hstatus, htrap, h.exists_fault rfl⟩

/-- Every run of a body keeps the bounds. -/
theorem bounded (setup : Setup) (r : BodyRun) : r.Bounded setup := by
  obtain ⟨g, h⟩ := r.executes setup
  refine ⟨h.increasing, fun a ha => ?_, h.length_le, r.returns_or_traps setup⟩
  obtain ⟨hle, op, hfetch⟩ := h.inside a ha
  exact ⟨hle, op, hfetch, Setting.length_le_of_fetch hfetch⟩

/-- A run of a body of the program carries out at most as many instructions as the code has
    bytes. -/
theorem length_executed_le (h : r.Of setup sort) :
    (r.executed setup).length ≤ setup.program.code.size := by
  have hlength := (r.bounded setup).length_le
  obtain ⟨rfl, hbody⟩ := h
  have := Program.stop_le_size hbody
  omega

end BodyRun

/-- Counting the runs of one sort among runs that are all of that sort, or all of another. -/
theorem countP_sort {setup : Setup} {sort other : BodySort} {runs : List BodyRun}
    (h : ∀ r ∈ runs, r.Of setup sort) :
    runs.countP (·.body.sort == other) = if sort = other then runs.length else 0 := by
  by_cases hsort : sort = other
  · rw [if_pos hsort, List.countP_eq_length]
    intro r hr
    simp [(h r hr).1, hsort]
  · rw [if_neg hsort, List.countP_eq_zero]
    intro r hr
    simp [(h r hr).1, hsort]

/-- Once the registers are filled, an evaluation makes at most as many runs of conditions as the
    diagram has nodes and at most one run of a result, one after the other, and ends.  Each of these
    runs keeps its bounds, so all of them together carry out no more instructions than the code has
    bytes for every run that there may be; and they are all the instructions that the evaluation
    records. -/
theorem evaluate_bounded (setup : Setup) (context : Context) (parameters : Parameters)
    (m : Machine) :
    let runs := (Operation.evaluate context parameters).runs setup m
    let nodeCount := setup.program.parts.diagram.nodeCount
    (m.reset setup context parameters).2.Makes setup runs
        (m.evaluate setup context parameters).2 ∧
      runs.countP (·.body.sort == .condition) ≤ nodeCount ∧
      runs.countP (·.body.sort == .result) ≤ 1 ∧
      (∀ r ∈ runs, setup.program.body? r.body.sort r.body.index = some r.body ∧
        r.Bounded setup) ∧
      (runs.flatMap (·.executed setup)).length ≤
        (nodeCount + 1) * setup.program.code.size ∧
      (m.evaluate setup context parameters).2.steps =
        m.steps ++ runs.flatMap (·.steps setup) := by
  intro runs nodeCount
  -- The runs are counted in two parts, each of runs of one sort.
  obtain ⟨conditions, results, hruns, hconditions, hresults, hnodes, hone⟩ :=
    exists_runs_evaluate setup context parameters m
  have hruns : runs = conditions ++ results := hruns
  have hof : ∀ r ∈ runs, ∃ sort, r.Of setup sort := by
    intro r hr
    rw [hruns] at hr
    rcases List.mem_append.1 hr with hr | hr
    · exact ⟨_, hconditions r hr⟩
    · exact ⟨_, hresults r hr⟩
  have hlength : runs.length ≤ nodeCount + 1 := by
    rw [hruns, List.length_append]
    omega
  have hmakes := makes_apply setup m (.evaluate context parameters)
  refine ⟨hmakes, ?_, ?_, ?_, ?_, hmakes.steps_eq⟩
  · rw [hruns, List.countP_append, countP_sort hconditions, countP_sort hresults]
    simpa using hnodes
  · rw [hruns, List.countP_append, countP_sort hconditions, countP_sort hresults]
    simpa using hone
  · intro r hr
    obtain ⟨_, rfl, hbody⟩ := hof r hr
    exact ⟨hbody, r.bounded setup⟩
  · have htotal : (runs.flatMap (·.executed setup)).length ≤
        runs.length * setup.program.code.size := by
      refine length_flatMap_le fun r hr => ?_
      obtain ⟨_, h⟩ := hof r hr
      exact BodyRun.length_executed_le h
    exact Nat.le_trans htotal (Nat.mul_le_mul_right _ hlength)

/-- A body that jumps over its end. -/
def strayJump : Program where
  parts := {
    code := #[0x00, 0x00, 0x2A, 0x00, 0x05]
    conditions := #[0]
    constants := #[.boolean true]
    diagram := { entries := #[], root := 1 } }
  starts := [0]
  starts_eq := by decide
  check_eq := by cbv

/-- The setup of that program. -/
def straying : Setup :=
  { program := strayJump, strategy := .word, hooks := [], providers := [], mode := .off }

-- Where the jump leads there is nothing to fetch, so the run fails behind its two instructions.
example : BodyRun.executed straying ⟨⟨.condition, 0, 0, 5⟩, start straying none⟩ = [0, 2] := by
  cbv

end Machine

end EndpointRules
