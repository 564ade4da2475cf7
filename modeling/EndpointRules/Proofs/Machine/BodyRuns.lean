import EndpointRules.Proofs.Diagram.Journal
import EndpointRules.Proofs.Machine.Executed
import EndpointRules.Proofs.Machine.Registers
import EndpointRules.Proofs.Machine.Reuse

/-!
# The bodies that an operation runs

What a machine does is a sequence of runs of bodies.  `Operation.runs` lists the runs of an
operation, each with the machine that makes it: a walk through the diagram runs the bodies of the
conditions in its journal, and an evaluation goes on with at most one result.  Once the registers are
filled, an operation makes these runs, one after the other, and does nothing else but note answers;
so all that is known of a single run carries over to operations.
-/

namespace EndpointRules

theorem length_flatMap_le {α β : Type} {items : List α} {parts : α → List β} {bound : Nat}
    (h : ∀ x ∈ items, (parts x).length ≤ bound) :
    (items.flatMap parts).length ≤ items.length * bound := by
  induction items with
  | nil => simp
  | cons x items ih =>
    have hfirst := h x (by simp)
    have hrest := ih fun y hy => h y (by simp [hy])
    rw [List.flatMap_cons, List.length_append, List.length_cons, Nat.succ_mul]
    omega

namespace Machine

/-- A run of a body, and the machine that makes it. -/
structure BodyRun where
  body : Body
  machine : Machine

namespace BodyRun

/-- The addresses of the instructions that the run carries out, in order. -/
def executed (setup : Setup) (r : BodyRun) : List Nat :=
  (r.machine.setting setup).executed r.body r.machine.frame

/-- The events that the run records. -/
def steps (setup : Setup) (r : BodyRun) : List Trace.Event :=
  if setup.mode == .instructions then (r.executed setup).map (.step r.body.sort r.body.index)
  else []

/-- The run sets a register. -/
def Assigns (setup : Setup) (r : BodyRun) (index : Nat) : Prop :=
  (r.machine.setting setup).Assigns r.body r.machine.frame index

end BodyRun

/-- The run of a body by its index: none if there is no such body. -/
def runOf (setup : Setup) (sort : BodySort) (index : Nat) (m : Machine) : List BodyRun :=
  (setup.program.body? sort index).toList.map fun body => ⟨body, m⟩

/-- The runs of conditions in a walk through the diagram. -/
def conditionRuns (setup : Setup) (m : Machine) : List BodyRun :=
  (setup.program.parts.diagram.journal (test setup) m).flatMap fun question =>
    question.2.runOf setup .condition question.1

/-- The run of the result that a walk through the diagram ends with. -/
def resultRuns (setup : Setup) (m : Machine) : List BodyRun :=
  match m.decide setup with
  | (.ok (.result index), m) => m.runOf setup .result index
  | _ => []

/-- The machine on which an operation runs bodies: its registers are filled if the operation fills
    them. -/
def Operation.filled (setup : Setup) (m : Machine) : Operation → Machine
  | .reset context parameters => (m.reset setup context parameters).2
  | .evaluate context parameters => (m.reset setup context parameters).2
  | _ => m

/-- The runs of an operation. -/
def Operation.runs (setup : Setup) (m : Machine) : Operation → List BodyRun
  | .reset _ _ => []
  | .test index => m.runOf setup .condition index
  | .resolve index => if index < 0 then [] else m.runOf setup .result index.toNat
  | .decide => m.conditionRuns setup
  | .evaluate context parameters =>
    match m.reset setup context parameters with
    | (.error _, _) => []
    | (.ok (), m) => m.conditionRuns setup ++ m.resultRuns setup

variable {setup : Setup} {m k l : Machine} {sort : BodySort} {index i : Nat} {r : BodyRun}
  {runs runs' : List BodyRun}

theorem runOf_of_none (hbody : setup.program.body? sort index = none) :
    m.runOf setup sort index = [] := by
  rw [runOf, hbody]
  rfl

theorem runOf_of_some {body : Body} (hbody : setup.program.body? sort index = some body) :
    m.runOf setup sort index = [⟨body, m⟩] := by
  rw [runOf, hbody]
  rfl

theorem length_runOf_le (setup : Setup) (sort : BodySort) (index : Nat) (m : Machine) :
    (m.runOf setup sort index).length ≤ 1 := by
  cases hbody : setup.program.body? sort index with
  | none => simp [runOf_of_none hbody]
  | some body => simp [runOf_of_some hbody]

/-! ## The bodies -/

/-- The run is of a body of the program, of the sort that is given. -/
def BodyRun.Of (setup : Setup) (sort : BodySort) (r : BodyRun) : Prop :=
  r.body.sort = sort ∧ setup.program.body? sort r.body.index = some r.body

theorem of_runOf (h : r ∈ m.runOf setup sort index) : r.Of setup sort := by
  cases hbody : setup.program.body? sort index with
  | none => simp [runOf_of_none hbody] at h
  | some body =>
    rw [runOf_of_some hbody, List.mem_singleton] at h
    subst h
    obtain ⟨_, _, rfl⟩ := Program.body?_eq_some_iff.1 hbody
    exact ⟨rfl, hbody⟩

theorem of_conditionRuns (h : r ∈ m.conditionRuns setup) : r.Of setup .condition := by
  obtain ⟨question, -, hrun⟩ := List.mem_flatMap.1 h
  exact of_runOf hrun

theorem of_resultRuns (h : r ∈ m.resultRuns setup) : r.Of setup .result := by
  unfold resultRuns at h
  split at h
  · exact of_runOf h
  · cases h

theorem length_resultRuns_le (setup : Setup) (m : Machine) :
    (m.resultRuns setup).length ≤ 1 := by
  unfold resultRuns
  split
  · exact length_runOf_le setup _ _ _
  · simp

/-- A walk runs at most as many bodies as the diagram has nodes. -/
theorem length_conditionRuns_le (setup : Setup) (m : Machine) :
    (m.conditionRuns setup).length ≤ setup.program.parts.diagram.nodeCount := by
  have hone : ∀ question ∈ setup.program.parts.diagram.journal (test setup) m,
      (question.2.runOf setup .condition question.1).length ≤ 1 :=
    fun question _ => length_runOf_le setup .condition _ _
  have hlength := length_flatMap_le hone
  rw [Nat.mul_one] at hlength
  exact Nat.le_trans hlength (setup.program.parts.diagram.length_journal_le (test setup) m)

/-- The runs of an evaluation are those of a walk through the diagram, and then of a result. -/
theorem exists_runs_evaluate (setup : Setup) (context : Context) (parameters : Parameters)
    (m : Machine) :
    ∃ conditions results,
      (Operation.evaluate context parameters).runs setup m = conditions ++ results ∧
      (∀ r ∈ conditions, r.Of setup .condition) ∧ (∀ r ∈ results, r.Of setup .result) ∧
      conditions.length ≤ setup.program.parts.diagram.nodeCount ∧ results.length ≤ 1 := by
  simp only [Operation.runs]
  split
  · exact ⟨[], [], rfl, by simp, by simp, by simp, by simp⟩
  · next filled _ =>
    exact ⟨_, _, rfl, fun r => of_conditionRuns, fun r => of_resultRuns,
      length_conditionRuns_le setup filled, length_resultRuns_le setup filled⟩

/-! ## Runs one after the other -/

/-- A machine becomes another by making some runs: each run is made by the machine that the ones
    before it have left, and but for the runs only answers and outcomes are noted. -/
inductive Makes (setup : Setup) (m : Machine) : List BodyRun → Machine → Prop
  | refl : Makes setup m [] m
  | run {runs : List BodyRun} {k : Machine} (h : Makes setup m runs k) (body : Body) :
      Makes setup m (runs ++ [⟨body, k⟩]) (k.run setup body).2
  | note {runs : List BodyRun} {k : Machine} {event : Trace.Event} (h : Makes setup m runs k)
      (hevent : event.address? = none) : Makes setup m runs (k.note setup.mode event)

theorem Makes.trans (h : m.Makes setup runs k) (h' : k.Makes setup runs' l) :
    m.Makes setup (runs ++ runs') l := by
  induction h' with
  | refl =>
    rw [List.append_nil]
    exact h
  | run _ body ih =>
    rw [← List.append_assoc]
    exact ih.run body
  | note _ hevent ih => exact ih.note hevent

theorem makes_judge {ended : Except Failure Exit × Machine} (h : m.Makes setup runs ended.2)
    (index : Nat) : m.Makes setup runs (judge setup index ended).2 := by
  rcases ended with ⟨failure | exit, k⟩
  · exact h
  · exact h.note rfl

theorem snd_answer (index : Nat) (ended : Except Failure Exit × Machine) :
    (answer index ended).2 = ended.2 := by
  rcases ended with ⟨_ | ⟨_ | _⟩, k⟩ <;> rfl

theorem makes_test (setup : Setup) (index : Nat) (m : Machine) :
    m.Makes setup (m.runOf setup .condition index) (m.test setup index).2 := by
  unfold test
  cases hbody : setup.program.body? .condition index with
  | none =>
    rw [runOf_of_none hbody]
    exact .refl
  | some body =>
    rw [runOf_of_some hbody]
    exact makes_judge (Makes.refl.run body) index

theorem makes_resolve (setup : Setup) (index : Nat) (m : Machine) :
    m.Makes setup (m.runOf setup .result index) (m.resolve setup index).2 := by
  rw [resolve_natCast]
  cases hbody : setup.program.body? .result index with
  | none =>
    rw [runOf_of_none hbody]
    exact .refl
  | some body =>
    rw [runOf_of_some hbody]
    dsimp only
    rw [snd_answer]
    exact Makes.refl.run body

theorem makes_decide (setup : Setup) (m : Machine) :
    m.Makes setup (m.conditionRuns setup) (m.decide setup).2 := by
  have hwalk : m.Makes setup (m.conditionRuns setup)
      (setup.program.parts.diagram.evaluate (test setup) m).2 :=
    Diagram.journal_relates (fun _ => .refl) .trans (makes_test setup) _ m
  -- The machine makes a note of an outcome, and none of a failure.
  unfold decide
  split
  · next hm =>
    rw [hm] at hwalk
    exact hwalk
  · next hm =>
    rw [hm] at hwalk
    exact hwalk
  · next hm =>
    rw [hm] at hwalk
    exact hwalk.note rfl

/-- An operation makes its runs. -/
theorem makes_apply (setup : Setup) (m : Machine) (op : Operation) :
    (op.filled setup m).Makes setup (op.runs setup m) (op.apply setup m) := by
  cases op with
  | reset context parameters => exact .refl
  | test index => exact makes_test setup index m
  | resolve index =>
    by_cases hindex : index < 0
    · simp only [Operation.apply, Operation.runs, hindex, if_true, resolve_of_neg]
      exact .refl
    · obtain ⟨index, rfl⟩ := Int.eq_ofNat_of_zero_le (Int.not_lt.1 hindex)
      simp only [Operation.apply, Operation.runs, hindex, if_false]
      exact makes_resolve setup index m
  | decide => exact makes_decide setup m
  | evaluate context parameters =>
    simp only [Operation.apply, Operation.runs, Operation.filled, evaluate]
    split
    · next hm =>
      rw [hm]
      exact .refl
    · next filled hm =>
      have hwalk := makes_decide setup filled
      simp only [hm, resultRuns]
      cases hdecided : filled.decide setup with
      | mk result decided =>
        rw [hdecided] at hwalk
        cases result with
        | error failure => simpa using hwalk
        | ok outcome =>
          cases outcome with
          | terminal value => simpa using hwalk
          | result index => exact hwalk.trans (makes_resolve setup index decided)

/-! ## What runs leave -/

/-- The instructions that are recorded. -/
def steps (m : Machine) : List Trace.Event := m.events.toList.filter (·.address?.isSome)

theorem steps_note (m : Machine) (mode : Trace.Mode) {event : Trace.Event}
    (h : event.address? = none) : (m.note mode event).steps = m.steps := by
  unfold note steps
  split
  · simp [h]
  · rfl

theorem frame_note (m : Machine) (mode : Trace.Mode) (event : Trace.Event) :
    (m.note mode event).frame = m.frame := by
  unfold note
  split <;> rfl

theorem context_note (m : Machine) (mode : Trace.Mode) (event : Trace.Event) :
    (m.note mode event).context = m.context := by
  unfold note
  split <;> rfl

theorem steps_run (setup : Setup) (body : Body) (m : Machine) :
    (m.run setup body).2.steps = m.steps ++ BodyRun.steps setup ⟨body, m⟩ := by
  have hevents : (m.run setup body).2.events =
      ((m.setting setup).runBody (setup.mode == .instructions) body m.frame m.events).2.2 :=
    m.events_conclude _
  rw [steps, steps, BodyRun.steps, BodyRun.executed, hevents, Setting.events_runBody]
  cases setup.mode == .instructions with
  | false => simp
  | true => simp [List.filter_map, Function.comp_def, Trace.Event.address?]

/-- The instructions of the runs are recorded, in order, and no other. -/
theorem Makes.steps_eq (h : m.Makes setup runs k) :
    k.steps = m.steps ++ runs.flatMap (·.steps setup) := by
  induction h with
  | refl => simp
  | run _ body ih => rw [steps_run, ih, List.flatMap_append, List.flatMap_singleton,
      List.append_assoc]
  | note _ hevent ih => rw [steps_note _ _ hevent, ih]

theorem Makes.context_eq (h : m.Makes setup runs k) : k.context = m.context := by
  induction h with
  | refl => rfl
  | run _ body ih => rw [context_run, ih]
  | note _ _ ih => rw [context_note, ih]

/-- A register that none of the runs sets is kept. -/
theorem Makes.getElem?_eq (h : m.Makes setup runs k) (hkeeps : ∀ r ∈ runs, ¬ r.Assigns setup i) :
    k.frame.registers[i]? = m.frame.registers[i]? := by
  induction h with
  | refl => rfl
  | @run runs k _ body ih =>
    have hrun : ¬ BodyRun.Assigns setup ⟨body, k⟩ i := hkeeps _ (by simp)
    rw [(run_eq_runBody setup body k).2, Setting.getElem?_runBody hrun,
      ih fun r hr => hkeeps r (by simp [hr])]
  | note _ _ ih => rw [frame_note, ih hkeeps]

end Machine

end EndpointRules
