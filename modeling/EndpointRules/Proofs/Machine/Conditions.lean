import Mathlib.Data.List.Permutation
import EndpointRules.Proofs.Machine.BodyRuns

/-!
# Conditions that set no register

Bodies share the registers, so what a condition answers may depend on the conditions that ran before
it.  It does so through the registers alone, and an operation changes a register only if one of the
bodies that it runs sets it.  Where the conditions of a walk set none, the walk is that of the
diagram over fixed answers, each of them what the condition answers on the registers from which the
walk starts, and these registers are still there when it ends.
-/

namespace EndpointRules

/-- The failure that a machine makes of a walk that stops. -/
def Diagram.Stop.failure : Diagram.Stop Failure → Failure
  | .condition failure => failure
  | .cycle => .unplaced .cycle

namespace Machine

variable {setup : Setup} {m n : Machine}

/-- What a condition answers depends on the registers and the context alone. -/
theorem fst_test_eq (hregisters : m.frame.registers = n.frame.registers)
    (hcontext : m.context = n.context) (index : Nat) :
    (m.test setup index).1 = (n.test setup index).1 := by
  unfold test
  cases hbody : setup.program.body? .condition index with
  | none => rfl
  | some body =>
    have hsetting : m.setting setup = n.setting setup := by rw [setting, setting, hcontext]
    have hrun : (m.run setup body).1 = (n.run setup body).1 := by
      rw [(run_eq_runBody setup body m).1, (run_eq_runBody setup body n).1, hsetting]
      exact (runBody_eq_of_registers_eq hregisters _ _ _).1
    -- The machines that the runs leave need not be equal, so only the results are.
    dsimp only
    cases hm : m.run setup body with
    | mk result m' =>
      cases hn : n.run setup body with
      | mk result' n' =>
        rw [hm, hn] at hrun
        obtain rfl : result = result' := hrun
        cases result with
        | error failure => rfl
        | ok exit => rfl

theorem fst_decide (setup : Setup) (m : Machine) :
    (m.decide setup).1 =
      (setup.program.parts.diagram.evaluate (test setup) m).1.mapError
        Diagram.Stop.failure := by
  unfold decide
  split
  all_goals
    next hm =>
    rw [hm]
    rfl

/-- Where its conditions set no register, a walk asks every condition on the registers and in the
    context from which it starts. -/
theorem registers_of_journal (h : ∀ r ∈ m.conditionRuns setup, ∀ i, ¬ r.Assigns setup i) :
    ∀ question ∈ setup.program.parts.diagram.journal (test setup) m,
      question.2.frame.registers = m.frame.registers ∧ question.2.context = m.context := by
  refine Diagram.journal_keeps
    (fun k : Machine => k.frame.registers = m.frame.registers ∧ k.context = m.context) ?_
    ⟨rfl, rfl⟩
  intro question hquestion ⟨hregisters, hcontext⟩
  have hmakes := makes_test setup question.1 question.2
  -- Every run keeps the context, but a run of the walk is needed to keep the registers.
  have hkeeps : ∀ r ∈ question.2.runOf setup .condition question.1, ∀ i, ¬ r.Assigns setup i :=
    fun r hr => h r (List.mem_flatMap.2 ⟨question, hquestion, hr⟩)
  refine ⟨Array.ext_getElem? fun i => ?_, hmakes.context_eq.trans hcontext⟩
  rw [hmakes.getElem?_eq fun r hr => hkeeps r hr i, hregisters]

/-- An operation changes a register, once the registers are filled, only if one of the bodies that
    it runs sets the register.  If no condition of a walk through the diagram sets any, then the
    walk has the outcome of the diagram over fixed answers, those of the conditions on a machine
    with the same registers and context, errors included; and it leaves the registers as they
    are. -/
theorem decide_eq_evaluate_fixed (setup : Setup) (m n : Machine)
    (hregisters : n.frame.registers = m.frame.registers) (hcontext : n.context = m.context) :
    (∀ (op : Operation) (i : Nat),
      (op.apply setup m).frame.registers[i]? ≠ (op.filled setup m).frame.registers[i]? →
      ∃ r ∈ op.runs setup m, r.Assigns setup i) ∧
    ((∀ r ∈ m.conditionRuns setup, ∀ i, ¬ r.Assigns setup i) →
      (m.decide setup).1 =
        (setup.program.parts.diagram.evaluate
          (Diagram.fixed fun index => (n.test setup index).1) ()).1.mapError
            Diagram.Stop.failure ∧
      (m.decide setup).2.frame.registers = m.frame.registers) := by
  constructor
  · intro op i hchanged
    by_contra hnone
    refine hchanged ((makes_apply setup m op).getElem?_eq ?_)
    intro r hr hassigns
    exact hnone ⟨r, hr, hassigns⟩
  · intro hkeeps
    constructor
    · rw [fst_decide, Diagram.evaluate_eq_fixed]
      intro question hquestion
      obtain ⟨hsame, hsame'⟩ := registers_of_journal hkeeps question hquestion
      exact fst_test_eq (hsame.trans hregisters.symm) (hsame'.trans hcontext.symm) _
    · apply Array.ext_getElem?
      intro i
      exact (makes_decide setup m).getElem?_eq fun r hr => hkeeps r hr i

/-- Two conditions that ask about registers, and a result that sets one. -/
def askingTwice : Program where
  parts := {
    code := #[0x06, 0x00, 0x28, 0x07, 0x01, 0x28, 0x06, 0x00, 0x02, 0x01, 0x03, 0x01, 0x28]
    conditions := #[0, 3]
    results := #[6]
    registers := #[{ name := "Region" }, { name := "Known" }]
    diagram := { entries := #[0, 1, -1, 0, -1, 3, 1, 100000000, -1], root := 2 } }
  starts := [0, 3, 6]
  starts_eq := by decide
  check_eq := by cbv

/-- The setup of that program. -/
def asking : Setup :=
  { program := askingTwice, strategy := .word, hooks := [], providers := [], mode := .off }

/-- The result sets a register and the conditions set none, so these can be asked on another machine,
    one that has a cache. -/
theorem decide_eq_evaluate_fixed_asking :
    (∃ r ∈ (Operation.resolve 0).runs asking (start asking none), r.Assigns asking 1) ∧
      (∀ r ∈ (start asking none).conditionRuns asking, ∀ i, ¬ r.Assigns asking i) ∧
      ((start asking none).decide asking).1 = .ok (.result 0) ∧
      ((start asking none).decide asking).1 =
        (asking.program.parts.diagram.evaluate (Diagram.fixed fun index =>
          ((start asking (some (.ofCapacity 4))).test asking index).1) ()).1.mapError
            Diagram.Stop.failure ∧
      ((start asking none).decide asking).2.frame.registers =
        (start asking none).frame.registers := by
  have hset : ((Operation.resolve 0).apply asking (start asking none)).frame.registers[1]? =
      some (.boolean false) := by cbv
  have hdefault : ((Operation.resolve 0).filled asking (start asking none)).frame.registers[1]? =
      some .null := by cbv
  have hfound : ((start asking none).decide asking).1 = .ok (.result 0) := by cbv
  have hkeeps : ∀ r ∈ (start asking none).conditionRuns asking, ∀ i, ¬ r.Assigns asking i := by
    intro r hr i
    obtain ⟨start, hstart, hbody⟩ := Program.body?_eq_some_iff.1 (of_conditionRuns hr).2
    have hstops : ∀ start ∈ asking.program.offsets .condition,
        asking.program.stopOf start ≤ 6 := by decide
    have hstop : r.body.stop ≤ 6 := by
      rw [← hbody]
      exact hstops start (Array.mem_of_getElem? hstart)
    have hbytes : ∀ a < 6,
        Opcode.ofByte? (asking.program.code.getD a 0) ≠ some .setRegister := by decide
    refine Setting.not_assigns ?_ _ i
    intro a _ ha
    exact hbytes a (Nat.lt_of_lt_of_le ha hstop)
  obtain ⟨hchanges, hpure⟩ := decide_eq_evaluate_fixed asking (start asking none)
    (start asking (some (.ofCapacity 4))) rfl rfl
  refine ⟨hchanges (.resolve 0) 1 ?_, hkeeps, hfound, hpure hkeeps⟩
  simp [hset, hdefault]

end Machine

end EndpointRules
