import EndpointRules.Proofs.Machine.Relocation

/-!
# Machines that are used again

An evaluation does not depend on what its machine did before.  A body runs on an empty stack, the
cache and the room of the stack make no difference to it, and filling the registers overwrites all
else that could: the registers, the context, the status and the last failure.
-/

namespace EndpointRules

/-- If the answers to conditions are the same in states that are related, and leave such states,
    then so do walks through a diagram. -/
theorem Diagram.exists_walk_of_related {ε σ : Type} {R : σ → σ → Prop}
    {ask : Nat → σ → Except ε Bool × σ}
    (h : ∀ index s t, R s t →
      ∃ answer s' t', ask index s = (answer, s') ∧ ask index t = (answer, t') ∧ R s' t')
    (d : Diagram) (steps : Nat) (reference : Int32) {s t : σ} (hst : R s t) :
    ∃ result s' t', d.walk ask steps reference s = (result, s') ∧
      d.walk ask steps reference t = (result, t') ∧ R s' t' := by
  induction steps generalizing reference s t with
  | zero =>
    unfold walk
    cases Reference.ofNumber reference with
    | terminal value => exact ⟨_, s, t, rfl, rfl, hst⟩
    | result index => exact ⟨_, s, t, rfl, rfl, hst⟩
    | node node complemented => exact ⟨_, s, t, rfl, rfl, hst⟩
  | succ steps ih =>
    unfold walk
    cases Reference.ofNumber reference with
    | terminal value => exact ⟨_, s, t, rfl, rfl, hst⟩
    | result index => exact ⟨_, s, t, rfl, rfl, hst⟩
    | node node complemented =>
      obtain ⟨answer, s', t', hs, ht, hleft⟩ := h (d.condition node).toInt.toNat s t hst
      simp only [hs, ht]
      cases answer with
      | error e => exact ⟨_, s', t', rfl, rfl, hleft⟩
      | ok holds => exact ih _ hleft

namespace Machine

variable {setup : Setup} {m n : Machine}

/-! ## Machines that are alike -/

/-- The machines differ at most in their stacks, their caches and what they have recorded. -/
structure Alike (m n : Machine) : Prop where
  registers : m.frame.registers = n.frame.registers
  context : m.context = n.context
  status : m.status = n.status
  trap : m.trap = n.trap

/-- The operation gives the same result on machines that are alike, and leaves them alike. -/
def Regular {α : Type} (operation : Machine → α × Machine) : Prop :=
  ∀ m n, m.Alike n →
    ∃ result m' n', operation m = (result, m') ∧ operation n = (result, n') ∧ m'.Alike n'

theorem Alike.note (h : m.Alike n) (mode : Trace.Mode) (event : Trace.Event) :
    (m.note mode event).Alike (n.note mode event) := by
  unfold Machine.note
  split
  · exact ⟨h.registers, h.context, h.status, h.trap⟩
  · exact h

/-! ## Runs of bodies -/

theorem context_run (setup : Setup) (body : Body) (m : Machine) :
    (m.run setup body).2.context = m.context :=
  m.context_conclude _

theorem status_run (setup : Setup) (body : Body) (m : Machine) :
    (m.run setup body).2.status = match (m.run setup body).1 with
      | .ok _ => .halted
      | .error _ => .trapped := by
  rewrite [run, status_conclude, fst_conclude]
  rfl

theorem trap_run (setup : Setup) (body : Body) (m : Machine) :
    (m.run setup body).2.trap = match (m.run setup body).1 with
      | .ok _ => m.trap
      | .error failure => some failure := by
  rewrite [run, trap_conclude, fst_conclude]
  rfl

/-- A body ends in the same way on frames with the same registers. -/
theorem runBody_eq_of_registers_eq {s : Setting} {body : Body} {f g : Frame}
    (h : f.registers = g.registers) (record : Bool) (events events' : Array Trace.Event) :
    (s.runBody record body f events).1 = (s.runBody record body g events').1 ∧
      (s.runBody record body f events).2.1.registers =
        (s.runBody record body g events').2.1.registers := by
  have hagrees : s.Agrees s := ⟨rfl, rfl, rfl, rfl⟩
  have hsame : s.SameBytes body s body := ⟨rfl, fun _ _ => rfl⟩
  obtain ⟨r, hf, hg, hregisters⟩ :=
    Setting.runBody_eq_of_sameBytes hagrees hsame h record record events events'
  exact ⟨hf.trans hg.symm, hregisters⟩

theorem regular_run (setup : Setup) (body : Body) : Regular (run setup body) := by
  intro m n h
  have hsetting : m.setting setup = n.setting setup := by rw [setting, setting, h.context]
  obtain ⟨hm, hregistersM⟩ := run_eq_runBody setup body m
  obtain ⟨hn, hregistersN⟩ := run_eq_runBody setup body n
  obtain ⟨hresult, hregisters⟩ := runBody_eq_of_registers_eq (s := n.setting setup)
    h.registers (setup.mode == .instructions) m.events n.events
  have hsame : (m.run setup body).1 = (n.run setup body).1 := by
    rw [hm, hn, hsetting, hresult]
  have hn' : n.run setup body = ((m.run setup body).1, (n.run setup body).2) := by rw [hsame]
  refine ⟨(m.run setup body).1, (m.run setup body).2, (n.run setup body).2, rfl, hn',
    ?_, ?_, ?_, ?_⟩
  · rw [hregistersM, hregistersN, hsetting, hregisters]
  · rw [context_run, context_run, h.context]
  · rw [status_run, status_run, hsame]
  · rw [trap_run, trap_run, hsame, h.trap]

/-! ## Conditions, results and the diagram -/

theorem regular_test (setup : Setup) (index : Nat) : Regular (test setup index) := by
  intro m n h
  unfold test
  cases hbody : setup.program.body? .condition index with
  | none => exact ⟨_, m, n, rfl, rfl, h⟩
  | some body =>
    obtain ⟨result, m', n', hm, hn, hleft⟩ := regular_run setup body m n h
    simp only [hm, hn]
    cases result with
    | error failure => exact ⟨_, m', n', rfl, rfl, hleft⟩
    | ok exit => exact ⟨_, _, _, rfl, rfl, hleft.note _ _⟩

theorem regular_resolve (setup : Setup) (index : Nat) : Regular (resolve setup index) := by
  intro m n h
  rw [resolve_natCast, resolve_natCast]
  cases hbody : setup.program.body? .result index with
  | none => exact ⟨_, m, n, rfl, rfl, h⟩
  | some body =>
    obtain ⟨result, m', n', hm, hn, hleft⟩ := regular_run setup body m n h
    simp only [hm, hn]
    cases result with
    | error failure => exact ⟨_, m', n', rfl, rfl, hleft⟩
    | ok exit =>
      cases exit with
      | value v => exact ⟨_, m', n', rfl, rfl, hleft⟩
      | endpoint e => exact ⟨_, m', n', rfl, rfl, hleft⟩

theorem regular_decide (setup : Setup) : Regular (decide setup) := by
  intro m n h
  unfold decide Diagram.evaluate
  obtain ⟨result, m', n', hm, hn, hleft⟩ := Diagram.exists_walk_of_related (regular_test setup)
    setup.program.parts.diagram setup.program.parts.diagram.nodeCount
    setup.program.parts.diagram.root h
  simp only [hm, hn]
  cases result with
  | error stop =>
    cases stop with
    | condition failure => exact ⟨_, m', n', rfl, rfl, hleft⟩
    | cycle => exact ⟨_, m', n', rfl, rfl, hleft⟩
  | ok outcome => exact ⟨_, _, _, rfl, rfl, hleft.note _ _⟩

/-! ## Evaluations -/

/-- Filling the registers makes any two machines alike. -/
theorem exists_reset (setup : Setup) (context : Context) (parameters : Parameters)
    (m n : Machine) :
    ∃ result m' n', m.reset setup context parameters = (result, m') ∧
      n.reset setup context parameters = (result, n') ∧ m'.Alike n' :=
  ⟨_, _, _, rfl, rfl, rfl, rfl, rfl, rfl⟩

/-- Any two machines evaluate alike. -/
theorem exists_evaluate (setup : Setup) (context : Context) (parameters : Parameters)
    (m n : Machine) :
    ∃ result m' n', m.evaluate setup context parameters = (result, m') ∧
      n.evaluate setup context parameters = (result, n') ∧ m'.Alike n' := by
  unfold evaluate
  obtain ⟨filled, m₁, n₁, hm₁, hn₁, halike₁⟩ := exists_reset setup context parameters m n
  simp only [hm₁, hn₁]
  cases filled with
  | error failure => exact ⟨_, m₁, n₁, rfl, rfl, halike₁⟩
  | ok _ =>
    obtain ⟨decided, m₂, n₂, hm₂, hn₂, halike₂⟩ := regular_decide setup m₁ n₁ halike₁
    simp only [hm₂, hn₂]
    cases decided with
    | error failure => exact ⟨_, m₂, n₂, rfl, rfl, halike₂⟩
    | ok outcome =>
      cases outcome with
      | terminal value => exact ⟨_, m₂, n₂, rfl, rfl, halike₂⟩
      | result index => exact regular_resolve setup index m₂ n₂ halike₂

/-! ## Histories -/

/-- What a machine can be asked for. -/
inductive Operation
  | reset (context : Context) (parameters : Parameters)
  | test (index : Nat)
  | resolve (index : Int)
  | decide
  | evaluate (context : Context) (parameters : Parameters)

/-- The machine after an operation, whether that gave a result or failed. -/
def Operation.apply (setup : Setup) (m : Machine) : Operation → Machine
  | .reset context parameters => (m.reset setup context parameters).2
  | .test index => (m.test setup index).2
  | .resolve index => (m.resolve setup index).2
  | .decide => (m.decide setup).2
  | .evaluate context parameters => (m.evaluate setup context parameters).2

/-- The machine after some operations. -/
def after (setup : Setup) (history : List Operation) (m : Machine) : Machine :=
  history.foldl (Operation.apply setup) m

/-- An evaluation on a machine with a history gives the same result as on a new machine, whatever
    their caches hold, and leaves the same registers, the same status and the same last failure. -/
theorem evaluate_after (setup : Setup) (cache cache' : Option Uri.Cache)
    (history : List Operation) (context : Context) (parameters : Parameters) :
    let used := ((start setup cache).after setup history).evaluate setup context parameters
    let new := (start setup cache').evaluate setup context parameters
    used.1 = new.1 ∧ used.2.frame.registers = new.2.frame.registers ∧
      used.2.status = new.2.status ∧ used.2.trap = new.2.trap := by
  intro used new
  obtain ⟨result, m', n', hused, hnew, halike⟩ := exists_evaluate setup context parameters
    ((start setup cache).after setup history) (start setup cache')
  have hused' : used = (result, m') := hused
  have hnew' : new = (result, n') := hnew
  rw [hused', hnew']
  exact ⟨rfl, halike.registers, halike.status, halike.trap⟩

end Machine

end EndpointRules
