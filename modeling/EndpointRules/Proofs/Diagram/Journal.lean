import EndpointRules.Proofs.Diagram.Visits

/-!
# Journals of walks

A journal lists what a walk asks, each question with the state in which the walk asks it.  Keeping a
journal changes nothing in a walk.  The journal has at most as many questions as the diagram has
nodes, and it tells all there is to know of the walk: what every answer in it keeps is kept by the
walk, and if its answers depend on the conditions alone, then so does the outcome.
-/

namespace EndpointRules

namespace Diagram

variable {ε σ α : Type} {d : Diagram} {ask : Nat → σ → Except ε Bool × σ} {steps : Nat}
  {reference : Int32} {s s' : σ} {vs : List (Visit ε)} {r : Except (Stop ε) Outcome}

/-- The answers of `ask`, with a journal of what it is asked and in which states. -/
def journaled (ask : Nat → σ → Except ε Bool × σ) (index : Nat) (s : σ × List (Nat × σ)) :
    Except ε Bool × σ × List (Nat × σ) :=
  ((ask index s.1).1, (ask index s.1).2, s.2 ++ [(index, s.1)])

/-- The journal of a walk of at most `steps` nodes from a reference. -/
def journalFrom (d : Diagram) (ask : Nat → σ → Except ε Bool × σ) (steps : Nat) (reference : Int32)
    (s : σ) : List (Nat × σ) :=
  (d.walk (journaled ask) steps reference (s, [])).2.2

/-- The journal of a walk from the root. -/
def journal (d : Diagram) (ask : Nat → σ → Except ε Bool × σ) (s : σ) : List (Nat × σ) :=
  (d.evaluate (journaled ask) (s, [])).2.2

/-! ## Keeping a journal -/

theorem Walks.exists_journal (h : d.Walks ask steps reference s vs r s') :
    ∃ questions, ∀ log,
      d.walk (journaled ask) steps reference (s, log) = (r, s', log ++ questions) := by
  induction h with
  | terminal hsort => exact ⟨[], fun log => by simp [walk, hsort]⟩
  | result hsort => exact ⟨[], fun log => by simp [walk, hsort]⟩
  | cycle hsort => exact ⟨[], fun log => by simp [walk, hsort]⟩
  | @failed _ _ s _ node _ _ hsort hask =>
    exact ⟨[(d.asks node, s)], fun log => by simp [walk_succ_of_node hsort, journaled, hask]⟩
  | @onward _ _ s _ _ node _ _ _ _ hsort hask _ ih =>
    obtain ⟨questions, hrest⟩ := ih
    exact ⟨(d.asks node, s) :: questions, fun log => by
      simp [walk_succ_of_node hsort, journaled, hask, hrest]⟩

/-- A journal changes nothing in a walk. -/
theorem walk_journaled (d : Diagram) (ask : Nat → σ → Except ε Bool × σ) (steps : Nat)
    (reference : Int32) (s : σ) (log : List (Nat × σ)) :
    d.walk (journaled ask) steps reference (s, log) =
      ((d.walk ask steps reference s).1, (d.walk ask steps reference s).2,
        log ++ d.journalFrom ask steps reference s) := by
  obtain ⟨questions, h⟩ := (d.walks ask steps reference s).exists_journal
  rw [journalFrom, h, h, List.nil_append]

theorem journalFrom_of_terminal {value : Bool}
    (hsort : Reference.ofNumber reference = .terminal value) :
    d.journalFrom ask steps reference s = [] := by
  simp [journalFrom, walk, hsort]

theorem journalFrom_of_result {index : Nat}
    (hsort : Reference.ofNumber reference = .result index) :
    d.journalFrom ask steps reference s = [] := by
  simp [journalFrom, walk, hsort]

theorem journalFrom_zero : d.journalFrom ask 0 reference s = [] := by
  simp only [journalFrom, walk]
  split <;> rfl

section

variable {node : Nat} {complemented : Bool}
  (hsort : Reference.ofNumber reference = .node node complemented)

include hsort

theorem journalFrom_of_error {e : ε} (hask : ask (d.asks node) s = (.error e, s')) :
    d.journalFrom ask (steps + 1) reference s = [(d.asks node, s)] := by
  simp [journalFrom, walk_succ_of_node hsort, journaled, hask]

theorem journalFrom_of_ok {holds : Bool} (hask : ask (d.asks node) s = (.ok holds, s')) :
    d.journalFrom ask (steps + 1) reference s =
      (d.asks node, s) :: d.journalFrom ask steps (d.onward node complemented holds) s' := by
  have hasked : journaled ask (d.asks node) (s, []) = (.ok holds, s', [(d.asks node, s)]) := by
    simp [journaled, hask]
  rw [journalFrom, walk_succ_of_node hsort, hasked]
  dsimp only
  rw [walk_journaled]
  rfl

end

/-! ## What is asked -/

theorem Walks.map_journalFrom (h : d.Walks ask steps reference s vs r s') :
    (d.journalFrom ask steps reference s).map (·.1) = vs.map fun v => d.asks v.node := by
  induction h with
  | terminal hsort => simp [journalFrom_of_terminal hsort]
  | result hsort => simp [journalFrom_of_result hsort]
  | cycle _ => simp [journalFrom_zero]
  | failed hsort hask => simp [journalFrom_of_error hsort hask, Visit.node_eq hsort]
  | onward hsort hask _ ih => simp [journalFrom_of_ok hsort hask, Visit.node_eq hsort, ih]

/-- A walk from the root asks at most as many questions as there are nodes. -/
theorem length_journal_le (d : Diagram) (ask : Nat → σ → Except ε Bool × σ) (s : σ) :
    (d.journal ask s).length ≤ d.nodeCount := by
  have hwalks := d.walks ask d.nodeCount d.root s
  have hmap := congrArg List.length hwalks.map_journalFrom
  rw [List.length_map, List.length_map] at hmap
  have hlength := hwalks.length_le
  rw [← hmap] at hlength
  exact hlength

/-! ## What a walk keeps -/

/-- What every answer in the journal of a walk keeps holds in all states of the journal. -/
theorem Walks.keeps {P : σ → Prop} (h : d.Walks ask steps reference s vs r s')
    (hkeeps : ∀ q ∈ d.journalFrom ask steps reference s, P q.2 → P (ask q.1 q.2).2) (hs : P s) :
    ∀ q ∈ d.journalFrom ask steps reference s, P q.2 := by
  induction h with
  | terminal hsort => simp [journalFrom_of_terminal hsort]
  | result hsort => simp [journalFrom_of_result hsort]
  | cycle _ => simp [journalFrom_zero]
  | failed hsort hask => simpa [journalFrom_of_error hsort hask] using hs
  | @onward _ _ s _ _ node _ _ _ _ hsort hask _ ih =>
    rw [journalFrom_of_ok hsort hask] at hkeeps ⊢
    have hleft := hkeeps (d.asks node, s) (by simp) hs
    rw [hask] at hleft
    have hrest := ih (fun q hq => hkeeps q (by simp [hq])) hleft
    simpa [hs] using hrest

theorem journal_keeps (P : σ → Prop)
    (hkeeps : ∀ q ∈ d.journal ask s, P q.2 → P (ask q.1 q.2).2) (hs : P s) :
    ∀ q ∈ d.journal ask s, P q.2 :=
  (d.walks ask d.nodeCount d.root s).keeps hkeeps hs

/-- A relation of states that is kept from answer to answer, while every question adds to a list,
    holds of the first and the last state of a walk and of what all its questions add. -/
theorem Walks.relates {Q : σ → List α → σ → Prop} {added : Nat × σ → List α}
    (h : d.Walks ask steps reference s vs r s') (hnil : ∀ s, Q s [] s)
    (happend : ∀ {s s' s'' xs ys}, Q s xs s' → Q s' ys s'' → Q s (xs ++ ys) s'')
    (hask : ∀ index s, Q s (added (index, s)) (ask index s).2) :
    Q s ((d.journalFrom ask steps reference s).flatMap added) s' := by
  induction h with
  | terminal hsort =>
    rw [journalFrom_of_terminal hsort]
    exact hnil _
  | result hsort =>
    rw [journalFrom_of_result hsort]
    exact hnil _
  | cycle _ =>
    rw [journalFrom_zero]
    exact hnil _
  | @failed _ _ s _ node _ _ hsort hanswer =>
    have hleft := hask (d.asks node) s
    rw [hanswer] at hleft
    rw [journalFrom_of_error hsort hanswer, List.flatMap_singleton]
    exact hleft
  | @onward _ _ s _ _ node _ _ _ _ hsort hanswer _ ih =>
    have hleft := hask (d.asks node) s
    rw [hanswer] at hleft
    rw [journalFrom_of_ok hsort hanswer, List.flatMap_cons]
    exact happend hleft ih

theorem journal_relates {Q : σ → List α → σ → Prop} {added : Nat × σ → List α}
    (hnil : ∀ s, Q s [] s)
    (happend : ∀ {s s' s'' xs ys}, Q s xs s' → Q s' ys s'' → Q s (xs ++ ys) s'')
    (hask : ∀ index s, Q s (added (index, s)) (ask index s).2) (d : Diagram) (s : σ) :
    Q s ((d.journal ask s).flatMap added) (d.evaluate ask s).2 :=
  (d.walks ask d.nodeCount d.root s).relates hnil happend hask

/-! ## Answers that depend on the conditions alone -/

/-- Answers that no state has a part in. -/
def fixed (answer : Nat → Except ε Bool) (index : Nat) (_ : Unit) : Except ε Bool × Unit :=
  (answer index, ())

theorem Walks.walk_fixed {answer : Nat → Except ε Bool} (h : d.Walks ask steps reference s vs r s')
    (hanswer : ∀ q ∈ d.journalFrom ask steps reference s, (ask q.1 q.2).1 = answer q.1) :
    d.walk (fixed answer) steps reference () = (r, ()) := by
  induction h with
  | terminal hsort => simp [walk, hsort]
  | result hsort => simp [walk, hsort]
  | cycle hsort => simp [walk, hsort]
  | @failed _ _ s _ node _ e hsort hask =>
    have heq : answer (d.asks node) = .error e := by
      rw [← hanswer (d.asks node, s) (by simp [journalFrom_of_error hsort hask]), hask]
    simp [walk_succ_of_node hsort, fixed, heq]
  | @onward _ _ s _ _ node _ holds _ _ hsort hask _ ih =>
    rw [journalFrom_of_ok hsort hask] at hanswer
    have heq : answer (d.asks node) = .ok holds := by
      rw [← hanswer (d.asks node, s) (by simp), hask]
    simpa [walk_succ_of_node hsort, fixed, heq] using ih fun q hq => hanswer q (by simp [hq])

/-- If the answers in the journal of a walk are those of a function of the conditions, then so is
    the outcome. -/
theorem evaluate_eq_fixed {answer : Nat → Except ε Bool}
    (hanswer : ∀ q ∈ d.journal ask s, (ask q.1 q.2).1 = answer q.1) :
    (d.evaluate ask s).1 = (d.evaluate (fixed answer) ()).1 := by
  have hfixed := (d.walks ask d.nodeCount d.root s).walk_fixed hanswer
  rw [evaluate, evaluate, hfixed]

end Diagram

end EndpointRules
