import Mathlib.Data.List.Nodup
import Mathlib.Data.List.Perm.Subperm
import Mathlib.Logic.Relation
import Mathlib.Tactic.IntervalCases
import EndpointRules.Proofs.Diagram.Visits

/-!
# The meaning of a diagram

`Diagram.Denotes` gives each reference of a diagram its meaning by recursion on the diagram: a node
means what the reference that its condition picks means, and the complement of a node means the
opposite of that.  A walk carries the complements down its path instead.  In a diagram without
cycles a walk meets no node twice, is never cut short, and ends with the meaning of the reference
that it starts from.
-/

namespace EndpointRules

namespace Diagram

/-- The outcome with truth values exchanged; a result stays. -/
def Outcome.complement : Outcome → Outcome
  | .result index => .result index
  | .terminal value => .terminal !value

@[simp] theorem Outcome.complement_complement (o : Outcome) : o.complement.complement = o := by
  cases o <;> simp [complement]

/-- What a reference means, given for each condition whether it holds. -/
inductive Denotes (d : Diagram) (holds : Nat → Bool) : Int32 → Outcome → Prop
  | terminal {n : Int32} {value : Bool} (hsort : Reference.ofNumber n = .terminal value) :
      Denotes d holds n (.terminal value)
  | result {n : Int32} {index : Nat} (hsort : Reference.ofNumber n = .result index) :
      Denotes d holds n (.result index)
  | node {n : Int32} {node : Nat} {o : Outcome} (hsort : Reference.ofNumber n = .node node false)
      (hchild : Denotes d holds (d.child node (holds (d.asks node))) o) : Denotes d holds n o
  | complemented {n : Int32} {node : Nat} {o : Outcome}
      (hsort : Reference.ofNumber n = .node node true)
      (hchild : Denotes d holds (d.child node (holds (d.asks node))) o) :
      Denotes d holds n o.complement

/-- One of the references of a node leads to the other node, with or without complement. -/
def Edge (d : Diagram) (i j : Nat) : Prop :=
  d.HasNode i ∧ ∃ holds complemented,
    Reference.ofNumber (d.child i holds) = .node j complemented

/-- No node leads back to itself. -/
def Acyclic (d : Diagram) : Prop := ∀ i, ¬ Relation.TransGen d.Edge i i

variable {ε σ : Type} {d : Diagram} {conditionCount resultCount steps i j : Nat}
  {ask : Nat → σ → Except ε Bool × σ} {holds : Nat → Bool} {reference n : Int32} {s s' : σ}
  {vs : List (Visit ε)} {r : Except (Stop ε) Outcome} {o o' : Outcome}

/-! ## Meanings -/

/-- What a node means, its child does, and the complement of a node the opposite. -/
theorem denotes_node_iff {node : Nat} {complemented : Bool}
    (hsort : Reference.ofNumber n = .node node complemented) :
    d.Denotes holds n o ↔ d.Denotes holds (d.child node (holds (d.asks node)))
      (if complemented then o.complement else o) := by
  constructor
  · intro h
    cases h with
    | terminal hsort' => simp [hsort] at hsort'
    | result hsort' => simp [hsort] at hsort'
    | node hsort' hchild =>
      rw [hsort] at hsort'
      cases hsort'
      exact hchild
    | complemented hsort' hchild =>
      rw [hsort] at hsort'
      cases hsort'
      simpa using hchild
  · intro h
    cases complemented with
    | false => exact .node hsort h
    | true => simpa using Denotes.complemented hsort h

/-- A reference has one meaning at most. -/
theorem Denotes.unique (h : d.Denotes holds n o) (h' : d.Denotes holds n o') : o = o' := by
  induction h generalizing o' with
  | terminal hsort => cases h' <;> simp_all
  | result hsort => cases h' <;> simp_all
  | node hsort _ ih => exact ih ((denotes_node_iff hsort).1 h')
  | complemented hsort _ ih =>
    rw [ih ((denotes_node_iff hsort).1 h'), if_pos rfl, Outcome.complement_complement]

/-- The sort of the complement of a reference, in a table where each node has a number. -/
theorem ofNumber_complement (hsize : (d.nodeCount : Int) < Reference.resultOffset.toInt)
    (hvalid : Reference.isValid d.nodeCount resultCount n = true) :
    Reference.ofNumber (Reference.complement n) = match Reference.ofNumber n with
      | .terminal value => .terminal !value
      | .result index => .result index
      | .node node complemented => .node node !complemented := by
  obtain ⟨hzero, hleast, hrange⟩ := Reference.isValid_iff.1 hvalid
  have hcomplement := Reference.toInt_complement hleast
  rw [Reference.toInt_resultOffset] at *
  cases hsort : Reference.ofNumber n with
  | terminal value =>
    have := Reference.ofNumber_eq_terminal_iff.1 hsort
    refine Reference.ofNumber_eq_terminal_iff.2 ?_
    cases value <;> grind
  | result index =>
    have := Reference.ofNumber_eq_result_iff.1 hsort
    refine Reference.ofNumber_eq_result_iff.2 ?_
    grind [Reference.toInt_resultOffset]
  | node node complemented =>
    have := Reference.ofNumber_eq_node_iff.1 hsort
    refine Reference.ofNumber_eq_node_iff.2 ?_
    grind [Reference.toInt_resultOffset]

/-- A reference means the opposite of what its complement means. -/
theorem Denotes.of_complement (hsize : (d.nodeCount : Int) < Reference.resultOffset.toInt)
    (hvalid : Reference.isValid d.nodeCount resultCount n = true)
    (h : d.Denotes holds (Reference.complement n) o) : d.Denotes holds n o.complement := by
  have hcomplement := ofNumber_complement hsize hvalid
  cases hsort : Reference.ofNumber n with
  | terminal value =>
    rw [hsort] at hcomplement
    obtain rfl := h.unique (.terminal hcomplement)
    simpa [Outcome.complement] using Denotes.terminal hsort
  | result index =>
    rw [hsort] at hcomplement
    obtain rfl := h.unique (.result hcomplement)
    exact .result hsort
  | node node complemented =>
    rw [hsort] at hcomplement
    rw [denotes_node_iff hcomplement] at h
    rw [denotes_node_iff hsort]
    cases complemented with
    | false => exact h
    | true => simpa using h

/-- From a valid reference a walk ends with what the reference means. -/
theorem Walks.denotes (hvalid : d.Valid conditionCount resultCount)
    (hsize : (d.nodeCount : Int) < Reference.resultOffset.toInt)
    (hask : ∀ index s, (ask index s).1 = .ok (holds index))
    (h : d.Walks ask steps reference s vs r s')
    (hreference : Reference.isValid d.nodeCount resultCount reference = true) (hr : r = .ok o) :
    d.Denotes holds reference o := by
  induction h generalizing o with
  | terminal hsort =>
    cases hr
    exact .terminal hsort
  | result hsort =>
    cases hr
    exact .result hsort
  | cycle _ => cases hr
  | failed _ _ => cases hr
  | @onward _ reference s s' _ node complemented answer _ _ hsort hanswer _ ih =>
    have hnode : d.HasNode node := (Reference.Inside.of_isValid hreference).node hsort
    have hchild := hvalid.child hnode (holds (d.asks node))
    obtain rfl : answer = holds (d.asks node) := by simpa [hanswer] using hask (d.asks node) s
    rw [denotes_node_iff hsort]
    cases complemented with
    | false => exact ih hchild hr
    | true =>
      have hopposite := Reference.isValid_complement (by omega) hchild
      exact .of_complement hsize hchild (ih hopposite hr)

/-! ## Diagrams without cycles -/

/-- A diagram has no cycles if its edges lead down by some measure. -/
theorem acyclic_of_rank (rank : Nat → Nat) (h : ∀ i j, d.Edge i j → rank j < rank i) :
    d.Acyclic := by
  have hdown : ∀ {i j}, Relation.TransGen d.Edge i j → rank j < rank i := by
    intro i j hpath
    induction hpath with
    | single hedge => exact h _ _ hedge
    | tail _ hedge ih => exact Nat.lt_trans (h _ _ hedge) ih
  exact fun i hcycle => Nat.lt_irrefl _ (hdown hcycle)

/-- A walk goes from node to node along edges. -/
theorem Valid.edge_of_onward (hvalid : d.Valid conditionCount resultCount) (hnode : d.HasNode i)
    {complemented complemented' holds : Bool}
    (hsort : Reference.ofNumber (d.onward i complemented holds) = .node j complemented') :
    d.Edge i j := by
  have hchild := Reference.Inside.of_isValid (hvalid.child hnode holds)
  cases complemented with
  | false => exact ⟨hnode, holds, complemented', hsort⟩
  | true =>
    obtain ⟨negated, hsort⟩ := Reference.exists_node_of_complement hchild.ne_minValue hsort
    exact ⟨hnode, holds, negated, hsort⟩

/-- A walk visits only nodes that edges lead to from where it starts. -/
theorem Walks.reaches (hvalid : d.Valid conditionCount resultCount)
    (h : d.Walks ask steps reference s vs r s')
    (hreference : Reference.Inside d.nodeCount reference) {v : Visit ε} (hv : v ∈ vs) :
    ∃ node complemented, Reference.ofNumber reference = .node node complemented ∧
      Relation.ReflTransGen d.Edge node v.node := by
  induction h with
  | terminal _ => simp at hv
  | result _ => simp at hv
  | cycle _ => simp at hv
  | failed hsort _ =>
    obtain rfl := List.mem_singleton.1 hv
    rw [Visit.node_eq hsort]
    exact ⟨_, _, hsort, .refl⟩
  | onward hsort _ _ ih =>
    have hnode : d.HasNode _ := hreference.node hsort
    refine ⟨_, _, hsort, ?_⟩
    rcases List.mem_cons.1 hv with hv | hv
    · subst hv
      rw [Visit.node_eq hsort]
    · obtain ⟨_, _, hnext, hpath⟩ := ih (hvalid.inside_onward hnode _ _) hv
      exact .head (hvalid.edge_of_onward hnode hnext) hpath

/-- In a diagram without cycles a walk visits no node twice. -/
theorem Walks.nodup (hvalid : d.Valid conditionCount resultCount) (hacyclic : d.Acyclic)
    (h : d.Walks ask steps reference s vs r s')
    (hreference : Reference.Inside d.nodeCount reference) : (vs.map Visit.node).Nodup := by
  induction h with
  | terminal _ => simp
  | result _ => simp
  | cycle _ => simp
  | failed _ _ => simp
  | @onward _ _ _ _ _ node _ _ _ _ hsort _ hrest ih =>
    have hnode : d.HasNode node := hreference.node hsort
    have hnext := hvalid.inside_onward hnode
    rw [List.map_cons, List.nodup_cons, Visit.node_eq hsort]
    refine ⟨fun hmem => ?_, ih (hnext _ _)⟩
    obtain ⟨v, hv, hsame⟩ := List.mem_map.1 hmem
    obtain ⟨j, _, hj, hpath⟩ := hrest.reaches hvalid (hnext _ _) hv
    rw [hsame] at hpath
    exact hacyclic node (.head' (hvalid.edge_of_onward hnode hj) hpath)

/-- A walk that is cut short has visited some node twice. -/
theorem Valid.not_nodup_of_cycle (hvalid : d.Valid conditionCount resultCount)
    (hcycle : (d.evaluate ask s).1 = .error .cycle) :
    ¬ ((d.visits ask d.nodeCount d.root s).map Visit.node).Nodup := by
  intro hnodup
  have hinside := Reference.Inside.of_isValid hvalid.root
  have hwalks := d.walks ask d.nodeCount d.root s
  have hlength := hwalks.length_of_cycle hcycle
  obtain ⟨node, _, hsort⟩ := hwalks.node_of_cycle hcycle
  have hnode := hinside.node hsort
  -- all visited nodes are among those from 1 on, of which there is one less than rows in the table
  have hsubset : (d.visits ask d.nodeCount d.root s).map Visit.node ⊆
      List.range' 1 (d.nodeCount - 1) := by
    intro i hi
    obtain ⟨v, hv, rfl⟩ := List.mem_map.1 hi
    have := (hwalks.inside hvalid hinside v hv).2
    rw [List.mem_range'_1]
    unfold HasNode at this
    omega
  have hle := (hnodup.subperm hsubset).length_le
  rw [List.length_map, List.length_range'] at hle
  omega

/-- In a diagram without cycles no walk is cut short, whatever its conditions answer. -/
theorem Valid.evaluate_ne_cycle (hvalid : d.Valid conditionCount resultCount)
    (hacyclic : d.Acyclic) (ask : Nat → σ → Except ε Bool × σ) (s : σ) :
    (d.evaluate ask s).1 ≠ .error .cycle := by
  intro hcycle
  have hwalks := d.walks ask d.nodeCount d.root s
  exact hvalid.not_nodup_of_cycle hcycle (hwalks.nodup hvalid hacyclic (.of_isValid hvalid.root))

/-- A walk through a checked diagram without cycles is never cut short.  If the conditions always
    answer the same, it asks the condition of each node at most once and ends with what the root
    means. -/
theorem evaluate_eq_meaning (h : d.validate conditionCount resultCount = .ok ())
    (hsize : (d.nodeCount : Int) < Reference.resultOffset.toInt) (hacyclic : d.Acyclic)
    (ask : Nat → σ → Except ε Bool × σ) (s : σ) :
    (d.evaluate ask s).1 ≠ .error .cycle ∧
      ∀ holds : Nat → Bool, (∀ index s, (ask index s).1 = .ok (holds index)) →
        ((d.visits ask d.nodeCount d.root s).map Visit.node).Nodup ∧
        d.asked ask s = (d.visits ask d.nodeCount d.root s).map (fun v => d.asks v.node) ∧
        ∃ o, (d.evaluate ask s).1 = .ok o ∧ ∀ o', d.Denotes holds d.root o' ↔ o' = o := by
  have hvalid := validate_eq_ok_iff.1 h
  have hcycle := hvalid.evaluate_ne_cycle hacyclic ask s
  have hwalks := d.walks ask d.nodeCount d.root s
  refine ⟨hcycle, fun holds hask => ⟨hwalks.nodup hvalid hacyclic (.of_isValid hvalid.root),
    d.asked_eq ask s, ?_⟩⟩
  cases hresult : (d.evaluate ask s).1 with
  | error stop =>
    cases stop with
    | condition e =>
      obtain ⟨_, _, _, index, s', hanswer⟩ := hwalks.exists_answer hresult
      rw [hask index s'] at hanswer
      cases hanswer
    | cycle => exact absurd hresult hcycle
  | ok o =>
    have hmeaning := hwalks.denotes hvalid hsize hask hvalid.root hresult
    exact ⟨o, rfl, fun o' => ⟨fun h' => h'.unique hmeaning, fun h' => h' ▸ hmeaning⟩⟩

/-- The complement of a node both of whose references lead to node 3, one of them by way of node 2
    and the other with a complement. -/
def diamond : Diagram where
  entries := #[-1, 1, -1, 0, -4, 3, 1, 4, 100000000, 1, 1, -1]
  root := -2

/-- Conditions of which only condition 1 holds, with the number of questions so far. -/
def onlySecond (index asked : Nat) : Except Unit Bool × Nat := (.ok (index == 1), asked + 1)

theorem acyclic_diamond : diamond.Acyclic := by
  refine acyclic_of_rank (4 - ·) fun i j hedge => ?_
  obtain ⟨⟨hpos, hcount⟩, holds, complemented, hsort⟩ := hedge
  have hless : i < 4 := hcount
  have hj : j < 4 ∧ i < j := by
    interval_cases i <;> cases holds <;> cases hsort <;> decide
  omega

theorem evaluate_diamond :
    diamond.validate 2 1 = .ok () ∧ (diamond.nodeCount : Int) < Reference.resultOffset.toInt ∧
      diamond.Acyclic ∧ (∀ index asked, (onlySecond index asked).1 = .ok (index == 1)) ∧
      (diamond.evaluate onlySecond 0).1 ≠ .error .cycle ∧
      ((diamond.visits onlySecond diamond.nodeCount diamond.root 0).map Visit.node).Nodup ∧
      ∃ o, (diamond.evaluate onlySecond 0).1 = .ok o ∧
        ∀ o', diamond.Denotes (· == 1) diamond.root o' ↔ o' = o := by
  have hchecked : diamond.validate 2 1 = .ok () := rfl
  have hsize : (diamond.nodeCount : Int) < Reference.resultOffset.toInt := by decide
  obtain ⟨hcycle, hmeaning⟩ := evaluate_eq_meaning hchecked hsize acyclic_diamond onlySecond 0
  obtain ⟨hnodup, -, hdenotes⟩ := hmeaning (· == 1) fun _ _ => rfl
  exact ⟨hchecked, hsize, acyclic_diamond, fun _ _ => rfl, hcycle, hnodup, hdenotes⟩

end Diagram

end EndpointRules
