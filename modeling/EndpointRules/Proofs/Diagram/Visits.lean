import EndpointRules.Diagram
import EndpointRules.Proofs.Except

/-!
# Visits of a walk

A checked diagram, and a walk through it visit by visit.  `Diagram.Valid` is what the check of a
diagram finds out.  `Diagram.visits` lists the nodes that a walk comes to with the answers that
their conditions give, and `Diagram.asked` the conditions that are really asked; the two agree.
As long as a walk starts from a reference that the check accepts, it visits nodes of the table only.
-/

namespace EndpointRules

namespace Reference

variable {n : Int32} {nodeCount resultCount node index : Nat} {value complemented : Bool}

/-! ## Numbers as references -/

theorem toInt_resultOffset : resultOffset.toInt = 100000000 := rfl

theorem isResult_iff : isResult n = true ↔ resultOffset.toInt ≤ n.toInt := by
  simp [isResult, Int32.le_iff_toInt_le]

theorem eq_one_iff : n = 1 ↔ n.toInt = 1 := Int32.toInt_inj.symm

theorem eq_neg_one_iff : n = -1 ↔ n.toInt = -1 := Int32.toInt_inj.symm

theorem ofNumber_eq_result_iff :
    ofNumber n = .result index ↔ n.toInt = resultOffset.toInt + index := by
  simp only [ofNumber, Int32.le_iff_toInt_le, toInt_resultOffset, eq_one_iff, eq_neg_one_iff]
  grind

theorem ofNumber_eq_terminal_iff :
    ofNumber n = .terminal value ↔ n.toInt = if value then 1 else -1 := by
  simp only [ofNumber, Int32.le_iff_toInt_le, toInt_resultOffset, eq_one_iff, eq_neg_one_iff]
  cases value <;> grind

theorem ofNumber_eq_node_iff :
    ofNumber n = .node node complemented ↔ n.toInt < resultOffset.toInt ∧ n.toInt.natAbs ≠ 1 ∧
      n.toInt.natAbs - 1 = node ∧ decide (n.toInt < 0) = complemented := by
  simp only [ofNumber, Int32.le_iff_toInt_le, Int32.lt_iff_toInt_lt, toInt_resultOffset, eq_one_iff,
    eq_neg_one_iff]
  grind

/-- Which numbers refer to something: results in range, terminals, and nodes of the table with
    either sign. -/
theorem isValid_iff :
    isValid nodeCount resultCount n = true ↔
      n.toInt ≠ 0 ∧ n ≠ Int32.minValue ∧
        (resultOffset.toInt ≤ n.toInt ∧ n.toInt < resultOffset.toInt + resultCount ∨
          n.toInt < resultOffset.toInt ∧ (n.toInt.natAbs = 1 ∨ n.toInt.natAbs ≤ nodeCount)) := by
  have hzero : n = 0 ↔ n.toInt = 0 := Int32.toInt_inj.symm
  simp only [isValid, Bool.and_eq_true, bne_iff_ne, ne_eq, hzero, and_assoc]
  cases hsort : ofNumber n with
  | terminal value =>
    have := ofNumber_eq_terminal_iff.1 hsort
    grind [toInt_resultOffset]
  | result i =>
    have := ofNumber_eq_result_iff.1 hsort
    grind [toInt_resultOffset]
  | node i complemented =>
    have := ofNumber_eq_node_iff.1 hsort
    grind [toInt_resultOffset]

/-- Taking the opposite changes the sign of every number but the least. -/
theorem toInt_neg_of_ne (h : n ≠ Int32.minValue) : (-n).toInt = -n.toInt := by
  have hne : n.toInt ≠ -2 ^ 31 := fun heq => h (Int32.toInt_inj.1 heq)
  have := n.toInt_lt
  have := n.le_toInt
  rw [Int32.toInt_neg, Int.bmod_eq_of_le_mul_two (by omega) (by omega)]

theorem toInt_complement (h : n ≠ Int32.minValue) :
    (complement n).toInt = if resultOffset.toInt ≤ n.toInt then n.toInt else -n.toInt := by
  unfold complement
  by_cases hresult : resultOffset.toInt ≤ n.toInt
  · rw [if_pos (isResult_iff.2 hresult), if_pos hresult]
  · rw [if_neg (mt isResult_iff.1 hresult), if_neg hresult, toInt_neg_of_ne h]

theorem complement_ne_minValue (h : n ≠ Int32.minValue) : complement n ≠ Int32.minValue := by
  intro heq
  have hcomplement := toInt_complement h
  rw [heq, Int32.toInt_minValue, toInt_resultOffset] at hcomplement
  have := n.toInt_lt
  grind

/-- The complement of a reference to something refers to something, unless the opposite of a
    complemented node is the number of a result that there is not. -/
theorem isValid_complement_iff (h : isValid nodeCount resultCount n = true) :
    isValid nodeCount resultCount (complement n) = true ↔
      -(resultOffset.toInt + resultCount) < n.toInt := by
  obtain ⟨hzero, hleast, hsort⟩ := isValid_iff.1 h
  have hcomplement := toInt_complement hleast
  have hleast' := complement_ne_minValue hleast
  rw [isValid_iff]
  rw [toInt_resultOffset] at *
  grind

/-- In a table with fewer nodes than there are numbers for, every complement refers to something. -/
theorem isValid_complement (hsize : (nodeCount : Int) < resultOffset.toInt + resultCount)
    (h : isValid nodeCount resultCount n = true) :
    isValid nodeCount resultCount (complement n) = true := by
  refine (isValid_complement_iff h).2 ?_
  have hrange := (isValid_iff.1 h).2.2
  rw [toInt_resultOffset] at *
  omega

/-- The number is not the least, and if it refers to a node then to one of the table that is not
    node 0. -/
structure Inside (nodeCount : Nat) (n : Int32) : Prop where
  ne_minValue : n ≠ Int32.minValue
  node : ∀ {node complemented}, ofNumber n = .node node complemented → 1 ≤ node ∧ node < nodeCount

theorem Inside.of_isValid (h : isValid nodeCount resultCount n = true) : Inside nodeCount n := by
  obtain ⟨hzero, hleast, hsort⟩ := isValid_iff.1 h
  refine ⟨hleast, fun hnode => ?_⟩
  have := ofNumber_eq_node_iff.1 hnode
  omega

/-- Where the complement of a reference is a node, the reference is that node with either sign. -/
theorem exists_node_of_complement (h : n ≠ Int32.minValue)
    (hnode : ofNumber (complement n) = .node node complemented) :
    ∃ complemented, ofNumber n = .node node complemented := by
  have hcomplement := toInt_complement h
  obtain ⟨hresult, hone, hindex, -⟩ := ofNumber_eq_node_iff.1 hnode
  refine ⟨decide (n.toInt < 0), ofNumber_eq_node_iff.2 ?_⟩
  grind

theorem Inside.complement (h : Inside nodeCount n) : Inside nodeCount (complement n) := by
  refine ⟨complement_ne_minValue h.ne_minValue, fun hnode => ?_⟩
  obtain ⟨_, hnode⟩ := exists_node_of_complement h.ne_minValue hnode
  exact h.node hnode

end Reference

namespace Diagram

variable {ε σ : Type} {d : Diagram} {conditionCount resultCount : Nat}

/-! ## Checked diagrams -/

/-- The nodes that the check of a diagram looks at: all of the table but node 0. -/
def HasNode (d : Diagram) (node : Nat) : Prop := 1 ≤ node ∧ node < d.nodeCount

/-- The index of the condition that a node asks. -/
def asks (d : Diagram) (node : Nat) : Nat := (d.condition node).toInt.toNat

/-- What the check of a diagram finds out. -/
structure Valid (d : Diagram) (conditionCount resultCount : Nat) : Prop where
  length : d.entries.size % 3 = 0
  root : Reference.isValid d.nodeCount resultCount d.root = true
  condition : ∀ {node}, d.HasNode node → 0 ≤ d.condition node ∧ d.asks node < conditionCount
  child : ∀ {node}, d.HasNode node → ∀ holds,
    Reference.isValid d.nodeCount resultCount (d.child node holds) = true

theorem checkNode_eq_ok_iff {node : Nat} :
    d.checkNode conditionCount resultCount node = .ok () ↔
      (0 ≤ d.condition node ∧ d.asks node < conditionCount) ∧
        ∀ holds, Reference.isValid d.nodeCount resultCount (d.child node holds) = true := by
  simp only [checkNode, asks, child, Bool.forall_bool, Bool.or_eq_true, Bool.and_eq_true,
    decide_eq_true_eq]
  grind [Int32.not_lt]

/-- The check accepts exactly the diagrams that are valid. -/
theorem validate_eq_ok_iff :
    d.validate conditionCount resultCount = .ok () ↔ d.Valid conditionCount resultCount := by
  have hrange : ∀ node, node ∈ List.range' 1 (d.nodeCount - 1) ↔ d.HasNode node := by
    intro node
    rw [List.mem_range'_1, HasNode]
    omega
  unfold validate
  by_cases hlength : d.entries.size % 3 = 0
  · rw [if_neg (not_not_intro hlength)]
    by_cases hroot : Reference.isValid d.nodeCount resultCount d.root = true
    · rw [if_neg (by simp [hroot]), List.forM_eq_forM, Except.forM_eq_ok_iff]
      simp only [hrange, checkNode_eq_ok_iff]
      constructor
      · intro h
        exact ⟨hlength, hroot, fun hnode => (h _ hnode).1, fun hnode => (h _ hnode).2⟩
      · intro h node hnode
        exact ⟨h.condition hnode, h.child hnode⟩
    · rw [if_pos (by simp [hroot])]
      exact ⟨nofun, fun h => absurd h.root hroot⟩
  · rw [if_pos hlength]
    exact ⟨nofun, fun h => absurd h.length hlength⟩

/-! ## Visits -/

/-- A visit of a node in a walk: the reference that led to it, and what its condition answered. -/
structure Visit (ε : Type) where
  reference : Int32
  answer : Except ε Bool

namespace Visit

/-- The node that is visited. -/
def node (v : Visit ε) : Nat := v.reference.toInt.natAbs - 1

/-- Whether the walk takes the complement of the node. -/
def complemented (v : Visit ε) : Bool := v.reference.toInt < 0

section

variable {reference : Int32} {answer : Except ε Bool} {i : Nat} {negated : Bool}
  (h : Reference.ofNumber reference = .node i negated)

include h

theorem node_eq : (Visit.mk reference answer).node = i :=
  (Reference.ofNumber_eq_node_iff.1 h).2.2.1

theorem complemented_eq : (Visit.mk reference answer).complemented = negated :=
  (Reference.ofNumber_eq_node_iff.1 h).2.2.2

end

end Visit

/-- Where a walk goes on from a node. -/
def onward (d : Diagram) (node : Nat) (complemented holds : Bool) : Int32 :=
  if complemented then Reference.complement (d.child node holds) else d.child node holds

/-- The visits of a walk of at most `steps` nodes from a reference, in order. -/
def visits (d : Diagram) (ask : Nat → σ → Except ε Bool × σ) :
    (steps : Nat) → (reference : Int32) → σ → List (Visit ε)
  | steps, reference, s =>
    match Reference.ofNumber reference with
    | .terminal _ => []
    | .result _ => []
    | .node node complemented =>
      match steps with
      | 0 => []
      | steps + 1 =>
        match ask (d.asks node) s with
        | (.error e, _) => [⟨reference, .error e⟩]
        | (.ok holds, s) =>
          ⟨reference, .ok holds⟩ :: d.visits ask steps (d.onward node complemented holds) s

variable {ask : Nat → σ → Except ε Bool × σ} {steps : Nat} {reference : Int32} {s s' : σ}
  {vs : List (Visit ε)} {r : Except (Stop ε) Outcome}

/-- A walk of at most `steps` nodes from a reference makes some visits and ends with a result. -/
inductive Walks (d : Diagram) (ask : Nat → σ → Except ε Bool × σ) :
    Nat → Int32 → σ → List (Visit ε) → Except (Stop ε) Outcome → σ → Prop
  | terminal {steps : Nat} {reference : Int32} {s : σ} {value : Bool}
      (hsort : Reference.ofNumber reference = .terminal value) :
      Walks d ask steps reference s [] (.ok (.terminal value)) s
  | result {steps : Nat} {reference : Int32} {s : σ} {index : Nat}
      (hsort : Reference.ofNumber reference = .result index) :
      Walks d ask steps reference s [] (.ok (.result index)) s
  | cycle {reference : Int32} {s : σ} {node : Nat} {complemented : Bool}
      (hsort : Reference.ofNumber reference = .node node complemented) :
      Walks d ask 0 reference s [] (.error .cycle) s
  | failed {steps : Nat} {reference : Int32} {s s' : σ} {node : Nat} {complemented : Bool} {e : ε}
      (hsort : Reference.ofNumber reference = .node node complemented)
      (hask : ask (d.asks node) s = (.error e, s')) :
      Walks d ask (steps + 1) reference s [⟨reference, .error e⟩] (.error (.condition e)) s'
  | onward {steps : Nat} {reference : Int32} {s s' s'' : σ} {node : Nat}
      {complemented holds : Bool} {vs : List (Visit ε)} {r : Except (Stop ε) Outcome}
      (hsort : Reference.ofNumber reference = .node node complemented)
      (hask : ask (d.asks node) s = (.ok holds, s'))
      (hrest : Walks d ask steps (d.onward node complemented holds) s' vs r s'') :
      Walks d ask (steps + 1) reference s (⟨reference, .ok holds⟩ :: vs) r s''

theorem walk_succ_of_node {node : Nat} {complemented : Bool}
    (hsort : Reference.ofNumber reference = .node node complemented) :
    d.walk ask (steps + 1) reference s = match ask (d.asks node) s with
      | (.error e, s') => (.error (.condition e), s')
      | (.ok holds, s') => d.walk ask steps (d.onward node complemented holds) s' := by
  rw [walk, hsort]
  rfl

/-- Every walk is made of its visits. -/
theorem walks (d : Diagram) (ask : Nat → σ → Except ε Bool × σ) (steps : Nat) (reference : Int32)
    (s : σ) : d.Walks ask steps reference s (d.visits ask steps reference s)
      (d.walk ask steps reference s).1 (d.walk ask steps reference s).2 := by
  induction steps generalizing reference s with
  | zero =>
    unfold walk visits
    cases hsort : Reference.ofNumber reference with
    | terminal value => exact .terminal hsort
    | result index => exact .result hsort
    | node node complemented => exact .cycle hsort
  | succ steps ih =>
    unfold visits
    cases hsort : Reference.ofNumber reference with
    | terminal value =>
      rw [walk, hsort]
      exact .terminal hsort
    | result index =>
      rw [walk, hsort]
      exact .result hsort
    | node node complemented =>
      rw [walk_succ_of_node hsort]
      dsimp only
      cases hask : ask (d.asks node) s with
      | mk answer s' =>
        cases answer with
        | error e => exact .failed hsort hask
        | ok holds => exact .onward hsort hask (ih _ s')

theorem Walks.length_le (h : d.Walks ask steps reference s vs r s') : vs.length ≤ steps := by
  induction h with
  | terminal _ => exact Nat.zero_le _
  | result _ => exact Nat.zero_le _
  | cycle _ => exact Nat.le_refl _
  | failed _ _ => simp
  | onward _ _ _ ih => simpa using ih

/-- A walk that is cut short has made all visits that it may make. -/
theorem Walks.length_of_cycle (h : d.Walks ask steps reference s vs r s')
    (hcycle : r = .error .cycle) : vs.length = steps := by
  induction h with
  | terminal _ => cases hcycle
  | result _ => cases hcycle
  | cycle _ => rfl
  | failed _ _ => cases hcycle
  | onward _ _ _ ih => simpa using ih hcycle

/-- A walk fails with a condition only. -/
theorem Walks.exists_answer (h : d.Walks ask steps reference s vs r s') {e : ε}
    (hr : r = .error (.condition e)) :
    ∃ v, vs.getLast? = some v ∧ v.answer = .error e ∧ ∃ index s, (ask index s).1 = .error e := by
  induction h with
  | terminal _ => cases hr
  | result _ => cases hr
  | cycle _ => cases hr
  | failed _ hask =>
    cases hr
    exact ⟨_, rfl, rfl, _, _, by rw [hask]⟩
  | onward _ _ _ ih =>
    obtain ⟨v, hlast, hanswer⟩ := ih hr
    exact ⟨v, by simp [List.getLast?_cons, hlast], hanswer⟩

/-- Only at a node is a walk cut short. -/
theorem Walks.node_of_cycle (h : d.Walks ask steps reference s vs r s')
    (hcycle : r = .error .cycle) :
    ∃ node complemented, Reference.ofNumber reference = .node node complemented := by
  cases h with
  | terminal _ => cases hcycle
  | result _ => cases hcycle
  | cycle hsort => exact ⟨_, _, hsort⟩
  | failed hsort _ => exact ⟨_, _, hsort⟩
  | onward hsort _ _ => exact ⟨_, _, hsort⟩

/-! ## Staying in the table -/

theorem Valid.inside_onward (hvalid : d.Valid conditionCount resultCount) {node : Nat}
    (hnode : d.HasNode node) (complemented holds : Bool) :
    Reference.Inside d.nodeCount (d.onward node complemented holds) := by
  have hchild := hvalid.child hnode holds
  cases complemented with
  | false => exact .of_isValid hchild
  | true => exact (Reference.Inside.of_isValid hchild).complement

/-- From inside the table a walk visits only nodes that the check has looked at. -/
theorem Walks.inside (hvalid : d.Valid conditionCount resultCount)
    (h : d.Walks ask steps reference s vs r s')
    (hreference : Reference.Inside d.nodeCount reference) :
    ∀ v ∈ vs, v.reference ≠ Int32.minValue ∧ d.HasNode v.node := by
  induction h with
  | terminal _ => simp
  | result _ => simp
  | cycle _ => simp
  | failed hsort _ =>
    simpa [Visit.node_eq hsort] using ⟨hreference.ne_minValue, hreference.node hsort⟩
  | onward hsort _ _ ih =>
    have hnode : d.HasNode _ := hreference.node hsort
    simpa [Visit.node_eq hsort, hreference.ne_minValue, hnode] using
      ih (hvalid.inside_onward hnode _ _)

/-! ## The conditions that are asked -/

/-- The answers of `ask`, with a log of the conditions that it is asked. -/
def logged (ask : Nat → σ → Except ε Bool × σ) (index : Nat) (s : σ × List Nat) :
    Except ε Bool × σ × List Nat :=
  ((ask index s.1).1, (ask index s.1).2, s.2 ++ [index])

/-- The conditions that a walk from the root asks, in order. -/
def asked (d : Diagram) (ask : Nat → σ → Except ε Bool × σ) (s : σ) : List Nat :=
  (d.evaluate (logged ask) (s, [])).2.2

/-- A log changes nothing in a walk, and it holds the condition of each visit. -/
theorem Walks.walk_logged (h : d.Walks ask steps reference s vs r s') (log : List Nat) :
    d.walk (logged ask) steps reference (s, log) =
      (r, s', log ++ vs.map fun v => d.asks v.node) := by
  induction h generalizing log with
  | terminal hsort => simp [walk, hsort]
  | result hsort => simp [walk, hsort]
  | cycle hsort => simp [walk, hsort]
  | @failed _ reference s s' node _ e hsort hask =>
    have hlogged : logged ask (d.asks node) (s, log) = (.error e, s', log ++ [d.asks node]) := by
      simp [logged, hask]
    rw [walk_succ_of_node hsort, hlogged]
    simp [Visit.node_eq hsort]
  | @onward _ reference s s' _ node _ holds _ _ hsort hask _ ih =>
    have hlogged : logged ask (d.asks node) (s, log) = (.ok holds, s', log ++ [d.asks node]) := by
      simp [logged, hask]
    rw [walk_succ_of_node hsort, hlogged]
    simp [Visit.node_eq hsort, ih]

/-- The conditions that a walk asks are those of the nodes that it visits. -/
theorem asked_eq (d : Diagram) (ask : Nat → σ → Except ε Bool × σ) (s : σ) :
    d.asked ask s = (d.visits ask d.nodeCount d.root s).map fun v => d.asks v.node := by
  rw [asked, evaluate, (d.walks ask d.nodeCount d.root s).walk_logged]
  rfl

end Diagram

end EndpointRules
