import EndpointRules.Proofs.Diagram.Visits

/-!
# Walks through checked diagrams are safe

Whatever its conditions answer, a walk through a checked diagram visits nodes of the table, asks
conditions that there are, and asks at most as many as there are nodes.  It also ends with a result
that there is, but for one gap in the numbering: a node so far back in the table that it has no
number of its own can still be referred to by its complement, and the complement of that is the
number of a result.  `Diagram.safe_iff` says that a walk is safe exactly when it does not fall
through this gap, and `Diagram.safe_of_nodeCount_lt` that smaller tables have no gap.
-/

namespace EndpointRules

namespace Diagram

variable {ε σ : Type} {d : Diagram} {conditionCount resultCount steps : Nat}
  {ask : Nat → σ → Except ε Bool × σ} {reference : Int32} {s s' : σ} {vs : List (Visit ε)}
  {r : Except (Stop ε) Outcome}

/-- The walk from the root is safe. -/
structure Safe (d : Diagram) (conditionCount resultCount : Nat)
    (ask : Nat → σ → Except ε Bool × σ) (s : σ) : Prop where
  node : ∀ v ∈ d.visits ask d.nodeCount d.root s, 1 ≤ v.node ∧ v.node < d.nodeCount
  /-- The numbers whose opposites a walk takes. -/
  opposite : ∀ v ∈ d.visits ask d.nodeCount d.root s,
    v.reference ≠ Int32.minValue ∧ ∀ holds, d.child v.node holds ≠ Int32.minValue
  asked : ∀ index ∈ d.asked ask s, index < conditionCount
  length_asked : (d.asked ask s).length ≤ d.nodeCount
  result : ∀ index, (d.evaluate ask s).1 = .ok (.result index) → index < resultCount
  /-- A walk fails with the answer of the condition asked last. -/
  failure : ∀ e, (d.evaluate ask s).1 = .error (.condition e) →
    ∃ v, (d.visits ask d.nodeCount d.root s).getLast? = some v ∧ v.answer = .error e

/-- The visit is of a complemented node, and the walk goes on from it to the opposite of a
    reference that is too low for that: the opposite is the number of a result that there is
    not. -/
def Crosses (d : Diagram) (resultCount : Nat) (v : Visit ε) : Prop :=
  v.complemented = true ∧ ∃ holds, v.answer = .ok holds ∧
    (d.child v.node holds).toInt ≤ -(Reference.resultOffset.toInt + resultCount)

/-! ## Where walks lead -/

/-- A walk goes on from a node to a valid reference, unless it crosses over to the results there. -/
theorem Valid.isValid_onward (hvalid : d.Valid conditionCount resultCount) {node : Nat}
    {complemented holds : Bool} (hsort : Reference.ofNumber reference = .node node complemented)
    (hnode : d.HasNode node)
    (hcross : ¬ d.Crosses resultCount (⟨reference, .ok holds⟩ : Visit ε)) :
    Reference.isValid d.nodeCount resultCount (d.onward node complemented holds) = true := by
  have hchild := hvalid.child hnode holds
  cases complemented with
  | false => exact hchild
  | true =>
    refine (Reference.isValid_complement_iff hchild).2 ?_
    simpa [Crosses, Visit.complemented_eq hsort, Visit.node_eq hsort] using hcross

/-- From a valid reference, a walk that does not cross over ends with a result that there is, if
    with any. -/
theorem Walks.lt_of_result (hvalid : d.Valid conditionCount resultCount)
    (h : d.Walks ask steps reference s vs r s')
    (hreference : Reference.isValid d.nodeCount resultCount reference = true)
    (hcross : ∀ v ∈ vs, ¬ d.Crosses resultCount v) {index : Nat} (hr : r = .ok (.result index)) :
    index < resultCount := by
  induction h with
  | terminal _ => cases hr
  | result hsort =>
    cases hr
    have hnumber := Reference.ofNumber_eq_result_iff.1 hsort
    obtain ⟨-, -, hrange⟩ := Reference.isValid_iff.1 hreference
    omega
  | cycle _ => cases hr
  | failed _ _ => cases hr
  | @onward _ _ _ _ _ node complemented holds _ _ hsort _ _ ih =>
    have hnode : d.HasNode node := (Reference.Inside.of_isValid hreference).node hsort
    exact ih (hvalid.isValid_onward hsort hnode (hcross _ (by simp)))
      (fun v hv => hcross v (by simp [hv])) hr

/-- A walk that crosses over ends with a result that there is not. -/
theorem Walks.result_of_crosses (hvalid : d.Valid conditionCount resultCount)
    (h : d.Walks ask steps reference s vs r s')
    (hreference : Reference.Inside d.nodeCount reference) {v : Visit ε} (hv : v ∈ vs)
    (hcross : d.Crosses resultCount v) :
    ∃ index, r = .ok (.result index) ∧ resultCount ≤ index := by
  induction h with
  | terminal _ => simp at hv
  | result _ => simp at hv
  | cycle _ => simp at hv
  | failed _ _ =>
    obtain rfl := List.mem_singleton.1 hv
    obtain ⟨-, holds, hanswer, -⟩ := hcross
    cases hanswer
  | @onward _ _ _ _ _ node complemented holds _ _ hsort _ hrest ih =>
    have hnode : d.HasNode node := hreference.node hsort
    rcases List.mem_cons.1 hv with hv | hv
    · subst hv
      obtain ⟨hcomplemented, holds', hanswer, hlow⟩ := hcross
      rw [Visit.complemented_eq hsort] at hcomplemented
      cases hanswer
      rw [Visit.node_eq hsort] at hlow
      have hchild := Reference.Inside.of_isValid (hvalid.child hnode holds)
      have hcomplement := Reference.toInt_complement hchild.ne_minValue
      rw [Reference.toInt_resultOffset] at hlow hcomplement
      rw [if_neg (by omega)] at hcomplement
      subst hcomplemented
      have hresult : Reference.ofNumber (d.onward node true holds) =
          .result (-(d.child node holds).toInt - 100000000).toNat := by
        rw [Reference.ofNumber_eq_result_iff, Reference.toInt_resultOffset, Diagram.onward,
          if_pos rfl, hcomplement]
        omega
      cases hrest with
      | terminal hterminal => simp [hresult] at hterminal
      | result hindex =>
        rw [hresult, Reference.result.injEq] at hindex
        exact ⟨_, rfl, by omega⟩
      | cycle hnode => simp [hresult] at hnode
      | failed hnode => simp [hresult] at hnode
      | onward hnode => simp [hresult] at hnode
    · exact ih (hvalid.inside_onward hnode _ _) hv

/-! ## Safety -/

/-- A walk that does not cross over to the results is safe. -/
theorem Valid.safe (hvalid : d.Valid conditionCount resultCount)
    (hcross : ∀ v ∈ d.visits ask d.nodeCount d.root s, ¬ d.Crosses resultCount v) :
    d.Safe conditionCount resultCount ask s := by
  have hwalks := d.walks ask d.nodeCount d.root s
  have hinside := hwalks.inside hvalid (.of_isValid hvalid.root)
  refine ⟨fun v hv => (hinside v hv).2, fun v hv => ⟨(hinside v hv).1, fun holds => ?_⟩, ?_, ?_,
    fun _ => hwalks.lt_of_result hvalid hvalid.root hcross, fun e he => ?_⟩
  · exact (Reference.isValid_iff.1 (hvalid.child (hinside v hv).2 holds)).2.1
  · intro index hindex
    rw [asked_eq] at hindex
    obtain ⟨v, hv, rfl⟩ := List.mem_map.1 hindex
    exact (hvalid.condition (hinside v hv).2).2
  · rw [asked_eq, List.length_map]
    exact hwalks.length_le
  · obtain ⟨v, hlast, hanswer, -⟩ := hwalks.exists_answer he
    exact ⟨v, hlast, hanswer⟩

theorem not_safe_of_result {index : Nat} (hresult : (d.evaluate ask s).1 = .ok (.result index))
    (hindex : resultCount ≤ index) : ¬ d.Safe conditionCount resultCount ask s :=
  fun hsafe => Nat.not_le.2 (hsafe.result index hresult) hindex

/-- In a table with fewer nodes than there are numbers for, every walk is safe. -/
theorem safe_of_nodeCount_lt (h : d.validate conditionCount resultCount = .ok ())
    (hsize : (d.nodeCount : Int) < Reference.resultOffset.toInt + resultCount)
    (ask : Nat → σ → Except ε Bool × σ) (s : σ) : d.Safe conditionCount resultCount ask s := by
  have hvalid := validate_eq_ok_iff.1 h
  refine hvalid.safe fun v hv hcross => ?_
  obtain ⟨-, holds, -, hlow⟩ := hcross
  have hnode := ((d.walks ask d.nodeCount d.root s).inside hvalid (.of_isValid hvalid.root) v hv).2
  have hchild := hvalid.child hnode holds
  have := (Reference.isValid_complement_iff hchild).1 (Reference.isValid_complement hsize hchild)
  omega

/-- A walk through a checked diagram is safe exactly if it never goes on from a complemented node to
    the opposite of a reference that is as far below zero as only results are above it. -/
theorem safe_iff (h : d.validate conditionCount resultCount = .ok ())
    (ask : Nat → σ → Except ε Bool × σ) (s : σ) :
    d.Safe conditionCount resultCount ask s ↔
      ∀ v ∈ d.visits ask d.nodeCount d.root s, ¬ d.Crosses resultCount v := by
  have hvalid := validate_eq_ok_iff.1 h
  constructor
  · intro hsafe v hv hcross
    obtain ⟨index, hresult, hindex⟩ := (d.walks ask d.nodeCount d.root s).result_of_crosses hvalid
      (.of_isValid hvalid.root) hv hcross
    exact not_safe_of_result hresult hindex hsafe
  · exact hvalid.safe

/-- The complement of a node that leads to a result or to the complement of the next node. -/
def complementedPair : Diagram where
  entries := #[-1, 1, -1, 0, 100000000, -3, 1, 1, -1]
  root := -2

/-- Of the two visits the first goes on from a complemented node, but not to a low reference. -/
theorem safe_complementedPair :
    complementedPair.validate 2 1 = .ok () ∧
      complementedPair.Safe 2 1 (fun _ _ => ((.ok false : Except Unit Bool), ())) () := by
  have h : complementedPair.validate 2 1 = .ok () := rfl
  refine ⟨h, (safe_iff h _ ()).2 fun v hv hcross => ?_⟩
  have hvisits : complementedPair.visits (fun _ _ => ((.ok false : Except Unit Bool), ()))
      complementedPair.nodeCount complementedPair.root () =
        [⟨-2, .ok false⟩, ⟨3, .ok false⟩] := rfl
  rw [hvisits, List.mem_cons, List.mem_singleton] at hv
  obtain ⟨hcomplemented, holds, hanswer, hlow⟩ := hcross
  rcases hv with rfl | rfl
  · cases hanswer
    exact absurd hlow (by decide)
  · exact absurd hcomplemented (by decide)

/-- A table whose nodes all ask condition 1 and lead to truth, but that node 1 leads to the
    reference `far` if its condition holds.  The root is the complement of node 1. -/
def farTable (nodes : Nat) (far : Int32) : Diagram where
  entries := (Array.replicate (nodes * 3) 1).setIfInBounds 4 far
  root := -2

section

variable {nodes node : Nat} {far : Int32}

theorem getD_farTable {i : Nat} (h : i < nodes * 3) :
    (farTable nodes far).entries.getD i 0 = if i = 4 then far else 1 := by
  rw [Array.getD_eq_getD_getElem?, farTable, Array.getElem?_setIfInBounds, Array.size_replicate,
    Array.getElem?_replicate, if_pos h]
  grind

theorem nodeCount_farTable (nodes : Nat) (far : Int32) :
    (farTable nodes far).nodeCount = nodes := by
  rw [nodeCount, farTable, Array.size_setIfInBounds, Array.size_replicate]
  omega

theorem condition_farTable (h : node < nodes) : (farTable nodes far).condition node = 1 := by
  rw [condition, getD_farTable (by omega), if_neg (by omega)]

theorem child_farTable (h : node < nodes) (holds : Bool) :
    (farTable nodes far).child node holds = if node = 1 ∧ holds = true then far else 1 := by
  rw [child, high, low, getD_farTable (by omega), getD_farTable (by omega)]
  grind

theorem valid_farTable
    (hroot : Reference.isValid nodes 0 (-2) = true) (hfar : Reference.isValid nodes 0 far = true) :
    (farTable nodes far).Valid 2 0 := by
  have hcount := nodeCount_farTable nodes far
  refine ⟨?_, ?_, fun hnode => ?_, fun hnode holds => ?_⟩
  · rw [farTable, Array.size_setIfInBounds, Array.size_replicate, Nat.mul_mod_left]
  · rw [hcount]
    exact hroot
  · rw [asks, condition_farTable (hcount ▸ hnode.2)]
    decide
  · rw [hcount, child_farTable (hcount ▸ hnode.2)]
    split
    · exact hfar
    · simp [Reference.isValid_iff, Reference.toInt_resultOffset]
      decide

end

/-- A table of as many nodes as there are numbers for has a node that only its complement refers to,
    and a walk that comes to it from a complemented node ends with a result that there is not. -/
theorem not_safe_farTable :
    (farTable 100000000 (-100000000)).validate 2 0 = .ok () ∧
      ¬ (farTable 100000000 (-100000000)).Safe 2 0
        (fun _ _ => ((.ok true : Except Unit Bool), ())) () := by
  have hroot : Reference.isValid 100000000 0 (-2) = true := by decide
  have hfar : Reference.isValid 100000000 0 (-100000000) = true := by decide
  have hsort : Reference.ofNumber (farTable 100000000 (-100000000)).root = .node 1 true := by
    decide
  have honward : (farTable 100000000 (-100000000)).onward 1 true true = 100000000 := by
    rw [onward, child_farTable (by omega), if_pos rfl, if_pos ⟨rfl, rfl⟩]
    decide
  have hlast : Reference.ofNumber 100000000 = .result 0 := by decide
  have hwalk : ∀ steps, ((farTable 100000000 (-100000000)).walk
      (fun _ _ => ((.ok true : Except Unit Bool), ())) (steps + 1)
      (farTable 100000000 (-100000000)).root ()).1 = .ok (.result 0) := by
    intro steps
    rw [walk_succ_of_node hsort]
    dsimp only
    rw [honward, walk, hlast]
  have hresult : ((farTable 100000000 (-100000000)).evaluate
      (fun _ _ => ((.ok true : Except Unit Bool), ())) ()).1 = .ok (.result 0) := by
    rw [evaluate, nodeCount_farTable]
    exact hwalk 99999999
  exact ⟨validate_eq_ok_iff.2 (valid_farTable hroot hfar),
    not_safe_of_result hresult (Nat.le_refl 0)⟩

end Diagram

end EndpointRules
