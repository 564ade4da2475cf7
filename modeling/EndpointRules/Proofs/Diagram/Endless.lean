import Mathlib.Dynamics.PeriodicPts.Defs
import EndpointRules.Proofs.Diagram.Meaning

/-!
# Walks without end

Without a limit of steps, a walk whose conditions always answer the same is the iteration of one
function on references.  Taking complements commutes with that function, so a walk that comes to a
node a second time comes back to it with the sign it had at first, if not now then after as many
steps again: it goes round and never ends.  Hence the limit cuts short exactly the walks that would
not end, although a walk has two signs for each node and the limit counts only nodes.
-/

namespace EndpointRules

namespace Diagram

/-- Where a walk goes on from a reference; it stays where it ends. -/
def next (d : Diagram) (holds : Nat → Bool) (n : Int32) : Int32 :=
  match Reference.ofNumber n with
  | .node node complemented => d.onward node complemented (holds (d.asks node))
  | _ => n

/-- What a walk that has come to a reference ends with, unless the reference is a node. -/
def outcome? (n : Int32) : Option Outcome :=
  match Reference.ofNumber n with
  | .terminal value => some (.terminal value)
  | .result index => some (.result index)
  | .node .. => none

/-- The reference that a walk from the root has come to after some visits, if nothing limits their
    number. -/
def place (d : Diagram) (holds : Nat → Bool) (visits : Nat) : Int32 :=
  (d.next holds)^[visits] d.root

/-- The walk from the root never comes to a terminal or a result. -/
def Endless (d : Diagram) (holds : Nat → Bool) : Prop :=
  ∀ visits, outcome? (d.place holds visits) = none

variable {ε σ : Type} {d : Diagram} {conditionCount resultCount steps i j count : Nat}
  {ask : Nat → σ → Except ε Bool × σ} {holds : Nat → Bool} {reference n m : Int32} {s s' : σ}
  {vs : List (Visit ε)} {r : Except (Stop ε) Outcome} {o : Outcome}

/-! ## One step -/

theorem next_of_node {node : Nat} {complemented : Bool}
    (hsort : Reference.ofNumber n = .node node complemented) :
    d.next holds n = d.onward node complemented (holds (d.asks node)) := by
  simp [next, hsort]

theorem next_of_outcome (h : outcome? n = some o) : d.next holds n = n := by
  unfold outcome? at h
  unfold next
  split at h <;> simp_all

theorem Valid.isValid_next (hvalid : d.Valid conditionCount resultCount)
    (hsize : (d.nodeCount : Int) < Reference.resultOffset.toInt)
    (h : Reference.isValid d.nodeCount resultCount n = true) :
    Reference.isValid d.nodeCount resultCount (d.next holds n) = true := by
  cases hsort : Reference.ofNumber n with
  | terminal value => simpa [next, hsort] using h
  | result index => simpa [next, hsort] using h
  | node node complemented =>
    have hnode : d.HasNode node := (Reference.Inside.of_isValid h).node hsort
    have hchild := hvalid.child hnode (holds (d.asks node))
    rw [next_of_node hsort]
    cases complemented with
    | false => exact hchild
    | true => exact Reference.isValid_complement (by omega) hchild

/-- The complement of the complement of a reference is the reference, where each node has a
    number. -/
theorem complement_complement (hsize : (d.nodeCount : Int) < Reference.resultOffset.toInt)
    (h : Reference.isValid d.nodeCount resultCount n = true) :
    Reference.complement (Reference.complement n) = n := by
  obtain ⟨hzero, hleast, hrange⟩ := Reference.isValid_iff.1 h
  have hcomplement := Reference.toInt_complement hleast
  have hagain := Reference.toInt_complement (Reference.complement_ne_minValue hleast)
  rw [Reference.toInt_resultOffset] at *
  apply Int32.toInt_inj.1
  grind

/-- From the complement of a reference a walk goes on to the complement. -/
theorem Valid.next_complement (hvalid : d.Valid conditionCount resultCount)
    (hsize : (d.nodeCount : Int) < Reference.resultOffset.toInt)
    (h : Reference.isValid d.nodeCount resultCount n = true) :
    d.next holds (Reference.complement n) = Reference.complement (d.next holds n) := by
  have hcomplement := ofNumber_complement hsize h
  cases hsort : Reference.ofNumber n with
  | terminal value =>
    rw [hsort] at hcomplement
    simp [next, hsort, hcomplement]
  | result index =>
    rw [hsort] at hcomplement
    simp [next, hsort, hcomplement]
  | node node complemented =>
    rw [hsort] at hcomplement
    have hnode : d.HasNode node := (Reference.Inside.of_isValid h).node hsort
    have hchild := hvalid.child hnode (holds (d.asks node))
    rw [next_of_node hsort, next_of_node hcomplement]
    cases complemented with
    | false => rfl
    | true => exact (complement_complement hsize hchild).symm

/-- Two references to one node are the same or complements of each other. -/
theorem eq_or_eq_complement {node : Nat} {complemented complemented' : Bool}
    (hleast : n ≠ Int32.minValue) (hsort : Reference.ofNumber n = .node node complemented)
    (hsort' : Reference.ofNumber m = .node node complemented') :
    m = n ∨ m = Reference.complement n := by
  have hcomplement := Reference.toInt_complement hleast
  obtain ⟨hresult, hone, hnode, -⟩ := Reference.ofNumber_eq_node_iff.1 hsort
  obtain ⟨hresult', hone', hnode', -⟩ := Reference.ofNumber_eq_node_iff.1 hsort'
  rw [if_neg (by omega)] at hcomplement
  rw [← Int32.toInt_inj, ← Int32.toInt_inj, hcomplement]
  omega

theorem outcome?_eq_none_iff :
    outcome? n = none ↔ ∃ node complemented, Reference.ofNumber n = .node node complemented := by
  unfold outcome?
  cases Reference.ofNumber n <;> simp

/-! ## Many steps -/

theorem Valid.isValid_iterate (hvalid : d.Valid conditionCount resultCount)
    (hsize : (d.nodeCount : Int) < Reference.resultOffset.toInt)
    (h : Reference.isValid d.nodeCount resultCount n = true) (count : Nat) :
    Reference.isValid d.nodeCount resultCount ((d.next holds)^[count] n) = true := by
  induction count with
  | zero => exact h
  | succ count ih =>
    rw [Function.iterate_succ_apply']
    exact hvalid.isValid_next hsize ih

theorem Valid.iterate_complement (hvalid : d.Valid conditionCount resultCount)
    (hsize : (d.nodeCount : Int) < Reference.resultOffset.toInt)
    (h : Reference.isValid d.nodeCount resultCount n = true) (count : Nat) :
    (d.next holds)^[count] (Reference.complement n) =
      Reference.complement ((d.next holds)^[count] n) := by
  induction count with
  | zero => rfl
  | succ count ih =>
    rw [Function.iterate_succ_apply', Function.iterate_succ_apply', ih,
      hvalid.next_complement hsize (hvalid.isValid_iterate hsize h count)]

theorem place_add (count i : Nat) :
    d.place holds (count + i) = (d.next holds)^[count] (d.place holds i) :=
  Function.iterate_add_apply _ _ _ _

/-- A walk stays where it ends. -/
theorem place_of_outcome (h : outcome? (d.place holds i) = some o) (hle : i ≤ j) :
    d.place holds j = d.place holds i := by
  obtain ⟨count, rfl⟩ := Nat.exists_eq_add_of_le' hle
  rw [place_add]
  exact Function.iterate_fixed (next_of_outcome h) count

/-- A walk that comes to a node a second time, with either sign, goes round.  If the sign is the
    other one, then as many steps again lead back to the first. -/
theorem Valid.isPeriodicPt_of_revisit (hvalid : d.Valid conditionCount resultCount)
    (hsize : (d.nodeCount : Int) < Reference.resultOffset.toInt) {node : Nat}
    {complemented complemented' : Bool}
    (hi : Reference.ofNumber (d.place holds i) = .node node complemented)
    (hj : Reference.ofNumber (d.place holds (count + i)) = .node node complemented') :
    Function.IsPeriodicPt (d.next holds) (count + count) (d.place holds i) := by
  have hplace : Reference.isValid d.nodeCount resultCount (d.place holds i) = true :=
    hvalid.isValid_iterate hsize hvalid.root i
  have hleast := (Reference.isValid_iff.1 hplace).2.1
  rw [Function.IsPeriodicPt, Function.IsFixedPt, Function.iterate_add_apply, ← place_add]
  rcases eq_or_eq_complement hleast hi hj with hsame | hopposite
  · rw [hsame, ← place_add, hsame]
  · rw [hopposite, hvalid.iterate_complement hsize hplace, ← place_add, hopposite,
      complement_complement hsize hplace]

/-- A walk that goes round at a node never ends. -/
theorem endless_of_isPeriodicPt (hpositive : 0 < count)
    (hperiodic : Function.IsPeriodicPt (d.next holds) count (d.place holds i))
    (hnode : outcome? (d.place holds i) = none) : d.Endless holds := by
  intro visits
  cases houtcome : outcome? (d.place holds visits) with
  | none => rfl
  | some o =>
    have hback : d.place holds (count * visits + i) = d.place holds i := by
      rw [place_add]
      exact hperiodic.mul_const visits
    have hlater : visits ≤ count * visits + i :=
      Nat.le_add_right_of_le (Nat.le_mul_of_pos_left visits hpositive)
    rw [place_of_outcome houtcome hlater] at hback
    rw [hback, hnode] at houtcome
    cases houtcome

/-! ## Walks with a limit -/

/-- The visits of a walk are at the references that the walk without a limit comes to. -/
theorem Walks.reference_eq (hask : ∀ index s, (ask index s).1 = .ok (holds index))
    (h : d.Walks ask steps reference s vs r s') {v : Visit ε} (hv : vs[i]? = some v) :
    v.reference = (d.next holds)^[i] reference ∧
      ∃ complemented, Reference.ofNumber v.reference = .node v.node complemented := by
  induction h generalizing i with
  | terminal _ => simp at hv
  | result _ => simp at hv
  | cycle _ => simp at hv
  | @failed _ _ s _ node _ _ _ hanswer =>
    have := hask (d.asks node) s
    rw [hanswer] at this
    cases this
  | @onward _ reference s s' _ node complemented answer _ _ hsort hanswer _ ih =>
    cases i with
    | zero =>
      obtain rfl : _ = v := by simpa using hv
      exact ⟨rfl, complemented, by rw [Visit.node_eq hsort, hsort]⟩
    | succ i =>
      obtain rfl : answer = holds (d.asks node) := by simpa [hanswer] using hask (d.asks node) s
      rw [Function.iterate_succ_apply, next_of_node hsort]
      exact ih (by simpa using hv)

/-- A walk with a limit ends with what the walk without a limit ends with. -/
theorem Walks.outcome?_eq (hask : ∀ index s, (ask index s).1 = .ok (holds index))
    (h : d.Walks ask steps reference s vs r s') (hr : r = .ok o) :
    outcome? ((d.next holds)^[vs.length] reference) = some o := by
  induction h with
  | terminal hsort =>
    cases hr
    simp [outcome?, hsort]
  | result hsort =>
    cases hr
    simp [outcome?, hsort]
  | cycle _ => cases hr
  | failed _ _ => cases hr
  | @onward _ reference s s' _ node complemented answer _ _ hsort hanswer _ ih =>
    obtain rfl : answer = holds (d.asks node) := by simpa [hanswer] using hask (d.asks node) s
    rw [List.length_cons, Function.iterate_succ_apply, next_of_node hsort]
    exact ih hr

/-- If the walk with a limit visits a node twice, the walk without one never ends. -/
theorem Valid.endless_of_not_nodup (hvalid : d.Valid conditionCount resultCount)
    (hsize : (d.nodeCount : Int) < Reference.resultOffset.toInt)
    (hask : ∀ index s, (ask index s).1 = .ok (holds index))
    (h : ¬ ((d.visits ask d.nodeCount d.root s).map Visit.node).Nodup) : d.Endless holds := by
  have hwalks := d.walks ask d.nodeCount d.root s
  simp only [List.nodup_iff_getElem?_ne_getElem?, not_forall, not_not, List.length_map,
    List.getElem?_map] at h
  obtain ⟨i, j, hlt, hj, hsame⟩ := h
  obtain ⟨v, hv⟩ : ∃ v, (d.visits ask d.nodeCount d.root s)[i]? = some v :=
    ⟨_, List.getElem?_eq_getElem (Nat.lt_trans hlt hj)⟩
  obtain ⟨w, hw⟩ : ∃ w, (d.visits ask d.nodeCount d.root s)[j]? = some w :=
    ⟨_, List.getElem?_eq_getElem hj⟩
  obtain ⟨hplace, _, hnode⟩ := hwalks.reference_eq hask hv
  obtain ⟨hplace', _, hnode'⟩ := hwalks.reference_eq hask hw
  rw [hv, hw, Option.map_some, Option.map_some, Option.some.injEq] at hsame
  rw [hplace] at hnode
  rw [hplace', ← hsame] at hnode'
  obtain ⟨count, rfl⟩ := Nat.exists_eq_add_of_le' (Nat.le_of_lt hlt)
  have hperiodic := hvalid.isPeriodicPt_of_revisit hsize hnode hnode'
  exact endless_of_isPeriodicPt (by omega) hperiodic (outcome?_eq_none_iff.2 ⟨_, _, hnode⟩)

/-- If the conditions always answer the same, a walk through a checked diagram, with cycles or
    without, is cut short exactly if without a limit it would never end.  A walk that is not cut
    short visits no node twice, with either sign, and ends with what the walk without a limit has
    come to after as many visits. -/
theorem evaluate_eq_cycle_iff_endless (h : d.validate conditionCount resultCount = .ok ())
    (hsize : (d.nodeCount : Int) < Reference.resultOffset.toInt)
    (hask : ∀ index s, (ask index s).1 = .ok (holds index)) (s : σ) :
    ((d.evaluate ask s).1 = .error .cycle ↔ d.Endless holds) ∧
      ((d.evaluate ask s).1 ≠ .error .cycle →
        ((d.visits ask d.nodeCount d.root s).map Visit.node).Nodup ∧
        ∃ o, (d.evaluate ask s).1 = .ok o ∧
          outcome? (d.place holds (d.visits ask d.nodeCount d.root s).length) = some o) := by
  have hvalid := validate_eq_ok_iff.1 h
  have hwalks := d.walks ask d.nodeCount d.root s
  cases hresult : (d.evaluate ask s).1 with
  | error stop =>
    cases stop with
    | condition e =>
      obtain ⟨_, _, _, index, s', hanswer⟩ := hwalks.exists_answer hresult
      rw [hask index s'] at hanswer
      cases hanswer
    | cycle =>
      have hendless := hvalid.endless_of_not_nodup hsize hask (hvalid.not_nodup_of_cycle hresult)
      simp [hendless]
  | ok o =>
    have hends := hwalks.outcome?_eq hask hresult
    have hfinite : ¬ d.Endless holds := by
      intro hendless
      cases (hendless _).symm.trans hends
    have hnodup := mt (hvalid.endless_of_not_nodup (s := s) hsize hask) hfinite
    simp only [reduceCtorEq, false_iff, ne_eq, not_false_eq_true, forall_const]
    exact ⟨hfinite, not_not.1 hnodup, o, rfl, hends⟩

/-- A node that leads to the complement of the next one, which leads back to it. -/
def twisted : Diagram where
  entries := #[-1, 1, -1, 0, -3, 1, 1, 2, 100000000]
  root := 2

/-- Conditions that hold or not, whenever they are asked. -/
def settled (holds : Nat → Bool) (index : Nat) (_ : Unit) : Except Unit Bool × Unit :=
  (.ok (holds index), ())

/-- If both conditions hold, the walk comes back to node 1 with the other sign.  If only the first
    one holds, the walk leaves the complement of node 2 for a result. -/
theorem evaluate_twisted :
    twisted.validate 2 1 = .ok () ∧ (twisted.nodeCount : Int) < Reference.resultOffset.toInt ∧
      (∀ holds index s, (settled holds index s).1 = .ok (holds index)) ∧
      twisted.Endless (fun _ => true) ∧
      ((twisted.visits (settled (· == 0)) twisted.nodeCount twisted.root ()).map
        Visit.node).Nodup ∧
      ∃ o, (twisted.evaluate (settled (· == 0)) ()).1 = .ok o ∧
        outcome? (twisted.place (· == 0)
          (twisted.visits (settled (· == 0)) twisted.nodeCount twisted.root ()).length) =
          some o := by
  have hchecked : twisted.validate 2 1 = .ok () := rfl
  have hsize : (twisted.nodeCount : Int) < Reference.resultOffset.toInt := by decide
  have hsettled : ∀ holds index s, (settled holds index s).1 = .ok (holds index) :=
    fun _ _ _ => rfl
  have hcycle : (twisted.evaluate (settled fun _ => true) ()).1 = .error .cycle := by decide
  have hends : (twisted.evaluate (settled (· == 0)) ()).1 ≠ .error .cycle := by decide
  have hround := evaluate_eq_cycle_iff_endless hchecked hsize (hsettled fun _ => true) ()
  have hresult := evaluate_eq_cycle_iff_endless hchecked hsize (hsettled (· == 0)) ()
  exact ⟨hchecked, hsize, hsettled, hround.1.1 hcycle, hresult.2 hends⟩

end Diagram

end EndpointRules
