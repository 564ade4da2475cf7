import EndpointRules.Error
import EndpointRules.Value

/-!
# Values that can be written

A value can be written if it is not nested too deeply and every value inside it is small.  With one
level of nesting after the other this is `Value.Fits`, which the writer follows; said at once of all
values inside it is `Value.Storable`.
-/

namespace EndpointRules

namespace Value

theorem wellFormed_list {items : List Value} :
    (list items).WellFormed ↔ ∀ v ∈ items, v.WellFormed := by
  rw [WellFormed]
  induction items with
  | nil => simp [WellFormedItems]
  | cons v items ih => rw [WellFormedItems, ih, List.forall_mem_cons]

theorem wellFormed_map {entries : Dict Value} :
    (map entries).WellFormed ↔ Dict.Sorted entries ∧ ∀ e ∈ entries, e.2.WellFormed := by
  rw [WellFormed]
  have h : WellFormedEntries entries ↔ ∀ e ∈ entries, e.2.WellFormed := by
    induction entries with
    | nil => simp [WellFormedEntries]
    | cons e entries ih => rw [WellFormedEntries, ih, List.forall_mem_cons]
  rw [h]

/-- The first value is inside the second, enclosed by a number of lists and maps. -/
inductive Inside : Value → Nat → Value → Prop
  | self (v : Value) : Inside v 0 v
  | item {u v : Value} {depth : Nat} {items : List Value} (hv : v ∈ items)
      (h : Inside u depth v) : Inside u (depth + 1) (list items)
  | entry {u : Value} {depth : Nat} {e : Bytes × Value} {entries : List (Bytes × Value)}
      (he : e ∈ entries) (h : Inside u depth e.2) : Inside u (depth + 1) (map entries)

/-- The length of a string and the count of a collection fit two bytes, an integer fits four, and
    the value is no URI. -/
def Small : Value → Prop
  | null | boolean _ => True
  | string s => s.length ≤ 0xFFFF
  | integer n => -2147483648 ≤ n ∧ n ≤ 2147483647
  | list items => items.length ≤ 0xFFFF
  | map entries => entries.length ≤ 0xFFFF ∧ ∀ e ∈ entries, e.1.length ≤ 0xFFFF
  | template parts => parts.length ≤ 0xFFFF ∧ ∀ s, .text s ∈ parts → s.length ≤ 0xFFFF
  | uri _ => False

/-- Every value inside is small, and at most `maxConstantDepth` lists and maps enclose it. -/
def Storable (v : Value) : Prop :=
  ∀ u depth, Inside u depth v → depth ≤ maxConstantDepth ∧ u.Small

/-- The value is small and has at most the given number of levels, and so on for the values in
    it. -/
def Fits : (levels : Nat) → Value → Prop
  | 0, _ => False
  | levels + 1, v =>
    v.Small ∧
      match v with
      | list items => ∀ u ∈ items, Fits levels u
      | map entries => ∀ e ∈ entries, Fits levels e.2
      | _ => True

theorem fits_iff {levels : Nat} {v : Value} :
    v.Fits levels ↔ ∀ u depth, Inside u depth v → depth < levels ∧ u.Small := by
  induction levels generalizing v with
  | zero =>
    constructor
    · exact False.elim
    · intro h
      exact absurd (h v 0 (.self v)).1 (Nat.lt_irrefl 0)
  | succ levels ih =>
    constructor
    · rintro ⟨hsmall, hparts⟩ u depth hinside
      cases hinside with
      | self => exact ⟨Nat.succ_pos _, hsmall⟩
      | item hv hinside =>
        obtain ⟨hdepth, hu⟩ := ih.1 (hparts _ hv) u _ hinside
        exact ⟨Nat.succ_lt_succ hdepth, hu⟩
      | entry he hinside =>
        obtain ⟨hdepth, hu⟩ := ih.1 (hparts _ he) u _ hinside
        exact ⟨Nat.succ_lt_succ hdepth, hu⟩
    · intro h
      refine ⟨(h v 0 (.self v)).2, ?_⟩
      split
      · next items =>
        intro w hw
        refine ih.2 fun u depth hinside => ?_
        obtain ⟨hdepth, hu⟩ := h u (depth + 1) (.item hw hinside)
        exact ⟨Nat.lt_of_succ_lt_succ hdepth, hu⟩
      · next entries =>
        intro e he
        refine ih.2 fun u depth hinside => ?_
        obtain ⟨hdepth, hu⟩ := h u (depth + 1) (.entry he hinside)
        exact ⟨Nat.lt_of_succ_lt_succ hdepth, hu⟩
      · trivial

theorem storable_iff {v : Value} : v.Storable ↔ v.Fits (maxConstantDepth + 1) := by
  rw [fits_iff]
  constructor
  · intro h u depth hinside
    exact ⟨Nat.lt_succ_of_le (h u depth hinside).1, (h u depth hinside).2⟩
  · intro h u depth hinside
    exact ⟨Nat.le_of_lt_succ (h u depth hinside).1, (h u depth hinside).2⟩

end Value

end EndpointRules
