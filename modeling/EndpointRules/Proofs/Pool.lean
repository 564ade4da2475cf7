import Mathlib.Data.Finset.Card
import EndpointRules.Pool

/-!
# What pools hold

A pool lists the things put into it without repetition, in the order of their first appearance.  So
the index of a thing is the number of distinct things before its first occurrence, whatever is put
into the pool behind it.
-/

namespace EndpointRules.Pool

variable {α : Type} [DecidableEq α] {xs ys table : List α} {x y : α} {p : Pool α}

/-- The number of distinct things before the first occurrence of a thing. -/
def rank (xs : List α) (x : α) : Nat := (xs.takeWhile (· ≠ x)).toFinset.card

/-- A table holds the things of a list and nothing else, each once and at its rank. -/
structure Tabulates (xs table : List α) : Prop where
  nodup : table.Nodup
  mem_iff : ∀ x, x ∈ table ↔ x ∈ xs
  getElem?_rank : ∀ x ∈ xs, table[rank xs x]? = some x

/-! ## Ranks -/

/-- What comes behind a thing does not change its rank. -/
theorem rank_append (h : x ∈ xs) (ys : List α) : rank (xs ++ ys) x = rank xs x := by
  have hfirst : (xs ++ ys).takeWhile (· ≠ x) = xs.takeWhile (· ≠ x) := by
    induction xs with
    | nil => cases h
    | cons y xs ih =>
      by_cases hy : y = x
      · simp [hy]
      · have hmem : x ∈ xs := (List.mem_cons.1 h).resolve_left (Ne.symm hy)
        simpa [hy] using ih hmem
  rw [rank, hfirst, rank]

/-- A thing that is new comes behind all others. -/
theorem rank_append_singleton (h : x ∉ xs) : rank (xs ++ [x]) x = xs.toFinset.card := by
  have hall : ∀ y ∈ xs, decide (y ≠ x) = true := by
    intro y hy
    simp only [decide_eq_true_eq]
    rintro rfl
    exact h hy
  rw [rank, List.takeWhile_append_of_pos hall]
  simp

/-- Where things are picked from a list, the rank of one is settled once it is picked. -/
theorem rank_filterMap {β : Type} (pick : β → Option α) {b : β} (h : pick b = some x)
    (before after : List β) :
    rank ((before ++ b :: after).filterMap pick) x = rank (before.filterMap pick ++ [x]) x := by
  have hsplit : (before ++ b :: after).filterMap pick =
      before.filterMap pick ++ [x] ++ after.filterMap pick := by
    simp [h]
  rw [hsplit]
  exact rank_append (by simp) _

namespace Tabulates

theorem length_eq (h : Tabulates xs table) : table.length = xs.toFinset.card := by
  have hset : table.toFinset = xs.toFinset := by
    ext x
    rw [List.mem_toFinset, List.mem_toFinset, h.mem_iff]
  rw [← hset, List.toFinset_card_of_nodup h.nodup]

/-- A thing stands at its rank only. -/
theorem eq_rank (h : Tabulates xs table) {i : Nat} (hi : table[i]? = some x) : i = rank xs x := by
  have hmem : x ∈ xs := (h.mem_iff x).1 (List.mem_of_getElem? hi)
  obtain ⟨hlt, -⟩ := List.getElem?_eq_some_iff.1 hi
  exact (List.getElem?_inj hlt h.nodup).1 (hi.trans (h.getElem?_rank x hmem).symm)

/-- Different things have different ranks. -/
theorem rank_eq_iff (h : Tabulates xs table) (hx : x ∈ xs) (hy : y ∈ xs) :
    rank xs x = rank xs y ↔ x = y := by
  constructor
  · intro heq
    have hsame := h.getElem?_rank y hy
    rw [← heq, h.getElem?_rank x hx] at hsame
    exact Option.some.inj hsame
  · rintro rfl
    rfl

theorem nil : Tabulates ([] : List α) [] := by
  refine ⟨List.nodup_nil, fun _ => Iff.rfl, ?_⟩
  intro x hx
  cases hx

/-- A thing that occurs again adds nothing. -/
theorem append_old (h : Tabulates xs table) (hx : x ∈ xs) : Tabulates (xs ++ [x]) table where
  nodup := h.nodup
  mem_iff := by
    intro y
    rw [h.mem_iff, List.mem_append, List.mem_singleton]
    constructor
    · exact .inl
    · rintro (hy | rfl)
      · exact hy
      · exact hx
  getElem?_rank := by
    intro y hy
    have hmem : y ∈ xs := by
      rcases List.mem_append.1 hy with hy | hy
      · exact hy
      · exact List.mem_singleton.1 hy ▸ hx
    rw [rank_append hmem, h.getElem?_rank y hmem]

/-- A thing that is new comes at the end. -/
theorem append_new (h : Tabulates xs table) (hx : x ∉ xs) :
    Tabulates (xs ++ [x]) (table ++ [x]) where
  nodup := by
    rw [List.nodup_append]
    refine ⟨h.nodup, List.nodup_singleton x, ?_⟩
    intro y hy z hz
    obtain rfl := List.mem_singleton.1 hz
    rintro rfl
    exact hx ((h.mem_iff y).1 hy)
  mem_iff := by
    intro y
    rw [List.mem_append, List.mem_append, h.mem_iff]
  getElem?_rank := by
    intro y hy
    by_cases hmem : y ∈ xs
    · have hold := h.getElem?_rank y hmem
      obtain ⟨hlt, -⟩ := List.getElem?_eq_some_iff.1 hold
      rw [rank_append hmem, List.getElem?_append_left hlt, hold]
    · obtain rfl : y = x := by
        rcases List.mem_append.1 hy with hy | hy
        · exact absurd hy hmem
        · exact List.mem_singleton.1 hy
      rw [rank_append_singleton hmem, ← h.length_eq]
      simp

/-! ## Pools -/

/-- A pool keeps listing what is put into it, and answers with ranks. -/
theorem intern (h : Tabulates xs p.items.toList) (x : α) :
    (p.intern x).1 = rank (xs ++ [x]) x ∧
      Tabulates (xs ++ [x]) (p.intern x).2.items.toList := by
  unfold Pool.intern
  cases hfind : p.items.findIdx? (· == x) with
  | some i =>
    obtain ⟨hi, hitem, -⟩ := Array.findIdx?_eq_some_iff_getElem.1 hfind
    have hat : p.items.toList[i]? = some x := by
      rw [Array.getElem?_toList, Array.getElem?_eq_getElem hi, beq_iff_eq.1 hitem]
    have hx : x ∈ xs := (h.mem_iff x).1 (List.mem_of_getElem? hat)
    exact ⟨(h.eq_rank hat).trans (rank_append hx [x]).symm, h.append_old hx⟩
  | none =>
    have hx : x ∉ xs := by
      intro hmem
      have hlisted : x ∈ p.items := Array.mem_toList_iff.1 ((h.mem_iff x).2 hmem)
      have hitem := Array.findIdx?_eq_none_iff.1 hfind x hlisted
      simp at hitem
    refine ⟨?_, ?_⟩
    · rw [rank_append_singleton hx, ← h.length_eq]
      rfl
    · simpa using h.append_new hx

end Tabulates

end EndpointRules.Pool
