import Mathlib.Algebra.GroupWithZero.Nat
import EndpointRules.RegisterFile

/-!
# Sets of register indices

Both representations of index sets are faithful: what they are asked for is what has been inserted.
A word is so for numbers below 64, flags are for all numbers below their count.
-/

namespace EndpointRules.RegisterFile

variable {σ : Type}

/-- A set of numbers below `size` contains exactly the numbers that have been inserted. -/
def IndexSet.Faithful (set : IndexSet σ) (size : Nat) : Prop :=
  ∀ members : List Nat, (∀ i ∈ members, i < size) → ∀ j < size,
    set.contains (members.foldl set.insert (set.empty size)) j = members.contains j

/-- Induction for sets: nothing is in the empty one, and inserting a number adds just that. -/
theorem IndexSet.faithful_of_insert {set : IndexSet σ} {size : Nat} (Valid : σ → Prop)
    (hempty : Valid (set.empty size)) (hnone : ∀ j < size, set.contains (set.empty size) j = false)
    (hinsert : ∀ s i, Valid s → i < size → Valid (set.insert s i) ∧
      ∀ j < size, set.contains (set.insert s i) j = (j == i || set.contains s j)) :
    set.Faithful size := by
  have hfold : ∀ (members : List Nat) (s : σ), Valid s → (∀ i ∈ members, i < size) →
      ∀ j < size, set.contains (members.foldl set.insert s) j =
        (members.contains j || set.contains s j) := by
    intro members
    induction members with
    | nil =>
      intro s _ _ j _
      rfl
    | cons i members ih =>
      intro s hs hmembers j hj
      obtain ⟨hvalid, hcontains⟩ := hinsert s i hs (hmembers i List.mem_cons_self)
      have hrest : ∀ i' ∈ members, i' < size := fun i' hi' =>
        hmembers i' (List.mem_cons_of_mem _ hi')
      rw [List.foldl_cons, ih _ hvalid hrest j hj, hcontains j hj, List.contains_cons,
        ← Bool.or_assoc, Bool.or_comm (members.contains j)]
  intro members hmembers j hj
  rw [hfold members _ hempty hmembers j hj, hnone j hj, Bool.or_false]

/-! ## Words -/

theorem contains_wordSet {j : Nat} (hj : j < 64) (bits : UInt64) :
    wordSet.contains bits j = bits.toNat.testBit j := by
  have hbit : ((bits >>> UInt64.ofNat j) &&& 1).toNat = bits.toNat / 2 ^ j % 2 := by
    simp [UInt64.toNat_shiftRight, Nat.shiftRight_eq_div_pow, Nat.mod_eq_of_lt hj]
  have hone : (bits >>> UInt64.ofNat j) &&& 1 = 1 ↔ bits.toNat / 2 ^ j % 2 = 1 := by
    rw [← UInt64.toNat_inj, hbit]
    rfl
  rw [Nat.testBit_eq_decide_div_mod_eq]
  exact decide_eq_decide.2 hone

theorem toNat_insert_wordSet {i : Nat} (hi : i < 64) (bits : UInt64) :
    (wordSet.insert bits i).toNat = bits.toNat ||| 2 ^ i := by
  have hpow : 2 ^ i < 18446744073709551616 := Nat.pow_lt_pow_right (by omega) hi
  simp [wordSet, UInt64.toNat_shiftLeft, Nat.shiftLeft_eq, Nat.mod_eq_of_lt hi,
    Nat.mod_eq_of_lt hpow]

/-- A word has a bit for every number below 64. -/
theorem faithful_wordSet {size : Nat} (h : size ≤ 64) : wordSet.Faithful size := by
  apply IndexSet.faithful_of_insert (fun _ => True) trivial
  · intro j hj
    rw [contains_wordSet (by omega)]
    exact Nat.zero_testBit j
  · intro s i _ hi
    refine ⟨trivial, fun j hj => ?_⟩
    rw [contains_wordSet (by omega), contains_wordSet (by omega), toNat_insert_wordSet (by omega),
      Nat.testBit_or, Nat.testBit_two_pow, Bool.or_comm]
    by_cases hji : j = i
    · simp [hji]
    · simp [hji, Ne.symm hji]

/-! ## Flags -/

theorem faithful_flagSet (size : Nat) : flagSet.Faithful size := by
  apply IndexSet.faithful_of_insert (fun flags => flags.size = size)
  · exact Array.size_replicate
  · intro j hj
    simp [flagSet, hj]
  · intro s i hs hi
    refine ⟨Array.size_setIfInBounds.trans hs, fun j hj => ?_⟩
    simp only [flagSet, Array.getD_eq_getD_getElem?]
    by_cases hji : j = i
    · subst hji
      rw [Array.getElem?_setIfInBounds_self_of_lt (by omega)]
      simp
    · rw [Array.getElem?_setIfInBounds_ne (Ne.symm hji)]
      simp [hji]

end EndpointRules.RegisterFile
