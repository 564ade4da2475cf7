import Mathlib.Algebra.GroupWithZero.Nat
import EndpointRules.Dict

/-!
# Maps from pairs

The map with some given entries is in order, has no entries but the given ones, and is the list of
the given entries itself exactly when that is in order.
-/

namespace EndpointRules

namespace Dict

variable {α β : Type} {d : Dict α} {key : Bytes} {value : α} {e : Bytes × α}

theorem isSorted_iff : d.isSorted = true ↔ d.Sorted := by
  induction d with
  | nil => simp [isSorted, Sorted]
  | cons a rest ih =>
    cases rest with
    | nil => simp [isSorted, Sorted]
    | cons b rest =>
      rw [isSorted, Bool.and_eq_true, decide_eq_true_eq, ih]
      constructor
      · rintro ⟨hab, hrest⟩
        refine List.pairwise_cons.2 ⟨fun c hc => ?_, hrest⟩
        rcases List.mem_cons.1 hc with rfl | hc
        · exact hab
        · exact List.lt_trans hab ((List.pairwise_cons.1 hrest).1 c hc)
      · intro h
        obtain ⟨hfirst, hrest⟩ := List.pairwise_cons.1 h
        exact ⟨hfirst b (by simp), hrest⟩

/-- Only the keys matter for the order. -/
theorem sorted_map (g : α → β) : Sorted (d.map fun e => (e.1, g e.2)) ↔ d.Sorted := by
  rw [Sorted, Sorted, List.pairwise_map]

theorem mem_insert (h : e ∈ d.insert key value) : e = (key, value) ∨ e ∈ d := by
  induction d with
  | nil => simpa [insert] using h
  | cons a rest ih =>
    obtain ⟨k, v⟩ := a
    rw [insert] at h
    split at h
    · simpa using h
    · split at h
      · rcases List.mem_cons.1 h with rfl | h
        · exact .inl rfl
        · exact .inr (List.mem_cons_of_mem _ h)
      · rcases List.mem_cons.1 h with rfl | h
        · exact .inr (by simp)
        · rcases ih h with rfl | h
          · exact .inl rfl
          · exact .inr (List.mem_cons_of_mem _ h)

theorem sorted_insert (h : d.Sorted) : (d.insert key value).Sorted := by
  induction d with
  | nil => simp [insert, Sorted]
  | cons a rest ih =>
    obtain ⟨k, v⟩ := a
    obtain ⟨hfirst, hrest⟩ := List.pairwise_cons.1 h
    rw [insert]
    split
    · next hlt =>
      refine List.pairwise_cons.2 ⟨fun c hc => ?_, h⟩
      rcases List.mem_cons.1 hc with rfl | hc
      · exact hlt
      · exact List.lt_trans hlt (hfirst c hc)
    · next hlt =>
      split
      · next heq =>
        subst heq
        exact List.pairwise_cons.2 ⟨hfirst, hrest⟩
      · next hne =>
        have hgt : k < key := Std.lt_of_le_of_ne (Std.not_lt.1 hlt) (Ne.symm hne)
        refine List.pairwise_cons.2 ⟨fun c hc => ?_, ih hrest⟩
        rcases mem_insert hc with rfl | hc
        · exact hgt
        · exact hfirst c hc

/-- Entering a value adds at most its weight. -/
theorem sum_insert_le (w : Bytes × α → Nat) :
    ((d.insert key value).map w).sum ≤ w (key, value) + (d.map w).sum := by
  induction d with
  | nil => simp [insert]
  | cons a rest ih =>
    obtain ⟨k, v⟩ := a
    rw [insert]
    split
    · simp
    · split
      · simp only [List.map_cons, List.sum_cons]
        omega
      · simp only [List.map_cons, List.sum_cons]
        omega

section

variable {pairs : List (Bytes × α)}

theorem ofPairs_of_sorted (h : Sorted pairs) : ofPairs pairs = pairs := by
  rw [ofPairs, if_pos (isSorted_iff.2 h)]

theorem sorted_foldl_insert (h : d.Sorted) :
    Sorted (pairs.foldl (fun d e => d.insert e.1 e.2) d) := by
  induction pairs generalizing d with
  | nil => exact h
  | cons e pairs ih => exact ih (sorted_insert h)

theorem mem_foldl_insert (h : e ∈ pairs.foldl (fun d e => d.insert e.1 e.2) d) :
    e ∈ pairs ∨ e ∈ d := by
  induction pairs generalizing d with
  | nil => exact .inr h
  | cons a pairs ih =>
    rcases ih h with h | h
    · exact .inl (List.mem_cons_of_mem _ h)
    · rcases mem_insert h with rfl | h
      · exact .inl (by simp)
      · exact .inr h

theorem sum_foldl_insert_le (w : Bytes × α → Nat) :
    ((pairs.foldl (fun d e => d.insert e.1 e.2) d).map w).sum ≤
      (pairs.map w).sum + (d.map w).sum := by
  induction pairs generalizing d with
  | nil => simp
  | cons a pairs ih =>
    obtain ⟨k, v⟩ := a
    have hrest := ih (d := d.insert k v)
    have hfirst : ((d.insert k v).map w).sum ≤ w (k, v) + (d.map w).sum := sum_insert_le w
    simp only [List.foldl_cons, List.map_cons, List.sum_cons]
    omega

theorem sorted_ofPairs : Sorted (ofPairs pairs) := by
  rw [ofPairs]
  split
  · next h => exact isSorted_iff.1 h
  · exact sorted_foldl_insert .nil

theorem mem_of_mem_ofPairs (h : e ∈ ofPairs pairs) : e ∈ pairs := by
  rw [ofPairs] at h
  split at h
  · exact h
  · rcases mem_foldl_insert h with h | h
    · exact h
    · cases h

/-- The map has no more weight than the entries it is made of. -/
theorem sum_ofPairs_le (w : Bytes × α → Nat) :
    ((ofPairs pairs).map w).sum ≤ (pairs.map w).sum := by
  rw [ofPairs]
  split
  · exact Nat.le_refl _
  · exact sum_foldl_insert_le w

theorem length_ofPairs_le : (ofPairs pairs).length ≤ pairs.length := by
  have h : ((ofPairs pairs).map fun _ => 1).sum ≤ (pairs.map fun _ => 1).sum := sum_ofPairs_le _
  rwa [List.map_const', List.map_const', List.sum_replicate_nat, List.sum_replicate_nat,
    Nat.mul_one, Nat.mul_one] at h

end

end Dict

end EndpointRules
