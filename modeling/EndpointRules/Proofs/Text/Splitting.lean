import Mathlib.Data.Nat.Find
import EndpointRules.Proofs.Bytes
import EndpointRules.Text

/-!
# Splitting texts

A text is cut at the leftmost occurrences of a delimiter that do not overlap, as many of them as the
limit allows.  The parts with the delimiter between them are the text again, and what is left of the
delimiter stands in the last part, where the limit has kept it from being cut.
-/

namespace EndpointRules

open Bytes

namespace Text

/-- A text occurs in another one at a place. -/
def OccursAt (d s : Bytes) (place : Nat) : Prop := d <+: s.drop place

/-- The leftmost places, from a start on, at which a text occurs without overlap: the first is the
    first place of all, the next one the first behind the end of that occurrence, and so on until
    the text does not occur any more. -/
inductive Leftmost (d s : Bytes) : Nat → List Nat → Prop
  | nil {start : Nat} (hnone : ∀ place, start ≤ place → ¬ OccursAt d s place) :
      Leftmost d s start []
  | cons {start place : Nat} {places : List Nat} (hle : start ≤ place)
      (hoccurs : OccursAt d s place)
      (hfirst : ∀ earlier, start ≤ earlier → earlier < place → ¬ OccursAt d s earlier)
      (hrest : Leftmost d s (place + d.length) places) : Leftmost d s start (place :: places)

/-- The parts are those of a text that is cut at a delimiter, a limit of zero being none. -/
structure CutInto (d : Bytes) (limit : Nat) (s : Bytes) (parts : List Bytes) : Prop where
  /-- The parts with the delimiter between them are the text. -/
  join_eq : join d parts = s
  /-- There is one part more than the delimiter occurs, or as many as the limit allows if these are
      fewer. -/
  length_eq : ∃ places, Leftmost d s 0 places ∧ parts.length =
    if limit = 0 then 1 + places.length else min (1 + places.length) limit
  not_infix : ∀ part ∈ parts.dropLast, ¬ d <:+: part
  /-- The last part contains the delimiter only if there is a limit and it has been reached. -/
  infix_last : ∀ last, parts.getLast? = some last → d <:+: last →
    0 < limit ∧ parts.length = limit

variable {d s before after : Bytes} {start place limit : Nat} {places places' : List Nat}

/-! ## Occurrences -/

theorem isPrefixOf_iff_occursAt : d.isPrefixOf s = true ↔ OccursAt d s 0 := by
  rw [List.isPrefixOf_iff_prefix, OccursAt, List.drop_zero]

theorem occursAt_drop : OccursAt d (s.drop start) place ↔ OccursAt d s (start + place) := by
  rw [OccursAt, OccursAt, List.drop_drop]

theorem OccursAt.add_length_le (h : OccursAt d s place) (hd : d ≠ []) :
    place + d.length ≤ s.length := by
  have hlength := h.length_le
  have hpos := List.length_pos_iff.2 hd
  rw [List.length_drop] at hlength
  omega

theorem exists_occursAt_of_infix (h : d <:+: s) : ∃ place, OccursAt d s place := by
  obtain ⟨before, after, rfl⟩ := h
  exact ⟨before.length, after, by simp⟩

theorem breakOn?_eq_none_iff : breakOn? d s = none ↔ ∀ place, ¬ OccursAt d s place := by
  induction s with
  | nil =>
    cases d with
    | nil => simp [breakOn?, OccursAt]
    | cons c d => simp [breakOn?, OccursAt]
  | cons c s ih =>
    rw [breakOn?]
    by_cases hd : d.isPrefixOf (c :: s)
    · rw [if_pos hd]
      constructor
      · intro h
        cases h
      · intro h
        exact absurd (isPrefixOf_iff_occursAt.1 hd) (h 0)
    · rw [if_neg hd, Option.map_eq_none_iff, ih]
      constructor
      · intro h place
        cases place with
        | zero => exact fun hoccurs => hd (isPrefixOf_iff_occursAt.2 hoccurs)
        | succ place => exact h place
      · intro h place
        exact h (place + 1)

/-- A text is broken where the other one first occurs. -/
theorem breakOn?_eq_of_first (h : OccursAt d s place)
    (hfirst : ∀ earlier, earlier < place → ¬ OccursAt d s earlier) :
    breakOn? d s = some (s.take place, s.drop (place + d.length)) := by
  induction place generalizing s with
  | zero =>
    cases s with
    | nil =>
      obtain rfl : d = [] := List.prefix_nil.1 h
      rfl
    | cons c s =>
      rw [breakOn?, if_pos (isPrefixOf_iff_occursAt.2 h), Nat.zero_add]
      rfl
  | succ place ih =>
    have hzero := hfirst 0 (Nat.succ_pos place)
    cases s with
    | nil => exact absurd h hzero
    | cons c s =>
      have hrest := ih (s := s) h fun earlier hlt => hfirst (earlier + 1) (Nat.succ_lt_succ hlt)
      rw [breakOn?, if_neg fun hd => hzero (isPrefixOf_iff_occursAt.1 hd), hrest,
        Nat.succ_add]
      rfl

theorem not_occursAt_of_breakOn? (h : breakOn? d s = some (before, after)) :
    ∀ earlier, earlier < before.length → ¬ OccursAt d s earlier := by
  classical
  have hexists : ∃ place, OccursAt d s place := by
    by_contra hnone
    rw [breakOn?_eq_none_iff.2 fun place hoccurs => hnone ⟨place, hoccurs⟩] at h
    cases h
  have heq := breakOn?_eq_of_first (Nat.find_spec hexists) fun _ => Nat.find_min hexists
  rw [h] at heq
  cases heq
  intro earlier hlt
  rw [List.length_take] at hlt
  exact Nat.find_min hexists (by omega)

/-- What stands before the first occurrence of a text does not contain it. -/
theorem not_infix_of_breakOn? (hd : d ≠ []) (h : breakOn? d s = some (before, after)) :
    ¬ d <:+: before := by
  rintro ⟨left, right, rfl⟩
  have hpos := List.length_pos_iff.2 hd
  refine not_occursAt_of_breakOn? h left.length (by simp; omega) ?_
  exact ⟨right ++ (d ++ after), by simp [eq_append_of_breakOn? h]⟩

/-! ## The leftmost occurrences -/

theorem exists_leftmost (hd : d ≠ []) (s : Bytes) (start : Nat) :
    ∃ places, Leftmost d s start places := by
  classical
  by_cases hexists : ∃ place, start ≤ place ∧ OccursAt d s place
  · obtain ⟨hle, hoccurs⟩ := Nat.find_spec hexists
    have hpos := List.length_pos_iff.2 hd
    have hlength := hoccurs.add_length_le hd
    obtain ⟨places, hplaces⟩ := exists_leftmost hd s (Nat.find hexists + d.length)
    refine ⟨_, .cons hle hoccurs ?_ hplaces⟩
    intro earlier hstart hlt hearlier
    exact Nat.find_min hexists hlt ⟨hstart, hearlier⟩
  · exact ⟨[], .nil fun place hle hoccurs => hexists ⟨place, hle, hoccurs⟩⟩
termination_by s.length + 1 - start

theorem Leftmost.unique (h : Leftmost d s start places) (h' : Leftmost d s start places') :
    places' = places := by
  induction h generalizing places' with
  | nil hnone =>
    cases h' with
    | nil => rfl
    | cons hle hoccurs => exact absurd hoccurs (hnone _ hle)
  | @cons start place places hle hoccurs hfirst hrest ih =>
    cases h' with
    | nil hnone => exact absurd hoccurs (hnone _ hle)
    | @cons _ place' places' hle' hoccurs' hfirst' hrest' =>
      have hge : place ≤ place' :=
        Nat.le_of_not_lt fun hlt => hfirst place' hle' hlt hoccurs'
      have hle : place' ≤ place :=
        Nat.le_of_not_lt fun hlt => hfirst' place hle hlt hoccurs
      obtain rfl : place' = place := Nat.le_antisymm hle hge
      rw [ih hrest']

/-! ## Parts -/

@[simp] theorem split_one (d s : Bytes) : split d 1 s = [s] := by
  rw [split]
  simp

theorem split_of_breakOn?_eq_none (h : breakOn? d s = none) (limit : Nat) :
    split d limit s = [s] := by
  rw [split]
  split
  · rfl
  · split
    · rfl
    · split
      · rfl
      · next hsome =>
        rw [h] at hsome
        cases hsome

theorem split_of_breakOn?_eq_some (hd : d ≠ []) (hlimit : limit ≠ 1)
    (h : breakOn? d s = some (before, after)) :
    split d limit s = before :: split d (limit - 1) after := by
  rw [split, if_neg hd, if_neg hlimit]
  split
  · next hnone =>
    rw [h] at hnone
    cases hnone
  · next hsome =>
    rw [h] at hsome
    cases hsome
    rfl

theorem split_ne_nil (d : Bytes) (limit : Nat) (s : Bytes) : split d limit s ≠ [] := by
  unfold split
  split
  · exact List.cons_ne_nil _ _
  · split
    · exact List.cons_ne_nil _ _
    · split <;> exact List.cons_ne_nil _ _

theorem join_cons {separator text : Bytes} {texts : List Bytes} (h : texts ≠ []) :
    join separator (text :: texts) = text ++ (separator ++ join separator texts) := by
  obtain ⟨next, rest, rfl⟩ := List.exists_cons_of_ne_nil h
  simp [join, List.intercalate]

/-- Nothing of a text is lost. -/
theorem join_split (d : Bytes) (limit : Nat) (s : Bytes) : join d (split d limit s) = s := by
  fun_induction split d limit s with
  | case1 => simp [join, List.intercalate]
  | case2 => simp [join, List.intercalate]
  | case3 => simp [join, List.intercalate]
  | case4 limit s hd hlimit before after h ih =>
    rw [join_cons (split_ne_nil _ _ _), ih, eq_append_of_breakOn? h]

/-- There is a part before each of the leftmost occurrences and one behind the last of them, unless
    the limit allows fewer. -/
theorem length_split (hd : d ≠ []) (h : Leftmost d s start places) (limit : Nat) :
    (split d limit (s.drop start)).length =
      if limit = 0 then 1 + places.length else min (1 + places.length) limit := by
  induction h generalizing limit with
  | nil hnone =>
    have hbreak : breakOn? d (s.drop _) = none := breakOn?_eq_none_iff.2 fun place hoccurs =>
      hnone _ (Nat.le_add_right _ place) (occursAt_drop.1 hoccurs)
    rw [split_of_breakOn?_eq_none hbreak]
    simp only [List.length_cons, List.length_nil]
    split <;> omega
  | @cons start place places hle hoccurs hfirst hrest ih =>
    by_cases hlimit : limit = 1
    · subst hlimit
      rw [split_one]
      simp
    · obtain ⟨offset, rfl⟩ := Nat.exists_eq_add_of_le hle
      have hbreak := breakOn?_eq_of_first (occursAt_drop.2 hoccurs) fun earlier hlt hearlier =>
        hfirst _ (Nat.le_add_right _ _) (Nat.add_lt_add_left hlt _) (occursAt_drop.1 hearlier)
      rw [split_of_breakOn?_eq_some hd hlimit hbreak, List.length_cons, List.drop_drop,
        ← Nat.add_assoc, ih, List.length_cons]
      split <;> split <;> omega

/-- Only the last part may contain the delimiter. -/
theorem not_infix_of_mem_dropLast (hd : d ≠ []) (limit : Nat) (s : Bytes) :
    ∀ part ∈ (split d limit s).dropLast, ¬ d <:+: part := by
  fun_induction split d limit s with
  | case1 | case2 | case3 => simp
  | case4 limit s _ hlimit before after h ih =>
    rw [List.dropLast_cons_of_ne_nil (split_ne_nil _ _ _)]
    intro part hpart
    rcases List.mem_cons.1 hpart with rfl | hpart
    · exact not_infix_of_breakOn? hd h
    · exact ih part hpart

/-- The last part contains the delimiter only where the limit has been reached. -/
theorem length_split_of_infix_last (hd : d ≠ []) (limit : Nat) (s : Bytes) :
    ∀ last, (split d limit s).getLast? = some last → d <:+: last →
      0 < limit ∧ (split d limit s).length = limit := by
  fun_induction split d limit s with
  | case1 _ _ hnil => exact absurd hnil hd
  | case2 s _ => exact fun _ _ _ => ⟨Nat.one_pos, rfl⟩
  | case3 limit s _ hlimit hnone =>
    intro last hlast hinfix
    cases hlast
    obtain ⟨place, hoccurs⟩ := exists_occursAt_of_infix hinfix
    exact absurd hoccurs (breakOn?_eq_none_iff.1 hnone place)
  | case4 limit s _ hlimit before after h ih =>
    intro last hlast hinfix
    obtain ⟨next, rest, hrest⟩ := List.exists_cons_of_ne_nil (split_ne_nil d (limit - 1) after)
    rw [hrest, List.getLast?_cons_cons, ← hrest] at hlast
    obtain ⟨hpos, hlength⟩ := ih last hlast hinfix
    rw [List.length_cons, hlength]
    omega

/-- Splitting loses nothing of a text and respects the limit.  The places at which the delimiter
    occurs leftmost without overlap are determined by the text, and they and the limit give the
    number of the parts. -/
theorem split_at_leftmost (hd : d ≠ []) (limit : Nat) (s : Bytes) :
    (∃! places, Leftmost d s 0 places) ∧ CutInto d limit s (split d limit s) := by
  obtain ⟨places, hplaces⟩ := exists_leftmost hd s 0
  exact ⟨⟨places, hplaces, fun _ => hplaces.unique⟩, {
    join_eq := join_split d limit s
    length_eq := ⟨places, hplaces, length_split hd hplaces limit⟩
    not_infix := not_infix_of_mem_dropLast hd limit s
    infix_last := length_split_of_infix_last hd limit s }⟩

/-- A delimiter that overlaps with itself and stands at both ends, and a limit that leaves its last
    occurrence uncut. -/
theorem split_at_leftmost_overlapping :
    ("aa" : Bytes) ≠ [] ∧ (∃! places, Leftmost "aa" "aaaaabaa" 0 places) ∧
      CutInto "aa" 3 "aaaaabaa" [[], [], "abaa"] := by
  have hsplit : split "aa" 3 "aaaaabaa" = [[], [], "abaa"] := by cbv
  have hd : ("aa" : Bytes) ≠ [] := by decide
  exact ⟨hd, hsplit ▸ split_at_leftmost hd 3 "aaaaabaa"⟩

end Text

end EndpointRules
