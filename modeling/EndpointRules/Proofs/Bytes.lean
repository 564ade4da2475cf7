import Mathlib.Data.List.TakeWhile
import EndpointRules.Bytes

/-!
# Where texts are cut

Each way of cutting a text, told from the pieces: how the text is put together from them, and which
of them hold no mark.  These conditions leave room for one way of cutting only.
-/

namespace EndpointRules.Bytes

variable {c : UInt8} {d s before after rest : Bytes} {behind : Option Bytes}

/-! ## At the first mark -/

theorem not_mem_takeWhile (c : UInt8) (s : Bytes) : c ∉ s.takeWhile (· != c) := by
  intro h
  simpa using List.mem_takeWhile_imp h

/-- What is left begins at the first mark. -/
theorem dropWhile_eq (c : UInt8) (s : Bytes) :
    s.dropWhile (· != c) = [] ∨ ∃ after, s.dropWhile (· != c) = c :: after := by
  induction s with
  | nil => simp
  | cons b s ih =>
    by_cases hb : b = c
    · simp [hb]
    · simpa [hb] using ih

theorem ne_of_not_mem (h : c ∉ before) : ∀ b ∈ before, (b != c) = true := by
  intro b hb
  simp only [bne_iff_ne]
  intro hbc
  exact h (hbc ▸ hb)

theorem takeWhile_append (h : c ∉ before) (hrest : rest = [] ∨ ∃ after, rest = c :: after) :
    (before ++ rest).takeWhile (· != c) = before := by
  rw [List.takeWhile_append_of_pos (ne_of_not_mem h)]
  rcases hrest with hrest | ⟨after, hrest⟩ <;> simp [hrest]

theorem dropWhile_append (h : c ∉ before) (hrest : rest = [] ∨ ∃ after, rest = c :: after) :
    (before ++ rest).dropWhile (· != c) = rest := by
  rw [List.dropWhile_append_of_pos (ne_of_not_mem h)]
  rcases hrest with hrest | ⟨after, hrest⟩ <;> simp [hrest]

/-- A text is cut into a part without the mark, and what stands behind the mark if there is one. -/
theorem cut_eq_iff :
    cut c s = (before, behind) ↔ s = before ++ behind.elim [] (c :: ·) ∧ c ∉ before := by
  constructor
  · intro h
    obtain ⟨hbefore, hbehind⟩ := Prod.mk.inj h
    have hs := List.takeWhile_append_dropWhile (p := (· != c)) (l := s)
    rw [hbefore] at hs
    refine ⟨?_, hbefore ▸ not_mem_takeWhile c s⟩
    rcases dropWhile_eq c s with hrest | ⟨after, hrest⟩
    · rw [hrest] at hs hbehind
      simp [← hs, ← hbehind]
    · rw [hrest] at hs hbehind
      simp [← hs, ← hbehind]
  · intro ⟨hs, hmark⟩
    have hrest : behind.elim [] (c :: ·) = [] ∨ ∃ after, behind.elim [] (c :: ·) = c :: after := by
      cases behind <;> simp
    rw [cut, hs, takeWhile_append hmark hrest, dropWhile_append hmark hrest]
    cases behind <;> rfl

/-! ## At the last mark -/

/-- Seen from its end, a text is cut at the last mark. -/
theorem cut_reverse_eq_iff :
    cut c s.reverse = (after.reverse, behind) ↔
      s = (behind.elim [] fun before => before.reverse ++ [c]) ++ after ∧ c ∉ after := by
  rw [cut_eq_iff, List.reverse_eq_iff, List.mem_reverse]
  cases behind <;> simp

theorem afterLast_eq_iff :
    afterLast c s = after ↔ (s = after ∨ ∃ before, s = before ++ c :: after) ∧ c ∉ after := by
  have hcut : afterLast c s = after ↔ ∃ behind, cut c s.reverse = (after.reverse, behind) := by
    simp [afterLast, cut, ← List.reverse_eq_iff]
  rw [hcut]
  simp only [cut_reverse_eq_iff]
  constructor
  · intro ⟨behind, hs, hmark⟩
    cases behind with
    | none => exact ⟨.inl hs, hmark⟩
    | some before => exact ⟨.inr ⟨before.reverse, by simpa using hs⟩, hmark⟩
  · intro ⟨hs, hmark⟩
    rcases hs with hs | ⟨before, hs⟩
    · exact ⟨none, hs, hmark⟩
    · exact ⟨some before.reverse, by simpa using hs, hmark⟩

theorem cutLast?_eq_some_iff :
    cutLast? c s = some (before, after) ↔ s = before ++ c :: after ∧ c ∉ after := by
  have hcut : cutLast? c s = some (before, after) ↔
      cut c s.reverse = (after.reverse, some before.reverse) := by
    simp only [cutLast?, afterLast, cut, Option.map_eq_some_iff, Prod.mk.injEq]
    grind
  rw [hcut, cut_reverse_eq_iff]
  simp

theorem cutLast?_eq_none_iff : cutLast? c s = none ↔ c ∉ s := by
  have hwhole : cutLast? c s = none ↔ s.reverse.dropWhile (· != c) = [] := by
    cases h : s.reverse.dropWhile (· != c) <;> simp [cutLast?, h]
  rw [hwhole, List.dropWhile_eq_nil_iff]
  simp only [List.mem_reverse, bne_iff_ne]
  grind

/-! ## At the first occurrence of a text -/

theorem eq_append_of_breakOn? (h : breakOn? d s = some (before, after)) :
    s = before ++ (d ++ after) := by
  induction s generalizing before with
  | nil =>
    by_cases hd : d.isEmpty
    · simp only [breakOn?, hd, if_true, Option.some.injEq, Prod.mk.injEq] at h
      simp [List.isEmpty_iff.1 hd, ← h.1, ← h.2]
    · simp [breakOn?, hd] at h
  | cons b s ih =>
    rw [breakOn?] at h
    by_cases hd : d.isPrefixOf (b :: s)
    · obtain ⟨rest, hrest⟩ := List.isPrefixOf_iff_prefix.1 hd
      simp only [hd, if_true, Option.some.injEq, Prod.mk.injEq] at h
      rw [← h.1, ← h.2, ← hrest, List.drop_left]
      rfl
    · rw [if_neg hd] at h
      obtain ⟨⟨before', after'⟩, hbreak, heq⟩ := Option.map_eq_some_iff.1 h
      cases heq
      rw [ih hbreak]
      rfl

/-- A text occurs first behind bytes of which none is its first byte. -/
theorem breakOn?_append (h : c ∉ before) (d after : Bytes) :
    breakOn? (c :: d) (before ++ (c :: d ++ after)) = some (before, after) := by
  induction before with
  | nil => simp [breakOn?]
  | cons b before ih =>
    rw [List.mem_cons, not_or] at h
    have hd : (c :: d).isPrefixOf (b :: (before ++ (c :: d ++ after))) = false := by
      simp [List.isPrefixOf, h.1]
    rw [List.cons_append, breakOn?, hd, ih h.2]
    rfl

end EndpointRules.Bytes
