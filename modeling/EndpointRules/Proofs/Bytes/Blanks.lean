import Mathlib.Data.List.Chain
import Mathlib.Data.List.DropRight
import Mathlib.Data.List.Induction
import EndpointRules.Bytes

/-!
# Blanks

What squeezing and trimming do to a text is told by induction from its end, with one byte more at a
time.  Squeezing leaves alone exactly the texts without neighbouring blanks, trimming leaves alone
those that do not end in a blank, and it does not matter which of the two comes first.
-/

namespace EndpointRules.Bytes

variable {b c : UInt8} {s t : Bytes}

/-- Not both bytes are blanks. -/
def Apart (b c : UInt8) : Prop := ¬ (b = blank ∧ c = blank)

/-- There is no blank at either end of the text, nor are there two blanks next to each other. -/
structure Tight (s : Bytes) : Prop where
  first : s.head? ≠ some blank
  chain : s.IsChain Apart
  last : s.getLast? ≠ some blank

/-! ## Squeezing -/

/-- One byte more is kept, unless it is a blank behind a blank. -/
theorem squeezeBlanks_concat (s : Bytes) (c : UInt8) :
    squeezeBlanks (s ++ [c]) =
      if c = blank ∧ (squeezeBlanks s).getLast? = some blank then squeezeBlanks s
      else squeezeBlanks s ++ [c] := by
  rw [squeezeBlanks, squeezeBlanks, List.foldl_append, List.foldl_cons, List.foldl_nil,
    List.getLast?_reverse]
  split <;> simp_all

theorem squeezeBlanks_concat_of_ne (h : c ≠ blank) (s : Bytes) :
    squeezeBlanks (s ++ [c]) = squeezeBlanks s ++ [c] := by
  rw [squeezeBlanks_concat, if_neg fun ⟨hc, _⟩ => h hc]

theorem isChain_concat_iff : (s ++ [c]).IsChain Apart ↔
    s.IsChain Apart ∧ ¬ (c = blank ∧ s.getLast? = some blank) := by
  rw [List.isChain_append]
  simp [Apart]
  grind

theorem isChain_squeezeBlanks (s : Bytes) : (squeezeBlanks s).IsChain Apart := by
  induction s using List.reverseRecOn with
  | nil => exact List.isChain_nil
  | append_singleton s c ih =>
    rw [squeezeBlanks_concat]
    by_cases h : c = blank ∧ (squeezeBlanks s).getLast? = some blank
    · rw [if_pos h]
      exact ih
    · rw [if_neg h, isChain_concat_iff]
      exact ⟨ih, h⟩

theorem squeezeBlanks_of_isChain (h : s.IsChain Apart) : squeezeBlanks s = s := by
  induction s using List.reverseRecOn with
  | nil => rfl
  | append_singleton s c ih =>
    obtain ⟨hchain, hlast⟩ := isChain_concat_iff.1 h
    rw [squeezeBlanks_concat, ih hchain, if_neg hlast]

theorem squeezeBlanks_eq_self_iff : squeezeBlanks s = s ↔ s.IsChain Apart :=
  ⟨fun h => h ▸ isChain_squeezeBlanks s, squeezeBlanks_of_isChain⟩

/-- What comes of the rest of a text depends only on what came of its start. -/
theorem squeezeBlanks_append_congr (h : squeezeBlanks s = squeezeBlanks t) (rest : Bytes) :
    squeezeBlanks (s ++ rest) = squeezeBlanks (t ++ rest) := by
  induction rest using List.reverseRecOn with
  | nil => simpa using h
  | append_singleton rest c ih =>
    rw [← List.append_assoc, ← List.append_assoc, squeezeBlanks_concat, squeezeBlanks_concat, ih]

/-- Blanks in front of a blank do not show. -/
theorem squeezeBlanks_append_blanks (s : Bytes) (k : Nat) (rest : Bytes) :
    squeezeBlanks (s ++ List.replicate k blank ++ blank :: rest) =
      squeezeBlanks (s ++ blank :: rest) := by
  have htwice : ∀ s, squeezeBlanks (s ++ [blank] ++ [blank]) = squeezeBlanks (s ++ [blank]) := by
    intro s
    rw [squeezeBlanks_concat (s ++ [blank]), if_pos]
    refine ⟨rfl, ?_⟩
    rw [squeezeBlanks_concat]
    split <;> simp_all
  have hblanks : squeezeBlanks (s ++ List.replicate k blank ++ [blank]) =
      squeezeBlanks (s ++ [blank]) := by
    induction k with
    | zero => simp
    | succ k ih => rw [List.replicate_succ', ← List.append_assoc, htwice, ih]
  have := squeezeBlanks_append_congr hblanks rest
  simpa using this

/-! ## Trimming -/

theorem dropTrailingBlanks_concat_blank (s : Bytes) :
    dropTrailingBlanks (s ++ [blank]) = dropTrailingBlanks s :=
  List.rdropWhile_concat_pos _ _ _ rfl

theorem dropTrailingBlanks_concat_of_ne (h : c ≠ blank) (s : Bytes) :
    dropTrailingBlanks (s ++ [c]) = s ++ [c] :=
  List.rdropWhile_concat_neg _ _ _ (by simpa using h)

theorem getLast?_dropTrailingBlanks (s : Bytes) :
    (dropTrailingBlanks s).getLast? ≠ some blank := by
  induction s using List.reverseRecOn with
  | nil => nofun
  | append_singleton s c ih =>
    by_cases h : c = blank
    · rw [h, dropTrailingBlanks_concat_blank]
      exact ih
    · rw [dropTrailingBlanks_concat_of_ne h]
      simpa using h

theorem dropTrailingBlanks_of_last (h : s.getLast? ≠ some blank) : dropTrailingBlanks s = s := by
  induction s using List.reverseRecOn with
  | nil => rfl
  | append_singleton s c _ => exact dropTrailingBlanks_concat_of_ne (by simpa using h) s

theorem dropTrailingBlanks_append (s t : Bytes) :
    dropTrailingBlanks (s ++ t) =
      if dropTrailingBlanks t = [] then dropTrailingBlanks s else s ++ dropTrailingBlanks t := by
  induction t using List.reverseRecOn with
  | nil => simp [dropTrailingBlanks]
  | append_singleton t c ih =>
    rw [← List.append_assoc]
    by_cases h : c = blank
    · rw [h, dropTrailingBlanks_concat_blank, dropTrailingBlanks_concat_blank, ih]
    · rw [dropTrailingBlanks_concat_of_ne h, dropTrailingBlanks_concat_of_ne h]
      simp

theorem dropTrailingBlanks_append_blanks (s : Bytes) (k : Nat) :
    dropTrailingBlanks (s ++ List.replicate k blank) = dropTrailingBlanks s := by
  induction k with
  | zero => simp
  | succ k ih =>
    rw [List.replicate_succ', ← List.append_assoc, dropTrailingBlanks_concat_blank, ih]

theorem squeezeBlanks_dropTrailingBlanks (s : Bytes) :
    squeezeBlanks (dropTrailingBlanks s) = dropTrailingBlanks (squeezeBlanks s) := by
  induction s using List.reverseRecOn with
  | nil => rfl
  | append_singleton s c ih =>
    by_cases h : c = blank
    · rw [h, dropTrailingBlanks_concat_blank, ih, squeezeBlanks_concat]
      split
      · rfl
      · rw [dropTrailingBlanks_concat_blank]
    · rw [dropTrailingBlanks_concat_of_ne h, squeezeBlanks_concat_of_ne h,
        dropTrailingBlanks_concat_of_ne h]

/-! ## Other bytes -/

theorem count_squeezeBlanks (h : b ≠ blank) (s : Bytes) :
    (squeezeBlanks s).count b = s.count b := by
  induction s using List.reverseRecOn with
  | nil => rfl
  | append_singleton s c ih =>
    by_cases hc : c = blank
    · rw [squeezeBlanks_concat]
      split <;> simp [ih, hc, h.symm]
    · rw [squeezeBlanks_concat_of_ne hc, List.count_append, List.count_append, ih]

theorem count_dropTrailingBlanks (h : b ≠ blank) (s : Bytes) :
    (dropTrailingBlanks s).count b = s.count b := by
  induction s using List.reverseRecOn with
  | nil => rfl
  | append_singleton s c ih =>
    by_cases hc : c = blank
    · rw [hc, dropTrailingBlanks_concat_blank, ih]
      simp [h.symm]
    · rw [dropTrailingBlanks_concat_of_ne hc]

/-! ## Words with single blanks between them -/

theorem isChain_cons_blank_iff : (blank :: t).IsChain Apart ↔
    t.head? ≠ some blank ∧ t.IsChain Apart := by
  cases t <;> simp [Apart]

theorem isChain_append_blank_iff : (s ++ blank :: t).IsChain Apart ↔
    (s.IsChain Apart ∧ s.getLast? ≠ some blank) ∧ t.head? ≠ some blank ∧ t.IsChain Apart := by
  rw [List.isChain_split, isChain_concat_iff, isChain_cons_blank_iff]
  simp

theorem tight_nil : Tight [] := ⟨nofun, List.isChain_nil, nofun⟩

theorem tight_of_not_mem (h : blank ∉ s) : Tight s where
  first hb := h (List.mem_of_head? hb)
  chain := by
    have hpairs : s.Pairwise Apart := by
      refine List.pairwise_of_forall_mem_list ?_
      intro b hb c _ hboth
      exact h (hboth.1 ▸ hb)
    exact hpairs.isChain
  last hb := h (List.mem_of_getLast? hb)

/-- A blank separates two texts that are not empty. -/
theorem Tight.append (hs : Tight s) (ht : Tight t) (hs' : s ≠ []) (ht' : t ≠ []) :
    Tight (s ++ blank :: t) where
  first := by
    rw [List.head?_append_of_ne_nil _ hs']
    exact hs.first
  chain := isChain_append_blank_iff.2 ⟨⟨hs.chain, hs.last⟩, ht.first, ht.chain⟩
  last := by
    rw [List.getLast?_append_of_ne_nil _ (List.cons_ne_nil _ _), List.getLast?_cons_of_ne_nil ht']
    exact ht.last

/-! ## Squeezing and trimming -/

theorem squeeze_trim_eq_self_iff : squeezeBlanks (dropTrailingBlanks s) = s ↔
    s.getLast? ≠ some blank ∧ s.IsChain Apart := by
  constructor
  · intro h
    have hlast : s.getLast? ≠ some blank := by
      rw [← h, squeezeBlanks_dropTrailingBlanks]
      exact getLast?_dropTrailingBlanks _
    rw [dropTrailingBlanks_of_last hlast] at h
    exact ⟨hlast, squeezeBlanks_eq_self_iff.1 h⟩
  · intro ⟨hlast, hchain⟩
    rw [dropTrailingBlanks_of_last hlast, squeezeBlanks_of_isChain hchain]

/-- Filling a text up with blanks does not show at its end or in front of a blank. -/
theorem squeeze_trim_append_blanks (s : Bytes) (k : Nat) (ht : ∀ b ∈ t.head?, b = blank) :
    squeezeBlanks (dropTrailingBlanks (s ++ List.replicate k blank ++ t)) =
      squeezeBlanks (dropTrailingBlanks (s ++ t)) := by
  cases t with
  | nil => rw [List.append_nil, List.append_nil, dropTrailingBlanks_append_blanks]
  | cons b t =>
    obtain rfl : b = blank := ht b rfl
    rw [squeezeBlanks_dropTrailingBlanks, squeezeBlanks_append_blanks,
      ← squeezeBlanks_dropTrailingBlanks]

theorem Tight.squeeze_trim (hs : Tight s) : squeezeBlanks (dropTrailingBlanks s) = s :=
  squeeze_trim_eq_self_iff.2 ⟨hs.last, hs.chain⟩

/-- Behind a tight text and a blank, a text is left alone exactly if it is tight. -/
theorem Tight.squeeze_trim_append_iff (hs : Tight s) (ht : t ≠ []) :
    squeezeBlanks (dropTrailingBlanks (s ++ blank :: t)) = s ++ blank :: t ↔ Tight t := by
  rw [squeeze_trim_eq_self_iff, isChain_append_blank_iff,
    List.getLast?_append_of_ne_nil _ (List.cons_ne_nil _ _), List.getLast?_cons_of_ne_nil ht]
  constructor
  · intro ⟨hlast, _, hfirst, hchain⟩
    exact ⟨hfirst, hchain, hlast⟩
  · intro h
    exact ⟨h.last, ⟨hs.chain, hs.last⟩, h.first, h.chain⟩

/-- Such a text that is trimmed already is squeezed no further exactly if it is tight. -/
theorem Tight.squeeze_append_iff (hs : Tight s) :
    squeezeBlanks (dropTrailingBlanks (s ++ blank :: t)) = dropTrailingBlanks (s ++ blank :: t) ↔
      Tight (dropTrailingBlanks t) := by
  have hcut : dropTrailingBlanks (s ++ blank :: t) =
      if dropTrailingBlanks t = [] then s else s ++ blank :: dropTrailingBlanks t := by
    rw [← List.singleton_append, ← List.append_assoc, dropTrailingBlanks_append,
      dropTrailingBlanks_concat_blank, dropTrailingBlanks_of_last hs.last]
    simp
  rw [hcut]
  by_cases ht : dropTrailingBlanks t = []
  · rw [if_pos ht, ht]
    exact iff_of_true (squeezeBlanks_of_isChain hs.chain) tight_nil
  · have hlast : (s ++ blank :: dropTrailingBlanks t).getLast? ≠ some blank := by
      rw [List.getLast?_append_of_ne_nil _ (List.cons_ne_nil _ _), List.getLast?_cons_of_ne_nil ht]
      exact getLast?_dropTrailingBlanks t
    rw [if_neg ht, ← hs.squeeze_trim_append_iff ht, dropTrailingBlanks_of_last hlast]

end EndpointRules.Bytes
