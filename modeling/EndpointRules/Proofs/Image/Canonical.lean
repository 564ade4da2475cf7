import EndpointRules.Proofs.Image.Form
import Mathlib.Algebra.Order.BigOperators.Group.List
import Mathlib.Algebra.Order.Group.Nat

/-!
# Canonical forms of constants

Writing the value of a form gives a form that is no longer, and the form itself exactly when it is
canonical.  Reading the form of a value gives the value.
-/

namespace EndpointRules

namespace Image

theorem map_eq_self_iff {α : Type} {g : α → α} {xs : List α} :
    xs.map g = xs ↔ ∀ x ∈ xs, g x = x := by
  have h : xs.map g = xs.map id ↔ ∀ x ∈ xs, g x = id x := List.map_inj_left
  rwa [List.map_id] at h

theorem PartForm.fits_ofPart {part : TemplatePart}
    (h : ∀ s, part = .text s → s.length ≤ 0xFFFF) : (ofPart part).Fits := by
  cases part with
  | text s => exact h s rfl
  | slot => exact (by decide : (1 : UInt8) ≠ 0)

namespace Form

variable {levels : Nat} {f : Form} {v : Value}

/-- A value that fits has a form that fits. -/
theorem fits_ofValue (h : v.Fits levels) : (ofValue v).Fits levels := by
  induction levels generalizing v with
  | zero => exact h.elim
  | succ levels ih =>
    obtain ⟨hsmall, hparts⟩ := h
    cases v with
    | null => trivial
    | string s => exact hsmall
    | integer n => trivial
    | boolean b => trivial
    | list items =>
      rw [ofValue, ofItems_eq]
      refine ⟨by simpa [Value.Small] using hsmall, fun f hf => ?_⟩
      obtain ⟨v, hv, rfl⟩ := List.mem_map.1 hf
      exact ih (hparts v hv)
    | map entries =>
      rw [ofValue, ofEntries_eq]
      refine ⟨by simpa using hsmall.1, fun e he => ?_⟩
      obtain ⟨e, hmem, rfl⟩ := List.mem_map.1 he
      exact ⟨hsmall.2 e hmem, ih (hparts e hmem)⟩
    | template parts =>
      refine ⟨by simpa using hsmall.1, fun f hf => ?_⟩
      obtain ⟨part, hmem, rfl⟩ := List.mem_map.1 hf
      exact PartForm.fits_ofPart fun s hs => hsmall.2 s (hs ▸ hmem)
    | uri u => exact hsmall.elim

/-- A value is read back from its form. -/
theorem value_ofValue (h : v.Fits levels) (hv : v.WellFormed) : (ofValue v).value = v := by
  induction levels generalizing v with
  | zero => exact h.elim
  | succ levels ih =>
    obtain ⟨hsmall, hparts⟩ := h
    cases v with
    | null => rfl
    | string s => rfl
    | integer n =>
      rw [ofValue, value, Int32.toInt_ofInt_of_le hsmall.1 (Int.lt_add_one_of_le hsmall.2)]
    | boolean b => cases b <;> rfl
    | list items =>
      rw [ofValue, value, ofItems_eq, valueOfItems_eq, List.map_map]
      refine congrArg Value.list (map_eq_self_iff.2 fun v hmem => ?_)
      exact ih (hparts v hmem) (Value.wellFormed_list.1 hv v hmem)
    | map entries =>
      obtain ⟨hsorted, hentries⟩ := Value.wellFormed_map.1 hv
      have hback : entries.map (fun e => (e.1, (ofValue e.2).value)) = entries := by
        refine map_eq_self_iff.2 fun e hmem => ?_
        rw [ih (hparts e hmem) (hentries e hmem)]
      rw [ofValue, value, ofEntries_eq, valueOfEntries_eq, List.map_map]
      refine congrArg Value.map ?_
      exact (congrArg Dict.ofPairs hback).trans (Dict.ofPairs_of_sorted hsorted)
    | template parts =>
      rw [ofValue, value, List.map_map]
      refine congrArg Value.template (map_eq_self_iff.2 fun part _ => ?_)
      exact PartForm.value_ofPart part
    | uri u => exact hsmall.elim

/-- The value of a form that fits is one that fits. -/
theorem fits_value (h : f.Fits levels) : f.value.Fits levels := by
  induction levels generalizing f with
  | zero => exact h.elim
  | succ levels ih =>
    cases f with
    | null => exact ⟨trivial, trivial⟩
    | string s => exact ⟨h, trivial⟩
    | integer n => exact ⟨⟨n.le_toInt, Int.le_of_lt_add_one n.toInt_lt⟩, trivial⟩
    | boolean byte => exact ⟨trivial, trivial⟩
    | list items =>
      rw [value, valueOfItems_eq]
      refine ⟨by simpa [Value.Small] using h.1, fun v hv => ?_⟩
      obtain ⟨f, hf, rfl⟩ := List.mem_map.1 hv
      exact ih (h.2 f hf)
    | map entries =>
      rw [value, valueOfEntries_eq]
      have hentry : ∀ e ∈ Dict.ofPairs (entries.map fun e => (e.1, e.2.value)),
          e.1.length ≤ 0xFFFF ∧ e.2.Fits levels := by
        intro e he
        obtain ⟨e, hmem, rfl⟩ := List.mem_map.1 (Dict.mem_of_mem_ofPairs he)
        exact ⟨(h.2 e hmem).1, ih (h.2 e hmem).2⟩
      refine ⟨⟨?_, fun e he => (hentry e he).1⟩, fun e he => (hentry e he).2⟩
      refine Nat.le_trans Dict.length_ofPairs_le ?_
      rw [List.length_map]
      exact h.1
    | template parts =>
      rw [value]
      refine ⟨⟨by simpa using h.1, fun s hs => ?_⟩, trivial⟩
      obtain ⟨f, hf, hvalue⟩ := List.mem_map.1 hs
      have hfits := h.2 f hf
      cases f <;> cases hvalue
      exact hfits

theorem wellFormed_value (h : f.Fits levels) : f.value.WellFormed := by
  induction levels generalizing f with
  | zero => exact h.elim
  | succ levels ih =>
    cases f with
    | list items =>
      rw [value, valueOfItems_eq, Value.wellFormed_list]
      intro v hv
      obtain ⟨f, hf, rfl⟩ := List.mem_map.1 hv
      exact ih (h.2 f hf)
    | map entries =>
      rw [value, valueOfEntries_eq, Value.wellFormed_map]
      refine ⟨Dict.sorted_ofPairs, fun e he => ?_⟩
      obtain ⟨e, hmem, rfl⟩ := List.mem_map.1 (Dict.mem_of_mem_ofPairs he)
      exact ih (h.2 e hmem).2
    | _ => simp [value, Value.WellFormed]

/-- Writing the value of a form gives the form again exactly when it is canonical. -/
theorem ofValue_value_eq_iff (h : f.Fits levels) : ofValue f.value = f ↔ f.Canonical := by
  induction levels generalizing f with
  | zero => exact h.elim
  | succ levels ih =>
    cases f with
    | null => exact ⟨fun _ => .null, fun _ => rfl⟩
    | string s => exact ⟨fun _ => .string s, fun _ => rfl⟩
    | integer n =>
      rw [value, ofValue, Int32.ofInt_toInt]
      exact ⟨fun _ => .integer n, fun _ => rfl⟩
    | boolean byte =>
      rw [value, ofValue]
      constructor
      · intro heq
        injection heq with heq
        refine .boolean ?_
        rw [← heq]
        cases byte != 0
        · exact .inl rfl
        · exact .inr rfl
      · intro hcanonical
        cases hcanonical with
        | boolean hbyte => rcases hbyte with rfl | rfl <;> rfl
    | list items =>
      rw [value, ofValue, valueOfItems_eq, ofItems_eq, List.map_map, list.injEq, map_eq_self_iff]
      constructor
      · intro hitems
        exact .list fun f hf => (ih (h.2 f hf)).1 (hitems f hf)
      · intro hcanonical f hf
        cases hcanonical with
        | list hitems => exact (ih (h.2 f hf)).2 (hitems f hf)
    | map entries =>
      have hfits : ∀ e ∈ entries, e.2.Fits levels := fun e he => (h.2 e he).2
      rw [value, ofValue, valueOfEntries_eq, ofEntries_eq, map.injEq]
      constructor
      · intro heq
        -- the keys ascend, since those of the map that has been made of them do
        have hsorted : Dict.Sorted entries := by
          rw [← heq]
          exact (Dict.sorted_map ofValue).2 Dict.sorted_ofPairs
        rw [Dict.ofPairs_of_sorted ((Dict.sorted_map value).2 hsorted), List.map_map,
          map_eq_self_iff] at heq
        exact .map hsorted fun e he => (ih (hfits e he)).1 (congrArg Prod.snd (heq e he))
      · intro hcanonical
        cases hcanonical with
        | map hsorted hentries =>
          rw [Dict.ofPairs_of_sorted ((Dict.sorted_map value).2 hsorted), List.map_map]
          refine map_eq_self_iff.2 fun e he => ?_
          exact congrArg (Prod.mk e.1) ((ih (hfits e he)).2 (hentries e he))
    | template parts =>
      rw [value, ofValue, List.map_map, template.injEq, map_eq_self_iff]
      constructor
      · intro hparts
        exact .template fun f hf => PartForm.ofPart_value_eq_iff.1 (hparts f hf)
      · intro hcanonical f hf
        cases hcanonical with
        | template hparts => exact PartForm.ofPart_value_eq_iff.2 (hparts f hf)

theorem length_bytes_list (items : List Form) :
    (list items).bytes.length = 3 + (items.map fun f => f.bytes.length).sum := by
  rw [bytes, bytesOfItems_eq, List.length_cons, List.length_append, Word.length_bytes,
    List.length_flatMap]
  omega

theorem length_bytes_map (entries : List (Bytes × Form)) :
    (map entries).bytes.length = 3 + (entries.map fun e => (entryBytes e).length).sum := by
  rw [bytes, bytesOfEntries_eq, List.length_cons, List.length_append, Word.length_bytes,
    List.length_flatMap]
  omega

theorem length_bytes_template (parts : List PartForm) :
    (template parts).bytes.length = 3 + (parts.map fun f => f.bytes.length).sum := by
  rw [bytes, List.length_cons, List.length_append, Word.length_bytes, List.length_flatMap]
  omega

/-- No form of a value is shorter than the one that the writer chooses. -/
theorem length_ofValue_value_le (h : f.Fits levels) :
    (ofValue f.value).bytes.length ≤ f.bytes.length := by
  induction levels generalizing f with
  | zero => exact h.elim
  | succ levels ih =>
    cases f with
    | null => exact Nat.le_refl _
    | string s => exact Nat.le_refl _
    | integer n =>
      have hback : ofValue (value (integer n)) = integer n := by
        rw [value, ofValue, Int32.ofInt_toInt]
      exact Nat.le_of_eq (congrArg (·.bytes.length) hback)
    | boolean byte => exact Nat.le_refl _
    | list items =>
      rw [value, ofValue, valueOfItems_eq, ofItems_eq, length_bytes_list, length_bytes_list,
        List.map_map, List.map_map]
      exact Nat.add_le_add_left (List.sum_le_sum fun f hf => ih (h.2 f hf)) 3
    | map entries =>
      rw [value, ofValue, valueOfEntries_eq, ofEntries_eq, length_bytes_map, length_bytes_map,
        List.map_map]
      refine Nat.add_le_add_left ?_ 3
      -- a map weighs no more than the entries, repeated keys included, that it is made of
      refine Nat.le_trans (Dict.sum_ofPairs_le _) ?_
      rw [List.map_map]
      refine List.sum_le_sum fun e he => ?_
      simp only [Function.comp_apply, entryBytes, List.length_append]
      exact Nat.add_le_add_left (ih (h.2 e he).2) _
    | template parts =>
      rw [value, ofValue, length_bytes_template, length_bytes_template, List.map_map, List.map_map]
      refine Nat.add_le_add_left (List.sum_le_sum fun f _ => ?_) 3
      exact Nat.le_of_eq (PartForm.length_ofPart_value f)

end Form

end Image

end EndpointRules
