import EndpointRules.Program.Registers
import EndpointRules.Proofs.Program.Bodies

/-!
# Registers by index and by name

No two registers of a program have the same name, so a name leads to at most one register, and the
views of the registers list each register at most once.
-/

namespace EndpointRules

/-! ## Lists of pairs -/

section

variable {α β γ δ : Type}

theorem lookup_eq_some_iff_mem [BEq α] [LawfulBEq α] {pairs : List (α × β)}
    (h : (pairs.map (·.1)).Nodup) {a : α} {b : β} :
    pairs.lookup a = some b ↔ (a, b) ∈ pairs := by
  induction pairs with
  | nil => simp
  | cons pair pairs ih =>
    obtain ⟨k, v⟩ := pair
    rw [List.map_cons, List.nodup_cons] at h
    obtain ⟨hk, hrest⟩ := h
    rw [List.lookup_cons, List.mem_cons, Prod.mk.injEq]
    by_cases hak : a = k
    · subst hak
      have hfresh : (a, b) ∉ pairs := fun hmem => hk (List.mem_map.2 ⟨_, hmem, rfl⟩)
      simp [hfresh, eq_comm]
    · have hne : (a == k) = false := by simpa using hak
      rw [hne]
      simp [hak, ih hrest]

/-- Pairs that are made of items keep their keys apart if the items can be told apart by them. -/
theorem nodup_keys_filterMap {items : List γ} {key : γ → δ} {f : γ → Option (α × β)}
    (h : (items.map key).Nodup)
    (hf : ∀ x y, ∀ a ∈ f x, ∀ b ∈ f y, a.1 = b.1 → key x = key y) :
    ((items.filterMap f).map (·.1)).Nodup := by
  rw [List.Nodup, List.pairwise_map] at h ⊢
  refine h.filterMap f fun x y hxy a ha b hb hab => ?_
  exact hxy (hf x y a ha b hb hab)

end

theorem Dict.get?_eq_lookup {α : Type} (d : Dict α) (key : Bytes) : d.get? key = d.lookup key := by
  induction d with
  | nil => rfl
  | cons entry d ih =>
    obtain ⟨k, v⟩ := entry
    rw [get?] at ih ⊢
    rw [List.find?_cons, List.lookup_cons, BEq.comm]
    cases key == k with
    | false => exact ih
    | true => rfl

/-! ## Names -/

theorem Parts.repeatedName?_eq_none_iff {seen names : List Bytes} :
    repeatedName? seen names = none ↔ names.Nodup ∧ ∀ name ∈ names, name ∉ seen := by
  induction names generalizing seen with
  | nil => simp [repeatedName?]
  | cons name names ih =>
    rw [repeatedName?, List.nodup_cons, List.forall_mem_cons]
    by_cases hseen : seen.contains name = true
    · rw [if_pos hseen]
      have hmem : name ∈ seen := by simpa using hseen
      simp [hmem]
    · rw [if_neg hseen, ih]
      have hmem : name ∉ seen := by simpa using hseen
      simp only [List.mem_cons, not_or, hmem]
      constructor
      · rintro ⟨hnodup, hfresh⟩
        have hname : name ∉ names := fun hin => (hfresh name hin).1 rfl
        exact ⟨⟨hname, hnodup⟩, not_false, fun other hother => (hfresh other hother).2⟩
      · rintro ⟨⟨hname, hnodup⟩, -, hfresh⟩
        exact ⟨hnodup, fun other hother => ⟨fun heq => hname (heq ▸ hother), hfresh other hother⟩⟩

namespace Program

variable {p : Program} {i : Nat} {name : Bytes} {r : Register}

theorem nodup_names (p : Program) : (p.parts.registers.toList.map (·.name)).Nodup := by
  have hnames := p.checked.names
  unfold Parts.checkNames at hnames
  split at hnames
  · cases hnames
  · next hnone => exact (Parts.repeatedName?_eq_none_iff.1 hnone).1

/-! ## Views -/

theorem mem_indexed : (r, i) ∈ p.indexed ↔ p.parts.registers[i]? = some r := by
  rw [indexed, List.mk_mem_zipIdx_iff_getElem?, Array.getElem?_toList]

theorem map_fst_indexed (p : Program) : p.indexed.map (·.1) = p.parts.registers.toList := by
  rw [indexed, List.zipIdx_map_fst]

theorem nodup_indices (p : Program) : (p.indexed.map (·.2)).Nodup := by
  rw [indexed, List.zipIdx_map_snd]
  exact List.nodup_range'

theorem getElem?_template (p : Program) (i : Nat) :
    p.template[i]? = p.parts.registers[i]?.map (·.defaultValue.getD .null) := by
  rw [template, Array.getElem?_map]

theorem mem_inputs : (name, i) ∈ p.inputs ↔
    ∃ r, p.parts.registers[i]? = some r ∧ r.temporary = false ∧ r.name = name := by
  simp only [inputs, List.mem_map, List.mem_filter, Prod.exists, Prod.mk.injEq]
  constructor
  · rintro ⟨r, j, ⟨hmem, htemporary⟩, hname, rfl⟩
    exact ⟨r, mem_indexed.1 hmem, by simpa using htemporary, hname⟩
  · rintro ⟨r, hr, htemporary, hname⟩
    exact ⟨r, i, ⟨mem_indexed.2 hr, by simpa using htemporary⟩, hname, rfl⟩

/-- A name leads to the register of that name, unless it is temporary. -/
theorem lookup_inputs : p.inputs.lookup name = some i ↔
    ∃ r, p.parts.registers[i]? = some r ∧ r.temporary = false ∧ r.name = name := by
  have hsublist : (p.inputs.map (·.1)).Sublist (p.indexed.map (·.1.name)) := by
    rw [inputs, List.map_map]
    exact List.filter_sublist.map _
  have hnames : p.indexed.map (·.1.name) = p.parts.registers.toList.map (·.name) := by
    rw [← map_fst_indexed, List.map_map]
    rfl
  have hnodup : (p.inputs.map (·.1)).Nodup := by
    rw [hnames] at hsublist
    exact p.nodup_names.sublist hsublist
  rw [lookup_eq_some_iff_mem hnodup, mem_inputs]

theorem mem_builtins : (i, name) ∈ p.builtins ↔
    ∃ r, p.parts.registers[i]? = some r ∧ r.builtin = some name := by
  simp only [builtins, List.mem_filterMap, Prod.exists, Option.map_eq_some_iff, Prod.mk.injEq]
  constructor
  · rintro ⟨r, j, hmem, builtin, hbuiltin, rfl, rfl⟩
    exact ⟨r, mem_indexed.1 hmem, hbuiltin⟩
  · rintro ⟨r, hr, hbuiltin⟩
    exact ⟨r, i, mem_indexed.2 hr, name, hbuiltin, rfl, rfl⟩

theorem nodup_builtins (p : Program) : (p.builtins.map (·.1)).Nodup := by
  refine nodup_keys_filterMap p.nodup_indices fun x y a ha b hb hab => ?_
  obtain ⟨_, _, rfl⟩ := Option.map_eq_some_iff.1 ha
  obtain ⟨_, _, rfl⟩ := Option.map_eq_some_iff.1 hb
  exact hab

theorem exists_of_mem_hardRequired (h : (i, name) ∈ p.hardRequired) :
    ∃ r, p.parts.registers[i]? = some r ∧ r.name = name ∧ r.required = true ∧
      r.temporary = false ∧ r.defaultValue = none ∧ r.builtin = none := by
  simp only [hardRequired, List.mem_map, List.mem_filter, Prod.exists, Prod.mk.injEq,
    Bool.and_eq_true, Bool.not_eq_true', Option.isNone_iff_eq_none] at h
  obtain ⟨r, j, ⟨hmem, ⟨⟨hrequired, htemporary⟩, hdefault⟩, hbuiltin⟩, rfl, hname⟩ := h
  exact ⟨r, mem_indexed.1 hmem, hname, hrequired, htemporary, hdefault, hbuiltin⟩

/-- The first register that must not be null and is null. -/
theorem find?_required (p : Program) (value : Register → Value) :
    (p.required.find? fun (i, _) =>
        ((p.parts.registers.map value).getD i .null).isNull).map (·.2) =
      (p.parts.registers.toList.find? fun r =>
        r.required && !r.temporary && (value r).isNull).map (·.name) := by
  rw [required, List.find?_map, List.find?_filter, ← map_fst_indexed, List.find?_map,
    Option.map_map, Option.map_map, ← List.head?_filter, ← List.head?_filter,
    List.filter_congr (q := (fun r => r.required && !r.temporary && (value r).isNull) ∘ (·.1))]
  · rfl
  · intro x hx
    have hr := mem_indexed.1 hx
    simp [hr]

end Program

end EndpointRules
