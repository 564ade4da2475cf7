import EndpointRules.Uri.Cache

/-!
# Lookups told from the entries

What a cache contains and what a lookup does to it can be told from its entries alone: the index
knows the texts of the entries and no others, so the entry that it leads to is the one that has the
text.
-/

namespace EndpointRules.Uri.Cache

variable {c : Cache} {text : Bytes} {u : Uri}

theorem contains_iff : c.contains text = true ↔ text ∈ c.entries.map (·.text) := by
  rw [contains, Option.isSome_iff_exists, entries, List.map_map, List.mem_map]
  constructor
  · intro ⟨number, hindex⟩
    obtain ⟨e, he, htext, -⟩ := (c.consistent.indexed text number).1 hindex
    exact ⟨e, he, (c.consistent.spelled e he).trans htext⟩
  · intro ⟨e, he, htext⟩
    have hspelled := c.consistent.spelled e he
    exact ⟨e.number, (c.consistent.indexed text e.number).2 ⟨e, he, hspelled.symm.trans htext, rfl⟩⟩

theorem length_entries (c : Cache) : c.entries.length = c.size := List.length_map _

theorem size_le_capacity (c : Cache) : c.size ≤ c.capacity := c.consistent.fits

/-- A lookup gives what the tables give. -/
theorem get_of_lookUp {found : Found} {t : Tables} (h : c.tables.lookUp text = some (found, t)) :
    (c.get text).1 = found ∧ (c.get text).2.tables = t := by
  unfold get
  split
  next found' t' h' _ =>
    cases h.symm.trans h'
    exact ⟨rfl, rfl⟩

/-- Moving an entry to the front moves its URI there. -/
theorem map_uri_promote {t : Tables} (h : t.Consistent) {e : Entry} (he : e ∈ t.order) :
    (t.promote e).order.map (·.uri) =
      e.uri :: (t.order.map (·.uri)).filter (·.text != e.text) := by
  have hfilter : t.order.filter (·.number != e.number) =
      t.order.filter ((·.text != e.text) ∘ (·.uri)) := by
    refine List.filter_congr fun e' he' => ?_
    have hsame : e'.number = e.number ↔ e'.text = e.text := by
      constructor
      · intro hnumber
        rw [h.eq_of_number_eq he' he hnumber]
      · intro htext
        rw [h.eq_of_text_eq he' he htext]
    rw [Bool.eq_iff_iff]
    simp only [bne_iff_ne, Function.comp_apply, h.spelled e' he']
    exact not_congr hsame
  rw [Tables.promote, List.map_cons, hfilter, List.filter_map]

/-- What getting a text can do: the text is cached and its entry becomes the latest, it is a URI
    that becomes the latest entry, or it is no URI. -/
theorem get_cases (c : Cache) (text : Bytes) :
    (∃ u ∈ c.entries, u.text = text ∧ (c.get text).1 = .cached u ∧
      (c.get text).2.entries = u :: c.entries.filter (·.text != text)) ∨
    (c.contains text = false ∧ ∃ u, Uri.parse? text = some u ∧ (c.get text).1 = .fresh u ∧
      (c.get text).2.entries = (u :: c.entries).take c.capacity) ∨
    (c.contains text = false ∧ Uri.parse? text = none ∧ (c.get text).1 = .invalid ∧
      (c.get text).2.entries = c.entries) := by
  cases hindex : c.tables.index.get? text with
  | some number =>
    obtain ⟨e, he, rfl, hentry⟩ := c.consistent.exists_entry hindex
    have hlookUp : c.tables.lookUp e.text = some (.cached e.uri, c.tables.promote e) := by
      simp [Tables.lookUp, hindex, hentry]
    obtain ⟨hfound, htables⟩ := get_of_lookUp hlookUp
    refine .inl ⟨e.uri, List.mem_map_of_mem he, c.consistent.spelled e he, hfound, ?_⟩
    rw [entries, htables, map_uri_promote c.consistent he, entries]
  | none =>
    have hcontains : c.contains text = false := by rw [contains, hindex]; rfl
    cases hparse : Uri.parse? text with
    | none =>
      have hlookUp : c.tables.lookUp text = some (.invalid, c.tables) := by
        simp [Tables.lookUp, hindex, hparse]
      obtain ⟨hfound, htables⟩ := get_of_lookUp hlookUp
      refine .inr (.inr ⟨hcontains, rfl, hfound, ?_⟩)
      rw [entries, htables, entries]
    | some u =>
      have hlookUp : c.tables.lookUp text = some (.fresh u,
          if c.tables.capacity = 0 then c.tables else (c.tables.push text u).evict) := by
        simp [Tables.lookUp, hindex, hparse]
      obtain ⟨hfound, htables⟩ := get_of_lookUp hlookUp
      refine .inr (.inl ⟨hcontains, u, rfl, hfound, ?_⟩)
      rw [entries, htables]
      by_cases hcapacity : c.tables.capacity = 0
      · have hempty : c.tables.order = [] :=
          List.eq_nil_of_length_eq_zero (Nat.le_zero.1 (hcapacity ▸ c.consistent.fits))
        rw [if_pos hcapacity, capacity, hcapacity, hempty]
        rfl
      · have hevicted := (c.consistent.evict_push hindex (text_of_parse? hparse)).2
        rw [if_neg hcapacity, hevicted, List.map_take]
        rfl

theorem capacity_evict (t : Tables) : t.evict.capacity = t.capacity := by
  unfold Tables.evict
  split
  · split <;> rfl
  · rfl

@[simp] theorem capacity_get (c : Cache) (text : Bytes) :
    (c.get text).2.capacity = c.capacity := by
  obtain ⟨⟨found, t⟩, hlookUp⟩ := Option.isSome_iff_exists.1 (c.consistent.isSome_lookUp text)
  rw [capacity, (get_of_lookUp hlookUp).2]
  unfold Tables.lookUp at hlookUp
  split at hlookUp
  · obtain ⟨e, -, heq⟩ := Option.map_eq_some_iff.1 hlookUp
    cases heq
    rfl
  · split at hlookUp
    · cases hlookUp
      rfl
    · cases hlookUp
      split
      · rfl
      · exact capacity_evict _

/-- A cache answers as the reading of the text does. -/
theorem uri?_get (c : Cache) (text : Bytes) : (c.get text).1.uri? = Uri.parse? text := by
  rcases get_cases c text with ⟨u, -, htext, hfound, -⟩ | ⟨-, u, hparse, hfound, -⟩ |
    ⟨-, hparse, hfound, -⟩
  · rw [hfound, ← htext, parse?_text]
    rfl
  · rw [hfound, hparse]
    rfl
  · rw [hfound, hparse]
    rfl

end EndpointRules.Uri.Cache
