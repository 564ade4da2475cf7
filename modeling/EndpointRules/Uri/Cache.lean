import EndpointRules.Dict
import EndpointRules.Uri

/-!
# Cache of URIs

The cache keeps the URIs of the texts looked up last, the latest first, and never more of them than
its capacity.  A text that is no URI is not kept.

The entries stand in a list, and an index leads from their texts to them.  The index refers to an
entry by a number that the entry keeps wherever it moves.  `Tables` are a list and an index of which
nothing is known; a `Cache` is tables that belong together, which every lookup leaves so.
-/

namespace EndpointRules.Uri

namespace Cache

/-- What looking up a text finds: an entry of the cache, a URI that was not cached, or no URI. -/
inductive Found
  | cached (uri : Uri)
  | fresh (uri : Uri)
  | invalid

/-- The URI found, if the text is one. -/
def Found.uri? : Found → Option Uri
  | .cached u => some u
  | .fresh u => some u
  | .invalid => none

/-- A text and its URI. -/
structure Entry where
  /-- What the index refers to the entry by. -/
  number : Nat
  text : Bytes
  uri : Uri

/-- The entries of a cache, the latest first, and the index of their texts. -/
structure Tables where
  capacity : Nat
  order : List Entry := []
  index : Dict Nat := []
  /-- The number of the next entry. -/
  next : Nat := 0

namespace Tables

/-- The entry with a number. -/
def entry? (t : Tables) (number : Nat) : Option Entry := t.order.find? (·.number == number)

/-- Moves an entry to the front. -/
def promote (t : Tables) (e : Entry) : Tables :=
  { t with order := e :: t.order.filter (·.number != e.number) }

/-- Puts a new entry to the front. -/
def push (t : Tables) (text : Bytes) (uri : Uri) : Tables :=
  { t with
    order := { number := t.next, text, uri } :: t.order
    index := t.index.insert text t.next
    next := t.next + 1 }

/-- Removes the last entry if there are too many. -/
def evict (t : Tables) : Tables :=
  if t.capacity < t.order.length then
    match t.order.getLast? with
    | some e => { t with order := t.order.dropLast, index := t.index.erase e.text }
    | none => t
  else t

/-- Looks up a text.  An entry that the index refers to becomes the latest one; without one the
    text is read, and its URI becomes the latest entry if anything is kept at all.  There is no
    outcome if the index refers to an entry that is not in the list. -/
def lookUp (t : Tables) (text : Bytes) : Option (Found × Tables) :=
  match t.index.get? text with
  | some number => (t.entry? number).map fun e => (.cached e.uri, t.promote e)
  | none =>
    match Uri.parse? text with
    | none => some (.invalid, t)
    | some u => some (.fresh u, if t.capacity = 0 then t else (t.push text u).evict)

/-- The list and the index belong together, and there are not too many entries. -/
structure Consistent (t : Tables) : Prop where
  /-- The index leads from the text of each entry to the entry, and nowhere else. -/
  indexed : ∀ text number, t.index.get? text = some number ↔
    ∃ e ∈ t.order, e.text = text ∧ e.number = number
  distinct : t.order.Pairwise fun e e' => e.number ≠ e'.number
  numbered : ∀ e ∈ t.order, e.number < t.next
  spelled : ∀ e ∈ t.order, e.uri.text = e.text
  fits : t.order.length ≤ t.capacity

variable {t : Tables} {e e' : Entry} {text : Bytes} {u : Uri}

theorem Consistent.empty (capacity : Nat) : Consistent { capacity } where
  indexed := by simp [Dict.get?]
  distinct := .nil
  numbered := nofun
  spelled := nofun
  fits := Nat.zero_le capacity

namespace Consistent

theorem eq_of_number_eq (h : t.Consistent) (he : e ∈ t.order) (he' : e' ∈ t.order)
    (hnumber : e.number = e'.number) : e = e' := by
  have hdistinct := h.distinct
  generalize t.order = order at he he' hdistinct
  induction hdistinct with
  | nil => cases he
  | cons hfirst _ ih =>
    rcases List.mem_cons.1 he with rfl | hrest
    · rcases List.mem_cons.1 he' with rfl | hrest'
      · rfl
      · exact absurd hnumber (hfirst e' hrest')
    · rcases List.mem_cons.1 he' with rfl | hrest'
      · exact absurd hnumber.symm (hfirst e hrest)
      · exact ih hrest hrest'

/-- No two entries have one text. -/
theorem eq_of_text_eq (h : t.Consistent) (he : e ∈ t.order) (he' : e' ∈ t.order)
    (htext : e.text = e'.text) : e = e' := by
  have hnumber := (h.indexed e'.text e.number).2 ⟨e, he, htext, rfl⟩
  have hnumber' := (h.indexed e'.text e'.number).2 ⟨e', he', rfl, rfl⟩
  exact h.eq_of_number_eq he he' (Option.some.inj (hnumber.symm.trans hnumber'))

theorem entry?_eq (h : t.Consistent) (he : e ∈ t.order) : t.entry? e.number = some e := by
  cases hfind : t.entry? e.number with
  | none =>
    have hnot := List.find?_eq_none.1 hfind e he
    simp at hnot
  | some e' =>
    have hnumber : e'.number = e.number := by simpa using List.find?_some hfind
    rw [h.eq_of_number_eq (List.mem_of_find?_eq_some hfind) he hnumber]

/-- A text that the index knows is that of an entry. -/
theorem exists_entry (h : t.Consistent) {number : Nat} (hindex : t.index.get? text = some number) :
    ∃ e ∈ t.order, e.text = text ∧ t.entry? number = some e := by
  obtain ⟨e, he, htext, rfl⟩ := (h.indexed text number).1 hindex
  exact ⟨e, he, htext, h.entry?_eq he⟩

/-- A text that the index does not know is that of no entry. -/
theorem text_ne (h : t.Consistent) (hindex : t.index.get? text = none) (he : e ∈ t.order) :
    e.text ≠ text := by
  rintro rfl
  have hnumber := (h.indexed e.text e.number).2 ⟨e, he, rfl, rfl⟩
  rw [hindex] at hnumber
  cases hnumber

/-! ## Operations -/

theorem promote (h : t.Consistent) (he : e ∈ t.order) : (t.promote e).Consistent := by
  have hmem : ∀ {e'}, e' ∈ (t.promote e).order ↔ e' ∈ t.order := by
    intro e'
    simp only [Tables.promote, List.mem_cons, List.mem_filter, bne_iff_ne]
    constructor
    · rintro (rfl | ⟨he', -⟩)
      · exact he
      · exact he'
    · intro he'
      by_cases hnumber : e'.number = e.number
      · exact .inl (h.eq_of_number_eq he' he hnumber)
      · exact .inr ⟨he', hnumber⟩
  refine ⟨?_, ?_, ?_, ?_, ?_⟩
  · intro text number
    simp only [hmem]
    exact h.indexed text number
  · refine .cons ?_ (h.distinct.filter _)
    intro e' he'
    exact Ne.symm (by simpa using (List.mem_filter.1 he').2)
  · exact fun e' he' => h.numbered e' (hmem.1 he')
  · exact fun e' he' => h.spelled e' (hmem.1 he')
  · have hremoved : (t.order.filter (·.number != e.number)).length < t.order.length :=
      List.length_filter_lt_length_iff_exists.2 ⟨e, he, by simp⟩
    exact Nat.le_trans hremoved h.fits

/-- A new entry leaves everything in order, but perhaps one entry too many. -/
theorem push (h : t.Consistent) (hindex : t.index.get? text = none) (htext : u.text = text) :
    ({ t.push text u with capacity := t.capacity + 1 } : Tables).Consistent where
  indexed := by
    intro text' number
    simp only [Tables.push, Dict.get?_insert, List.mem_cons]
    by_cases hsame : text = text'
    · subst hsame
      rw [if_pos rfl]
      constructor
      · rintro ⟨⟩
        exact ⟨_, .inl rfl, rfl, rfl⟩
      · rintro ⟨e, rfl | he, hetext, rfl⟩
        · rfl
        · exact absurd hetext (h.text_ne hindex he)
    · rw [if_neg hsame, h.indexed]
      constructor
      · rintro ⟨e, he, hetext, hnumber⟩
        exact ⟨e, .inr he, hetext, hnumber⟩
      · rintro ⟨e, rfl | he, hetext, hnumber⟩
        · exact absurd hetext hsame
        · exact ⟨e, he, hetext, hnumber⟩
  distinct := .cons (fun e he => Nat.ne_of_gt (h.numbered e he)) h.distinct
  numbered := by
    intro e he
    rcases List.mem_cons.1 he with rfl | he
    · exact Nat.lt_succ_self _
    · exact Nat.lt_succ_of_lt (h.numbered e he)
  spelled := by
    intro e he
    rcases List.mem_cons.1 he with rfl | he
    · exact htext
    · exact h.spelled e he
  fits := Nat.succ_le_succ h.fits

/-- Without its last entry a list is still in order if the index forgets that entry. -/
theorem dropLast (h : t.Consistent) {order : List Entry} (horder : t.order = order ++ [e])
    {capacity : Nat} (hfits : order.length ≤ capacity) :
    ({ t with capacity, order, index := t.index.erase e.text } : Tables).Consistent := by
  have hkept : ∀ {e'}, e' ∈ order → e' ∈ t.order := by
    intro e' he'
    rw [horder]
    exact List.mem_append_left _ he'
  have hlast : e ∈ t.order := by
    rw [horder]
    exact List.mem_append_right _ List.mem_cons_self
  have hdistinct := h.distinct
  rw [horder, List.pairwise_append] at hdistinct
  refine ⟨?_, hdistinct.1, fun e' he' => h.numbered e' (hkept he'),
    fun e' he' => h.spelled e' (hkept he'), hfits⟩
  intro text number
  simp only [Dict.get?_erase]
  by_cases hsame : e.text = text
  · rw [if_pos hsame]
    refine ⟨nofun, ?_⟩
    rintro ⟨e', he', htext, -⟩
    obtain rfl := h.eq_of_text_eq (hkept he') hlast (htext.trans hsame.symm)
    exact absurd rfl (hdistinct.2.2 e' he' e' List.mem_cons_self)
  · rw [if_neg hsame, h.indexed, horder]
    constructor
    · rintro ⟨e', he', htext, hnumber⟩
      rcases List.mem_append.1 he' with he' | he'
      · exact ⟨e', he', htext, hnumber⟩
      · rw [List.mem_singleton.1 he'] at htext
        exact absurd htext hsame
    · rintro ⟨e', he', htext, hnumber⟩
      exact ⟨e', List.mem_append_left _ he', htext, hnumber⟩

/-- A new entry and the removal of what is too much leave the latest entries. -/
theorem evict_push (h : t.Consistent) (hindex : t.index.get? text = none)
    (htext : u.text = text) :
    (t.push text u).evict.Consistent ∧
      (t.push text u).evict.order = (t.push text u).order.take t.capacity := by
  have hpushed := h.push hindex htext
  have hlength : (t.push text u).order.length = t.order.length + 1 := rfl
  have hcapacity' : (t.push text u).capacity = t.capacity := rfl
  have hfits := h.fits
  unfold evict
  rw [hlength, hcapacity']
  by_cases hmany : t.capacity < t.order.length + 1
  · rcases List.eq_nil_or_concat (t.push text u).order with hnil | ⟨order, e, horder⟩
    · cases hnil
    · rw [List.concat_eq_append] at horder
      have hrest : order.length = t.capacity := by
        rw [horder, List.length_append, List.length_singleton] at hlength
        omega
      have hcut := hpushed.dropLast horder (Nat.le_of_eq hrest)
      rw [if_pos hmany, horder, List.getLast?_concat]
      dsimp only
      rw [List.dropLast_concat]
      exact ⟨hcut, (List.take_left' hrest).symm⟩
  · rw [if_neg hmany]
    refine ⟨⟨hpushed.indexed, hpushed.distinct, hpushed.numbered, hpushed.spelled, ?_⟩, ?_⟩
    · exact Nat.le_of_not_lt hmany
    · exact (List.take_of_length_le (by omega)).symm

/-- A lookup has an outcome. -/
theorem isSome_lookUp (h : t.Consistent) (text : Bytes) : (t.lookUp text).isSome = true := by
  unfold lookUp
  cases hindex : t.index.get? text with
  | none => cases hparse : Uri.parse? text <;> rfl
  | some number =>
    obtain ⟨e, -, -, hentry⟩ := h.exists_entry hindex
    simp [hentry]

/-- A lookup leaves tables that belong together. -/
theorem of_lookUp (h : t.Consistent) {found : Found} {t' : Tables}
    (hlookUp : t.lookUp text = some (found, t')) : t'.Consistent := by
  unfold lookUp at hlookUp
  cases hindex : t.index.get? text with
  | some number =>
    obtain ⟨e, he, -, hentry⟩ := h.exists_entry hindex
    rw [hindex] at hlookUp
    dsimp only at hlookUp
    rw [hentry] at hlookUp
    cases hlookUp
    exact h.promote he
  | none =>
    rw [hindex] at hlookUp
    dsimp only at hlookUp
    cases hparse : Uri.parse? text with
    | none =>
      rw [hparse] at hlookUp
      cases hlookUp
      exact h
    | some u =>
      rw [hparse] at hlookUp
      cases hlookUp
      by_cases hcapacity : t.capacity = 0
      · rw [if_pos hcapacity]
        exact h
      · rw [if_neg hcapacity]
        exact (h.evict_push hindex (text_of_parse? hparse)).1

end Consistent

end Tables

end Cache

/-- The URIs looked up last. -/
structure Cache where
  tables : Cache.Tables
  consistent : tables.Consistent

namespace Cache

/-- A cache without entries. -/
def ofCapacity (capacity : Nat) : Cache := { tables := { capacity }, consistent := .empty capacity }

/-- The number of entries that the cache has room for. -/
def capacity (c : Cache) : Nat := c.tables.capacity

/-- The URIs of the entries, the latest first. -/
def entries (c : Cache) : List Uri := c.tables.order.map (·.uri)

/-- The number of entries. -/
def size (c : Cache) : Nat := c.tables.order.length

/-- Whether the URI of a text is in the cache. -/
def contains (c : Cache) (text : Bytes) : Bool := (c.tables.index.get? text).isSome

/-- Looks up a text.  Its URI becomes the latest entry, and if the cache is too large then the
    oldest entry leaves it. -/
def get (c : Cache) (text : Bytes) : Found × Cache :=
  match h : c.tables.lookUp text, c.consistent.isSome_lookUp text with
  | some (found, tables), _ => (found, { tables, consistent := c.consistent.of_lookUp h })

end Cache

end EndpointRules.Uri
