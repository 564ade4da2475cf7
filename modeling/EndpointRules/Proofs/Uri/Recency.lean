import Mathlib.Data.List.Induction
import EndpointRules.Proofs.Uri.Cache

/-!
# The cache of URIs keeps the texts got last

After any lookups a cache holds the texts that were got last and are URIs, each once and the latest
first, as many as its capacity allows.  A URI that is found in the cache is the one that an earlier
lookup of the text has put there, and it has been there ever since.  The index never leads to an
entry that has left the list.
-/

namespace EndpointRules

/-! ## Lists without repetition -/

section

variable {α : Type} [BEq α] [LawfulBEq α]

theorem nodup_eraseDups (xs : List α) : xs.eraseDups.Nodup := by
  cases xs with
  | nil => exact List.nodup_nil
  | cons x xs =>
    rw [List.eraseDups_cons, List.nodup_cons]
    refine ⟨?_, nodup_eraseDups _⟩
    rw [List.mem_eraseDups]
    simp
termination_by xs.length
decreasing_by exact Nat.lt_succ_of_le (List.length_filter_le _ _)

theorem eraseDups_filter (p : α → Bool) (xs : List α) :
    (xs.filter p).eraseDups = xs.eraseDups.filter p := by
  cases xs with
  | nil => rfl
  | cons x xs =>
    have hrest := eraseDups_filter p (xs.filter fun y => !y == x)
    rw [List.eraseDups_cons]
    by_cases hx : p x = true
    · rw [List.filter_cons_of_pos hx, List.filter_cons_of_pos hx, List.eraseDups_cons, ← hrest,
        List.filter_filter, List.filter_filter]
      simp only [Bool.and_comm]
    · have hpassed : (xs.filter fun y => !y == x).filter p = xs.filter p := by
        rw [List.filter_filter]
        refine List.filter_congr fun y _ => ?_
        by_cases hy : y = x
        · simp [hy, hx]
        · simp [hy]
      rw [List.filter_cons_of_neg hx, List.filter_cons_of_neg hx, ← hrest, hpassed]
termination_by xs.length
decreasing_by exact Nat.lt_succ_of_le (List.length_filter_le _ _)

/-- Removing one of the first `n` items from a list without repetition moves one item up. -/
theorem filter_take_of_mem {xs : List α} (hnodup : xs.Nodup) {x : α} {n : Nat}
    (h : x ∈ xs.take n) : (xs.take n).filter (· != x) = (xs.filter (· != x)).take (n - 1) := by
  induction xs generalizing n with
  | nil => simp at h
  | cons y xs ih =>
    cases n with
    | zero => simp at h
    | succ n =>
      rw [List.take_succ_cons] at h ⊢
      obtain ⟨hy, hrest⟩ := List.nodup_cons.1 hnodup
      by_cases hyx : y = x
      · subst hyx
        have hkept : ∀ z ∈ xs, (z != y) = true := by
          intro z hz
          simp only [bne_iff_ne]
          intro hzy
          exact hy (hzy ▸ hz)
        rw [List.filter_cons_of_neg (by simp), List.filter_cons_of_neg (by simp),
          List.filter_eq_self.2 hkept,
          List.filter_eq_self.2 fun z hz => hkept z (List.mem_of_mem_take hz)]
        rfl
      · have hmem : x ∈ xs.take n := by
          rcases List.mem_cons.1 h with h | h
          · exact absurd h.symm hyx
          · exact h
        have hn : n ≠ 0 := by
          rintro rfl
          simp at hmem
        obtain ⟨k, rfl⟩ := Nat.exists_eq_succ_of_ne_zero hn
        rw [List.filter_cons_of_pos (by simpa using hyx),
          List.filter_cons_of_pos (by simpa using hyx), ih hrest hmem]
        rfl

/-- Removing an item from behind the first `n` leaves these as they are. -/
theorem take_filter_of_not_mem {xs : List α} {x : α} {n : Nat} (h : x ∉ xs.take n) :
    (xs.filter (· != x)).take n = xs.take n := by
  have hkept : (xs.take n).filter (· != x) = xs.take n := by
    refine List.filter_eq_self.2 fun y hy => ?_
    simp only [bne_iff_ne]
    intro hyx
    exact h (hyx ▸ hy)
  conv_lhs => rw [← List.take_append_drop n xs, List.filter_append, hkept]
  by_cases hn : n ≤ xs.length
  · exact List.take_left' (List.length_take_of_le hn)
  · rw [List.drop_of_length_le (by omega), List.filter_nil, List.append_nil, List.take_take,
      Nat.min_self]

end

namespace Uri.Cache

/-! ## Lookups -/

/-- A question to a cache. -/
inductive Lookup
  | get (text : Bytes)
  | contains (text : Bytes)

/-- The cache after a lookup. -/
def Lookup.apply (c : Cache) : Lookup → Cache
  | .get text => (c.get text).2
  | .contains _ => c

/-- The text that a lookup uses: one that it gets, provided that it is a URI. -/
def Lookup.used? : Lookup → Option Bytes
  | .get text => if (Uri.parse? text).isSome then some text else none
  | .contains _ => none

/-- A cache of some capacity after lookups. -/
def after (capacity : Nat) (lookups : List Lookup) : Cache :=
  lookups.foldl Lookup.apply (.ofCapacity capacity)

/-- The tables after a lookup, if it has an outcome. -/
def Lookup.applyTables? (t : Tables) : Lookup → Option Tables
  | .get text => (t.lookUp text).map (·.2)
  | .contains _ => some t

/-- Empty tables after lookups, if all of them have outcomes. -/
def Tables.after? (capacity : Nat) (lookups : List Lookup) : Option Tables :=
  lookups.foldlM Lookup.applyTables? { capacity }

/-- The texts that lookups use, the latest first, each at its latest use only. -/
def recent (lookups : List Lookup) : List Bytes :=
  (lookups.filterMap Lookup.used?).reverse.eraseDups

variable {c : Cache} {text : Bytes} {u : Uri} {capacity : Nat} {lookups : List Lookup} {l : Lookup}

@[simp] theorem after_append_singleton (capacity : Nat) (lookups : List Lookup) (l : Lookup) :
    after capacity (lookups ++ [l]) = l.apply (after capacity lookups) := by
  simp [after]

/-! ## One lookup -/

@[simp] theorem capacity_after (capacity : Nat) (lookups : List Lookup) :
    (after capacity lookups).capacity = capacity := by
  induction lookups using List.reverseRecOn with
  | nil => rfl
  | append_singleton lookups l ih =>
    rw [after_append_singleton]
    cases l with
    | get text => rw [Lookup.apply, capacity_get, ih]
    | contains text => exact ih

/-- A text is found in the cache exactly if the cache contains it. -/
theorem exists_cached_iff : (∃ u, (c.get text).1 = .cached u) ↔ c.contains text = true := by
  rcases get_cases c text with ⟨u, hu, htext, hfound, _⟩ | ⟨hcontains, u, _, hfound, _⟩ |
    ⟨hcontains, _, hfound, _⟩
  · have hcontains : c.contains text = true := contains_iff.2 (List.mem_map.2 ⟨u, hu, htext⟩)
    rw [hfound, hcontains]
    exact ⟨fun _ => rfl, fun _ => ⟨u, rfl⟩⟩
  · rw [hfound, hcontains]
    exact ⟨nofun, nofun⟩
  · rw [hfound, hcontains]
    exact ⟨nofun, nofun⟩

/-- A URI in the cache after a lookup was there before, or the lookup has just put it there. -/
theorem mem_entries_apply (h : u ∈ (l.apply c).entries) :
    u ∈ c.entries ∨ l = .get u.text ∧ (c.get u.text).1 = .fresh u := by
  cases l with
  | contains text => exact .inl h
  | get text =>
    rw [Lookup.apply] at h
    rcases get_cases c text with ⟨v, hv, _, _, hget⟩ | ⟨_, v, hparse, hfound, hget⟩ |
      ⟨_, _, _, hget⟩
    · rw [hget] at h
      rcases List.mem_cons.1 h with h | h
      · exact .inl (h ▸ hv)
      · exact .inl (List.mem_filter.1 h).1
    · rw [hget] at h
      rcases List.mem_cons.1 (List.mem_of_mem_take h) with h | h
      · subst h
        rw [text_of_parse? hparse]
        exact .inr ⟨rfl, hfound⟩
      · exact .inl h
    · rw [hget] at h
      exact .inl h

/-! ## Texts used last -/

theorem recent_append_unused (h : l.used? = none) : recent (lookups ++ [l]) = recent lookups := by
  simp [recent, h]

theorem recent_append_used (h : l.used? = some text) :
    recent (lookups ++ [l]) = text :: (recent lookups).filter (· != text) := by
  have hused : (lookups ++ [l]).filterMap Lookup.used? =
      lookups.filterMap Lookup.used? ++ [text] := by
    simp [h]
  rw [recent, hused, List.reverse_append, List.reverse_singleton, List.singleton_append,
    List.eraseDups_cons, eraseDups_filter]
  rfl

theorem nodup_recent (lookups : List Lookup) : (recent lookups).Nodup := nodup_eraseDups _

/-- If a cache holds the first of some texts, then getting a URI makes it hold the first of these
    texts with that of the URI moved or put before all others. -/
theorem map_text_get {texts : List Bytes} (hnodup : texts.Nodup)
    (h : c.entries.map (·.text) = texts.take c.capacity) (hparse : Uri.parse? text = some u) :
    (c.get text).2.entries.map (·.text) =
      (text :: texts.filter (· != text)).take c.capacity := by
  rcases get_cases c text with ⟨v, hv, htext, _, hget⟩ | ⟨hcontains, v, hv, _, hget⟩ | ⟨_, hnone, _⟩
  · have hmem : text ∈ texts.take c.capacity := by
      rw [← h]
      exact List.mem_map.2 ⟨v, hv, htext⟩
    have hcapacity : c.capacity ≠ 0 := by
      intro hzero
      simp [hzero] at hmem
    have hfilter : (c.entries.filter (·.text != text)).map (·.text) =
        (c.entries.map (·.text)).filter (· != text) := by
      rw [List.filter_map]
      rfl
    rw [hget, List.map_cons, htext, hfilter, h, filter_take_of_mem hnodup hmem]
    obtain ⟨n, hn⟩ := Nat.exists_eq_succ_of_ne_zero hcapacity
    rw [hn]
    rfl
  · have hmem : text ∉ texts.take c.capacity := by
      rw [← h, ← contains_iff, hcontains]
      exact Bool.false_ne_true
    rw [hget, List.map_take, List.map_cons, text_of_parse? hv, h]
    cases hn : c.capacity with
    | zero => rfl
    | succ n =>
      rw [hn] at hmem
      have hmem' : text ∉ texts.take n := fun hmem' =>
        hmem (List.take_subset_take_left _ (Nat.le_succ n) hmem')
      rw [List.take_succ_cons, List.take_succ_cons, List.take_take, Nat.min_eq_left (Nat.le_succ n),
        take_filter_of_not_mem hmem']
  · rw [hnone] at hparse
    cases hparse

/-- The entries are the URIs used last. -/
theorem map_text_entries_after (capacity : Nat) (lookups : List Lookup) :
    (after capacity lookups).entries.map (·.text) = (recent lookups).take capacity := by
  induction lookups using List.reverseRecOn with
  | nil => exact List.take_nil.symm
  | append_singleton lookups l ih =>
    rw [after_append_singleton]
    cases l with
    | contains text =>
      rw [recent_append_unused rfl]
      exact ih
    | get text =>
      have hcapacity := capacity_after capacity lookups
      cases hparse : Uri.parse? text with
      | some u =>
        have hused : (Lookup.get text).used? = some text := by simp [Lookup.used?, hparse]
        have hget := map_text_get (nodup_recent lookups) (by rw [hcapacity]; exact ih) hparse
        rw [recent_append_used hused, Lookup.apply, hget, hcapacity]
      | none =>
        have hused : (Lookup.get text).used? = none := by simp [Lookup.used?, hparse]
        rw [recent_append_unused hused, Lookup.apply]
        rcases get_cases (after capacity lookups) text with
          ⟨v, _, htext, _⟩ | ⟨_, v, hv, _⟩ | ⟨_, _, _, hget⟩
        · rw [← htext, parse?_text] at hparse
          cases hparse
        · rw [hv] at hparse
          cases hparse
        · rw [hget]
          exact ih

/-! ## Where cached URIs come from -/

/-- A URI in the cache was put there by a lookup that found its text not cached, and its text has
    been cached since. -/
theorem exists_fresh_of_mem (h : u ∈ (after capacity lookups).entries) :
    ∃ before between, lookups = before ++ .get u.text :: between ∧
      ((after capacity before).get u.text).1 = .fresh u ∧
      ∀ passed, passed <+: between →
        u ∈ (after capacity (before ++ .get u.text :: passed)).entries := by
  induction lookups using List.reverseRecOn with
  | nil => cases h
  | append_singleton lookups l ih =>
    have hnow := h
    rw [after_append_singleton] at h
    rcases mem_entries_apply h with hbefore | ⟨hl, hfresh⟩
    · obtain ⟨before, between, heq, hfresh, hsince⟩ := ih hbefore
      refine ⟨before, between ++ [l], by simp [heq], hfresh, ?_⟩
      intro passed hpassed
      rcases List.prefix_concat_iff.1 hpassed with hall | hpassed
      · have hlookups : before ++ Lookup.get u.text :: passed = lookups ++ [l] := by
          simp [heq, hall]
        rw [hlookups]
        exact hnow
      · exact hsince passed hpassed
    · refine ⟨lookups, [], by rw [hl], hfresh, ?_⟩
      intro passed hpassed
      rw [List.prefix_nil.1 hpassed, ← hl]
      exact hnow

/-- On tables of which nothing is known the lookups lead to the same tables. -/
theorem after?_eq_some (capacity : Nat) (lookups : List Lookup) :
    Tables.after? capacity lookups = some (after capacity lookups).tables := by
  induction lookups using List.reverseRecOn with
  | nil => rfl
  | append_singleton lookups l ih =>
    rw [Tables.after?, List.foldlM_append, ← Tables.after?, ih, after_append_singleton]
    cases l with
    | contains text => rfl
    | get text =>
      obtain ⟨⟨found, t⟩, hlookUp⟩ := Option.isSome_iff_exists.1
        ((after capacity lookups).consistent.isSome_lookUp text)
      simp [Lookup.applyTables?, Lookup.apply, hlookUp, (get_of_lookUp hlookUp).2]

/-- After any lookups the list and the index of the cache belong together, though no lookup checks
    that they do.  The cache holds the texts of the URIs that were got last, as many as its capacity
    allows, and contains these and no others.  Getting a text gives the URI that it reads as, and
    gives it from the cache exactly if the cache contains it; then it is the URI that an earlier
    lookup of the text has made, which has stayed in the cache since. -/
theorem get_and_contains_after (capacity : Nat) (lookups : List Lookup) (text : Bytes) :
    let c := after capacity lookups
    (Tables.after? capacity lookups = some c.tables ∧ c.tables.Consistent) ∧
    c.entries.map (·.text) = (recent lookups).take capacity ∧
      c.size = ((recent lookups).take capacity).length ∧ c.size ≤ capacity ∧
      (c.contains text = true ↔ text ∈ (recent lookups).take capacity) ∧
      (c.get text).1.uri? = Uri.parse? text ∧
      ((∃ u, (c.get text).1 = .cached u) ↔ c.contains text = true) ∧
      ∀ u, (c.get text).1 = .cached u →
        ∃ before between, lookups = before ++ .get text :: between ∧
          ((after capacity before).get text).1 = .fresh u ∧
          ∀ passed, passed <+: between →
            u ∈ (after capacity (before ++ .get text :: passed)).entries := by
  intro c
  have hentries : c.entries.map (·.text) = (recent lookups).take capacity :=
    map_text_entries_after capacity lookups
  have hsize : c.size = ((recent lookups).take capacity).length := by
    rw [← hentries, List.length_map, length_entries]
  refine ⟨⟨after?_eq_some capacity lookups, c.consistent⟩, hentries, hsize, ?_, ?_,
    c.uri?_get text, exists_cached_iff, ?_⟩
  · rw [hsize]
    exact List.length_take_le _ _
  · rw [contains_iff, hentries]
  · intro u hcached
    rcases get_cases c text with ⟨v, hv, htext, hfound, _⟩ | ⟨_, v, _, hfound, _⟩ |
      ⟨_, _, hfound, _⟩
    · rw [hfound] at hcached
      cases hcached
      subst htext
      exact exists_fresh_of_mem hv
    · rw [hfound] at hcached
      cases hcached
    · rw [hfound] at hcached
      cases hcached

end Uri.Cache

end EndpointRules
