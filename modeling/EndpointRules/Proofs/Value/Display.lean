import EndpointRules.Proofs.Bytes.Decimal
import EndpointRules.Proofs.Value
import EndpointRules.Value.Text

/-!
# Reading values from their texts

The text of a value inside a collection can be read in one way only.  Its first byte tells the kind
of the value, and the value ends where its text says it ends: a string at the first quotation mark
without a backslash before it, a collection at the bracket that closes it, a number at the first
byte that is no digit.  Templates and URIs stand in a text without marks around them, so this holds
of values that have none inside.
-/

namespace EndpointRules

open Bytes

namespace Value

/-- No template and no URI is inside the value. -/
def Plain (v : Value) : Prop := ∀ u depth, Inside u depth v → u.kind ≠ .template ∧ u.kind ≠ .uri

/-- The kind of the values whose text begins with a byte. -/
def kindOfByte? (c : UInt8) : Option Kind :=
  if c == 'n'.toUInt8 then some .null
  else if c == quoteMark then some .string
  else if isDigit c || c == '-'.toUInt8 then some .integer
  else if c == 't'.toUInt8 || c == 'f'.toUInt8 then some .boolean
  else if c == '['.toUInt8 then some .list
  else if c == '\x7b'.toUInt8 then some .map
  else none

variable {a b v : Value} {items : List Value} {entries : List (Bytes × Value)} {s t : Bytes}

/-! ## Plain values -/

theorem Plain.kind_ne (h : v.Plain) : v.kind ≠ .template ∧ v.kind ≠ .uri := h v 0 (.self v)

theorem plain_list : (list items).Plain ↔ ∀ v ∈ items, v.Plain := by
  constructor
  · intro h v hv u depth hinside
    exact h u (depth + 1) (.item hv hinside)
  · intro h u depth hinside
    cases hinside with
    | self => exact ⟨nofun, nofun⟩
    | item hv hinside => exact h _ hv u _ hinside

theorem plain_map : (map entries).Plain ↔ ∀ e ∈ entries, e.2.Plain := by
  constructor
  · intro h e he u depth hinside
    exact h u (depth + 1) (.entry he hinside)
  · intro h u depth hinside
    cases hinside with
    | self => exact ⟨nofun, nofun⟩
    | entry he hinside => exact h _ he u _ hinside

/-- What is no collection is plain by its kind. -/
theorem plain_of_kind (hkind : v.kind ≠ .template ∧ v.kind ≠ .uri) (hlist : v.kind ≠ .list)
    (hmap : v.kind ≠ .map) : v.Plain := by
  intro u depth hinside
  cases hinside with
  | self => exact hkind
  | item => exact absurd rfl hlist
  | entry => exact absurd rfl hmap

/-! ## First bytes -/

theorem kindOfByte?_of_isDigit {c : UInt8} (h : isDigit c = true) :
    kindOfByte? c = some .integer := by
  have hne : ∀ d, isDigit d = false → (c == d) = false := by
    intro d hd
    rw [beq_eq_false_iff_ne]
    rintro rfl
    rw [h] at hd
    cases hd
  rw [kindOfByte?, hne _ (by decide), hne _ (by decide), h]
  rfl

/-- The first byte of a text tells the kind of the value. -/
theorem exists_displayInner_eq (h : v.Plain) :
    ∃ c rest, displayInner v = c :: rest ∧ kindOfByte? c = some v.kind := by
  cases v with
  | null => exact ⟨_, _, rfl, by decide⟩
  | string s => exact ⟨_, _, rfl, rfl⟩
  | boolean holds =>
    cases holds with
    | false => exact ⟨_, _, rfl, by decide⟩
    | true => exact ⟨_, _, rfl, by decide⟩
  | integer n =>
    cases n with
    | ofNat n =>
      obtain ⟨c, rest, heq⟩ := List.exists_cons_of_ne_nil (decimal_ne_nil n)
      exact ⟨c, rest, heq, kindOfByte?_of_isDigit (isDigit_of_mem_decimal (n := n) (by simp [heq]))⟩
    | negSucc n => exact ⟨_, _, rfl, rfl⟩
  | list items => cases items <;> exact ⟨_, _, rfl, rfl⟩
  | map entries => cases entries <;> exact ⟨_, _, rfl, rfl⟩
  | template parts => exact absurd rfl h.kind_ne.1
  | uri u => exact absurd rfl h.kind_ne.2

/-- A text that begins with a value begins with none of another kind. -/
theorem kind_eq_of_displayInner (ha : a.Plain) (hb : b.Plain)
    (h : displayInner a ++ s = displayInner b ++ t) : a.kind = b.kind := by
  obtain ⟨c, rest, hc, hkind⟩ := exists_displayInner_eq ha
  obtain ⟨d, rest', hd, hkind'⟩ := exists_displayInner_eq hb
  rw [hc, hd] at h
  obtain ⟨rfl, -⟩ := List.cons.inj h
  exact Option.some.inj (hkind.symm.trans hkind')

/-- No value begins with a byte that tells no kind. -/
theorem displayInner_append_ne {c : UInt8} (hc : kindOfByte? c = none) (ha : a.Plain) :
    displayInner a ++ s ≠ c :: t := by
  intro h
  obtain ⟨d, rest, hd, hkind⟩ := exists_displayInner_eq ha
  rw [hd] at h
  rw [(List.cons.inj h).1, hc] at hkind
  cases hkind

/-! ## Quoted texts -/

/-- The text up to the first quotation mark that has no backslash before it, each byte behind a
    backslash standing for itself, and what comes behind that mark.  `behind` says that a backslash
    has just been read. -/
def unquote? : (behind : Bool) → Bytes → Option (Bytes × Bytes)
  | _, [] => none
  | true, c :: rest => (unquote? false rest).map fun (s, t) => (c :: s, t)
  | false, c :: rest =>
    if c == quoteMark then some ([], rest)
    else if c == backslash then unquote? true rest
    else (unquote? false rest).map fun (s, t) => (c :: s, t)

theorem unquote?_quoted (s t : Bytes) : unquote? false ((quoted s ++ t).tail) = some (s, t) := by
  simp only [quoted, List.cons_append, List.tail_cons, List.append_assoc, List.nil_append]
  induction s with
  | nil => rfl
  | cons c s ih =>
    by_cases hmark : c == quoteMark || c == backslash
    · simp only [List.flatMap_cons, hmark, if_true, List.cons_append, List.nil_append]
      -- The backslash is no quotation mark, and the byte behind it is taken whatever it is.
      rw [unquote?, if_neg (by decide), if_pos (by decide), unquote?, ih]
      rfl
    · simp only [List.flatMap_cons, hmark, Bool.false_eq_true, if_false, List.cons_append,
        List.nil_append]
      rw [Bool.or_eq_true, not_or] at hmark
      rw [unquote?, if_neg hmark.1, if_neg hmark.2, ih]
      rfl

theorem quoted_append_inj {x y : Bytes} (h : quoted x ++ s = quoted y ++ t) : x = y ∧ s = t := by
  have hread := congrArg (fun text => unquote? false text.tail) h
  simp only [unquote?_quoted] at hread
  exact Prod.mk.inj (Option.some.inj hread)

/-! ## Collections -/

theorem noDigitFirst_displayItems (xs : List Value) (s : Bytes) :
    NoDigitFirst (displayItems xs ++ s) := by
  cases xs <;> exact noDigitFirst_cons rfl

theorem noDigitFirst_displayEntries (xs : List (Bytes × Value)) (s : Bytes) :
    NoDigitFirst (displayEntries xs ++ s) := by
  cases xs <;> exact noDigitFirst_cons rfl

/-- Behind the opening bracket a list reads as its items do, each of which has a comma before it. -/
theorem displayItems_of_displayInner {xs ys : List Value} (hx : (list xs).Plain)
    (hy : (list ys).Plain) (h : displayInner (list xs) ++ s = displayInner (list ys) ++ t) :
    displayItems xs ++ s = displayItems ys ++ t := by
  have hclose : ∀ {x : Value} {s t : Bytes}, x.Plain → displayInner x ++ s ≠ ofString "]" ++ t :=
    fun hx => displayInner_append_ne (by decide) hx
  cases xs with
  | nil =>
    cases ys with
    | nil => exact (List.cons.inj h).2
    | cons y ys =>
      simp only [displayInner, List.cons_append, List.append_assoc] at h
      exact absurd (List.cons.inj h).2.symm (hclose (plain_list.1 hy y List.mem_cons_self))
  | cons x xs =>
    cases ys with
    | nil =>
      simp only [displayInner, List.cons_append, List.append_assoc] at h
      exact absurd (List.cons.inj h).2 (hclose (plain_list.1 hx x List.mem_cons_self))
    | cons y ys =>
      simp only [displayInner, List.cons_append, List.append_assoc] at h
      simp only [displayItems, List.append_assoc, (List.cons.inj h).2]

/-- Behind the opening brace a map reads as its entries do, each of which has a comma before it. -/
theorem displayEntries_of_displayInner {xs ys : List (Bytes × Value)}
    (h : displayInner (map xs) ++ s = displayInner (map ys) ++ t) :
    displayEntries xs ++ s = displayEntries ys ++ t := by
  cases xs with
  | nil =>
    cases ys with
    | nil => exact (List.cons.inj h).2
    | cons e ys => exact absurd (List.cons.inj (List.cons.inj h).2).1 (by decide)
  | cons e xs =>
    obtain ⟨k, x⟩ := e
    cases ys with
    | nil => exact absurd (List.cons.inj (List.cons.inj h).2).1 (by decide)
    | cons e ys =>
      obtain ⟨l, y⟩ := e
      simp only [displayInner, List.cons_append, List.append_assoc] at h
      simp only [displayEntries, List.append_assoc, (List.cons.inj h).2]

mutual

/-- A value is told from a text that begins with it, unless it is a number and a digit stands behind
    it. -/
theorem displayInner_append_inj : (a b : Value) → (s t : Bytes) → a.Plain → b.Plain →
    NoDigitFirst s → NoDigitFirst t → displayInner a ++ s = displayInner b ++ t → a = b ∧ s = t
  | .null, b, s, t, ha, hb, _, _, h => by
    have hkind := kind_eq_of_displayInner ha hb h
    cases b with
    | null => exact ⟨rfl, List.append_cancel_left h⟩
    | _ => cases hkind
  | .string x, b, s, t, ha, hb, _, _, h => by
    have hkind := kind_eq_of_displayInner ha hb h
    cases b with
    | string y =>
      obtain ⟨rfl, hrest⟩ := quoted_append_inj h
      exact ⟨rfl, hrest⟩
    | _ => cases hkind
  | .integer m, b, s, t, ha, hb, hs, ht, h => by
    have hkind := kind_eq_of_displayInner ha hb h
    cases b with
    | integer n =>
      obtain ⟨rfl, hrest⟩ := ofInt_append_inj hs ht h
      exact ⟨rfl, hrest⟩
    | _ => cases hkind
  | .boolean x, b, s, t, ha, hb, _, _, h => by
    have hkind := kind_eq_of_displayInner ha hb h
    cases b with
    | boolean y =>
      obtain rfl : x = y := by
        cases x <;> cases y <;> first | rfl | exact absurd (List.cons.inj h).1 (by decide)
      exact ⟨rfl, List.append_cancel_left h⟩
    | _ => cases hkind
  | .list xs, b, s, t, ha, hb, _, _, h => by
    have hkind := kind_eq_of_displayInner ha hb h
    cases b with
    | list ys =>
      obtain ⟨rfl, hrest⟩ := displayItems_append_inj xs ys s t (plain_list.1 ha) (plain_list.1 hb)
        (displayItems_of_displayInner ha hb h)
      exact ⟨rfl, hrest⟩
    | _ => cases hkind
  | .map xs, b, s, t, ha, hb, _, _, h => by
    have hkind := kind_eq_of_displayInner ha hb h
    cases b with
    | map ys =>
      obtain ⟨rfl, hrest⟩ := displayEntries_append_inj xs ys s t (plain_map.1 ha)
        (plain_map.1 hb) (displayEntries_of_displayInner h)
      exact ⟨rfl, hrest⟩
    | _ => cases hkind
  | .template _, _, _, _, ha, _, _, _, _ => absurd rfl ha.kind_ne.1
  | .uri _, _, _, _, ha, _, _, _, _ => absurd rfl ha.kind_ne.2

theorem displayItems_append_inj : (xs ys : List Value) → (s t : Bytes) → (∀ v ∈ xs, v.Plain) →
    (∀ v ∈ ys, v.Plain) → displayItems xs ++ s = displayItems ys ++ t → xs = ys ∧ s = t
  | [], ys, s, t, _, _, h => by
    cases ys with
    | nil => exact ⟨rfl, List.append_cancel_left h⟩
    | cons y ys => exact absurd (List.cons.inj h).1 (by decide)
  | x :: xs, ys, s, t, hx, hy, h => by
    cases ys with
    | nil => exact absurd (List.cons.inj h).1 (by decide)
    | cons y ys =>
      rw [List.forall_mem_cons] at hx hy
      simp only [displayItems, List.append_assoc, List.append_cancel_left_eq] at h
      obtain ⟨rfl, hrest⟩ := displayInner_append_inj x y _ _ hx.1 hy.1
        (noDigitFirst_displayItems xs s) (noDigitFirst_displayItems ys t) h
      obtain ⟨rfl, hend⟩ := displayItems_append_inj xs ys s t hx.2 hy.2 hrest
      exact ⟨rfl, hend⟩

theorem displayEntries_append_inj : (xs ys : List (Bytes × Value)) → (s t : Bytes) →
    (∀ e ∈ xs, e.2.Plain) → (∀ e ∈ ys, e.2.Plain) →
    displayEntries xs ++ s = displayEntries ys ++ t → xs = ys ∧ s = t
  | [], ys, s, t, _, _, h => by
    cases ys with
    | nil => exact ⟨rfl, List.append_cancel_left h⟩
    | cons e ys => exact absurd (List.cons.inj h).1 (by decide)
  | (k, x) :: xs, ys, s, t, hx, hy, h => by
    cases ys with
    | nil => exact absurd (List.cons.inj h).1 (by decide)
    | cons e ys =>
      obtain ⟨l, y⟩ := e
      rw [List.forall_mem_cons] at hx hy
      simp only [displayEntries, List.append_assoc, List.append_cancel_left_eq] at h
      obtain ⟨rfl, hvalue⟩ := quoted_append_inj h
      obtain ⟨rfl, hrest⟩ := displayInner_append_inj x y _ _ hx.1 hy.1
        (noDigitFirst_displayEntries xs s) (noDigitFirst_displayEntries ys t)
        (List.append_cancel_left hvalue)
      obtain ⟨rfl, hend⟩ := displayEntries_append_inj xs ys s t hx.2 hy.2 hrest
      exact ⟨rfl, hend⟩

end

/-- The texts of two lists or maps without templates and URIs inside are the same exactly if the
    values are. -/
theorem display_eq_iff (ha : a.kind = .list ∨ a.kind = .map) (hb : b.kind = .list ∨ b.kind = .map)
    (hpa : a.Plain) (hpb : b.Plain) : a.display = b.display ↔ a.same b = true := by
  have hinner : ∀ {v : Value}, v.kind = .list ∨ v.kind = .map → v.display = displayInner v := by
    intro v hv
    cases v with
    | string s => rcases hv with hv | hv <;> cases hv
    | _ => rfl
  rw [same_iff, hinner ha, hinner hb]
  constructor
  · intro h
    exact (displayInner_append_inj a b [] [] hpa hpb noDigitFirst_nil noDigitFirst_nil
      (by rw [h])).1
  · rintro rfl
    rfl

/-- A map with two entries, in a list. -/
def twoEntries : Value := .list [.map [("a", .string "1"), ("b", .integer 2)]]

/-- A map with one entry, whose text reads like the two entries but for the quotation marks. -/
def oneEntry : Value := .list [.map [("a", .string "1\", \"b\": 2")]]

theorem display_eq_iff_entries :
    twoEntries.kind = .list ∧ oneEntry.kind = .list ∧ twoEntries.Plain ∧ oneEntry.Plain ∧
      twoEntries.display ≠ oneEntry.display := by
  have hstring : ∀ s, (string s).Plain := fun s => plain_of_kind ⟨nofun, nofun⟩ nofun nofun
  have hinteger : ∀ n, (integer n).Plain := fun n => plain_of_kind ⟨nofun, nofun⟩ nofun nofun
  have htwo : twoEntries.Plain := by simp [twoEntries, plain_list, plain_map, hstring, hinteger]
  have hone : oneEntry.Plain := by simp [oneEntry, plain_list, plain_map, hstring]
  refine ⟨rfl, rfl, htwo, hone, ?_⟩
  intro h
  have hsame := (display_eq_iff (.inl rfl) (.inl rfl) htwo hone).1 h
  exact absurd hsame (by decide)

end Value

end EndpointRules
