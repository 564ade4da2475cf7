import EndpointRules.Proofs.Uri.Grammar
import EndpointRules.Text

/-!
# Percent-encoded text in URIs

Percent-encoding can be undone, and what it writes is inert in a URI: behind the path of a URI it
makes the path longer and changes no other component, whatever the bytes are that it encodes.
-/

namespace EndpointRules

open Bytes

namespace Text

/-! ## Digits and escapes -/

/-- The number that a hexadecimal digit stands for. -/
def hexValue? (c : UInt8) : Option UInt8 :=
  if isDigit c then some (c - 0x30)
  else if 0x41 ≤ c && c ≤ 0x46 then some (c - 0x37)
  else if 0x61 ≤ c && c ≤ 0x66 then some (c - 0x57)
  else none

/-- The bytes that a percent-encoded text stands for.  `%` and two hexadecimal digits stand for the
    byte of that number, and every other byte for itself; a `%` without two digits behind it stands
    for nothing. -/
def percentDecode? : Bytes → Option Bytes
  | [] => some []
  | c :: rest =>
    if c = '%'.toUInt8 then
      match rest with
      | high :: low :: rest => do
        let byte := (← hexValue? high) * 16 + (← hexValue? low)
        (percentDecode? rest).map (byte :: ·)
      | _ => none
    else (percentDecode? rest).map (c :: ·)

variable {c n : UInt8}

theorem hexValue?_upperHexDigit (h : n < 16) : hexValue? (upperHexDigit n) = some n := by
  have hdigits : ∀ k : Fin 16, hexValue? (upperHexDigit (.ofNat k)) = some (.ofNat k) := by decide
  simpa using hdigits ⟨n.toNat, h⟩

theorem isHexDigit_upperHexDigit (h : n < 16) : isHexDigit (upperHexDigit n) = true := by
  have hdigits : ∀ k : Fin 16, isHexDigit (upperHexDigit (.ofNat k)) = true := by decide
  simpa using hdigits ⟨n.toNat, h⟩

theorem div_lt_sixteen (c : UInt8) : c / 16 < 16 := by grind

theorem mod_lt_sixteen (c : UInt8) : c % 16 < 16 := UInt8.mod_lt c (by decide)

/-! ## What encoded text is made of -/

theorem percentEncode_cons_of_isUnreserved (h : isUnreserved c = true) (s : Bytes) :
    percentEncode (c :: s) = c :: percentEncode s := by
  simp [percentEncode, h]

theorem percentEncode_cons_of_not (h : ¬ isUnreserved c = true) (s : Bytes) :
    percentEncode (c :: s) = '%'.toUInt8 :: upperHexDigit (c / 16) :: upperHexDigit (c % 16) ::
      percentEncode s := by
  simp [percentEncode, upperHex, h]

theorem ne_percent_of_isUnreserved (h : isUnreserved c = true) : c ≠ '%'.toUInt8 := by
  rintro rfl
  exact absurd h (by decide)

theorem isUnreserved_of_isHexDigit (h : isHexDigit c = true) : isUnreserved c = true := by
  simp only [isHexDigit, isUnreserved, isAlnum, isAlpha, Bool.or_eq_true, Bool.and_eq_true,
    decide_eq_true_eq] at h ⊢
  grind

/-- Percent-encoding writes no mark but the one of its escapes. -/
theorem not_mem_percentEncode (h : isUnreserved c = false) (hc : c ≠ '%'.toUInt8) (s : Bytes) :
    c ∉ percentEncode s := by
  have hdigit : ∀ n : UInt8, n < 16 → c ≠ upperHexDigit n := by
    rintro n hn rfl
    rw [isUnreserved_of_isHexDigit (isHexDigit_upperHexDigit hn)] at h
    cases h
  induction s with
  | nil => exact List.not_mem_nil
  | cons b s ih =>
    by_cases hb : isUnreserved b = true
    · rw [percentEncode_cons_of_isUnreserved hb, List.mem_cons, not_or]
      refine ⟨?_, ih⟩
      rintro rfl
      rw [hb] at h
      cases h
    · rw [percentEncode_cons_of_not hb]
      simp only [List.mem_cons, not_or]
      exact ⟨hc, hdigit _ (div_lt_sixteen b), hdigit _ (mod_lt_sixteen b), ih⟩

/-! ## Decoding what was encoded -/

theorem percentDecode?_cons_of_ne (h : c ≠ '%'.toUInt8) (rest : Bytes) :
    percentDecode? (c :: rest) = (percentDecode? rest).map (c :: ·) := by
  rw [percentDecode?.eq_def]
  exact if_neg h

theorem percentDecode?_escape (high low : UInt8) (rest : Bytes) :
    percentDecode? ('%'.toUInt8 :: high :: low :: rest) = (do
      let byte := (← hexValue? high) * 16 + (← hexValue? low)
      (percentDecode? rest).map (byte :: ·)) := by
  rw [percentDecode?.eq_def]
  exact if_pos rfl

/-- Every text can be had back from its encoding. -/
theorem percentDecode?_percentEncode (s : Bytes) :
    percentDecode? (percentEncode s) = some s := by
  induction s with
  | nil => rfl
  | cons c s ih =>
    by_cases hc : isUnreserved c = true
    · rw [percentEncode_cons_of_isUnreserved hc,
        percentDecode?_cons_of_ne (ne_percent_of_isUnreserved hc), ih]
      rfl
    · have hbyte : c / 16 * 16 + c % 16 = c := by grind
      rw [percentEncode_cons_of_not hc, percentDecode?_escape,
        hexValue?_upperHexDigit (div_lt_sixteen c), hexValue?_upperHexDigit (mod_lt_sixteen c), ih]
      simp [hbyte]

end Text

/-! ## Encoded text behind a path -/

namespace Uri

variable {s t text : Bytes} {b : UInt8} {brackets : Bool} {c : Components}

/-- Components can be put one behind the other: an escape at the end of the first one is complete
    by itself. -/
theorem Spelled.append (hs : Spelled brackets s) (ht : Spelled brackets t) :
    Spelled brackets (s ++ t) := by
  induction s with
  | nil => exact ht
  | cons b s ih =>
    obtain ⟨hb, hescape, hrest⟩ := spelled_cons_iff.1 hs
    refine spelled_cons_iff.2 ⟨hb, ?_, ih hrest⟩
    intro hmark
    obtain ⟨x, y, rest, heq, hx, hy⟩ := hescape hmark
    exact ⟨x, y, rest ++ t, by rw [heq]; rfl, hx, hy⟩

theorem isPlain_of_isUnreserved (h : Text.isUnreserved b = true) (brackets : Bool) :
    isPlain brackets b = true := by
  refine isPlain_of_class (by decide) ?_ h brackets
  simp only [Text.isUnreserved, Bool.or_eq_true, beq_iff_eq] at h
  rcases h with (((h | rfl) | rfl) | rfl) | rfl
  · simp only [isAlnum, isAlpha, isDigit, Bool.or_eq_true, Bool.and_eq_true,
      decide_eq_true_eq] at h
    grind
  all_goals decide

theorem spelled_percentEncode (brackets : Bool) (s : Bytes) :
    Spelled brackets (Text.percentEncode s) := by
  induction s with
  | nil => exact spelled_nil brackets
  | cons b s ih =>
    by_cases hb : Text.isUnreserved b = true
    · rw [Text.percentEncode_cons_of_isUnreserved hb, spelled_cons_iff]
      exact ⟨isPlain_of_isUnreserved hb brackets,
        fun hmark => absurd hmark (Text.ne_percent_of_isUnreserved hb), ih⟩
    · have hhigh := Text.isHexDigit_upperHexDigit (Text.div_lt_sixteen b)
      have hlow := Text.isHexDigit_upperHexDigit (Text.mod_lt_sixteen b)
      rw [Text.percentEncode_cons_of_not hb, spelled_cons_iff]
      refine ⟨by cases brackets <;> decide, fun _ => ⟨_, _, _, rfl, hhigh, hlow⟩, ?_⟩
      rwa [spelled_cons_of_isHexDigit hhigh, spelled_cons_of_isHexDigit hlow]

/-- Without the marks that start them, a URI has no query and no fragment. -/
theorem Decomposes.eq_none (h : Decomposes text c) (hquery : '?'.toUInt8 ∉ text)
    (hfragment : '#'.toUInt8 ∉ text) : c.query = none ∧ c.fragment = none := by
  rw [h.text_eq, Components.text] at hquery hfragment
  constructor
  · cases hc : c.query with
    | none => rfl
    | some query => simp [hc] at hquery
  · cases hc : c.fragment with
    | none => rfl
    | some fragment => simp [hc] at hfragment

/-- Behind the scheme and the authority of a URI may stand any path that has none of the marks
    behind a path. -/
theorem Decomposes.with_path {path : Bytes} (h : Decomposes text c)
    (hstart : path = [] ∨ ∃ rest, path = '/'.toUInt8 :: rest) (hspelled : Spelled false path)
    (hmarks : '?'.toUInt8 ∉ path ∧ '#'.toUInt8 ∉ path) :
    Decomposes (c.scheme ++ "://" ++ c.authority ++ path)
      { c with path, query := none, fragment := none } where
  text_eq := by simp [Components.text]
  scheme := h.scheme
  authority_ne_nil := h.authority_ne_nil
  authority_marks := h.authority_marks
  path_start := hstart
  path_marks := hmarks
  query_marks := by simp
  fragment_marks := by simp
  authority := h.authority
  path := hspelled
  query := by simp
  fragment := by simp
  host := h.host

/-- A path can be made longer by a text that has none of the marks behind a path. -/
theorem Decomposes.append_path (h : Decomposes text c) (hpath : c.path ≠ [])
    (hquery : c.query = none) (hfragment : c.fragment = none) (ht : Spelled false t)
    (hmarks : '?'.toUInt8 ∉ t ∧ '#'.toUInt8 ∉ t) :
    Decomposes (text ++ t) { c with path := c.path ++ t } := by
  have hstart : c.path ++ t = [] ∨ ∃ rest, c.path ++ t = '/'.toUInt8 :: rest := by
    rcases h.path_start with hnil | ⟨rest, hrest⟩
    · exact absurd hnil hpath
    · exact .inr ⟨rest ++ t, by rw [hrest]; rfl⟩
  have hlonger : '?'.toUInt8 ∉ c.path ++ t ∧ '#'.toUInt8 ∉ c.path ++ t := by
    simp only [List.mem_append, not_or]
    exact ⟨⟨h.path_marks.1, hmarks.1⟩, h.path_marks.2, hmarks.2⟩
  have htext : text ++ t = c.scheme ++ "://" ++ c.authority ++ (c.path ++ t) := by
    simp [h.text_eq, Components.text, hquery, hfragment]
  rw [htext]
  simpa only [hquery, hfragment] using h.with_path hstart (h.path.append ht) hlonger

/-- Percent-encoding can be undone, and it is safe to put encoded text behind the path of a URI that
    ends with it: the path grows by that text and nothing else changes. -/
theorem percentEncode_reversible_and_inert (s : Bytes) :
    Text.percentDecode? (Text.percentEncode s) = some s ∧
    ∀ text u, parse? text = some u → u.components.path ≠ [] → '?'.toUInt8 ∉ text →
      '#'.toUInt8 ∉ text →
      ∃ v, parse? (text ++ Text.percentEncode s) = some v ∧
        v.components.scheme = u.components.scheme ∧
        v.components.authority = u.components.authority ∧
        v.components.host = u.components.host ∧ v.hasQuery = false ∧
        v.components.query = none ∧ v.components.fragment = none ∧
        v.components.path = u.components.path ++ Text.percentEncode s := by
  refine ⟨Text.percentDecode?_percentEncode s, ?_⟩
  intro text u hu hpath hquery hfragment
  have hc := decomposes_of_parse? hu
  obtain ⟨hnone, hnone'⟩ := hc.eq_none hquery hfragment
  have hlonger := hc.append_path hpath hnone hnone' (spelled_percentEncode false s)
    ⟨Text.not_mem_percentEncode (by decide) (by decide) s,
      Text.not_mem_percentEncode (by decide) (by decide) s⟩
  let v : Uri := { text := _, components := _, ofText?_eq := hlonger.ofText?_eq }
  exact ⟨v, parse?_text v, rfl, rfl, rfl, by simp [v, hasQuery, hnone], hnone, hnone', rfl⟩

/-- A URI whose path ends with an escape. -/
def escaping : Uri where
  text := "s3://user@host:80/a%2F"
  components := {
    scheme := "s3"
    authority := "user@host:80"
    host := "host"
    path := "/a%2F"
    query := none
    fragment := none }
  ofText?_eq := by decide +kernel

/-- A byte that is no ASCII character, marks of URIs, and what looks like an escape, behind an
    escape. -/
theorem percentEncode_reversible_and_inert_marks :
    parse? "s3://user@host:80/a%2F" = some escaping ∧ escaping.components.path ≠ [] ∧
      '?'.toUInt8 ∉ escaping.text ∧ '#'.toUInt8 ∉ escaping.text ∧
      Text.percentEncode (0xFF :: ofString "/?#%41") = "%FF%2F%3F%23%2541" ∧
      Text.percentDecode? "%FF%2F%3F%23%2541" = some (0xFF :: ofString "/?#%41") ∧
      ∃ v, parse? "s3://user@host:80/a%2F%FF%2F%3F%23%2541" = some v ∧
        v.components.scheme = "s3" ∧ v.components.authority = "user@host:80" ∧
        v.components.host = "host" ∧ v.hasQuery = false ∧ v.components.query = none ∧
        v.components.fragment = none ∧ v.components.path = "/a%2F%FF%2F%3F%23%2541" := by
  have hencoded : Text.percentEncode (0xFF :: ofString "/?#%41") = "%FF%2F%3F%23%2541" := by
    decide
  have hread : parse? "s3://user@host:80/a%2F" = some escaping := parse?_text escaping
  have hpath : escaping.components.path ≠ [] := by decide
  have hquery : '?'.toUInt8 ∉ escaping.text := by decide
  have hfragment : '#'.toUInt8 ∉ escaping.text := by decide
  obtain ⟨hdecoded, hinert⟩ := percentEncode_reversible_and_inert (0xFF :: ofString "/?#%41")
  have hlonger := hinert _ _ hread hpath hquery hfragment
  rw [hencoded] at hdecoded hlonger
  exact ⟨hread, hpath, hquery, hfragment, hencoded, hdecoded, hlonger⟩

end Uri

end EndpointRules
