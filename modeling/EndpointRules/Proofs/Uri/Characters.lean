import EndpointRules.Proofs.Uri.Escapes

/-!
# Characters of URIs

A URI is made of unreserved characters, of reserved ones, brackets being kept for the authority,
and of escapes.  Reading a text bars other bytes one by one, and of those below 0x80 it bars all.
The bytes from 0x80 on are not barred, so the URIs that hold no other character are those whose text
is ASCII.
-/

namespace EndpointRules.Uri

open Bytes

/-! ## Classes of characters -/

/-- The marks that set components apart. -/
def generalDelimiters : Bytes := ":/?#[]@"

/-- The marks that components may give a meaning to. -/
def componentDelimiters : Bytes := "!$&'()*+,;="

/-- A character that may stand for itself in some component. -/
def isLawful (c : UInt8) : Bool :=
  Text.isUnreserved c || generalDelimiters.contains c || componentDelimiters.contains c

/-- Lawful characters, brackets among them only where they are allowed, and escapes, each of which
    is `%` with two hexadecimal digits behind it. -/
structure Lawful (brackets : Bool) (s : Bytes) : Prop where
  byte : ∀ b ∈ s, isLawful b = true ∨ b = '%'.toUInt8
  bracket : ∀ b ∈ s, isBracket b = true → brackets = true
  escape : ∀ before after, s = before ++ '%'.toUInt8 :: after →
    ∃ a b rest, after = a :: b :: rest ∧ isHexDigit a = true ∧ isHexDigit b = true

/-- Every component is made of lawful characters and escapes, with brackets in the authority
    alone. -/
structure Components.Lawful (c : Components) : Prop where
  scheme : Uri.Lawful false c.scheme
  authority : Uri.Lawful true c.authority
  host : Uri.Lawful true c.host
  path : Uri.Lawful false c.path
  query : ∀ query ∈ c.query, Uri.Lawful false query
  fragment : ∀ fragment ∈ c.fragment, Uri.Lawful false fragment

variable {text s t : Bytes} {b : UInt8} {brackets : Bool} {c : Components}

/-- The lawful characters by their numbers. -/
theorem isLawful_iff :
    isLawful b = true ↔
      b.toNat = 0x21 ∨ (0x23 ≤ b.toNat ∧ b.toNat ≤ 0x24) ∨ (0x26 ≤ b.toNat ∧ b.toNat ≤ 0x3B) ∨
        b.toNat = 0x3D ∨ (0x3F ≤ b.toNat ∧ b.toNat ≤ 0x5B) ∨ b.toNat = 0x5D ∨ b.toNat = 0x5F ∨
        (0x61 ≤ b.toNat ∧ b.toNat ≤ 0x7A) ∨ b.toNat = 0x7E := by
  have hgeneral : generalDelimiters = [0x3A, 0x2F, 0x3F, 0x23, 0x5B, 0x5D, 0x40] := by decide
  have hcomponent : componentDelimiters =
      [0x21, 0x24, 0x26, 0x27, 0x28, 0x29, 0x2A, 0x2B, 0x2C, 0x3B, 0x3D] := by decide
  have hmarks : '-'.toUInt8 = 0x2D ∧ '.'.toUInt8 = 0x2E ∧ '_'.toUInt8 = 0x5F ∧
      '~'.toUInt8 = 0x7E := by decide
  simp only [isLawful, Text.isUnreserved, isAlnum, isAlpha, isDigit, hgeneral, hcomponent, hmarks,
    Bool.or_eq_true, Bool.and_eq_true, decide_eq_true_eq, beq_iff_eq, List.contains_cons,
    List.contains_nil, Bool.false_eq_true, or_false, UInt8.le_iff_toNat_le, ← UInt8.toNat_inj,
    UInt8.reduceToNat]
  omega

theorem lt_of_isLawful (h : isLawful b = true) : b < 0x80 := by
  have hranges := isLawful_iff.1 h
  show b.toNat < 0x80
  omega

/-- Below 0x80 exactly the lawful characters and the mark of escapes are plain, and from there on
    all bytes are; where brackets are barred these are not. -/
theorem isPlain_iff :
    isPlain brackets b = true ↔
      (isLawful b = true ∨ b = '%'.toUInt8 ∨ 0x80 ≤ b) ∧
        (isBracket b = true → brackets = true) := by
  have hwith : isPlain true b = true ↔ isLawful b = true ∨ b = '%'.toUInt8 ∨ 0x80 ≤ b := by
    have hmark : '%'.toUInt8 = 0x25 := by decide
    have hbyte := b.toNat_lt
    simp only [isPlain, barredMarks, isLawful_iff, hmark, Bool.and_eq_true, Bool.not_eq_true',
      Bool.or_eq_false_iff, decide_eq_true_eq, bne_iff_ne, beq_eq_false_iff_ne, ne_eq, Bool.true_or,
      and_true, List.contains_cons, List.contains_nil, UInt8.lt_iff_toNat_lt,
      UInt8.le_iff_toNat_le, ← UInt8.toNat_inj, UInt8.reduceToNat]
    omega
  have hsplit : isPlain brackets b = (isPlain true b && (brackets || !isBracket b)) := by
    simp [isPlain]
  rw [hsplit, Bool.and_eq_true, hwith]
  cases brackets <;> simp

/-! ## Components -/

/-- A component is lawful exactly if it is ASCII. -/
theorem Spelled.lawful_iff (h : Spelled brackets s) :
    Lawful brackets s ↔ ∀ b ∈ s, b < 0x80 := by
  constructor
  · intro hlawful b hb
    rcases hlawful.byte b hb with hbyte | rfl
    · exact lt_of_isLawful hbyte
    · decide
  · intro hascii
    refine ⟨?_, fun b hb => (isPlain_iff.1 (h.plain b hb)).2, h.escape⟩
    intro b hb
    rcases (isPlain_iff.1 (h.plain b hb)).1 with hbyte | hmark | hhigh
    · exact .inl hbyte
    · exact .inr hmark
    · exact absurd (hascii b hb) (UInt8.not_lt.2 hhigh)

theorem spelled_of_schemeForm (h : SchemeForm s) : Spelled false s := by
  obtain ⟨first, rest, rfl, hfirst, hrest⟩ := h
  have hbytes : ∀ b ∈ first :: rest, isSchemeByte b = true := by
    intro b hb
    rcases List.mem_cons.1 hb with rfl | hb
    · simp [isSchemeByte, isAlnum, hfirst]
    · exact hrest b hb
  refine ⟨?_, ?_⟩
  · intro b hb
    have hbyte := hbytes b hb
    simp only [isSchemeByte, Bool.or_eq_true, beq_iff_eq] at hbyte
    rcases hbyte with ((hbyte | rfl) | rfl) | rfl
    · exact isPlain_of_isUnreserved (by simp [Text.isUnreserved, hbyte]) false
    all_goals decide
  · intro before after heq
    have hmark := hbytes '%'.toUInt8 (by simp [heq])
    exact absurd hmark (by decide)

theorem Spelled.of_append_right (h : Spelled brackets (s ++ t)) : Spelled brackets t := by
  refine ⟨fun b hb => h.plain b (List.mem_append_right s hb), ?_⟩
  intro before after heq
  exact h.escape (s ++ before) after (by rw [heq, List.append_assoc])

/-- A component can be cut before a byte that is no digit of an escape. -/
theorem Spelled.of_append_left (h : Spelled brackets (s ++ t))
    (ht : ∀ b rest, t = b :: rest → isHexDigit b = false) : Spelled brackets s := by
  refine ⟨fun b hb => h.plain b (List.mem_append_left t hb), ?_⟩
  intro before after heq
  obtain ⟨a, b, rest, hdigits, ha, hb⟩ := h.escape before (after ++ t) (by simp [heq])
  -- Both digits are on this side of the cut, since neither can be the first byte behind it.
  cases after with
  | nil =>
    rw [ht a (b :: rest) hdigits] at ha
    cases ha
  | cons a' after =>
    obtain ⟨hfirst, hsecond⟩ := List.cons.inj hdigits
    cases after with
    | nil =>
      rw [ht b rest hsecond] at hb
      cases hb
    | cons b' after =>
      cases hfirst
      cases hsecond
      exact ⟨a, b, after, rfl, ha, hb⟩

/-- The host stands in the authority, and what comes behind it is no part of an escape. -/
theorem Decomposes.exists_authority_eq (h : Decomposes text c) :
    ∃ before after, c.authority = before ++ (c.host ++ after) ∧
      ∀ b rest, after = b :: rest → isHexDigit b = false := by
  obtain ⟨hostPort, port, huser, -, hport⟩ := h.host
  have hbehind : ∀ b rest, port.elim [] (':'.toUInt8 :: ·) = b :: rest → isHexDigit b = false := by
    intro b rest heq
    cases port with
    | none => cases heq
    | some number =>
      obtain ⟨rfl, -⟩ := List.cons.inj heq
      decide
  rcases huser with huser | ⟨user, huser⟩
  · exact ⟨[], _, by rw [huser, hport.text_eq, List.nil_append], hbehind⟩
  · refine ⟨user ++ ['@'.toUInt8], _, ?_, hbehind⟩
    rw [huser, hport.text_eq, List.append_assoc]
    rfl

theorem Decomposes.spelled_host (h : Decomposes text c) : Spelled true c.host := by
  obtain ⟨before, after, hauthority, hafter⟩ := h.exists_authority_eq
  have hwhole := h.authority
  rw [hauthority] at hwhole
  exact hwhole.of_append_right.of_append_left hafter

/-- The bytes of a text are those of the components and of the marks between them. -/
theorem Decomposes.forall_mem_iff (h : Decomposes text c) {P : UInt8 → Prop}
    (hmarks : P ':'.toUInt8 ∧ P '/'.toUInt8 ∧ P '?'.toUInt8 ∧ P '#'.toUInt8) :
    (∀ b ∈ text, P b) ↔
      (∀ b ∈ c.scheme, P b) ∧ (∀ b ∈ c.authority, P b) ∧ (∀ b ∈ c.path, P b) ∧
        (∀ query ∈ c.query, ∀ b ∈ query, P b) ∧
        ∀ fragment ∈ c.fragment, ∀ b ∈ fragment, P b := by
  obtain ⟨hcolon, hslash, hquestion, hhash⟩ := hmarks
  have hseparator : ∀ b ∈ ofString "://", P b := by
    intro b hb
    have hcases : b = ':'.toUInt8 ∨ b = '/'.toUInt8 := by simpa [ofString] using hb
    rcases hcases with rfl | rfl
    · exact hcolon
    · exact hslash
  have helim : ∀ (mark : UInt8) (part : Option Bytes), P mark →
      ((∀ b ∈ part.elim [] (mark :: ·), P b) ↔ ∀ s ∈ part, ∀ b ∈ s, P b) := by
    intro mark part hmark
    cases part with
    | none => simp
    | some s => simp [hmark]
  rw [h.text_eq, Components.text]
  simp only [List.forall_mem_append, helim _ _ hquestion, helim _ _ hhash, and_assoc]
  constructor
  · rintro ⟨hscheme, -, hrest⟩
    exact ⟨hscheme, hrest⟩
  · rintro ⟨hscheme, hrest⟩
    exact ⟨hscheme, hseparator, hrest⟩

/-- The components of a URI are made of lawful characters and escapes exactly if its text is
    ASCII. -/
theorem lawful_iff_ascii (u : Uri) : u.components.Lawful ↔ ∀ b ∈ u.text, b < 0x80 := by
  have h : Decomposes u.text u.components := decomposes_of_ofText? u.ofText?_eq
  have hscheme := spelled_of_schemeForm h.scheme
  rw [h.forall_mem_iff (by decide)]
  constructor
  · intro hlawful
    refine ⟨hscheme.lawful_iff.1 hlawful.scheme, h.authority.lawful_iff.1 hlawful.authority,
      h.path.lawful_iff.1 hlawful.path, ?_, ?_⟩
    · intro query hquery
      exact (h.query query hquery).lawful_iff.1 (hlawful.query query hquery)
    · intro fragment hfragment
      exact (h.fragment fragment hfragment).lawful_iff.1 (hlawful.fragment fragment hfragment)
  · intro ⟨hschemeAscii, hauthority, hpath, hquery, hfragment⟩
    obtain ⟨before, after, heq, -⟩ := h.exists_authority_eq
    exact {
      scheme := hscheme.lawful_iff.2 hschemeAscii
      authority := h.authority.lawful_iff.2 hauthority
      host := h.spelled_host.lawful_iff.2 fun b hb => hauthority b (by simp [heq, hb])
      path := h.path.lawful_iff.2 hpath
      query := fun query hq => (h.query query hq).lawful_iff.2 (hquery query hq)
      fragment := fun fragment hf => (h.fragment fragment hf).lawful_iff.2 (hfragment fragment hf) }

/-- A URI whose path is a letter that ASCII does not have, in two bytes. -/
def accented : Uri where
  text := ofString "http://h/" ++ [0xC3, 0xA9]
  components := {
    scheme := "http"
    authority := "h"
    host := "h"
    path := '/'.toUInt8 :: [0xC3, 0xA9]
    query := none
    fragment := none }
  ofText?_eq := by decide +kernel

theorem not_lawful_accented :
    parse? (ofString "http://h/" ++ [0xC3, 0xA9]) = some accented ∧
      0xC3 ∈ accented.components.path ∧ isLawful 0xC3 = false ∧
      ¬ accented.components.Lawful := by
  refine ⟨parse?_text accented, by decide, by decide, ?_⟩
  intro hlawful
  rcases hlawful.path.byte 0xC3 (by decide) with hbyte | hmark
  · exact absurd hbyte (by decide)
  · exact absurd hmark (by decide)

end EndpointRules.Uri
