import EndpointRules.Proofs.Uri.Escapes

/-!
# Host labels in URIs

A host label, with or without dots, needs no percent-encoding, and behind a scheme it is the whole
authority of a URI and its host.
-/

namespace EndpointRules

open Bytes

namespace Text

variable {s : Bytes}

/-! ## What host labels are made of -/

/-- Nothing is encoded in a text of unreserved bytes. -/
theorem percentEncode_eq_self (h : ∀ b ∈ s, isUnreserved b = true) : percentEncode s = s := by
  induction s with
  | nil => rfl
  | cons b s ih =>
    rw [percentEncode_cons_of_isUnreserved (h b List.mem_cons_self),
      ih fun b' hb' => h b' (List.mem_cons_of_mem b hb')]

theorem isUnreserved_of_isLabel (h : isLabel s = true) :
    s ≠ [] ∧ ∀ b ∈ s, isUnreserved b = true := by
  simp only [isLabel, Bool.and_eq_true, List.all_eq_true] at h
  obtain ⟨⟨-, hfirst⟩, hall⟩ := h
  refine ⟨?_, ?_⟩
  · rintro rfl
    cases hfirst
  · intro b hb
    have hbyte := hall b hb
    simp only [Bool.or_eq_true] at hbyte
    rcases hbyte with hbyte | hbyte
    · simp [isUnreserved, hbyte]
    · simp [isUnreserved, hbyte]

/-- A dot is unreserved itself, and every other byte is in one of the labels. -/
theorem isUnreserved_of_isDottedLabel (h : isDottedLabel s = true) :
    s ≠ [] ∧ ∀ b ∈ s, isUnreserved b = true := by
  fun_induction isDottedLabel s with
  | case1 s label hcut =>
    obtain ⟨hs, -⟩ := cut_eq_iff.1 hcut
    rw [hs, Option.elim_none, List.append_nil]
    exact isUnreserved_of_isLabel h
  | case2 s label rest hcut ih =>
    obtain ⟨hs, -⟩ := cut_eq_iff.1 hcut
    rw [Bool.and_eq_true] at h
    obtain ⟨hlabel, hrest⟩ := h
    rw [hs, Option.elim_some]
    refine ⟨by simp, ?_⟩
    intro b hb
    rcases List.mem_append.1 hb with hb | hb
    · exact (isUnreserved_of_isLabel hlabel).2 b hb
    · rcases List.mem_cons.1 hb with rfl | hb
      · decide
      · exact (ih hrest).2 b hb

/-- A host label is a text of unreserved bytes, and not empty. -/
theorem isUnreserved_of_isHostLabel {dots : Bool} (h : isHostLabel s dots = true) :
    s ≠ [] ∧ ∀ b ∈ s, isUnreserved b = true := by
  cases dots with
  | false => exact isUnreserved_of_isLabel h
  | true => exact isUnreserved_of_isDottedLabel h

end Text

namespace Uri

variable {s scheme : Bytes} {brackets : Bool}

/-! ## Host labels as authorities -/

theorem spelled_of_isUnreserved (h : ∀ b ∈ s, Text.isUnreserved b = true) : Spelled brackets s := by
  rw [← Text.percentEncode_eq_self h]
  exact spelled_percentEncode brackets s

/-- Behind a scheme a text of unreserved bytes is an authority, of which all is the host. -/
theorem decomposes_of_isUnreserved (hscheme : SchemeForm scheme) (hne : s ≠ [])
    (h : ∀ b ∈ s, Text.isUnreserved b = true) :
    Decomposes (scheme ++ "://" ++ s)
      { scheme, authority := s, host := s, path := [], query := none, fragment := none } := by
  have hmark : ∀ {m : UInt8}, Text.isUnreserved m = false → m ∉ s := by
    intro m hm hmem
    rw [h m hmem] at hm
    cases hm
  have hbracket : ∀ b ∈ s, isBracket b = false := by
    intro b hb
    have hplain := isPlain_of_isUnreserved (h b hb) false
    simp only [isPlain, Bool.false_or, Bool.and_eq_true, Bool.not_eq_true'] at hplain
    exact hplain.2
  have hport : HostPort s s none := {
    text_eq := by simp
    digits := by simp
    host := .inr ⟨hne, hbracket, fun _ => hmark (by decide)⟩ }
  exact {
    text_eq := by simp [Components.text]
    scheme := hscheme
    authority_ne_nil := hne
    authority_marks := ⟨hmark (by decide), hmark (by decide), hmark (by decide)⟩
    path_start := .inl rfl
    path_marks := ⟨List.not_mem_nil, List.not_mem_nil⟩
    query_marks := by simp
    fragment_marks := by simp
    authority := spelled_of_isUnreserved h
    path := spelled_nil false
    query := by simp
    fragment := by simp
    host := ⟨s, none, .inl rfl, hmark (by decide), hport⟩ }

/-- Percent-encoding leaves a host label alone, and behind the scheme of any URI the label is the
    authority and the host of a URI that consists of nothing else. -/
theorem authority_of_isHostLabel {dots : Bool} (h : Text.isHostLabel s dots = true) :
    Text.percentEncode s = s ∧
    ∀ text u, parse? text = some u →
      ∃ v, parse? (u.components.scheme ++ "://" ++ s) = some v ∧
        v.components.scheme = u.components.scheme ∧ v.components.authority = s ∧
        v.components.host = s ∧ v.components.path = [] ∧ v.hasQuery = false ∧
        v.components.query = none ∧ v.components.fragment = none := by
  obtain ⟨hne, hbytes⟩ := Text.isUnreserved_of_isHostLabel h
  refine ⟨Text.percentEncode_eq_self hbytes, ?_⟩
  intro text u hu
  have hscheme := (decomposes_of_parse? hu).scheme
  have hread := (decomposes_of_isUnreserved hscheme hne hbytes).ofText?_eq
  let v : Uri := { text := _, components := _, ofText?_eq := hread }
  exact ⟨v, parse?_text v, rfl, rfl, rfl, rfl, rfl, rfl, rfl⟩

/-- A label with dots and hyphens that starts with a digit, behind the scheme of a URI that has a
    user, a port and a path. -/
theorem authority_of_isHostLabel_dotted :
    Text.isHostLabel "10.eu-west-1" true = true ∧
      parse? "s3://user@host:80/a%2F" = some escaping ∧
      Text.percentEncode "10.eu-west-1" = "10.eu-west-1" ∧
      ∃ v, parse? "s3://10.eu-west-1" = some v ∧ v.components.scheme = "s3" ∧
        v.components.authority = "10.eu-west-1" ∧ v.components.host = "10.eu-west-1" ∧
        v.components.path = [] ∧ v.hasQuery = false ∧ v.components.query = none ∧
        v.components.fragment = none := by
  have hdot : cut '.'.toUInt8 "10.eu-west-1" =
      (ofString "10", some (ofString "eu-west-1")) := by decide
  have hend : cut '.'.toUInt8 "eu-west-1" = (ofString "eu-west-1", none) := by decide
  have hlabels : Text.isLabel "10" = true ∧ Text.isLabel "eu-west-1" = true := by decide
  have hlabel : Text.isHostLabel "10.eu-west-1" true = true := by
    rw [Text.isHostLabel, if_pos rfl, Text.isDottedLabel, hdot]
    dsimp only
    rw [Text.isDottedLabel, hend]
    exact (Bool.and_eq_true _ _).mpr hlabels
  have hread : parse? "s3://user@host:80/a%2F" = some escaping := parse?_text escaping
  have htext : escaping.components.scheme ++ "://" ++ ofString "10.eu-west-1" =
      "s3://10.eu-west-1" := by decide
  obtain ⟨hencoded, hauthority⟩ := authority_of_isHostLabel hlabel
  have hv := hauthority _ _ hread
  rw [htext] at hv
  exact ⟨hlabel, hread, hencoded, hv⟩

end Uri

end EndpointRules
