import EndpointRules.Proofs.Uri.Escapes
import EndpointRules.Value

/-!
# URIs put together from their properties

The scheme, the authority and the normalized path of a URI make up a URI again.  It has the host of
the first one and a path that is normalized already; a query and a fragment are left behind.
-/

namespace EndpointRules.Uri

open Bytes

variable {text : Bytes} {u : Uri}

/-! ## Normalized paths -/

/-- A normalized path is the path with a slash, or nothing, at either end. -/
theorem exists_normalizedPath_eq (u : Uri) :
    ∃ front back, u.normalizedPath = front ++ u.components.path ++ back ∧
      (front = [] ∨ front = ['/'.toUInt8]) ∧ (back = [] ∨ back = ['/'.toUInt8]) := by
  simp only [normalizedPath]
  split <;> split
  · exact ⟨[], [], by simp, .inl rfl, .inl rfl⟩
  · exact ⟨[], _, rfl, .inl rfl, .inr rfl⟩
  · exact ⟨['/'.toUInt8], [], by simp, .inr rfl, .inl rfl⟩
  · exact ⟨['/'.toUInt8], _, rfl, .inr rfl, .inr rfl⟩

theorem normalizedPath_ends (u : Uri) :
    u.normalizedPath.head? = some '/'.toUInt8 ∧ u.normalizedPath.getLast? = some '/'.toUInt8 := by
  simp only [normalizedPath]
  generalize hrooted : (if (u.components.path.head? == some '/'.toUInt8) = true
    then u.components.path else '/'.toUInt8 :: u.components.path) = rooted
  have hhead : rooted.head? = some '/'.toUInt8 := by
    subst hrooted
    split
    · next h => exact eq_of_beq h
    · rfl
  split
  · next h => exact ⟨hhead, eq_of_beq h⟩
  · exact ⟨by simp [hhead], List.getLast?_concat⟩

/-- Nothing is added to a path that has its slashes. -/
theorem normalizedPath_eq_path (hhead : u.components.path.head? = some '/'.toUInt8)
    (hlast : u.components.path.getLast? = some '/'.toUInt8) :
    u.normalizedPath = u.components.path := by
  simp [normalizedPath, hhead, hlast]

/-- Slashes may be put at either end of a path: they complete no escape and start no query. -/
theorem Decomposes.spelled_normalizedPath (h : Decomposes text u.components) :
    Spelled false u.normalizedPath ∧ '?'.toUInt8 ∉ u.normalizedPath ∧
      '#'.toUInt8 ∉ u.normalizedPath := by
  have hslash : ∀ {piece : Bytes}, piece = [] ∨ piece = ['/'.toUInt8] →
      Spelled false piece ∧ '?'.toUInt8 ∉ piece ∧ '#'.toUInt8 ∉ piece := by
    rintro piece (rfl | rfl)
    · exact ⟨spelled_nil false, by decide, by decide⟩
    · exact ⟨isComponent_iff.1 (by decide), by decide, by decide⟩
  obtain ⟨front, back, heq, hfront, hback⟩ := exists_normalizedPath_eq u
  obtain ⟨hspelled, hquery, hfragment⟩ := hslash hfront
  obtain ⟨hspelled', hquery', hfragment'⟩ := hslash hback
  rw [heq]
  simp only [List.mem_append, not_or]
  exact ⟨(hspelled.append h.path).append hspelled', ⟨⟨hquery, h.path_marks.1⟩, hquery'⟩,
    ⟨hfragment, h.path_marks.2⟩, hfragment'⟩

/-! ## Reading what was put together -/

/-- What was put together from the scheme, the authority and the normalized path of a URI is read as
    a URI of the same scheme, authority and host, whose path is that normalized path.  Of all
    properties only the path may be another one. -/
theorem parse?_of_properties (h : parse? text = some u) :
    u.normalizedPath.head? = some '/'.toUInt8 ∧ u.normalizedPath.getLast? = some '/'.toUInt8 ∧
    ∃ v, parse? (u.components.scheme ++ "://" ++ u.components.authority ++ u.normalizedPath) =
        some v ∧
      v.components.scheme = u.components.scheme ∧
      v.components.authority = u.components.authority ∧
      v.components.host = u.components.host ∧ v.isIp = u.isIp ∧
      v.components.path = u.normalizedPath ∧ v.normalizedPath = u.normalizedPath ∧
      v.hasQuery = false ∧ v.components.query = none ∧ v.components.fragment = none ∧
      ∀ name : Bytes, name ≠ "path" →
        (Value.uri v).property name = (Value.uri u).property name := by
  obtain ⟨hhead, hlast⟩ := normalizedPath_ends u
  have hc := decomposes_of_parse? h
  obtain ⟨hspelled, hmarks⟩ := hc.spelled_normalizedPath
  have hstart := List.head?_eq_some_iff.1 hhead
  have hread := (hc.with_path (.inr hstart) hspelled hmarks).ofText?_eq
  let v : Uri := { text := _, components := _, ofText?_eq := hread }
  have hpath : v.normalizedPath = u.normalizedPath := normalizedPath_eq_path hhead hlast
  have hip : v.isIp = u.isIp := rfl
  refine ⟨hhead, hlast, v, parse?_text v, rfl, rfl, rfl, hip, rfl, hpath, rfl, rfl, rfl, ?_⟩
  intro name hname
  have hother : (name == ofString "path") = false := by simpa using hname
  simp only [Value.property, Value.ofUriProperty, hother, hpath, hip]
  rfl

/-- A URI that has everything a URI may have, with a path that ends with an escape. -/
def complete : Uri where
  text := "git+ssh://me:a@[fe80::1%25]:22/x%2F?y/#/z"
  components := {
    scheme := "git+ssh"
    authority := "me:a@[fe80::1%25]:22"
    host := "[fe80::1%25]"
    path := "/x%2F"
    query := some "y/"
    fragment := some "/z" }
  ofText?_eq := by decide +kernel

/-- The slash goes behind the escape, and the query and the fragment are gone. -/
theorem parse?_of_properties_complete :
    parse? "git+ssh://me:a@[fe80::1%25]:22/x%2F?y/#/z" = some complete ∧
    ∃ v, parse? "git+ssh://me:a@[fe80::1%25]:22/x%2F/" = some v ∧
      v.components.authority = "me:a@[fe80::1%25]:22" ∧ v.components.host = "[fe80::1%25]" ∧
      v.isIp = true ∧ v.components.path = "/x%2F/" ∧ v.normalizedPath = "/x%2F/" ∧
      v.components.query = none ∧ v.components.fragment = none := by
  have hread : parse? "git+ssh://me:a@[fe80::1%25]:22/x%2F?y/#/z" = some complete :=
    parse?_text complete
  have hip : complete.isIp = true := by decide
  have hnormalized : complete.normalizedPath = "/x%2F/" := by decide
  have htext : complete.components.scheme ++ "://" ++ complete.components.authority ++ "/x%2F/" =
      ofString "git+ssh://me:a@[fe80::1%25]:22/x%2F/" := by decide
  have hv := parse?_of_properties hread
  rw [hnormalized, htext, hip] at hv
  obtain ⟨-, -, v, hv, -, hauthority, hhost, hip', hpath, hpath', -, hquery, hfragment, -⟩ := hv
  exact ⟨hread, v, hv, hauthority, hhost, hip', hpath, hpath', hquery, hfragment⟩

end EndpointRules.Uri
