import Mathlib.Data.List.Basic
import Mathlib.Data.Nat.Digits.Defs
import EndpointRules.Proofs.Text.Splitting
import EndpointRules.Uri

/-!
# Addresses as hosts

A host is read octet by octet, the end of the host standing in for a last dot.  Each round but the
last takes a dot off the host, so the reading ends, and its verdict is whether the host is four
octets with single dots between them.
-/

namespace EndpointRules.Uri

open Bytes

/-! ## Octets -/

/-- One to three decimal digits, of which the last counts one, that make a number of at most 255. -/
structure Octet (s : Bytes) : Prop where
  length : 1 ≤ s.length ∧ s.length ≤ 3
  digit : ∀ b ∈ s, '0'.toUInt8 ≤ b ∧ b ≤ '9'.toUInt8
  value : Nat.ofDigits 10 (s.reverse.map fun b => b.toNat - '0'.toNat) ≤ 255

/-- Four octets with single dots between them. -/
def DottedQuad (host : Bytes) : Prop :=
  ∃ a b c d, Octet a ∧ Octet b ∧ Octet c ∧ Octet d ∧ host = a ++ "." ++ b ++ "." ++ c ++ "." ++ d

variable {s host rest : Bytes} {octets : List Bytes} {count count' rounds : Nat} {verdict : Bool}

/-- The digits are added up from the left. -/
theorem ofDigits_eq (s : Bytes) :
    ofDigits s = Nat.ofDigits 10 (s.reverse.map fun b => b.toNat - '0'.toNat) := by
  rw [Nat.ofDigits_eq_foldr, List.foldr_map, List.foldr_reverse, ofDigits]
  congr 1
  funext n b
  rw [Nat.mul_comm, Nat.add_comm]
  rfl

theorem isOctet_iff : isOctet s = true ↔ Octet s := by
  have hdigits : s.all isDigit = true ↔ ∀ b ∈ s, '0'.toUInt8 ≤ b ∧ b ≤ '9'.toUInt8 := by
    simp only [List.all_eq_true, isDigit, Bool.and_eq_true, decide_eq_true_eq]
    rfl
  have hpos : (!s.isEmpty) = true ↔ 1 ≤ s.length := by
    rw [Bool.not_eq_true', List.isEmpty_eq_false_iff, ← List.length_pos_iff]
    rfl
  simp only [isOctet, Bool.and_eq_true, decide_eq_true_eq, hdigits, hpos, ofDigits_eq]
  constructor
  · intro ⟨⟨hlength, hdigit⟩, hvalue⟩
    exact ⟨hlength, hdigit, hvalue⟩
  · intro h
    exact ⟨⟨h.length, h.digit⟩, h.value⟩

theorem Octet.dot_not_mem (h : Octet s) : '.'.toUInt8 ∉ s := by
  intro hdot
  exact absurd (h.digit _ hdot).1 (by decide)

/-! ## One round -/

/-- What a round does depends on the part before the first dot, and on whether there is a dot. -/
theorem readOctet_of_cut {octet : Bytes} {behind : Option Bytes}
    (hcut : cut '.'.toUInt8 host = (octet, behind)) :
    readOctet count host = if isOctet octet = true then
      behind.elim (.inl (count + 1 == 4)) fun rest => .inr (count + 1, rest) else .inl false := by
  rw [readOctet, hcut]
  by_cases hoctet : isOctet octet = true
  · cases behind <;> simp [hoctet]
  · simp [hoctet]

/-- The reading goes on behind a dot if there is an octet before the dot. -/
theorem readOctet_eq_inr_iff :
    readOctet count host = .inr (count', rest) ↔
      ∃ octet, Octet octet ∧ host = octet ++ '.'.toUInt8 :: rest ∧ count' = count + 1 := by
  constructor
  · intro h
    obtain ⟨octet, behind, hcut⟩ : ∃ octet behind, cut '.'.toUInt8 host = (octet, behind) :=
      ⟨_, _, rfl⟩
    rw [readOctet_of_cut hcut] at h
    split at h
    · next hoctet =>
      cases behind with
      | none => cases h
      | some rest =>
        cases h
        exact ⟨octet, isOctet_iff.1 hoctet, (cut_eq_iff.1 hcut).1, rfl⟩
    · cases h
  · rintro ⟨octet, hoctet, rfl, rfl⟩
    have hcut : cut '.'.toUInt8 (octet ++ '.'.toUInt8 :: rest) = (octet, some rest) :=
      cut_eq_iff.2 ⟨rfl, hoctet.dot_not_mem⟩
    rw [readOctet_of_cut hcut, if_pos (isOctet_iff.2 hoctet)]
    rfl

/-- The verdict is favourable if the whole host is an octet, and the fourth one. -/
theorem readOctet_eq_inl_true_iff :
    readOctet count host = .inl true ↔ Octet host ∧ count + 1 = 4 := by
  constructor
  · intro h
    obtain ⟨octet, behind, hcut⟩ : ∃ octet behind, cut '.'.toUInt8 host = (octet, behind) :=
      ⟨_, _, rfl⟩
    rw [readOctet_of_cut hcut] at h
    split at h
    · next hoctet =>
      cases behind with
      | none =>
        obtain rfl : host = octet := by simpa using (cut_eq_iff.1 hcut).1
        exact ⟨isOctet_iff.1 hoctet, by simpa using h⟩
      | some rest => cases h
    · cases h
  · intro ⟨hoctet, hcount⟩
    have hcut : cut '.'.toUInt8 host = (host, none) :=
      cut_eq_iff.2 ⟨(List.append_nil host).symm, hoctet.dot_not_mem⟩
    rw [readOctet_of_cut hcut, if_pos (isOctet_iff.2 hoctet), Option.elim_none, hcount]
    rfl

/-! ## All rounds -/

/-- The reading of a host behind `count` octets ends with a verdict, after so many rounds. -/
inductive Reads : Nat → Bytes → Nat → Bool → Prop
  | stop {count : Nat} {host : Bytes} {verdict : Bool} (h : readOctet count host = .inl verdict) :
      Reads count host 1 verdict
  | next {count count' rounds : Nat} {host rest : Bytes} {verdict : Bool}
      (h : readOctet count host = .inr (count', rest)) (hrest : Reads count' rest rounds verdict) :
      Reads count host (rounds + 1) verdict

/-- The reading ends on every host, after one round more than there are dots at the latest. -/
theorem exists_reads (count : Nat) (host : Bytes) :
    ∃ rounds ≤ host.count '.'.toUInt8 + 1, Reads count host rounds (readOctets count host) := by
  fun_induction readOctets count host with
  | case1 count host verdict h => exact ⟨1, Nat.le_add_left _ _, .stop h⟩
  | case2 count host count' rest h ih =>
    obtain ⟨rounds, hrounds, hrest⟩ := ih
    obtain ⟨octet, -, hhost, -⟩ := readOctet_eq_inr_iff.1 h
    refine ⟨rounds + 1, ?_, .next h hrest⟩
    rw [hhost, List.count_append, List.count_cons_self]
    omega

theorem Reads.unique {rounds' : Nat} {verdict' : Bool} (h : Reads count host rounds verdict)
    (h' : Reads count host rounds' verdict') : rounds' = rounds ∧ verdict' = verdict := by
  induction h generalizing rounds' with
  | stop h =>
    cases h' with
    | stop h' => exact ⟨rfl, Sum.inl.inj (h'.symm.trans h)⟩
    | next h' _ => cases h'.symm.trans h
  | next h _ ih =>
    cases h' with
    | stop h' => cases h'.symm.trans h
    | next h' hrest' =>
      cases h'.symm.trans h
      obtain ⟨rfl, hverdict⟩ := ih hrest'
      exact ⟨rfl, hverdict⟩

/-- What has been read with a favourable verdict are octets, which make four with those before. -/
theorem Reads.exists_octets (h : Reads count host rounds true) :
    ∃ octets, octets ≠ [] ∧ (∀ octet ∈ octets, Octet octet) ∧ count + octets.length = 4 ∧
      join "." octets = host := by
  generalize hverdict : true = verdict at h
  induction h with
  | @stop count host verdict h =>
    subst hverdict
    obtain ⟨hoctet, hcount⟩ := readOctet_eq_inl_true_iff.1 h
    refine ⟨[host], List.cons_ne_nil _ _, by simpa using hoctet, hcount, ?_⟩
    simp [join, List.intercalate]
  | next h _ ih =>
    obtain ⟨octet, hoctet, rfl, rfl⟩ := readOctet_eq_inr_iff.1 h
    obtain ⟨octets, hne, hoctets, hcount, rfl⟩ := ih hverdict
    refine ⟨octet :: octets, List.cons_ne_nil _ _, ?_, ?_, Text.join_cons hne⟩
    · exact List.forall_mem_cons.2 ⟨hoctet, hoctets⟩
    · rw [List.length_cons]
      omega

/-- Octets that make four with those before are read with a favourable verdict, one a round. -/
theorem reads_join (hne : octets ≠ []) (hoctets : ∀ octet ∈ octets, Octet octet)
    (hcount : count + octets.length = 4) :
    Reads count (join "." octets) octets.length true := by
  induction octets generalizing count with
  | nil => exact absurd rfl hne
  | cons octet octets ih =>
    obtain ⟨hoctet, hrest⟩ := List.forall_mem_cons.1 hoctets
    rw [List.length_cons] at hcount
    by_cases hlast : octets = []
    · subst hlast
      have hjoin : join "." [octet] = octet := by simp [join, List.intercalate]
      rw [hjoin]
      exact .stop (readOctet_eq_inl_true_iff.2 ⟨hoctet, hcount⟩)
    · rw [Text.join_cons hlast]
      refine .next (readOctet_eq_inr_iff.2 ⟨octet, hoctet, rfl, rfl⟩) (ih hlast hrest ?_)
      omega

theorem isDottedQuad_iff : isDottedQuad host = true ↔ DottedQuad host := by
  obtain ⟨rounds, -, hreads⟩ := exists_reads 0 host
  constructor
  · intro h
    rw [← isDottedQuad, h] at hreads
    obtain ⟨octets, -, hoctets, hcount, rfl⟩ := hreads.exists_octets
    rw [Nat.zero_add, List.length_eq_four] at hcount
    obtain ⟨a, b, c, d, rfl⟩ := hcount
    simp only [List.forall_mem_cons] at hoctets
    obtain ⟨ha, hb, hc, hd, -⟩ := hoctets
    exact ⟨a, b, c, d, ha, hb, hc, hd, by simp [join, List.intercalate]⟩
  · rintro ⟨a, b, c, d, ha, hb, hc, hd, rfl⟩
    have hjoin : join "." [a, b, c, d] = a ++ "." ++ b ++ "." ++ c ++ "." ++ d := by
      simp [join, List.intercalate]
    have hquad : Reads 0 (join "." [a, b, c, d]) 4 true :=
      reads_join (List.cons_ne_nil _ _) (by simp [ha, hb, hc, hd]) rfl
    rw [hjoin] at hquad
    exact (hquad.unique hreads).2

/-- The host of a URI that does not begin with a bracket is an address exactly if it is four octets
    with single dots between them.  Reading octets ends on every host, with a verdict that only the
    host and the octets before it decide. -/
theorem isIp_iff_dottedQuad :
    (∀ text u, parse? text = some u → u.components.host.head? ≠ some '['.toUInt8 →
      (u.isIp = true ↔ DottedQuad u.components.host)) ∧
    ∀ count host, ∃ rounds ≤ host.count '.'.toUInt8 + 1,
      Reads count host rounds (readOctets count host) := by
  refine ⟨?_, exists_reads⟩
  intro text u _ hfirst
  have hip : u.isIp = isDottedQuad u.components.host := by simp [isIp, hfirst]
  rw [hip, isDottedQuad_iff]

/-- A URI with an address behind the user and before the port. -/
def addressed : Uri where
  text := "http://me@10.0.255.09:80/a"
  components := {
    scheme := "http"
    authority := "me@10.0.255.09:80"
    host := "10.0.255.09"
    path := "/a"
    query := none
    fragment := none }
  ofText?_eq := by decide +kernel

theorem isIp_iff_dottedQuad_addressed :
    parse? "http://me@10.0.255.09:80/a" = some addressed ∧
      addressed.components.host.head? ≠ some '['.toUInt8 ∧
      addressed.isIp = true ∧ DottedQuad "10.0.255.09" := by
  have hread : parse? "http://me@10.0.255.09:80/a" = some addressed := parse?_text addressed
  have hfirst : addressed.components.host.head? ≠ some '['.toUInt8 := by decide
  have hip : addressed.isIp = true := by cbv
  exact ⟨hread, hfirst, hip, (isIp_iff_dottedQuad.1 _ _ hread hfirst).1 hip⟩

end EndpointRules.Uri
