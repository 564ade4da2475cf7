import Mathlib.Data.Finset.Max
import Mathlib.Data.List.Basic
import EndpointRules.Proofs.Program.Bodies

/-!
# Ranges of bodies

The bodies of a program, of conditions and of results alike, divide its code: a body ends where the
next one starts or where the code ends, so two bodies either are the same stretch of code or have no
address in common, in whatever order their offsets are listed.  Code that is longer than addresses
tell has no address for its end, and then the last body is no such stretch, while the others still
are.
-/

namespace EndpointRules

namespace Parts

variable {p : Parts} {starts : List Nat} {size start a : Nat}

/-! ## Where bodies start -/

theorem getD_foldl_mark (offsets : List Nat) (marks : Array Bool) (a : Nat) :
    (offsets.foldl (fun marks a => marks.setIfInBounds a true) marks).getD a false = true ↔
      marks.getD a false = true ∨ a < marks.size ∧ a ∈ offsets := by
  induction offsets generalizing marks with
  | nil => simp
  | cons b offsets ih =>
    rw [List.foldl_cons, ih, Array.size_setIfInBounds, Array.getD_eq_getD_getElem?,
      Array.getD_eq_getD_getElem?, Array.getElem?_setIfInBounds]
    by_cases hb : b = a
    · by_cases ha : a < marks.size
      · simp [hb, ha]
      · simp [hb, ha]
    · simp [hb, Ne.symm hb]

/-- The starts are the offsets of both sorts that lie inside the code. -/
theorem mem_starts_iff :
    a ∈ p.starts ↔ a < p.code.size ∧ (a ∈ p.conditions ∨ a ∈ p.results) := by
  have hclear : (Array.replicate p.code.size false).getD a false = false := by
    rw [Array.getD_eq_getD_getElem?, Array.getElem?_replicate]
    by_cases ha : a < p.code.size
    · simp [ha]
    · simp [ha]
  simp only [starts, List.mem_filter, List.mem_range, ← Array.foldl_toList]
  rw [getD_foldl_mark, hclear, Array.size_replicate, Array.toList_append, List.mem_append]
  simp

theorem pairwise_starts (p : Parts) : p.starts.Pairwise (· < ·) :=
  List.Pairwise.filter _ List.pairwise_lt_range

/-! ## Where bodies end -/

/-- Behind the last start the code ends, behind any other one there is a next one. -/
theorem endAfter_cases (starts : List Nat) (size start : Nat) :
    (endAfter starts size start = address size ∧ ∀ a ∈ starts, a ≤ start) ∨
      (endAfter starts size start ∈ starts ∧ start < endAfter starts size start) := by
  unfold endAfter
  cases hfind : starts.find? (start < ·) with
  | none =>
    refine .inl ⟨rfl, fun a ha => ?_⟩
    simpa using List.find?_eq_none.1 hfind a ha
  | some a => exact .inr ⟨List.mem_of_find?_eq_some hfind, by simpa using List.find?_some hfind⟩

/-- No start lies between a start and its end. -/
theorem endAfter_le_of_mem (hsorted : starts.Pairwise (· < ·)) (ha : a ∈ starts)
    (hlt : start < a) : endAfter starts size start ≤ a := by
  unfold endAfter
  cases hfind : starts.find? (start < ·) with
  | none =>
    have hnone := List.find?_eq_none.1 hfind a ha
    simp [hlt] at hnone
  | some b =>
    obtain ⟨_, before, after, rfl, hbefore⟩ := List.find?_eq_some_iff_append.1 hfind
    have hafter := (List.pairwise_cons.1 (List.pairwise_append.1 hsorted).2.1).1
    rcases List.mem_append.1 ha with ha | ha
    · have hnot := hbefore a ha
      simp [hlt] at hnot
    · rcases List.mem_cons.1 ha with ha | ha
      · exact Nat.le_of_eq ha.symm
      · exact Nat.le_of_lt (hafter a ha)

end Parts

namespace Program

variable {p : Program} {sort sort' : BodySort} {index index' a start : Nat} {body body' : Body}

theorem mem_starts_iff : a ∈ p.starts ↔ ∃ sort, a ∈ p.offsets sort := by
  rw [p.starts_eq, Parts.mem_starts_iff]
  constructor
  · intro ⟨_, h⟩
    rcases h with h | h
    · exact ⟨.condition, h⟩
    · exact ⟨.result, h⟩
  · intro ⟨sort, h⟩
    refine ⟨p.offset_lt_size sort a h, ?_⟩
    cases sort with
    | condition => exact .inl h
    | result => exact .inr h

theorem stopOf_le_of_mem (h : a ∈ p.offsets sort) (hlt : start < a) : p.stopOf start ≤ a := by
  apply Parts.endAfter_le_of_mem _ (mem_starts_iff.2 ⟨sort, h⟩) hlt
  rw [p.starts_eq]
  exact p.parts.pairwise_starts

theorem start_mem_offsets (h : p.body? sort index = some body) : body.start ∈ p.offsets sort := by
  obtain ⟨start, hstart, rfl⟩ := body?_eq_some_iff.1 h
  exact Array.mem_of_getElem? hstart

theorem stop_eq (h : p.body? sort index = some body) : body.stop = p.stopOf body.start := by
  obtain ⟨start, _, rfl⟩ := body?_eq_some_iff.1 h
  rfl

theorem exists_body_of_mem_offsets (h : a ∈ p.offsets sort) :
    ∃ index body, p.body? sort index = some body ∧ body.start = a := by
  obtain ⟨index, hlt, rfl⟩ := Array.mem_iff_getElem.1 h
  refine ⟨index, _, body?_eq_some_iff.2 ⟨_, Array.getElem?_eq_getElem hlt, rfl⟩, rfl⟩

/-- The body is a stretch of the code that ends with the code or where another body starts.  No body
    starts inside of it, and any other one, of whichever sort, is the same stretch or has no address
    in common with it. -/
structure Separate (p : Program) (body : Body) : Prop where
  start_lt : body.start < body.stop
  inside : body.stop ≤ p.code.size
  ends : body.stop = p.code.size ∨ ∃ sort' index' body',
    p.body? sort' index' = some body' ∧ body'.start = body.stop
  whole : ∀ sort', ∀ a ∈ p.offsets sort', ¬ (body.start < a ∧ a < body.stop)
  apart : ∀ sort' index' body', p.body? sort' index' = some body' →
    body.start = body'.start ∧ body.stop = body'.stop ∨
      body.start ≠ body'.start ∧ (body.stop ≤ body'.start ∨ body'.stop ≤ body.start)

/-- No body starts above the start of the body. -/
def IsLast (p : Program) (body : Body) : Prop := ∀ sort, ∀ a ∈ p.offsets sort, a ≤ body.start

/-- The last body ends with the code, any other one where another body starts. -/
theorem stop_cases (hbody : p.body? sort index = some body) :
    (body.stop = address p.code.size ∧ p.IsLast body) ∨
      ((∃ sort', body.stop ∈ p.offsets sort') ∧ body.start < body.stop) := by
  rw [stop_eq hbody]
  refine (Parts.endAfter_cases p.starts p.code.size body.start).imp ?_ ?_
  · exact fun ⟨hend, hlast⟩ => ⟨hend, fun sort a ha => hlast a (mem_starts_iff.2 ⟨sort, ha⟩)⟩
  · exact fun ⟨hend, hlt⟩ => ⟨mem_starts_iff.1 hend, hlt⟩

theorem stop_eq_of_isLast (hbody : p.body? sort index = some body) (hlast : p.IsLast body) :
    body.stop = address p.code.size := by
  rcases stop_cases hbody with ⟨hend, -⟩ | ⟨⟨sort', hstop⟩, hlt⟩
  · exact hend
  · exact absurd (hlast sort' _ hstop) (Nat.not_le.2 hlt)

theorem apart_of_body? (hbody : p.body? sort index = some body)
    (hbody' : p.body? sort' index' = some body') :
    body.start = body'.start ∧ body.stop = body'.stop ∨
      body.start ≠ body'.start ∧ (body.stop ≤ body'.start ∨ body'.stop ≤ body.start) := by
  rw [stop_eq hbody, stop_eq hbody']
  rcases Nat.lt_trichotomy body.start body'.start with hlt | heq | hlt
  · exact .inr ⟨Nat.ne_of_lt hlt, .inl (stopOf_le_of_mem (start_mem_offsets hbody') hlt)⟩
  · exact .inl ⟨heq, by rw [heq]⟩
  · exact .inr ⟨Nat.ne_of_gt hlt, .inr (stopOf_le_of_mem (start_mem_offsets hbody) hlt)⟩

theorem separate_of_body? (hbody : p.body? sort index = some body)
    (h : p.code.size < 0x100000000 ∨ ¬ p.IsLast body) : p.Separate body where
  start_lt := by
    rcases h with hsize | hnot
    · exact start_lt_stop hbody hsize
    · rcases stop_cases hbody with ⟨-, hlast⟩ | ⟨-, hlt⟩
      · exact absurd hlast hnot
      · exact hlt
  inside := stop_le_size hbody
  ends := by
    rcases stop_cases hbody with ⟨hend, hlast⟩ | ⟨⟨sort', hstop⟩, -⟩
    · rw [address_of_lt (h.resolve_right (not_not_intro hlast))] at hend
      exact .inl hend
    · exact .inr ⟨sort', exists_body_of_mem_offsets hstop⟩
  whole := by
    intro sort' a ha ⟨hstart, hstop⟩
    rw [stop_eq hbody] at hstop
    exact Nat.not_lt.2 (stopOf_le_of_mem ha hstart) hstop
  apart sort' index' body' := apart_of_body? hbody

/-- In code that is longer than addresses tell, the last body ends neither with the code nor where
    another body starts. -/
theorem not_separate_of_isLast (hbody : p.body? sort index = some body)
    (hsize : 0x100000000 ≤ p.code.size) (hlast : p.IsLast body) : ¬ p.Separate body := by
  intro h
  have hstop := stop_eq_of_isLast hbody hlast
  have hlt := address_lt p.code.size
  rcases h.ends with heq | ⟨sort', index', body', hbody', heq⟩
  · omega
  · have hle := hlast sort' _ (start_mem_offsets hbody')
    have hstart := h.start_lt
    omega

/-- Of the bodies of a program, if it has any, one is the last. -/
theorem exists_isLast (h : ∃ sort index, p.body? sort index ≠ none) :
    ∃ sort index body, p.body? sort index = some body ∧ p.IsLast body := by
  obtain ⟨sort, index, hbody⟩ := h
  obtain ⟨body, hbody⟩ := Option.ne_none_iff_exists'.1 hbody
  have hmem : body.start ∈ p.starts.toFinset :=
    List.mem_toFinset.2 (mem_starts_iff.2 ⟨sort, start_mem_offsets hbody⟩)
  obtain ⟨a, ha, hmax⟩ := p.starts.toFinset.exists_max_image id ⟨_, hmem⟩
  obtain ⟨sort', hoffset⟩ := mem_starts_iff.1 (List.mem_toFinset.1 ha)
  obtain ⟨index', body', hbody', rfl⟩ := exists_body_of_mem_offsets hoffset
  refine ⟨sort', index', body', hbody', fun sort'' b hb => ?_⟩
  exact hmax b (List.mem_toFinset.2 (mem_starts_iff.2 ⟨sort'', hb⟩))

/-- A body is a stretch of the code, ends with the code or where another body starts, and has no
    address in common with bodies that start elsewhere, exactly if there are addresses for the whole
    code or the body is not the last one.  So all bodies of a program are like that exactly if there
    are addresses for its code or it has no bodies. -/
theorem separate_iff (p : Program) :
    (∀ sort index body, p.body? sort index = some body →
      (p.Separate body ↔ p.code.size < 0x100000000 ∨ ¬ p.IsLast body)) ∧
    ((∀ sort index body, p.body? sort index = some body → p.Separate body) ↔
      p.code.size < 0x100000000 ∨ ∀ sort index, p.body? sort index = none) := by
  have hbody : ∀ sort index body, p.body? sort index = some body →
      (p.Separate body ↔ p.code.size < 0x100000000 ∨ ¬ p.IsLast body) := by
    intro sort index body hbody
    constructor
    · intro hseparate
      by_contra hnot
      obtain ⟨hsize, hlast⟩ := not_or.1 hnot
      exact not_separate_of_isLast hbody (Nat.le_of_not_lt hsize) (not_not.1 hlast) hseparate
    · exact separate_of_body? hbody
  refine ⟨hbody, ?_⟩
  constructor
  · intro hall
    by_contra hnot
    obtain ⟨hsize, hsome⟩ := not_or.1 hnot
    simp only [not_forall] at hsome
    obtain ⟨sort, index, body, hlastBody, hlast⟩ := exists_isLast hsome
    exact not_separate_of_isLast hlastBody (Nat.le_of_not_lt hsize) hlast
      (hall sort index body hlastBody)
  · rintro (hsize | hnone) sort index body hsome
    · exact separate_of_body? hsome (.inl hsize)
    · cases (hnone sort index).symm.trans hsome

/-- Four bodies whose offsets are neither in order nor all different. -/
def interleaved : Program where
  parts := {
    code := #[0x28, 0x28, 0x28, 0x28]
    conditions := #[2, 0, 2]
    results := #[1]
    diagram := { entries := #[], root := 1 } }
  starts := [0, 1, 2]
  starts_eq := by decide
  check_eq := by cbv

theorem separate_interleaved :
    interleaved.body? .result 0 = some ⟨.result, 0, 1, 2⟩ ∧
      interleaved.body? .condition 0 = some ⟨.condition, 0, 2, 4⟩ ∧
      interleaved.Separate ⟨.result, 0, 1, 2⟩ ∧ interleaved.Separate ⟨.condition, 0, 2, 4⟩ := by
  have hfirst : interleaved.body? .result 0 = some ⟨.result, 0, 1, 2⟩ := rfl
  have hlast : interleaved.body? .condition 0 = some ⟨.condition, 0, 2, 4⟩ := rfl
  have hsize : interleaved.code.size < 0x100000000 := by decide
  exact ⟨hfirst, hlast, ((separate_iff interleaved).1 _ _ _ hfirst).2 (.inl hsize),
    ((separate_iff interleaved).1 _ _ _ hlast).2 (.inl hsize)⟩

/-- Code of some bytes that are no opcodes, and one result that starts at address 100. -/
def oneResult (size : Nat) (h : 100 < size) : Program :=
  .ofCallsNothing
    { code := Parts.padded size #[]
      results := #[100]
      diagram := { entries := #[], root := Reference.resultOffset } }
    { sizes := by simp [Parts.checkSizes_eq_ok_iff]
      names := rfl
      conditions := by simp
      results := by simpa using h
      diagram := by
        show Diagram.validate { entries := #[], root := Reference.resultOffset } 0 1 = .ok ()
        decide }
    (Parts.callsNothing_padded size (by simp [Parts.CallsNothing]))

theorem size_oneResult (size : Nat) (h : 100 < size) : (oneResult size h).code.size = size :=
  Parts.size_padded

theorem isLast_oneResult (size : Nat) (h : 100 < size) (index stop : Nat) :
    (oneResult size h).IsLast ⟨.result, index, 100, stop⟩ := by
  intro sort a ha
  cases sort with
  | condition => cases Array.not_mem_empty a ha
  | result => exact Nat.le_of_eq (Array.mem_singleton.1 ha)

theorem body?_oneResult (size : Nat) (h : 100 < size) :
    (oneResult size h).body? .result 0 = some ⟨.result, 0, 100, address size⟩ := by
  have hbody : (oneResult size h).body? .result 0 =
      some ⟨.result, 0, 100, (oneResult size h).stopOf 100⟩ := rfl
  have hstop := stop_eq_of_isLast hbody (isLast_oneResult size h _ _)
  rw [size_oneResult] at hstop
  rw [hbody, ← hstop]

/-- With five bytes more than there are addresses the body ends at address 5, before it starts. -/
theorem not_separate_oneResult :
    let p := oneResult (0x100000000 + 5) (by decide)
    p.code.size = 0x100000000 + 5 ∧ p.body? .result 0 = some ⟨.result, 0, 100, 5⟩ ∧
      ¬ p.Separate ⟨.result, 0, 100, 5⟩ := by
  intro p
  have hbody : p.body? .result 0 = some ⟨.result, 0, 100, 5⟩ := body?_oneResult _ _
  exact ⟨size_oneResult _ _, hbody, fun h => absurd h.start_lt (by decide)⟩

end Program

end EndpointRules
