import EndpointRules.Proofs.Assembler.Jumps

/-!
# Misuse of labels

The misuses of labels are told from the calls alone: those that a single call amounts to, in the
order of the calls, and behind them the labels that jumps lead to and no call marks.  The numbers
that they tell are of 32 bits, what is a misuse is not.
-/

namespace EndpointRules.Assembler

variable {calls before : List Call} {e : CompileError} {l m offset : Nat}

/-! ## Misuses -/

/-- Whether the call makes a label. -/
def Call.makesLabel : Call → Bool
  | label => true
  | _ => false

/-- The number of labels that calls make. -/
def labelCount (calls : List Call) : Nat := calls.countP Call.makesLabel

/-- The misuses of labels that a call amounts to, `before` being the calls before it.  The jumps
    that a mark is too far from are in the order in which they were written. -/
def Call.misuses (before : List Call) : Call → List CompileError
  | jump l =>
    if labelCount before ≤ l then [.unknownLabel l]
    else if offsetsOf (marks l) before ≠ [] then [.backwardJump l (address (extent before))]
    else []
  | mark l =>
    if labelCount before ≤ l then [.unknownLabel l]
    else if offsetsOf (marks l) before ≠ [] then [.labelMarkedTwice l]
    else (offsetsOf (jumpsTo l) before).filterMap (tooLong? (extent before))
  | _ => []

/-- The misuses that calls amount to one by one, `before` being the calls before the first. -/
def misusesAfter (before : List Call) : List Call → List CompileError
  | [] => []
  | c :: calls => c.misuses before ++ misusesAfter (before ++ [c]) calls

/-- The labels that jumps lead to and no call marks, in ascending order. -/
def unmarked (calls : List Call) : List Nat :=
  (List.range (labelCount calls)).filter fun l =>
    offsetsOf (Call.jumpsTo l) calls ≠ [] ∧ offsetsOf (Call.marks l) calls = []

/-- All misuses of labels: first those of single calls, in the order of the calls, and then the
    labels that are never marked. -/
def misuses (calls : List Call) : List CompileError :=
  misusesAfter [] calls ++ (unmarked calls).map .labelNeverMarked

/-- There is no such label after calls, or it is marked already.  A mark counts even if its label
    was unknown then, such a mark being a misuse itself. -/
def Closed (calls : List Call) (l : Nat) : Prop :=
  labelCount calls ≤ l ∨ offsetsOf (Call.marks l) calls ≠ []

/-- Some label is misused by calls. -/
inductive Misused (calls : List Call) : Prop
  /-- A jump leads to a label that is unknown or marked already. -/
  | jump {before after : List Call} {l : Nat} (calls_eq : calls = before ++ .jump l :: after)
      (closed : Closed before l)
  /-- A label is marked that is unknown or marked already. -/
  | mark {before after : List Call} {l : Nat} (calls_eq : calls = before ++ .mark l :: after)
      (closed : Closed before l)
  /-- A label is marked too far behind the operand of a jump to it. -/
  | far {before after : List Call} {l offset : Nat}
      (calls_eq : calls = before ++ .mark l :: after)
      (jumps : offset ∈ offsetsOf (Call.jumpsTo l) before)
      (far : 0xFFFF < extent before - (offset + 2))
  /-- A jump leads to a label that is never marked. -/
  | unmarked {l : Nat} (jumps : offsetsOf (Call.jumpsTo l) calls ≠ [])
      (marks : offsetsOf (Call.marks l) calls = [])

@[simp] theorem labelCount_append (calls calls' : List Call) :
    labelCount (calls ++ calls') = labelCount calls + labelCount calls' :=
  List.countP_append

theorem misusesAfter_append_singleton (before calls : List Call) (c : Call) :
    misusesAfter before (calls ++ [c]) =
      misusesAfter before calls ++ c.misuses (before ++ calls) := by
  induction calls generalizing before with
  | nil => simp [misusesAfter]
  | cons d calls ih => simp [misusesAfter, ih]

/-- A misuse of single calls is one of some call. -/
theorem mem_misusesAfter :
    e ∈ misusesAfter before calls ↔
      ∃ done c rest, calls = done ++ c :: rest ∧ e ∈ c.misuses (before ++ done) := by
  induction calls generalizing before with
  | nil => simp [misusesAfter]
  | cons d calls ih =>
    rw [misusesAfter, List.mem_append, ih]
    constructor
    · intro h
      rcases h with h | ⟨done, c, rest, rfl, h⟩
      · exact ⟨[], d, calls, rfl, by simpa using h⟩
      · exact ⟨d :: done, c, rest, rfl, by simpa using h⟩
    · intro ⟨done, c, rest, heq, h⟩
      cases done with
      | nil =>
        cases heq
        exact .inl (by simpa using h)
      | cons d' done =>
        cases heq
        exact .inr ⟨done, c, rest, rfl, by simpa using h⟩

theorem mem_unmarked :
    l ∈ unmarked calls ↔ l < labelCount calls ∧ offsetsOf (Call.jumpsTo l) calls ≠ [] ∧
      offsetsOf (Call.marks l) calls = [] := by
  simp [unmarked]

/-- A misuse is an invalid jump that an assembler notices, or else a jump that is too long. -/
theorem mem_misuses_cases (h : e ∈ misuses calls) :
    e.kind = .invalidJump ∧ e.isNoticed = true ∨
      ∃ m offset, m ≤ extent calls ∧ 0xFFFF < m - (offset + 2) ∧
        e = .jumpTooLong (address (m - (offset + 2))) (address offset) := by
  rcases List.mem_append.1 h with h | h
  · obtain ⟨done, c, rest, heq, h⟩ := mem_misusesAfter.1 h
    rw [List.nil_append] at h
    cases c with
    | jump l =>
      simp only [Call.misuses] at h
      split at h
      · obtain rfl := List.mem_singleton.1 h
        exact .inl ⟨rfl, rfl⟩
      split at h
      · obtain rfl := List.mem_singleton.1 h
        exact .inl ⟨rfl, rfl⟩
      · cases h
    | mark l =>
      simp only [Call.misuses] at h
      split at h
      · obtain rfl := List.mem_singleton.1 h
        exact .inl ⟨rfl, rfl⟩
      split at h
      · obtain rfl := List.mem_singleton.1 h
        exact .inl ⟨rfl, rfl⟩
      · obtain ⟨offset, -, h⟩ := List.mem_filterMap.1 h
        obtain ⟨hfar, rfl⟩ := tooLong?_eq_some_iff.1 h
        refine .inr ⟨extent done, offset, ?_, hfar, rfl⟩
        rw [heq, extent_append]
        exact Nat.le_add_right _ _
    | _ => cases h
  · obtain ⟨l, -, rfl⟩ := List.mem_map.1 h
    exact .inl ⟨rfl, rfl⟩

/-- All misuses of labels are invalid jumps. -/
theorem kind_of_mem_misuses (h : e ∈ misuses calls) : e.kind = .invalidJump := by
  rcases mem_misuses_cases h with ⟨hkind, -⟩ | ⟨m, offset, -, -, rfl⟩
  · exact hkind
  · rfl

/-- An assembler notices all misuses if calls append less bytes than there are addresses. -/
theorem isNoticed_of_mem_misuses (hextent : extent calls < 0x100000000) (h : e ∈ misuses calls) :
    e.isNoticed = true := by
  rcases mem_misuses_cases h with ⟨-, hnoticed⟩ | ⟨m, offset, hinside, hfar, rfl⟩
  · exact hnoticed
  · rw [CompileError.isNoticed, address_of_lt (by omega)]
    exact decide_eq_true hfar

/-- A call on a closed label is a misuse. -/
theorem Closed.misuses_ne_nil (h : Closed before l) :
    (Call.jump l).misuses before ≠ [] ∧ (Call.mark l).misuses before ≠ [] := by
  unfold Call.misuses
  by_cases hcount : labelCount before ≤ l
  · simp [hcount]
  · have hmarks := h.resolve_left hcount
    simp [hcount, hmarks]

/-- A jump to a label that is not closed is no misuse, and a mark of it is one only if it is too
    far from a jump. -/
theorem misuses_of_not_closed (h : ¬ Closed before l) :
    (Call.jump l).misuses before = [] ∧
      (Call.mark l).misuses before =
        (offsetsOf (Call.jumpsTo l) before).filterMap (tooLong? (extent before)) := by
  obtain ⟨hcount, hmarks⟩ := not_or.1 h
  simp [Call.misuses, hcount, hmarks]

theorem Misused.misuses_ne_nil (h : Misused calls) : misuses calls ≠ [] := by
  have hcall : ∀ {done c rest}, calls = done ++ c :: rest → c.misuses done ≠ [] →
      misuses calls ≠ [] := by
    intro done c rest heq hne
    obtain ⟨e, he⟩ := List.exists_mem_of_ne_nil _ hne
    apply List.append_ne_nil_of_left_ne_nil
    exact List.ne_nil_of_mem (mem_misusesAfter.2 ⟨done, c, rest, heq, he⟩)
  cases h with
  | jump heq hclosed => exact hcall heq hclosed.misuses_ne_nil.1
  | mark heq hclosed => exact hcall heq hclosed.misuses_ne_nil.2
  | @far before after l offset heq hjumps hfar =>
    apply hcall heq
    by_cases hclosed : Closed before l
    · exact hclosed.misuses_ne_nil.2
    · rw [(misuses_of_not_closed hclosed).2]
      have hlong := tooLong?_eq_some_iff.2 ⟨hfar, rfl⟩
      exact List.ne_nil_of_mem (List.mem_filterMap.2 ⟨offset, hjumps, hlong⟩)
  | @unmarked l hjumps hmarks =>
    by_cases hcount : labelCount calls ≤ l
    · -- the label is unknown at the end, and so it was at the jump
      obtain ⟨offset, hoffset⟩ := List.exists_mem_of_ne_nil _ hjumps
      obtain ⟨c, hplaced, hjump⟩ := mem_offsetsOf.1 hoffset
      obtain rfl : c = .jump l := by cases c <;> simp_all [Call.jumpsTo]
      obtain ⟨done, rest, heq⟩ := List.append_of_mem (mem_of_mem_placed hplaced)
      have hclosed : Closed done l := by
        left
        rw [heq, labelCount_append] at hcount
        omega
      exact hcall heq hclosed.misuses_ne_nil.1
    · have hmem := mem_unmarked.2 ⟨Nat.lt_of_not_le hcount, hjumps, hmarks⟩
      apply List.append_ne_nil_of_right_ne_nil
      exact List.ne_nil_of_mem (List.mem_map_of_mem hmem)

theorem misused_of_mem_misuses (h : e ∈ misuses calls) : Misused calls := by
  rcases List.mem_append.1 h with h | h
  · obtain ⟨done, c, rest, heq, h⟩ := mem_misusesAfter.1 h
    rw [List.nil_append] at h
    cases c with
    | jump l =>
      by_cases hclosed : Closed done l
      · exact .jump heq hclosed
      · rw [(misuses_of_not_closed hclosed).1] at h
        cases h
    | mark l =>
      by_cases hclosed : Closed done l
      · exact .mark heq hclosed
      · rw [(misuses_of_not_closed hclosed).2] at h
        obtain ⟨offset, hjumps, h⟩ := List.mem_filterMap.1 h
        exact .far heq hjumps (tooLong?_eq_some_iff.1 h).1
    | _ => cases h
  · obtain ⟨l, hl, -⟩ := List.mem_map.1 h
    obtain ⟨-, hjumps, hmarks⟩ := mem_unmarked.1 hl
    exact .unmarked hjumps hmarks

/-- Labels are misused exactly when there is a misuse. -/
theorem misused_iff : Misused calls ↔ misuses calls ≠ [] := by
  refine ⟨Misused.misuses_ne_nil, ?_⟩
  intro h
  obtain ⟨e, he⟩ := List.exists_mem_of_ne_nil _ h
  exact misused_of_mem_misuses he

-- A call on a marked label comes before a label that is never marked, whatever their numbers.
example : misuses [.label, .label, .jump 0, .mark 1, .jump 1, .mark 1] =
    [.backwardJump 1 2, .labelMarkedTwice 1, .labelNeverMarked 0] := by decide

end EndpointRules.Assembler
