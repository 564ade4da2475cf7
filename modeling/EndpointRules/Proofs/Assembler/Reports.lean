import EndpointRules.Proofs.Assembler.Misuse
import EndpointRules.Proofs.Program.Bodies

/-!
# Reports of misused labels

The error that an assembler remembers is the first misuse that it notices among those that single
calls amount to, and a build reports it, or else the lowest label that is never marked.  So the
build after calls fails with an invalid jump exactly when there is a misuse, and later builds report
the same one, unless the first misuse is a jump that is too long and looks short in 32 bits.
-/

namespace EndpointRules.Assembler

variable {a : Assembler} {calls : List Call} {c : Call} {e : CompileError}
  {registers : Array Register} {functions : List Function} {diagram : Diagram}

/-! ## The error that an assembler remembers -/

theorem exists_patch_eq (target : Nat) (a : Assembler) (offset : Nat) :
    ∃ code error, patch target a offset = { a with code, error } := by
  unfold patch
  by_cases hfar : 0xFFFF < addressDistance (offset + 2) target
  · simp only [hfar, if_true]
    exact ⟨a.code, _, rfl⟩
  · simp only [hfar, if_false]
    exact ⟨_, a.error, rfl⟩

/-- Completing jumps changes nothing but the code and the error. -/
theorem exists_foldl_patch_eq (m : Nat) (a : Assembler) (offsets : List Nat) :
    ∃ code error, offsets.foldl (patch m) a = { a with code, error } := by
  induction offsets generalizing a with
  | nil => exact ⟨a.code, a.error, rfl⟩
  | cons offset offsets ih =>
    obtain ⟨code, error, hpatch⟩ := exists_patch_eq m a offset
    obtain ⟨code', error', hrest⟩ := ih (patch m a offset)
    rw [List.foldl_cons, hrest, hpatch]
    exact ⟨code', error', rfl⟩

theorem labels_foldl_patch (m : Nat) (a : Assembler) (offsets : List Nat) :
    (offsets.foldl (patch m) a).labels = a.labels := by
  obtain ⟨code, error, hpatch⟩ := exists_foldl_patch_eq m a offsets
  rw [hpatch]

/-- An assembler has the labels that calls made, whatever has gone wrong. -/
theorem size_labels_ofCalls (hrefused : Refused calls) :
    (ofCalls calls).labels.size = labelCount calls := by
  induction calls using List.reverseRecOn with
  | nil => rfl
  | append_singleton calls c ih =>
    have hbefore := ih hrefused.of_append_singleton
    rw [ofCalls_append_singleton, labelCount_append, ← hbefore]
    cases c with
    | label => exact Array.size_push _
    | jump l =>
      simp only [Call.apply, jump]
      split
      · rfl
      · rfl
      · exact Array.size_setIfInBounds
    | mark l =>
      simp only [Call.apply, mark]
      split
      · rfl
      · rfl
      · rw [← Array.foldl_toList, labels_foldl_patch]
        exact Array.size_setIfInBounds
    | startBody sort => cases sort <;> rfl
    | build registers functions diagram =>
      rw [hrefused.apply_build]
      rfl
    | _ => rfl

/-- What the assembler has recorded of a label decides whether it is closed. -/
theorem Records.closed_cases (h : a.Records calls) (hsize : a.labels.size = labelCount calls)
    (l : Nat) :
    (a.labels[l]? = none ∧ labelCount calls ≤ l) ∨
      (∃ m, a.labels[l]? = some { position := some m } ∧ l < labelCount calls ∧
        offsetsOf (Call.marks l) calls ≠ []) ∨
      ∃ pending, a.labels[l]? = some { position := none, pending } ∧ ¬ Closed calls l ∧
        pending.toList = (offsetsOf (Call.jumpsTo l) calls).map address := by
  have hrecorded := h.labels l
  cases hlabel : a.labels[l]? with
  | none =>
    left
    rw [← hsize]
    exact ⟨rfl, Array.getElem?_eq_none_iff.1 hlabel⟩
  | some label =>
    right
    obtain ⟨hlt, -⟩ := Array.getElem?_eq_some_iff.1 hlabel
    rw [hsize] at hlt
    rw [hlabel] at hrecorded
    obtain ⟨position, pending⟩ := label
    cases position with
    | none =>
      obtain ⟨hmarks, hjumps⟩ := hrecorded
      refine .inr ⟨pending, rfl, ?_, hjumps⟩
      intro hclosed
      rcases hclosed with hcount | hmarked
      · omega
      · exact hmarked hmarks
    | some position =>
      obtain ⟨rfl, m, hmarks, -⟩ := hrecorded
      exact .inl ⟨position, rfl, hlt, by simp [hmarks]⟩

/-- Without an error so far a call leaves the first of its misuses that is noticed as the error. -/
theorem Records.error_apply (h : (ofCalls calls).Records calls)
    (hrefused : Refused (calls ++ [c])) (herror : (ofCalls calls).error = none) :
    (c.apply (ofCalls calls)).error = (c.misuses calls).find? CompileError.isNoticed := by
  have hsize := size_labels_ofCalls hrefused.of_append_singleton
  cases c with
  | jump l =>
    have hshort : ((ofCalls calls).short 0).error = none := herror
    have hlabels : ((ofCalls calls).short 0).labels = (ofCalls calls).labels := rfl
    simp only [Call.apply, jump, hlabels]
    rcases h.closed_cases hsize l with ⟨hlabel, hcount⟩ | ⟨m, hlabel, hcount, hmarks⟩ |
      ⟨pending, hlabel, hopen, -⟩
    · simp [hlabel, Call.misuses, hcount, hshort, CompileError.isNoticed]
    · simp [hlabel, Call.misuses, Nat.not_le.2 hcount, hmarks, hshort, h.position_eq,
        CompileError.isNoticed]
    · rw [hlabel, (misuses_of_not_closed hopen).1]
      exact hshort
  | mark l =>
    simp only [Call.apply, mark]
    rcases h.closed_cases hsize l with ⟨hlabel, hcount⟩ | ⟨m, hlabel, hcount, hmarks⟩ |
      ⟨pending, hlabel, hopen, hjumps⟩
    · simp [hlabel, Call.misuses, hcount, herror, CompileError.isNoticed]
    · simp [hlabel, Call.misuses, Nat.not_le.2 hcount, hmarks, herror, CompileError.isNoticed]
    · rw [hlabel, (misuses_of_not_closed hopen).2, h.position_eq]
      dsimp only
      rw [← Array.foldl_toList, hjumps, error_foldl_patch fun _ => add_two_le_extent, herror,
        Option.none_or]
  | startBody sort => cases sort <;> exact herror
  | build registers functions diagram =>
    rw [hrefused.apply_build]
    exact herror
  | _ => exact herror

/-- The error that an assembler remembers is the first noticed misuse of single calls. -/
theorem error_ofCalls (hrefused : Refused calls) :
    (ofCalls calls).error = (misusesAfter [] calls).find? CompileError.isNoticed := by
  induction calls using List.reverseRecOn with
  | nil => rfl
  | append_singleton calls c ih =>
    have hbefore := hrefused.of_append_singleton
    rw [ofCalls_append_singleton, misusesAfter_append_singleton, List.find?_append, ← ih hbefore,
      List.nil_append]
    cases herror : (ofCalls calls).error with
    | some e => rw [error_apply_of_eq_some hrefused herror, Option.some_or]
    | none => rw [(records_ofCalls hbefore herror).error_apply hrefused herror, Option.none_or]

theorem findIdx?_eq_find?_range {α : Type} {xs : Array α} {p : α → Bool} {q : Nat → Bool}
    (h : ∀ i, (hi : i < xs.size) → p xs[i] = q i) :
    xs.findIdx? p = (List.range xs.size).find? q := by
  ext i
  rw [Array.findIdx?_eq_some_iff_getElem, List.find?_range_eq_some, List.mem_range]
  constructor
  · intro ⟨hi, hp, hbefore⟩
    refine ⟨(h i hi).symm.trans hp, hi, ?_⟩
    intro j hj
    have hnot := hbefore j hj
    rw [h j (hj.trans hi)] at hnot
    simp [hnot]
  · intro ⟨hq, hi, hbefore⟩
    refine ⟨hi, (h i hi).trans hq, ?_⟩
    intro j hj
    rw [h j (hj.trans hi)]
    simpa using hbefore j hj

/-- The first label that jumps wait for is the lowest that is jumped to and never marked. -/
theorem Records.findIdx?_pending (h : a.Records calls) (hsize : a.labels.size = labelCount calls) :
    a.labels.findIdx? (!·.pending.isEmpty) = (unmarked calls).head? := by
  rw [unmarked, List.head?_filter, ← hsize]
  apply findIdx?_eq_find?_range
  intro l hl
  have hlabel : a.labels[l]? = some a.labels[l] := Array.getElem?_eq_getElem hl
  rcases h.closed_cases hsize l with ⟨hnone, -⟩ | ⟨m, hmarked, -, hmarks⟩ |
    ⟨pending, hopen, hclosed, hjumps⟩
  · rw [hlabel] at hnone
    cases hnone
  · rw [Option.some.inj (hlabel.symm.trans hmarked)]
    simp [hmarks]
  · have hmarks : offsetsOf (Call.marks l) calls = [] :=
      Decidable.not_not.1 (not_or.1 hclosed).2
    rw [Option.some.inj (hlabel.symm.trans hopen), hmarks]
    dsimp only
    rw [← Array.isEmpty_toList, hjumps]
    by_cases hempty : offsetsOf (Call.jumpsTo l) calls = []
    · simp [hempty]
    · simp [hempty]

/-! ## Builds -/

/-- The misuse of a label that a build would report. -/
def misuse? (a : Assembler) : Option CompileError :=
  a.error.or ((a.labels.findIdx? (!·.pending.isEmpty)).map .labelNeverMarked)

theorem find?_map_labelNeverMarked (labels : List Nat) :
    (labels.map CompileError.labelNeverMarked).find? CompileError.isNoticed =
      labels.head?.map .labelNeverMarked := by
  cases labels <;> rfl

theorem misuse?_ofCalls (hrefused : Refused calls) :
    (ofCalls calls).misuse? = (misuses calls).find? CompileError.isNoticed := by
  have herror := error_ofCalls hrefused
  rw [misuse?, misuses, List.find?_append, ← herror]
  cases hnone : (ofCalls calls).error with
  | some e => rfl
  | none =>
    have hrecords := records_ofCalls hrefused hnone
    rw [hrecords.findIdx?_pending (size_labels_ofCalls hrefused), find?_map_labelNeverMarked]

/-- A misuse of a label is reported before anything else. -/
theorem parts_of_misuse? (h : a.misuse? = some e) :
    a.parts registers functions diagram = .error e := by
  unfold misuse? at h
  unfold Assembler.parts
  cases herror : a.error with
  | some e' =>
    rw [herror] at h
    cases h
    rfl
  | none =>
    rw [herror, Option.none_or] at h
    obtain ⟨l, hl, rfl⟩ := Option.map_eq_some_iff.1 h
    rw [hl]
    rfl

/-- The names of the functions without implementation, as the error about them shows them. -/
def missingNames (a : Assembler) (functions : List Function) : Bytes :=
  missingText (a.functions.items.toList.filter fun name => (implementation? functions name).isNone)

/-- What becomes of the tables without a misuse: the first of three reasons rejects them, or they
    are put together. -/
theorem parts_cases (hnone : a.misuse? = none) (registers : Array Register)
    (functions : List Function) (diagram : Diagram) :
    (0xFFFF < a.constants.size ∧
      a.parts registers functions diagram = .error (.tooManyConstants a.constants.size)) ∨
    (a.constants.size ≤ 0xFFFF ∧ 256 < a.functions.size ∧
      a.parts registers functions diagram = .error (.tooManyFunctions a.functions.size)) ∨
    (a.constants.size ≤ 0xFFFF ∧ a.functions.size ≤ 256 ∧ a.missingNames functions ≠ [] ∧
      a.parts registers functions diagram = .error (.missingFunctions (a.missingNames functions))) ∨
    (a.constants.size ≤ 0xFFFF ∧ a.functions.size ≤ 256 ∧ a.missingNames functions = [] ∧
      ∃ parts, a.parts registers functions diagram = .ok parts) := by
  obtain ⟨herror, hpending⟩ := Option.or_eq_none_iff.1 hnone
  unfold Assembler.parts
  rw [herror, Option.map_eq_none_iff.1 hpending]
  dsimp only
  split
  · next hconstants => exact .inl ⟨hconstants, rfl⟩
  next hconstants =>
  split
  · next hfunctions => exact .inr (.inl ⟨by omega, hfunctions, rfl⟩)
  next hfunctions =>
  split
  · next hmissing =>
    refine .inr (.inr (.inl ⟨by omega, by omega, ?_, rfl⟩))
    simpa [missingNames] using hmissing
  · next hmissing =>
    refine .inr (.inr (.inr ⟨by omega, by omega, ?_, _, rfl⟩))
    simpa [missingNames] using hmissing

/-- Without a misuse the tables are rejected for other reasons only. -/
theorem kind_of_parts_eq_error (hnone : a.misuse? = none)
    (h : a.parts registers functions diagram = .error e) :
    e.kind = .poolOverflow ∨ e.kind = .missingFunction := by
  rcases parts_cases hnone registers functions diagram with ⟨-, heq⟩ | ⟨-, -, heq⟩ |
    ⟨-, -, -, heq⟩ | ⟨-, -, -, parts, heq⟩
  · cases heq.symm.trans h
    exact .inl rfl
  · cases heq.symm.trans h
    exact .inl rfl
  · cases heq.symm.trans h
    exact .inr rfl
  · cases heq.symm.trans h

/-- Without a misuse a build does not report an invalid jump. -/
theorem kind_of_build_eq_error {error : Error} (hnone : a.misuse? = none)
    (h : (a.build registers functions diagram).1 = .error error) : error.kind ≠ .invalidJump := by
  unfold build at h
  cases hparts : a.parts registers functions diagram with
  | error e =>
    rw [hparts] at h
    cases h
    change e.kind ≠ .invalidJump
    rcases kind_of_parts_eq_error hnone hparts with hkind | hkind
    · simp [hkind]
    · simp [hkind]
  | ok parts =>
    rw [hparts] at h
    rcases Program.kind_of_create_eq_error h with ⟨cause, rfl⟩ | hkind | hkind
    · cases cause <;> simp [Error.kind, FormatError.kind]
    · simp [hkind]
    · simp [hkind]

/-- A build reports an invalid jump exactly when a misuse is noticed, and then the first that is. -/
theorem build_eq_first_misuse_iff (hrefused : Refused calls) {error : Error} :
    ((ofCalls calls).build registers functions diagram).1 = .error error ∧
        error.kind = .invalidJump ↔
      ∃ cause, (misuses calls).find? CompileError.isNoticed = some cause ∧
        error = .compile cause := by
  have hfirst := misuse?_ofCalls hrefused
  rw [← hfirst]
  constructor
  · intro h
    obtain ⟨hbuild, hkind⟩ := h
    cases hmisuse : (ofCalls calls).misuse? with
    | none => exact absurd hkind (kind_of_build_eq_error hmisuse hbuild)
    | some cause =>
      rw [build, parts_of_misuse? hmisuse] at hbuild
      cases hbuild
      exact ⟨cause, rfl, rfl⟩
  · intro h
    obtain ⟨cause, hcause, heq⟩ := h
    rw [build, parts_of_misuse? hcause, heq]
    rw [hfirst] at hcause
    exact ⟨rfl, kind_of_mem_misuses (List.mem_of_find?_eq_some hcause)⟩

/-- The arguments of a build. -/
abbrev BuildArguments := Array Register × List Function × Diagram

/-- The build with some arguments. -/
def Call.ofArguments : BuildArguments → Call
  | (registers, functions, diagram) => build registers functions diagram

/-- Builds leave an assembler with a misuse as it is. -/
theorem ofCalls_append_builds (h : (ofCalls calls).misuse? = some e)
    (builds : List BuildArguments) :
    ofCalls (calls ++ builds.map Call.ofArguments) = ofCalls calls := by
  induction builds using List.reverseRecOn with
  | nil => simp
  | append_singleton builds arguments ih =>
    rw [List.map_append, List.map_singleton, ← List.append_assoc, ofCalls_append_singleton, ih]
    exact build_of_parts_eq_error (parts_of_misuse? h)

/-! ## Since the assembler was last empty -/

/-- Whether the call empties the assembler: a build does that puts the tables together, even if the
    program is rejected. -/
def Call.empties (a : Assembler) : Call → Bool
  | build registers functions diagram => (a.parts registers functions diagram).isOk
  | _ => false

/-- The calls since the assembler was last emptied. -/
def current (calls : List Call) : List Call :=
  calls.foldl (fun since c => if c.empties (ofCalls since) then [] else since ++ [c]) []

theorem current_append_singleton (calls : List Call) (c : Call) :
    current (calls ++ [c]) =
      if c.empties (ofCalls (current calls)) then [] else current calls ++ [c] := by
  rw [current, List.foldl_append]
  rfl

theorem Call.apply_of_empties (h : c.empties a = true) : c.apply a = {} := by
  cases c with
  | build registers functions diagram =>
    simp only [empties] at h
    simp only [apply, Assembler.build]
    cases hparts : a.parts registers functions diagram with
    | error e =>
      rw [hparts] at h
      cases h
    | ok parts => rfl
  | _ => cases h

/-- The calls before the assembler was last emptied have no effect. -/
@[simp] theorem ofCalls_current (calls : List Call) : ofCalls (current calls) = ofCalls calls := by
  induction calls using List.reverseRecOn with
  | nil => rfl
  | append_singleton calls c ih =>
    rw [current_append_singleton, ofCalls_append_singleton, ← ih]
    by_cases hempties : c.empties (ofCalls (current calls)) = true
    · rw [if_pos hempties, Call.apply_of_empties hempties]
      rfl
    · rw [if_neg hempties, ofCalls_append_singleton]

theorem Refused.append_singleton (h : Refused calls) (hc : c.empties (ofCalls calls) = false) :
    Refused (calls ++ [c]) := by
  intro before registers functions diagram after heq
  rcases List.eq_nil_or_concat after with rfl | ⟨after, d, rfl⟩
  · obtain ⟨rfl, hlast⟩ := List.append_inj' heq rfl
    cases hlast
    simp only [Call.empties] at hc
    cases hparts : (ofCalls calls).parts registers functions diagram with
    | error e => exact ⟨e, rfl⟩
    | ok parts =>
      rw [hparts] at hc
      cases hc
  · rw [List.concat_eq_append, ← List.cons_append, ← List.append_assoc] at heq
    obtain ⟨hcalls, -⟩ := List.append_inj' heq rfl
    exact h before registers functions diagram after hcalls

theorem refused_current (calls : List Call) : Refused (current calls) := by
  have hnil : Refused [] := by
    intro before registers functions diagram after heq
    cases before <;> cases heq
  induction calls using List.reverseRecOn with
  | nil => exact hnil
  | append_singleton calls c ih =>
    rw [current_append_singleton]
    by_cases hempties : c.empties (ofCalls (current calls)) = true
    · rw [if_pos hempties]
      exact hnil
    · rw [if_neg hempties]
      exact ih.append_singleton (Bool.eq_false_iff.2 hempties)

/-- No call is forgotten as long as no build puts the tables together. -/
theorem current_of_refused (h : Refused calls) : current calls = calls := by
  induction calls using List.reverseRecOn with
  | nil => rfl
  | append_singleton calls c ih =>
    rw [current_append_singleton, ih h.of_append_singleton]
    rw [if_neg]
    intro hempties
    cases c with
    | build registers functions diagram =>
      obtain ⟨e, he⟩ := h calls registers functions diagram [] rfl
      rw [Call.empties, he] at hempties
      cases hempties
    | _ => cases hempties

/-! ## The first misuse -/

/-- The build after calls, and all builds that follow it without other calls, fail with an error. -/
def KeepsFailing (calls : List Call) (error : Error) : Prop :=
  ∀ (builds : List BuildArguments) registers functions diagram,
    ((ofCalls (calls ++ builds.map Call.ofArguments)).build registers functions diagram).1 =
      .error error

/-- A build fails with an invalid jump exactly when some label is misused by the calls since the
    assembler was last empty.  The error is the misuse by the earliest call, a mark of jumps that
    are too far naming the jump written first, or else the lowest label that is never marked, and
    later builds fail with the same error. -/
def ReportsFirst (calls : List Call) : Prop :=
  ∀ registers functions diagram,
    ((∃ error, ((ofCalls calls).build registers functions diagram).1 = .error error ∧
        error.kind = .invalidJump) ↔ Misused (current calls)) ∧
      ∀ error, ((ofCalls calls).build registers functions diagram).1 = .error error ∧
          error.kind = .invalidJump ↔
        ∃ cause, (misuses (current calls)).head? = some cause ∧ error = .compile cause ∧
          KeepsFailing calls error

/-- A noticed misuse makes all builds fail until there are other calls. -/
theorem keepsFailing_of_find?
    (h : (misuses (current calls)).find? CompileError.isNoticed = some e) :
    KeepsFailing calls (.compile e) := by
  intro builds registers functions diagram
  rw [← misuse?_ofCalls (refused_current calls), ofCalls_current] at h
  rw [ofCalls_append_builds h, build, parts_of_misuse? h]

/-- Since the assembler was last empty, the first misuse that is noticed is reported. -/
theorem build_eq_first_noticed_iff {error : Error} :
    ((ofCalls calls).build registers functions diagram).1 = .error error ∧
        error.kind = .invalidJump ↔
      ∃ cause, (misuses (current calls)).find? CompileError.isNoticed = some cause ∧
        error = .compile cause ∧ KeepsFailing calls error := by
  have hiff := @build_eq_first_misuse_iff (current calls) registers functions diagram
    (refused_current calls) error
  rw [ofCalls_current] at hiff
  rw [hiff]
  constructor
  · rintro ⟨cause, hcause, rfl⟩
    exact ⟨cause, hcause, rfl, keepsFailing_of_find? hcause⟩
  · intro ⟨cause, hcause, heq, _⟩
    exact ⟨cause, hcause, heq⟩

/-- The first element is the first that has a property if it has it. -/
theorem find?_eq_head?_iff {α : Type} {p : α → Bool} {xs : List α} :
    xs.find? p = xs.head? ↔ xs.head?.all p = true := by
  cases xs with
  | nil => simp
  | cons x xs =>
    rw [List.find?_cons, List.head?_cons, Option.all_some]
    cases h : p x with
    | true => simp
    | false =>
      simp only [Bool.false_eq_true, iff_false]
      intro hfind
      rw [List.find?_some hfind] at h
      cases h

theorem reportsFirst_of_isNoticed
    (h : (misuses (current calls)).head?.all CompileError.isNoticed = true) :
    ReportsFirst calls := by
  intro registers functions diagram
  have hreport := @build_eq_first_noticed_iff calls registers functions diagram
  rw [find?_eq_head?_iff.2 h] at hreport
  refine ⟨?_, fun error => hreport⟩
  rw [misused_iff]
  constructor
  · intro ⟨error, herror⟩ hnil
    obtain ⟨cause, hcause, -⟩ := hreport.1 herror
    rw [hnil] at hcause
    cases hcause
  · intro hne
    obtain ⟨cause, hcause⟩ := Option.isSome_iff_exists.1 (List.isSome_head?.2 hne)
    rw [← find?_eq_head?_iff.2 h] at hcause
    refine ⟨.compile cause, hreport.2 ⟨cause, ?_, rfl, keepsFailing_of_find? hcause⟩⟩
    rw [← find?_eq_head?_iff.2 h, hcause]

/-- Nothing goes unnoticed as long as there are addresses for what has been written. -/
theorem reportsFirst_of_extent_lt (h : extent (current calls) < 0x100000000) :
    ReportsFirst calls := by
  apply reportsFirst_of_isNoticed
  cases hhead : (misuses (current calls)).head? with
  | none => rfl
  | some e => exact isNoticed_of_mem_misuses h (List.mem_of_head? hhead)

/-- The builds after calls report the first misuse that the assembler notices.  So they report the
    first misuse exactly if it notices that one, which it does unless the misuse is a jump that is
    too long and looks short in 32 bits. -/
theorem reportsFirst_iff (calls : List Call) :
    (∀ registers functions diagram error,
      ((ofCalls calls).build registers functions diagram).1 = .error error ∧
          error.kind = .invalidJump ↔
        ∃ cause, (misuses (current calls)).find? CompileError.isNoticed = some cause ∧
          error = .compile cause ∧ KeepsFailing calls error) ∧
      (ReportsFirst calls ↔
        (misuses (current calls)).head?.all CompileError.isNoticed = true) := by
  refine ⟨fun _ _ _ _ => build_eq_first_noticed_iff, ?_, reportsFirst_of_isNoticed⟩
  intro h
  cases hhead : (misuses (current calls)).head? with
  | none => rfl
  | some cause =>
    obtain ⟨hmisused, hfirst⟩ := h #[] [] { entries := #[], root := 1 }
    have hne : misuses (current calls) ≠ [] := List.ne_nil_of_mem (List.mem_of_head? hhead)
    obtain ⟨error, hfails⟩ := hmisused.2 (misused_iff.2 hne)
    obtain ⟨first, hfirst, rfl, -⟩ := (hfirst error).1 hfails
    obtain ⟨noticed, hnoticed, heq, -⟩ := build_eq_first_noticed_iff.1 hfails
    obtain rfl := Option.some.inj (hhead.symm.trans hfirst)
    cases heq
    show cause.isNoticed = true
    exact List.find?_some hnoticed

/-- Calls that jump to a label and mark it some bytes later. -/
def farMark (n : Nat) : List Call := .label :: .jump 0 :: List.replicate n (.byte 0xFF) ++ [.mark 0]

theorem refused_farMark (n : Nat) : Refused (farMark n) := by
  apply refused_of_not_mem
  simp [farMark, List.mem_replicate]

theorem misused_farMark {n : Nat} (h : 0xFFFF < n) : Misused (farMark n) := by
  let before : List Call := [.label] ++ .jump 0 :: List.replicate n (.byte 0xFF)
  have hextent : extent before = n + 2 := by
    rw [extent_append, extent_cons, extent_cons, extent_replicate]
    simp [extent, Call.width, Nat.add_comm]
  have hjump : 0 ∈ offsetsOf (Call.jumpsTo 0) before :=
    mem_offsetsOf_jumpsTo.2 (mem_placed_append_cons [.label] _ _)
  have hcalls : farMark n = before ++ .mark 0 :: [] := rfl
  exact .far hcalls hjump (by omega)

/-- In 32 bits the mark looks close enough. -/
theorem misuse?_farMark {n : Nat} (h : address n ≤ 0xFFFF) :
    (ofCalls (farMark n)).misuse? = none := by
  have hbefore : ofCalls (.label :: .jump 0 :: List.replicate n (.byte 0xFF)) =
      { code := #[0, 0] ++ Array.replicate n 0xFF, labels := #[{ pending := #[0] }] } := by
    rw [ofCalls, List.foldl_cons, List.foldl_cons, foldl_byte]
    rfl
  have hdistance : addressDistance (0 + 2) (address (n + 2)) = address n := by
    have hle : 0 + 2 ≤ n + 2 := Nat.le_add_left 2 n
    have hdistance := addressDistance_address hle
    rw [Nat.zero_add, Nat.add_sub_cancel] at hdistance
    exact hdistance
  have hnear : ¬ 0xFFFF < address n := Nat.not_lt.2 h
  rw [farMark, ofCalls_append_singleton, hbefore]
  simp [Call.apply, mark, position, patch, misuse?, hdistance, hnear, Nat.add_comm 2 n]

/-- A label that is marked as many bytes behind the operand of a jump as there are addresses is
    misused, and no build says so. -/
theorem not_reportsFirst_farMark :
    let calls := farMark (0x100000000)
    Misused (current calls) ∧
      (∀ registers functions diagram error,
        ((ofCalls calls).build registers functions diagram).1 = .error error →
          error.kind ≠ .invalidJump) ∧
      ¬ ReportsFirst calls := by
  intro calls
  have hmisused : Misused (current calls) := by
    rw [current_of_refused (refused_farMark _)]
    exact misused_farMark (by decide)
  have hsilent : ∀ registers functions diagram error,
      ((ofCalls calls).build registers functions diagram).1 = .error error →
        error.kind ≠ .invalidJump :=
    fun _ _ _ _ => kind_of_build_eq_error (misuse?_farMark (by decide))
  refine ⟨hmisused, hsilent, fun h => ?_⟩
  obtain ⟨error, herror, hkind⟩ := (h #[] [] { entries := #[], root := 1 }).1.2 hmisused
  exact hsilent _ _ _ _ herror hkind

end EndpointRules.Assembler
