import EndpointRules.Proofs.Assembler.Reports
import EndpointRules.StandardFunctions

/-!
# Refused builds

A build is refused if something written so far rules a program out: a misuse of a label, a label
that jumps wait for, too many constants or functions, or functions without implementation.  The
error that it reports tells a refusal from what the check of a program finds wrong.  A refused build
leaves no trace: to whatever follows, the assembler replies as if the build had not been asked for.
-/

namespace EndpointRules

/-- The error is one for which a build is refused, and not one that the check of a program finds or
    that arises elsewhere. -/
def CompileError.isRefusal : CompileError → Bool
  | unknownLabel _ | backwardJump .. | labelMarkedTwice _ | jumpTooLong .. => true
  | labelNeverMarked _ => true
  | tooManyConstants _ | tooManyFunctions _ => true
  | missingFunctions _ => true
  | _ => false

namespace Assembler

/-! ## Replies -/

/-- What an assembler replies to a call. -/
inductive Reply
  /-- The offset at which the next byte will stand. -/
  | position (offset : Nat)
  /-- The number of a label, of a constant or of a function name. -/
  | index (n : Nat)
  | built (result : Except Error Program)

/-- The reply to a call. -/
def Call.reply (a : Assembler) : Call → Reply
  | label => .index a.label.1
  | constant v => .index (a.constant v).1
  | function name => .index (a.function name).1
  | build registers functions diagram => .built (a.build registers functions diagram).1
  | c => .position (c.apply a).position

/-- The replies to calls that are made one after the other. -/
def replies (a : Assembler) : List Call → List Reply
  | [] => []
  | c :: calls => c.reply a :: replies (c.apply a) calls

variable {a : Assembler} {calls done : List Call} {cause : CompileError}
  {registers : Array Register} {functions functions' : List Function} {diagram : Diagram}

@[simp] theorem length_replies (a : Assembler) (calls : List Call) :
    (replies a calls).length = calls.length := by
  induction calls generalizing a with
  | nil => rfl
  | cons c calls ih => simp [replies, ih]

theorem replies_append (a : Assembler) (calls calls' : List Call) :
    replies a (calls ++ calls') = replies a calls ++ replies (calls.foldl Call.apply a) calls' := by
  induction calls generalizing a with
  | nil => rfl
  | cons c calls ih => simp [replies, ih]

/-! ## Refusals -/

/-- An invalid jump is a refusal, since only misuses of labels are invalid jumps. -/
theorem isRefusal_of_kind (h : cause.kind = .invalidJump) : cause.isRefusal = true := by
  cases cause <;> first | rfl | cases h

/-- What the check of a program finds wrong is no refusal. -/
theorem not_isRefusal_of_create {parts : Parts}
    (h : Program.create parts = .error (.compile cause)) : cause.isRefusal = false := by
  rcases Program.kind_of_create_eq_error h with ⟨format, heq⟩ | hkind | hkind
  · cases heq
  · cases cause <;> first | rfl | cases hkind
  · cases cause <;> first | rfl | cases hkind

/-- A misuse that a build would report is an invalid jump. -/
theorem kind_of_misuse? (h : (ofCalls calls).misuse? = some cause) : cause.kind = .invalidJump := by
  have hfirst := misuse?_ofCalls (refused_current calls)
  rw [ofCalls_current, h] at hfirst
  exact kind_of_mem_misuses (List.mem_of_find?_eq_some hfirst.symm)

/-- A build reports a refusal exactly if the tables cannot be put together. -/
theorem isRefusal_iff :
    (((ofCalls calls).build registers functions diagram).1 = .error (.compile cause) ∧
        cause.isRefusal = true) ↔
      (ofCalls calls).parts registers functions diagram = .error cause := by
  constructor
  · intro ⟨h, hrefusal⟩
    unfold build at h
    split at h
    · next e hparts =>
      cases h
      exact hparts
    · next parts hparts =>
      rw [not_isRefusal_of_create h] at hrefusal
      cases hrefusal
  · intro h
    refine ⟨by rw [build, h], ?_⟩
    cases hmisuse : (ofCalls calls).misuse? with
    | some e =>
      rw [parts_of_misuse? hmisuse] at h
      cases h
      exact isRefusal_of_kind (kind_of_misuse? hmisuse)
    | none =>
      rcases parts_cases hmisuse registers functions diagram with ⟨-, heq⟩ | ⟨-, -, heq⟩ |
        ⟨-, -, -, heq⟩ | ⟨-, -, -, parts, heq⟩
      · cases heq.symm.trans h
        rfl
      · cases heq.symm.trans h
        rfl
      · cases heq.symm.trans h
        rfl
      · cases heq.symm.trans h

/-- Where nothing but implementations is missing, supplying them is enough. -/
theorem parts_of_supplied {names : Bytes}
    (h : (ofCalls calls).parts registers functions diagram = .error (.missingFunctions names))
    (registers' : Array Register) (diagram' : Diagram)
    (hsupplied : ∀ name ∈ (ofCalls calls).functions.items,
      (implementation? functions' name).isSome) :
    ∃ parts, (ofCalls calls).parts registers' functions' diagram' = .ok parts := by
  have hnone : (ofCalls calls).misuse? = none := by
    cases hmisuse : (ofCalls calls).misuse? with
    | none => rfl
    | some e =>
      rw [parts_of_misuse? hmisuse] at h
      cases h
      cases kind_of_misuse? hmisuse
  have hmissing : (ofCalls calls).missingNames functions' = [] := by
    have hall : (ofCalls calls).functions.items.toList.filter
        (fun name => (implementation? functions' name).isNone) = [] := by
      rw [List.filter_eq_nil_iff]
      intro name hname hnone
      have hsome := hsupplied name (Array.mem_toList_iff.1 hname)
      rw [Option.isNone_iff_eq_none.1 hnone] at hsome
      cases hsome
    rw [missingNames, hall]
    rfl
  rcases parts_cases hnone registers functions diagram with ⟨-, heq⟩ | ⟨-, -, heq⟩ |
    ⟨hconstants, hfunctions, -, -⟩ | ⟨-, -, -, parts, heq⟩
  · cases heq.symm.trans h
  · cases heq.symm.trans h
  · rcases parts_cases hnone registers' functions' diagram' with ⟨hmany, -⟩ | ⟨-, hmany, -⟩ |
      ⟨-, -, hnames, -⟩ | ⟨-, -, -, parts, heq⟩
    · omega
    · omega
    · exact absurd hmissing hnames
    · exact ⟨parts, heq⟩
  · cases heq.symm.trans h

/-- A build that reports a refusal changes nothing.  The assembler stays as it was, and apart from
    the reply to the build itself, the replies to all calls, before and after it, are those without
    the build.  If only implementations were missing, a build that supplies them puts together the
    same program as one made at once. -/
theorem replies_eq_of_isRefusal
    (h : ((ofCalls done).build registers functions diagram).1 = .error (.compile cause))
    (hrefusal : cause.isRefusal = true) :
    ofCalls (done ++ [.build registers functions diagram]) = ofCalls done ∧
      (∀ rest, (replies {} (done ++ .build registers functions diagram :: rest)).eraseIdx
        done.length = replies {} (done ++ rest)) ∧
      ∀ names registers' functions' diagram', cause = .missingFunctions names →
        (∀ name ∈ (ofCalls done).functions.items, (implementation? functions' name).isSome) →
        ∃ parts, (ofCalls done).parts registers' functions' diagram' = .ok parts ∧
          ((ofCalls done).build registers' functions' diagram').1 = Program.create parts ∧
          ((ofCalls (done ++ [.build registers functions diagram])).build
            registers' functions' diagram').1 = Program.create parts := by
  have hparts := isRefusal_iff.1 ⟨h, hrefusal⟩
  have hkept : ofCalls (done ++ [.build registers functions diagram]) = ofCalls done := by
    rw [ofCalls_append_singleton]
    exact build_of_parts_eq_error hparts
  refine ⟨hkept, ?_, ?_⟩
  · intro rest
    have hrest : (Call.build registers functions diagram).apply (ofCalls done) = ofCalls done :=
      build_of_parts_eq_error hparts
    have hdone : done.foldl Call.apply {} = ofCalls done := rfl
    rw [replies_append, replies_append, hdone, replies, hrest,
      List.eraseIdx_append_of_length_le (by simp)]
    simp
  · intro names registers' functions' diagram' hcause hsupplied
    subst hcause
    obtain ⟨parts, hbuilt⟩ := parts_of_supplied hparts registers' diagram' hsupplied
    refine ⟨parts, hbuilt, ?_, ?_⟩
    · rw [build, hbuilt]
    · rw [hkept, build, hbuilt]

/-- Calls that write a result which asks a function about a register. -/
def askingCalls : List Call := [
  .function "isSet", .startBody .result, .opcode .loadRegister, .byte 0, .opcode .call1, .byte 0,
  .opcode .returnValue]

/-- The diagram that ends with the only result. -/
def onlyResult : Diagram := { entries := #[], root := 100000000 }

theorem replies_eq_of_isRefusal_askingCalls :
    ((ofCalls askingCalls).build #[{ name := "Bucket" }] [] onlyResult).1 =
      .error (.compile (.missingFunctions "isSet")) ∧
    (CompileError.missingFunctions "isSet").isRefusal = true ∧
    (∀ rest, (replies {} (askingCalls ++ .build #[{ name := "Bucket" }] [] onlyResult ::
      rest)).eraseIdx askingCalls.length = replies {} (askingCalls ++ rest)) ∧
    ∃ parts, (ofCalls askingCalls).parts #[{ name := "Bucket" }] [StandardFunctions.isSet]
        onlyResult = .ok parts ∧
      ((ofCalls (askingCalls ++ [.build #[{ name := "Bucket" }] [] onlyResult])).build
        #[{ name := "Bucket" }] [StandardFunctions.isSet] onlyResult).1 =
          Program.create parts := by
  have hitems : (ofCalls askingCalls).functions.items = #[Bytes.ofString "isSet"] := by cbv
  have hmissing : (ofCalls askingCalls).missingNames [] = "isSet" := by
    rw [missingNames, hitems]
    rfl
  have hconstants : (ofCalls askingCalls).constants.size = 0 := by cbv
  have hfunctions : (ofCalls askingCalls).functions.size = 1 := by cbv
  have hmisuse : (ofCalls askingCalls).misuse? = none := by cbv
  have hparts : (ofCalls askingCalls).parts #[{ name := "Bucket" }] [] onlyResult =
      .error (.missingFunctions "isSet") := by
    rcases parts_cases hmisuse #[{ name := "Bucket" }] [] onlyResult with ⟨hmany, -⟩ |
      ⟨-, hmany, -⟩ | ⟨-, -, -, heq⟩ | ⟨-, -, hnames, -⟩
    · omega
    · omega
    · rw [heq, hmissing]
    · rw [hmissing] at hnames
      cases hnames
  have hbuild := (isRefusal_iff.2 hparts).1
  have hsupplied : ∀ name ∈ (ofCalls askingCalls).functions.items,
      (implementation? [StandardFunctions.isSet] name).isSome := by
    intro name hname
    rw [hitems] at hname
    obtain rfl := Array.mem_singleton.1 hname
    rfl
  obtain ⟨-, hreplies, hsupply⟩ := replies_eq_of_isRefusal hbuild rfl
  obtain ⟨parts, hparts, -, hagain⟩ := hsupply _ #[{ name := "Bucket" }]
    [StandardFunctions.isSet] onlyResult rfl hsupplied
  exact ⟨hbuild, rfl, hreplies, parts, hparts, hagain⟩

end Assembler

end EndpointRules
