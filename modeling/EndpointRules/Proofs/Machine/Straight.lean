import Mathlib.Data.List.GetD
import EndpointRules.Proofs.Machine.Control
import EndpointRules.Proofs.Machine.Relocation

/-!
# Straight-line code

Instructions that neither jump nor return, written one behind the other somewhere in a body.  A run
that comes to the first of them does what the instructions do in turn: it comes to the end of the
stretch with the frame that they leave, or it fails on the way.
-/

namespace EndpointRules

/-- An instruction as it is written in code. -/
structure Written where
  op : Opcode
  operands : Bytes
  length_eq : op.length = operands.length + 1 := by rfl

namespace Written

/-- The bytes of a written instruction. -/
def bytes (w : Written) : Bytes := w.op.toByte :: w.operands

/-- What the machine does for a written instruction. -/
def instruction (w : Written) : Instruction := .decode w.op w.bytes.toArray 0

/-- The bytes of instructions written one behind the other. -/
def code (ws : List Written) : Bytes := ws.flatMap bytes

theorem length_bytes (w : Written) : w.bytes.length = w.op.length := w.length_eq.symm

@[simp] theorem code_cons (w : Written) (ws : List Written) : code (w :: ws) = w.bytes ++ code ws :=
  rfl

end Written

/-- An instruction that goes on with the next one whenever it completes. -/
def Instruction.Straight (i : Instruction) : Prop := ∀ control, i.Admits control → control = .next

/-- Only returns and jumps do not go on with the next instruction. -/
theorem Written.straight {w : Written} (hreturn : w.op.isReturn = false)
    (hjump : w.op.isJump = false) : w.instruction.Straight := by
  obtain ⟨op, operands, _⟩ := w
  cases op with
  | returnError => cases hreturn
  | returnEndpoint => cases hreturn
  | returnValue => cases hreturn
  | jumpIfSetOrPop => cases hjump
  | _ => exact fun _ h => h

namespace Setting

variable {s t : Setting} {body : Body} {a : Nat} {w : Written} {ws : List Written} {f g : Frame}
  {fault : Fault}

/-- The instructions in turn, as long as they complete. -/
def performAll (s : Setting) : List Instruction → Exec Unit
  | [] => pure ()
  | i :: is => do
    let _ ← s.perform i
    s.performAll is

theorem performAll_eq_of_agrees (h : s.Agrees t) (is : List Instruction) :
    s.performAll is = t.performAll is := by
  induction is with
  | nil => rfl
  | cons i is ih => rw [performAll, performAll, perform_eq_of_agrees h, ih]

/-- The bytes stand in the body from an address on. -/
structure Holds (s : Setting) (body : Body) (a : Nat) (bytes : Bytes) : Prop where
  le_stop : a + bytes.length ≤ body.stop
  byte : ∀ i, i < bytes.length → s.program.code.getD (a + i) 0 = bytes.getD i 0

/-- A run from a place fails before it comes to an address. -/
def FailsBefore (s : Setting) (body : Body) (p : Place) (stop : Nat) : Prop :=
  ∃ q failure g, s.Leads body p q ∧ q.1 < stop ∧ s.Ends body q (.error failure) g

/-! ## One instruction -/

theorem Holds.left {l₁ l₂ : Bytes} (h : s.Holds body a (l₁ ++ l₂)) : s.Holds body a l₁ := by
  have hstop := h.le_stop
  rw [List.length_append] at hstop
  refine ⟨by omega, fun i hi => ?_⟩
  rw [h.byte i (by rw [List.length_append]; omega), List.getD_append _ _ _ _ hi]

theorem Holds.right {l₁ l₂ : Bytes} (h : s.Holds body a (l₁ ++ l₂)) :
    s.Holds body (a + l₁.length) l₂ := by
  have hstop := h.le_stop
  rw [List.length_append] at hstop
  refine ⟨by omega, fun i hi => ?_⟩
  rw [Nat.add_assoc, h.byte (l₁.length + i) (by rw [List.length_append]; omega),
    List.getD_append_right _ _ _ _ (Nat.le_add_right _ _), Nat.add_sub_cancel_left]

/-- A written instruction is fetched from where it stands. -/
theorem Holds.fetch_eq (h : s.Holds body a w.bytes) : s.fetch body a = .ok w.op := by
  have hstop := h.le_stop
  rw [w.length_bytes] at hstop
  have hbyte : s.program.code.getD a 0 = w.op.toByte :=
    h.byte 0 (by rw [w.length_bytes]; exact w.op.length_pos)
  rw [fetch_eq_ok_iff, hbyte]
  exact ⟨w.op.ofByte?_toByte, hstop⟩

/-- A written instruction means the same wherever it stands. -/
theorem Holds.decode_eq (h : s.Holds body a w.bytes) :
    Instruction.decode w.op s.program.code a = w.instruction := by
  refine Instruction.decode_congr fun place hplace => ?_
  rw [h.byte place (by rwa [w.length_bytes]), Nat.zero_add]
  simp [Array.getD_eq_getD_getElem?]

/-- A written instruction that completes is a step to the next one. -/
theorem Holds.step (h : s.Holds body a w.bytes)
    (hperform : s.perform w.instruction f = (.ok .next, g)) :
    s.Step body (a, f) (a + w.bytes.length, g) := by
  rw [← h.decode_eq] at hperform
  rw [w.length_bytes]
  exact .next h.fetch_eq hperform

/-- A written jump that is taken is a step to where it leads. -/
theorem Holds.skip {distance : Nat} (h : s.Holds body a w.bytes)
    (hperform : s.perform w.instruction f = (.ok (.skip distance), g)) :
    s.Step body (a, f) (a + w.bytes.length + distance, g) := by
  rw [← h.decode_eq] at hperform
  rw [w.length_bytes]
  exact .skip h.fetch_eq hperform

/-- A written return ends the run. -/
theorem Holds.exit {exit : Exit} (h : s.Holds body a w.bytes)
    (hperform : s.perform w.instruction f = (.ok (.exit exit), g)) :
    s.Ends body (a, f) (.ok exit) g := by
  rw [← h.decode_eq] at hperform
  exact .exit h.fetch_eq hperform

/-- A written instruction that fails ends the run. -/
theorem Holds.ends (h : s.Holds body a w.bytes)
    (hperform : s.perform w.instruction f = (.error fault, g)) :
    s.Ends body (a, f) (.error ⟨fault, some a⟩) g := by
  rw [← h.decode_eq] at hperform
  exact .fault h.fetch_eq hperform

theorem Holds.perform_of_step {b : Nat} (h : s.Holds body a w.bytes)
    (hstraight : w.instruction.Straight) (hstep : s.Step body (a, f) (b, g)) :
    s.perform w.instruction f = (.ok .next, g) := by
  have hfetch := h.fetch_eq
  cases hstep with
  | next hop hperform =>
    obtain rfl := Except.ok.inj (hfetch.symm.trans hop)
    rwa [h.decode_eq] at hperform
  | skip hop hperform =>
    obtain rfl := Except.ok.inj (hfetch.symm.trans hop)
    rw [h.decode_eq] at hperform
    cases hstraight _ (s.yields_perform _ f _ g hperform)

theorem Holds.perform_of_ends {failure : Failure} (h : s.Holds body a w.bytes)
    (hends : s.Ends body (a, f) (.error failure) g) :
    s.perform w.instruction f = (.error failure.fault, g) := by
  have hfetch := h.fetch_eq
  cases hends with
  | unfetched hfault => cases hfetch.symm.trans hfault
  | fault hop hperform =>
    obtain rfl := Except.ok.inj (hfetch.symm.trans hop)
    rwa [h.decode_eq] at hperform

/-! ## Stretches of instructions -/

/-- A run passes a stretch of code whose instructions complete, and has their effect. -/
theorem leads_of_performAll (h : s.Holds body a (Written.code ws))
    (hstraight : ∀ w ∈ ws, w.instruction.Straight)
    (hperform : s.performAll (ws.map (·.instruction)) f = (.ok (), g)) :
    s.Leads body (a, f) (a + (Written.code ws).length, g) := by
  induction ws generalizing a f with
  | nil =>
    cases hperform
    exact .refl
  | cons w ws ih =>
    rw [Written.code_cons] at h
    rw [List.map_cons, performAll, Exec.bind_apply] at hperform
    split at hperform
    · next control f' hfirst =>
      have hnext : control = .next :=
        hstraight w (by simp) control (s.yields_perform _ f _ f' hfirst)
      subst hnext
      have hrest := ih h.right (fun w hw => hstraight w (by simp [hw])) hperform
      rw [Written.code_cons, List.length_append, ← Nat.add_assoc]
      exact .head (h.left.step hfirst) hrest
    · cases hperform

/-- A run fails within a stretch of code one of whose instructions fails. -/
theorem failsBefore_of_performAll (h : s.Holds body a (Written.code ws))
    (hstraight : ∀ w ∈ ws, w.instruction.Straight)
    (hperform : s.performAll (ws.map (·.instruction)) f = (.error fault, g)) :
    s.FailsBefore body (a, f) (a + (Written.code ws).length) := by
  induction ws generalizing a f with
  | nil => cases hperform
  | cons w ws ih =>
    rw [Written.code_cons] at h
    rw [List.map_cons, performAll, Exec.bind_apply] at hperform
    rw [Written.code_cons, List.length_append]
    have hlength := w.length_bytes
    have hpos := w.op.length_pos
    split at hperform
    · next control f' hfirst =>
      have hnext : control = .next :=
        hstraight w (by simp) control (s.yields_perform _ f _ f' hfirst)
      subst hnext
      obtain ⟨q, failure, g', hleads, hq, hends⟩ :=
        ih h.right (fun w hw => hstraight w (by simp [hw])) hperform
      exact ⟨q, failure, g', .head (h.left.step hfirst) hleads, by omega, hends⟩
    · next fault' f' hfirst =>
      exact ⟨(a, f), _, f', .refl, by dsimp only; omega, h.left.ends hfirst⟩

end Setting

end EndpointRules
