import EndpointRules.Proofs.Assembler.Jumps
import EndpointRules.Proofs.Machine.Straight
import EndpointRules.Proofs.Program.Ranges

/-!
# Bodies of assembled programs

Calls that are made between the start of a body and the start of the next one write that body.  The
program that is built has it as the next body of its sort; it starts where the calls say and holds
the bytes that they stand for, whatever is written before and behind it, as long as there are
addresses for all that.
-/

namespace EndpointRules.Assembler

variable {calls written : List Call} {c : Call} {offset start label : Nat} {p : Program}

/-! ## Calls in a row -/

/-- The bytes that calls stand for of which the first is made at `offset`. -/
def layOutFrom (target : Nat → Nat) (offset : Nat) (calls : List Call) : Bytes :=
  (placedFrom offset calls).flatMap fun (offset, c) => c.bytes target offset

theorem layOutFrom_append (target : Nat → Nat) (offset : Nat) (calls calls' : List Call) :
    layOutFrom target offset (calls ++ calls') =
      layOutFrom target offset calls ++ layOutFrom target (offset + extent calls) calls' := by
  rw [layOutFrom, placedFrom_append, List.flatMap_append]
  rfl

@[simp] theorem length_layOutFrom (target : Nat → Nat) (offset : Nat) (calls : List Call) :
    (layOutFrom target offset calls).length = extent calls := by
  induction calls generalizing offset with
  | nil => rfl
  | cons c calls ih =>
    have hrest := ih (offset + c.width)
    rw [layOutFrom] at hrest ⊢
    rw [placedFrom, List.flatMap_cons, List.length_append, hrest, Call.length_bytes, extent_cons]

theorem mem_placedFrom (h : (offset, c) ∈ placedFrom start calls) : start ≤ offset ∧ c ∈ calls := by
  induction calls generalizing start with
  | nil => cases h
  | cons d calls ih =>
    rcases List.mem_cons.1 h with heq | h
    · cases heq
      exact ⟨Nat.le_refl _, List.mem_cons_self⟩
    · obtain ⟨hle, hmem⟩ := ih h
      exact ⟨by omega, List.mem_cons_of_mem _ hmem⟩

theorem length_offsetsOf (property : Call → Bool) (calls : List Call) :
    (offsetsOf property calls).length = calls.countP property := by
  induction calls using List.reverseRecOn with
  | nil => rfl
  | append_singleton calls c ih =>
    rw [offsetsOf_append_singleton, List.length_append, ih, List.countP_append]
    by_cases h : property c = true
    · simp [h]
    · simp [h]

/-- A call with the property comes with its offset behind those of the calls before it. -/
theorem offsetsOf_append_cons {property : Call → Bool} (before after : List Call)
    (h : property c = true) :
    (offsetsOf property (before ++ c :: after))[before.countP property]? =
      some (extent before) := by
  rw [← length_offsetsOf]
  simp [offsetsOf, placed, placedFrom_append, placedFrom, h]

/-! ## Bodies -/

variable {before after : List Call} {sort : BodySort}

/-- A label that is marked leads to its mark. -/
theorem Encoded.target_eq (h : Encoded (before ++ .mark label :: after) p) :
    target (before ++ .mark label :: after) label = extent before := by
  have hmark : extent before ∈ offsetsOf (Call.marks label) (before ++ .mark label :: after) :=
    mem_offsetsOf.2 ⟨_, mem_placed_append_cons before _ after, beq_self_eq_true label⟩
  rw [target, h.marks _ _ hmark]
  rfl

/-- What is written between a jump and the mark of its label has at most 65535 bytes, if it has
    fewer than there are addresses. -/
theorem Encoded.extent_between_le {between : List Call}
    (h : Encoded (before ++ .jump label :: (between ++ .mark label :: after)) p)
    (hlt : extent between < 0x100000000) : extent between ≤ 0xFFFF := by
  have hsplit : before ++ .jump label :: (between ++ .mark label :: after) =
      (before ++ .jump label :: between) ++ .mark label :: after := by simp
  obtain ⟨m, hmark, -, hfits⟩ := h.jumps _ label (mem_placed_append_cons before _ _)
  rw [hsplit] at h hmark
  have htarget := h.target_eq
  rw [target, hmark, List.headD_cons, extent_append, extent_cons] at htarget
  have hdistance : m - (extent before + 2) = extent between := by
    rw [htarget]
    simp only [Call.width]
    omega
  rwa [hdistance, address_of_lt hlt] at hfits

namespace Assembled

/-- No body starts within calls that start none. -/
theorem le_of_mem_offsets (h : Assembled (before ++ .startBody sort :: (written ++ after)) p)
    (hwritten : ∀ c ∈ written, ∀ sort, c.starts sort = false) {sort' : BodySort} {a : Nat}
    (ha : a ∈ p.offsets sort') (hlt : extent before < a) :
    extent before + extent written ≤ a := by
  rw [← Array.mem_toList_iff, h.bodies] at ha
  obtain ⟨c, hplaced, hstarts⟩ := mem_offsetsOf.1 ha
  rw [placed, placedFrom_append, Nat.zero_add, List.mem_append] at hplaced
  rcases hplaced with hplaced | hplaced
  · have hinside := add_width_le_extent hplaced
    omega
  · rcases List.mem_cons.1 hplaced with heq | hplaced
    · cases heq
      omega
    · rw [placedFrom_append, List.mem_append] at hplaced
      rcases hplaced with hplaced | hplaced
      · have hnone := hwritten c (mem_placedFrom hplaced).2 sort'
        rw [hstarts] at hnone
        cases hnone
      · exact (mem_placedFrom hplaced).1

/-- The body starts where it was started, and reaches at least as far as what is written of it. -/
theorem exists_body (h : Assembled (before ++ .startBody sort :: (written ++ after)) p)
    (hextent : extent (before ++ .startBody sort :: (written ++ after)) < 0x100000000)
    (hwritten : ∀ c ∈ written, ∀ sort, c.starts sort = false) :
    ∃ body, p.body? sort (before.countP (Call.starts sort)) = some body ∧
      body.start = extent before ∧ extent before + extent written ≤ body.stop := by
  have hstart : (p.offsets sort)[before.countP (Call.starts sort)]? = some (extent before) := by
    rw [← Array.getElem?_toList, h.bodies]
    exact offsetsOf_append_cons before _ (beq_self_eq_true sort)
  refine ⟨_, Program.body?_eq_some_iff.2 ⟨_, hstart, rfl⟩, rfl, ?_⟩
  show extent before + extent written ≤ p.stopOf (extent before)
  have hsize : p.code.size = extent (before ++ .startBody sort :: (written ++ after)) := by
    rw [← Array.length_toList, h.code, length_layOut]
  rcases Parts.endAfter_cases p.starts p.code.size (extent before) with ⟨hend, -⟩ | ⟨hend, hlt⟩
  · rw [Program.stopOf, hend, hsize, address_of_lt hextent, extent_append, extent_cons,
      extent_append]
    omega
  · obtain ⟨sort', hmem⟩ := Program.mem_starts_iff.1 hend
    exact h.le_of_mem_offsets hwritten hmem hlt

/-- The code is what comes before the body, then the body, then what comes behind it. -/
theorem code_eq (h : Assembled (before ++ .startBody sort :: (written ++ after)) p) :
    let t := target (before ++ .startBody sort :: (written ++ after))
    p.code.toList = layOutFrom t 0 before ++ (layOutFrom t (extent before) written ++
      layOutFrom t (extent before + extent written) after) := by
  intro t
  have hsplit := layOutFrom_append t 0 before (.startBody sort :: (written ++ after))
  rw [Nat.zero_add] at hsplit
  rw [h.code, ← layOutFrom_append]
  exact hsplit

/-- The body holds the bytes of the calls that have written it. -/
theorem holds {s : Setting} {body : Body}
    (h : Assembled (before ++ .startBody sort :: (written ++ after)) s.program)
    (hstop : extent before + extent written ≤ body.stop) :
    s.Holds body (extent before) (layOutFrom
      (target (before ++ .startBody sort :: (written ++ after))) (extent before) written) := by
  refine ⟨by rwa [length_layOutFrom], fun i hi => ?_⟩
  have hbefore := length_layOutFrom
    (target (before ++ .startBody sort :: (written ++ after))) 0 before
  rw [Array.getD_eq_getD_getElem?, ← Array.getElem?_toList, ← List.getD_eq_getElem?_getD,
    h.code_eq, List.getD_append_right _ _ _ _ (by omega), List.getD_append _ _ _ _ (by omega),
    hbefore, Nat.add_sub_cancel_left]

end Assembled

end EndpointRules.Assembler
