import EndpointRules.Proofs.Machine.Bounds
import EndpointRules.Proofs.Machine.Control
import EndpointRules.Proofs.Machine.Reuse
import EndpointRules.Proofs.Machine.StackEffects
import EndpointRules.Proofs.Machine.Wrapped
import EndpointRules.Proofs.Program.Ranges

/-!
# Failures of bodies

A body fails at an address, and the failure says so.  The address is below the end of the body, or
one behind it if the run came there without a return; since a jump skips no more bytes than two
operand bytes can tell, that is not far behind.  A jump that leads behind the last address is another
matter: the run goes on at the start of the code, and the address may be below the body.  The message
ends with the address unless the rules raise the error themselves, which is then worded by the
operand that they give.
-/

namespace EndpointRules

open Bytes

/-- A failure of the machine's own says where it happened. -/
theorem Failure.suffix_message {failure : Failure} {a : Nat} (haddress : failure.address = some a)
    (hkind : failure.kind ≠ .ruleError) :
    (" at address " : Bytes) ++ decimal a <:+ failure.message := by
  obtain ⟨fault, address⟩ := failure
  obtain rfl : address = some a := haddress
  cases fault with
  | rule message => exact absurd rfl hkind
  | _ => exact ⟨_, (List.append_assoc ..).symm⟩

namespace Setting

variable {s : Setting} {body : Body} {p q : Place} {f g : Frame} {fault : Fault}

/-! ## Instructions -/

/-- Behind the end of a body a return is missing, and inside it other things may be wrong. -/
theorem fetchWrapped_cases {a : Nat} (h : s.fetchWrapped body a = .error fault) :
    (fault = .missingReturn ∧ body.stop ≤ a) ∨ (fault.isCommon = true ∧ a < body.stop) := by
  unfold fetchWrapped at h
  by_cases hstop : body.stop ≤ a
  · rw [if_pos hstop] at h
    cases h
    exact .inl ⟨rfl, hstop⟩
  · rw [if_neg hstop] at h
    refine .inr ⟨?_, Nat.lt_of_not_le hstop⟩
    dsimp only at h
    split at h
    · cases h
      rfl
    · split at h
      · cases h
        rfl
      · cases h

theorem perform_raise (s : Setting) (f : Frame) :
    s.perform .raise f = match f.stack.items with
      | [] => (.error .stackUnderflow, f)
      | v :: _ => (.error (.rule v.display), { f with stack := f.stack.drop 1 }) := by
  cases hitems : f.stack.items with
  | nil => simp [perform, Exec.bind_apply, Exec.pop, hitems]
  | cons v rest => simp [perform, Exec.bind_apply, Exec.pop, hitems, Exec.fail]

/-- An error of the rules is worded by the operand that they give. -/
theorem exists_of_perform_rule {i : Instruction} (h : s.perform i f = (.error fault, g))
    (hkind : fault.kind = .ruleError) :
    i = .raise ∧ ∃ v rest, f.stack.items = v :: rest ∧ fault = .rule v.display := by
  obtain rfl := ((s.composed_perform i).raises_of_eq_error h).eq_raise hkind
  refine ⟨rfl, ?_⟩
  rw [perform_raise] at h
  cases hitems : f.stack.items with
  | nil =>
    rw [hitems] at h
    cases h
    cases hkind
  | cons v rest =>
    rw [hitems] at h
    cases h
    exact ⟨v, rest, rfl, rfl⟩

theorem eq_returnError_of_ofBytes {op : Opcode} {byte : Nat → Nat}
    (h : Instruction.ofBytes op byte = .raise) : op = .returnError := by
  cases op <;> first | rfl | cases h

/-! ## Ends of runs -/

/-- A run that ends in a failure ends at the address of the failure, which lies behind the end of
    the body exactly if a return is missing. -/
theorem EndsWrapped.address_eq {failure : Failure} (h : s.EndsWrapped body p (.error failure) g) :
    failure.address = some p.1 ∧ (failure.kind = .missingReturn ↔ body.stop ≤ p.1) := by
  cases h with
  | @unfetched a _ fault hfetch =>
    refine ⟨rfl, ?_⟩
    show fault.kind = .missingReturn ↔ body.stop ≤ a
    rcases fetchWrapped_cases hfetch with ⟨rfl, hle⟩ | ⟨hcommon, hlt⟩
    · exact iff_of_true rfl hle
    · exact iff_of_false (Fault.kind_of_isCommon hcommon).1 (Nat.not_le.2 hlt)
  | fault hfetch hperform =>
    have hraised := (s.composed_perform _).raises_of_eq_error hperform
    have hlt := (fetchWrapped_eq_ok_iff.1 hfetch).1
    exact ⟨rfl, iff_of_false hraised.kind_ne_missingReturn (Nat.not_le.2 hlt)⟩

/-- At the place the rules raise an error, with the operand on top of the stack. -/
def RaisesAt (s : Setting) (body : Body) (p : Place) (v : Value) : Prop :=
  s.fetchWrapped body p.1 = .ok .returnError ∧ p.2.stack.items.head? = some v

theorem RaisesAt.ends {v : Value} (h : s.RaisesAt body p v) :
    s.EndsWrapped body p (.error ⟨.rule v.display, some p.1⟩)
      { p.2 with stack := p.2.stack.drop 1 } := by
  obtain ⟨hfetch, htop⟩ := h
  obtain ⟨rest, hitems⟩ := List.head?_eq_some_iff.1 htop
  refine .fault hfetch ?_
  show s.perform .raise p.2 = _
  rw [perform_raise, hitems]

/-- A run ends with an error of the rules only where they raise one. -/
theorem EndsWrapped.exists_raisesAt {failure : Failure}
    (h : s.EndsWrapped body p (.error failure) g) (hkind : failure.kind = .ruleError) :
    ∃ v, s.RaisesAt body p v ∧ failure.message = v.display := by
  cases h with
  | unfetched hfetch =>
    rcases fetchWrapped_cases hfetch with ⟨rfl, -⟩ | ⟨hcommon, -⟩
    · cases hkind
    · exact absurd hkind (Fault.kind_of_isCommon hcommon).2
  | fault hfetch hperform =>
    obtain ⟨hraise, v, rest, hitems, rfl⟩ := exists_of_perform_rule hperform hkind
    obtain rfl := eq_returnError_of_ofBytes hraise
    exact ⟨v, ⟨hfetch, congrArg List.head? hitems⟩, rfl⟩

end Setting

namespace Machine

/-- A run of a body ends in a failure that says at which address, and leaves a machine that keeps the
    failure. -/
structure TrapsAt (setup : Setup) (m : Machine) (body : Body) (a : Nat) (failure : Failure)
    (m' : Machine) : Prop where
  category : (Error.evaluation failure).category = .evaluation
  address : (Error.evaluation failure).address = some a
  /-- Only a return that is missing is missed behind the end of the body. -/
  missing : failure.kind = .missingReturn ↔ body.stop ≤ a
  message : failure.kind ≠ .ruleError →
    (" at address " : Bytes) ++ decimal a <:+ failure.message
  /-- An error of the rules is raised where it says, and worded by the operand that it pops. -/
  raised : failure.kind = .ruleError ↔ ∃ f v, (m.setting setup).VisitsWrapped body m.frame (a, f) ∧
    (m.setting setup).RaisesAt body (a, f) v ∧ failure.message = v.display
  status : m'.status = .trapped
  trap : m'.trap = some failure

/-- The address of the failure is inside the body or not far behind it. -/
structure FailsAt (setup : Setup) (m : Machine) (body : Body) (a : Nat) (failure : Failure)
    (m' : Machine) : Prop extends TrapsAt setup m body a failure m' where
  start_le : body.start ≤ a
  lt_stop : failure.kind ≠ .missingReturn → a < body.stop
  /-- No farther behind the end than a jump can lead. -/
  beyond : failure.kind = .missingReturn → body.stop ≤ a ∧ a ≤ body.stop + 0xFFFF

variable {setup : Setup} {m m' : Machine} {limit index : Nat} {body : Body} {failure : Failure}

/-- A run that fails comes to the place where it does. -/
theorem exists_visitsWrapped (h : m.runWrapped setup limit body = some (.error failure, m')) :
    ∃ p, (m.setting setup).VisitsWrapped body m.frame p ∧
      (m.setting setup).EndsWrapped body p (.error failure) m'.frame ∧
        m'.status = .trapped ∧ m'.trap = some failure := by
  obtain ⟨⟨r, g, events⟩, hrun, hconclude⟩ := Option.map_eq_some_iff.1 h
  obtain ⟨p, hvisits, hends⟩ := Setting.exists_endsWrapped hrun
  cases r with
  | ok exit => cases hconclude
  | error failure =>
    cases hconclude
    exact ⟨p, hvisits, hends, rfl, rfl⟩

/-- Every run that fails says where, and only that place may be wrong: it may be below the body, or
    the body may end far below its start. -/
theorem exists_trapsAt (h : m.runWrapped setup limit body = some (.error failure, m')) :
    ∃ a, m.TrapsAt setup body a failure m' ∧ (m.FailsAt setup body a failure m' ↔
      body.start ≤ a ∧ body.start ≤ body.stop + 0xFFFF) := by
  obtain ⟨⟨a, f⟩, hvisits, hends, hstatus, htrap⟩ := exists_visitsWrapped h
  obtain ⟨haddress, hmissing⟩ := hends.address_eq
  have htraps : m.TrapsAt setup body a failure m' := by
    refine ⟨rfl, haddress, hmissing, Failure.suffix_message haddress, ?_, hstatus, htrap⟩
    constructor
    · intro hrule
      obtain ⟨v, hraises, hmessage⟩ := hends.exists_raisesAt hrule
      exact ⟨f, v, hvisits, hraises, hmessage⟩
    · intro ⟨f', v, hvisits', hraises, _⟩
      obtain ⟨⟨r, g, events⟩, hrun, hconclude⟩ := Option.map_eq_some_iff.1 h
      cases Setting.eq_of_leadsWrapped hvisits' hraises.ends hrun
      cases hconclude
      rfl
  refine ⟨a, htraps, ?_, ?_⟩
  · intro hfails
    refine ⟨hfails.start_le, Nat.le_trans hfails.start_le ?_⟩
    by_cases hkind : failure.kind = .missingReturn
    · exact (hfails.beyond hkind).2
    · exact Nat.le_add_right_of_le (Nat.le_of_lt (hfails.lt_stop hkind))
  · intro ⟨hstart, hbody⟩
    have hbeyond : a ≤ body.stop + 0xFFFF := Setting.le_stop_add_of_visitsWrapped hbody hvisits
    refine ⟨htraps, hstart, ?_, ?_⟩
    · intro hother
      exact Nat.lt_of_not_le fun hle => hother (hmissing.2 hle)
    · intro hkind
      exact ⟨hmissing.1 hkind, hbeyond⟩

/-- The body is clear of the last address, so its run fails inside it or behind it. -/
theorem exists_failsAt (hbody : body.Clear)
    (h : m.runWrapped setup limit body = some (.error failure, m')) :
    ∃ a, m.FailsAt setup body a failure m' := by
  obtain ⟨a, htraps, hiff⟩ := exists_trapsAt h
  obtain ⟨p, hvisits, hends, -⟩ := exists_visitsWrapped h
  obtain rfl : a = p.1 := Option.some.inj (htraps.address.symm.trans hends.address_eq.1)
  have hle : body.start ≤ p.1 := Setting.LeadsWrapped.le hbody.stop_add_lt hvisits
  have hstart := hbody.start_lt
  exact ⟨p.1, hiff.2 ⟨hle, by omega⟩⟩

/-! ## Conditions and results -/

/-- How the run of a condition or a result may fail, whose body that is. -/
structure Fails {α : Type} (setup : Setup) (m : Machine) (body : Body) (limit : Nat)
    (ended : Option (Except Failure α × Machine)) : Prop where
  /-- A failure says where it happened.  That is a place for it exactly if it is not below the body
      and the body does not end far below its start. -/
  traps : ∀ failure m', ended = some (.error failure, m') →
    ∃ a, m.TrapsAt setup body a failure m' ∧ (m.FailsAt setup body a failure m' ↔
      body.start ≤ a ∧ body.start ≤ body.stop + 0xFFFF)
  /-- If the body is clear of the last address, the run ends within every limit above the number of
      its bytes, and a failure is in its place. -/
  clear : body.Clear → (body.stop - body.start < limit → ended ≠ none) ∧
    ∀ failure m', ended = some (.error failure, m') → ∃ a, m.FailsAt setup body a failure m'

/-- What fails only as its body does fails so. -/
theorem fails_map {α : Type} {g : Except Failure Exit × Machine → Except Failure α × Machine}
    (hg : ∀ ended failure m', g ended = (.error failure, m') → ended = (.error failure, m')) :
    m.Fails setup body limit ((m.runWrapped setup limit body).map g) := by
  have hrun : ∀ failure m', (m.runWrapped setup limit body).map g = some (.error failure, m') →
      m.runWrapped setup limit body = some (.error failure, m') := by
    intro failure m' h
    obtain ⟨ended, hended, hfailure⟩ := Option.map_eq_some_iff.1 h
    rw [hended, hg ended failure m' hfailure]
  refine ⟨fun failure m' h => exists_trapsAt (hrun failure m' h), fun hclear => ⟨?_, ?_⟩⟩
  · intro hlimit hnone
    rcases runWrapped_cases hclear setup limit m with ⟨-, hle⟩ | hsome
    · exact absurd hlimit (Nat.not_lt.2 hle)
    · rw [hsome] at hnone
      cases hnone
  · exact fun failure m' h => exists_failsAt hclear (hrun failure m' h)

/-- A condition fails only as its body does. -/
theorem eq_of_judge_eq_error (ended : Except Failure Exit × Machine) (failure : Failure)
    (m' : Machine) (h : judge setup index ended = (.error failure, m')) :
    ended = (.error failure, m') := by
  rcases ended with ⟨_ | exit, k⟩
  · cases h
    rfl
  · cases h

/-- A result fails only as its body does. -/
theorem eq_of_answer_eq_error (ended : Except Failure Exit × Machine) (failure : Failure)
    (m' : Machine) (h : answer index ended = (.error failure, m')) :
    ended = (.error failure, m') := by
  rcases ended with ⟨_ | ⟨_ | _⟩, k⟩
  · cases h
    rfl
  · cases h
  · cases h

/-- Conditions and results that fail say where, and the machine keeps the failure.  This holds for
    every index in range, whatever the code is and whatever the functions do.  Where a body is clear
    of the last address, the place of the failure is one of the body's or close behind it. -/
theorem failures_addressed (setup : Setup) (m : Machine) (index limit : Nat) :
    (index < setup.program.parts.conditions.size →
      ∃ body, setup.program.body? .condition index = some body ∧
        m.Fails setup body limit (m.testWrapped setup limit index)) ∧
    (index < setup.program.parts.results.size →
      ∃ body, setup.program.body? .result index = some body ∧
        m.Fails setup body limit (m.resolveWrapped setup limit index)) := by
  constructor
  · intro hindex
    obtain ⟨body, hbody⟩ := setup.program.exists_body?_of_lt .condition hindex
    refine ⟨body, hbody, ?_⟩
    rw [testWrapped, hbody]
    exact fails_map eq_of_judge_eq_error
  · intro hindex
    obtain ⟨body, hbody⟩ := setup.program.exists_body?_of_lt .result hindex
    refine ⟨body, hbody, ?_⟩
    rw [resolveWrapped, if_neg (by omega), Int.toNat_natCast, hbody]
    exact fails_map eq_of_answer_eq_error

/-- The jump over the end of its body fails where it leads, five bytes behind that end. -/
theorem failures_addressed_straying :
    0 < straying.program.parts.conditions.size ∧
    straying.program.body? .condition 0 = some ⟨.condition, 0, 0, 5⟩ ∧
    Body.Clear ⟨.condition, 0, 0, 5⟩ ∧ 5 - 0 < 6 ∧
    ∃ m', (start straying none).testWrapped straying 6 0 =
        some (.error ⟨.missingReturn, some 10⟩, m') ∧
      ∃ a, (start straying none).FailsAt straying ⟨.condition, 0, 0, 5⟩ a
        ⟨.missingReturn, some 10⟩ m' := by
  have hsize : 0 < straying.program.parts.conditions.size := by decide
  have hbody : straying.program.body? .condition 0 = some ⟨.condition, 0, 0, 5⟩ := rfl
  have hclear : Body.Clear ⟨.condition, 0, 0, 5⟩ := ⟨by decide, by decide⟩
  have hlimit : 5 - 0 < 6 := by decide
  have hresult : ((start straying none).test straying 0).1 =
      .error ⟨.missingReturn, some 10⟩ := by cbv
  obtain ⟨body, hbody', hfails⟩ := (failures_addressed straying (start straying none) 0 6).1 hsize
  obtain rfl := Option.some.inj (hbody'.symm.trans hbody)
  obtain ⟨hends, hfails⟩ := hfails.clear hclear
  have hsame := (testWrapped_cases hbody hclear 6 (start straying none)).resolve_left
    fun h => hends hlimit h.1
  have htest : (start straying none).testWrapped straying 6 0 =
      some (.error ⟨.missingReturn, some 10⟩, ((start straying none).test straying 0).2) :=
    hsame.trans (congrArg some (Prod.ext hresult rfl))
  exact ⟨hsize, hbody, hclear, hlimit, _, htest, hfails _ _ htest⟩

/-! ## A jump behind the last address -/

/-- A condition behind `n` bytes that are no opcodes; it pushes `true` and jumps as far as a jump
    can. -/
def farJump (n : Nat) : Program :=
  .ofCallsNothing
    { code := Parts.padded n #[0x00, 0x00, 0x2A, 0xFF, 0xFF]
      conditions := #[n]
      constants := #[.boolean true]
      diagram := { entries := #[], root := 1 } }
    { sizes := by simp [Parts.checkSizes_eq_ok_iff]
      names := rfl
      conditions := by simp
      results := by simp
      diagram := by
        show Diagram.validate { entries := #[], root := 1 } 1 0 = .ok ()
        decide }
    (Parts.callsNothing_padded n (by
      intro byte hbyte op hop
      simp only [List.mem_toArray, List.mem_cons, List.not_mem_nil, or_false] at hbyte
      rcases hbyte with rfl | rfl | rfl | rfl | rfl <;> cases hop <;> rfl))

theorem body?_farJump {n : Nat} (h : n + 5 < 0x100000000) :
    (farJump n).body? .condition 0 = some ⟨.condition, 0, n, n + 5⟩ := by
  have hbody : (farJump n).body? .condition 0 =
      some ⟨.condition, 0, n, (farJump n).stopOf n⟩ := rfl
  have hlast : (farJump n).IsLast ⟨.condition, 0, n, (farJump n).stopOf n⟩ := by
    intro sort a ha
    cases sort with
    | condition => exact Nat.le_of_eq (Array.mem_singleton.1 ha)
    | result => cases Array.not_mem_empty a ha
  have hsize : (farJump n).code.size = n + 5 := Parts.size_padded
  have hstop := Program.stop_eq_of_isLast hbody hlast
  rw [hsize, address_of_lt h] at hstop
  rw [hbody, ← hstop]

section

variable {n : Nat} {s : Setting}

theorem code_farJump (hs : s.program = farJump n) :
    s.program.code = Parts.padded n #[0x00, 0x00, 0x2A, 0xFF, 0xFF] := by
  rw [hs]
  rfl

theorem getD_code_farJump (hs : s.program = farJump n) (k : Nat) :
    s.program.code.getD (n + k) 0 = #[0x00, 0x00, 0x2A, 0xFF, 0xFF].getD k 0 := by
  rw [code_farJump hs]
  exact Parts.getD_padded_add n k _

/-- The condition ends six bytes below the last address.  First it pushes `true`. -/
theorem stepWrapped_push_farJump (hn : n + 6 = 0x100000000) (hs : s.program = farJump n)
    (f : Frame) :
    s.StepWrapped ⟨.condition, 0, n, n + 5⟩ (n, f)
      (n + 2, { f with stack := f.stack.push (.boolean true) }) := by
  have hfetch : s.fetchWrapped ⟨.condition, 0, n, n + 5⟩ n = .ok .loadConst := by
    refine Setting.fetchWrapped_eq_ok_iff.2 ⟨Nat.lt_add_of_pos_right (by decide), ?_, ?_⟩
    · rw [show s.program.code.getD n 0 = 0x00 from getD_code_farJump hs 0]
      rfl
    · exact Nat.le_trans (address_le _) (Nat.add_le_add_left (by decide) n)
  have hdecode : Instruction.decodeWrapped .loadConst s.program.code n = .loadConstant 0 := by
    rw [Instruction.decodeWrapped_eq (by show n + 2 ≤ 0x100000000; omega)]
    show Instruction.loadConstant (s.program.code.getD (n + 1) 0).toNat = _
    rw [getD_code_farJump hs 1]
    rfl
  have hconstants : s.program.parts.constants = #[.boolean true] := by
    rw [hs]
    rfl
  have hnext : address (n + Opcode.loadConst.length) = n + 2 :=
    address_of_lt (by show n + 2 < 0x100000000; omega)
  rw [← hnext]
  refine .next hfetch ?_
  rw [hdecode]
  simp [Setting.perform, Exec.bind_apply, Exec.constant, hconstants, Exec.push, Exec.pure_apply]

/-- With a value that is set on top of the stack, it jumps to address 65534. -/
theorem stepWrapped_jump_farJump (hn : n + 6 = 0x100000000) (hs : s.program = farJump n)
    {f : Frame} {v : Value} {rest : List Value} (hitems : f.stack.items = v :: rest)
    (hset : v.isSet = true) :
    s.StepWrapped ⟨.condition, 0, n, n + 5⟩ (n + 2, f) (65534, f) := by
  have hfetch : s.fetchWrapped ⟨.condition, 0, n, n + 5⟩ (n + 2) = .ok .jumpIfSetOrPop := by
    refine Setting.fetchWrapped_eq_ok_iff.2 ⟨Nat.add_lt_add_left (by decide) n, ?_, ?_⟩
    · rw [getD_code_farJump hs 2]
      rfl
    · exact Nat.le_trans (address_le _) (Nat.le_of_eq rfl)
  have hdecode : Instruction.decodeWrapped .jumpIfSetOrPop s.program.code (n + 2) =
      .jumpIfSetOrPop 0xFFFF := by
    rw [Instruction.decodeWrapped_eq (by show n + 2 + 3 ≤ 0x100000000; omega)]
    show Instruction.jumpIfSetOrPop ((s.program.code.getD (n + 3) 0).toNat * 256 +
      (s.program.code.getD (n + 4) 0).toNat) = _
    rw [getD_code_farJump hs 3, getD_code_farJump hs 4]
    rfl
  have hsum : n + 2 + Opcode.jumpIfSetOrPop.length + 0xFFFF = 0x100000000 + 65534 := by
    show n + 2 + 3 + 0xFFFF = _
    omega
  have hnext : address (n + 2 + Opcode.jumpIfSetOrPop.length + 0xFFFF) = 65534 := by
    rw [hsum]
    rfl
  rw [← hnext]
  refine .skip hfetch ?_
  rw [hdecode, Setting.perform_jumpIfSetOrPop, hitems]
  simp [hset]

/-- The byte there is no opcode. -/
theorem runFromWrapped_farJump (hn : n + 6 = 0x100000000) (hs : s.program = farJump n)
    (record : Bool) (limit : Nat) (f : Frame) (events : Array Trace.Event) :
    ∃ g events', s.runFromWrapped record ⟨.condition, 0, n, n + 5⟩ (limit + 3) n f events =
      some (.error ⟨.unknownOpcode 0xFF, some 65534⟩, g, events') := by
  have hland : s.fetchWrapped ⟨.condition, 0, n, n + 5⟩ 65534 = .error (.unknownOpcode 0xFF) := by
    have hbyte : s.program.code.getD 65534 0 = 0xFF := by
      rw [code_farJump hs]
      exact Parts.getD_padded_of_lt (by omega)
    rw [Setting.fetchWrapped, if_neg (by dsimp only; omega), hbyte]
    rfl
  have hpush := stepWrapped_push_farJump hn hs f
  have hjump := stepWrapped_jump_farJump hn hs
    (f := { f with stack := f.stack.push (.boolean true) }) (f.stack.items_push _) rfl
  obtain ⟨events₁, h₁⟩ := Setting.runFromWrapped_of_step hpush record (limit + 2) events
  obtain ⟨events₂, h₂⟩ := Setting.runFromWrapped_of_step hjump record (limit + 1) events₁
  exact ⟨_, events₂, (h₁.trans h₂).trans
    (Setting.runFromWrapped_of_unfetched hland record limit _ events₂)⟩

end

/-- The condition fails at address 65534, far below the body. -/
theorem not_failsAt_farJump :
    let setup := plainSetup (farJump (0x100000000 - 6))
    let body : Body := ⟨.condition, 0, 0x100000000 - 6, 0x100000000 - 1⟩
    setup.program.body? .condition 0 = some body ∧
      ∃ m', (start setup none).testWrapped setup 3 0 =
          some (.error ⟨.unknownOpcode 0xFF, some 65534⟩, m') ∧
        ¬ ∃ a, (start setup none).FailsAt setup body a ⟨.unknownOpcode 0xFF, some 65534⟩ m' := by
  intro setup body
  have hbody : setup.program.body? .condition 0 = some body := body?_farJump (by decide)
  let m := start setup none
  obtain ⟨g, events, hrun⟩ := runFromWrapped_farJump (by decide)
    (rfl : (m.setting setup).program = farJump (0x100000000 - 6)) false 0
    { m.frame with stack := m.frame.stack.clear } m.events
  have hrun' : m.runWrapped setup 3 body =
      some (m.conclude (.error ⟨.unknownOpcode 0xFF, some 65534⟩, g, events)) :=
    congrArg (Option.map m.conclude) hrun
  have htest : m.testWrapped setup 3 0 = some (.error ⟨.unknownOpcode 0xFF, some 65534⟩,
      (m.conclude (.error ⟨.unknownOpcode 0xFF, some 65534⟩, g, events)).2) := by
    rw [testWrapped, hbody]
    dsimp only
    rw [hrun']
    rfl
  refine ⟨hbody, _, htest, ?_⟩
  rintro ⟨a, hfails⟩
  obtain rfl : 65534 = a := Option.some.inj hfails.address
  exact absurd hfails.start_le (by decide)

end Machine

end EndpointRules
