import EndpointRules.Proofs.Machine.Relocation

/-!
# What changes a register

Of all instructions only one assigns registers, and it assigns the one register that it names.  An
instruction that faults changes none, and neither does the instruction that ends a body.  So a run
of a body keeps every register that no instruction of the run sets.
-/

namespace EndpointRules

namespace Exec

variable {assigns : Prop} {raises : Fault → Prop} {α : Type} {m : Exec α}

/-- A computation that assigns no register keeps the registers. -/
theorem Composed.registers_eq (hm : Composed assigns raises m) (hkeeps : ¬ assigns) (f : Frame) :
    (m f).2.registers = f.registers := by
  induction hm generalizing f with
  | pure x => rfl
  | @bind _ _ m k _ _ ihm ihk =>
    have hfirst := ihm f
    rw [bind_apply]
    cases hf : m f with
    | mk r g =>
      rw [hf] at hfirst
      cases r with
      | ok x => exact (ihk x g).trans hfirst
      | error fault => exact hfirst
  | fail _ => rfl
  | push v => rfl
  | pop _ =>
    unfold Exec.pop
    split <;> rfl
  | peek _ =>
    unfold Exec.peek
    split <;> rfl
  | popMany count _ =>
    unfold Exec.popMany
    dsimp only
    split <;> rfl
  | register index _ =>
    unfold Exec.register
    split <;> rfl
  | assign index v h => exact absurd h hkeeps
  | findUri? text =>
    obtain ⟨cache, heq⟩ := exists_findUri?_eq text f
    rw [heq]

end Exec

namespace Setting

variable {s : Setting} {body : Body} {p q : Place} {f g : Frame} {i : Instruction}
  {r : Except Failure Exit} {index : Nat}

/-! ## Instructions -/

theorem registers_perform (h : ∀ index, i ≠ .setRegister index) (f : Frame) :
    (s.perform i f).2.registers = f.registers :=
  (s.composed_perform i).registers_eq (fun ⟨index, heq⟩ => h index heq) f

/-- Setting a register either assigns it a value and goes on, or faults and changes no register. -/
theorem perform_setRegister (s : Setting) (index : Nat) (f : Frame) :
    (∃ v g, s.perform (.setRegister index) f = (.ok .next, g) ∧
      g.registers = f.registers.setIfInBounds index v) ∨
    ∃ fault g, s.perform (.setRegister index) f = (.error fault, g) ∧
      g.registers = f.registers := by
  cases hregister : f.registers[index]? with
  | none =>
    refine .inr ⟨.registerIndex index, f, ?_, rfl⟩
    simp [perform, Exec.bind_apply, Exec.register, hregister]
  | some old =>
    cases hitems : f.stack.items with
    | nil =>
      refine .inr ⟨.stackUnderflow, f, ?_, rfl⟩
      simp [perform, Exec.bind_apply, Exec.register, hregister, Exec.pop, hitems]
    | cons v rest =>
      refine .inl ⟨v, { f with
        registers := f.registers.setIfInBounds index v, stack := f.stack.drop 1 }, ?_, rfl⟩
      simp [perform, Exec.bind_apply, Exec.register, hregister, Exec.pop, hitems, Exec.assign,
        Exec.pure_apply]

/-- An instruction that does not go on changes no register. -/
theorem registers_of_perform {result : Except Fault Control}
    (h : s.perform i f = (result, g)) (hresult : result ≠ .ok .next) :
    g.registers = f.registers := by
  by_cases hset : ∃ index, i = .setRegister index
  · obtain ⟨index, rfl⟩ := hset
    rcases s.perform_setRegister index f with ⟨v, g', hgo, -⟩ | ⟨fault, g', hfault, hkept⟩
    · rw [hgo] at h
      cases h
      exact absurd rfl hresult
    · rw [hfault] at h
      cases h
      exact hkept
  · have hkept := s.registers_perform (fun index heq => hset ⟨index, heq⟩) f
    rw [h] at hkept
    exact hkept

/-- An instruction keeps the registers other than the one it sets. -/
theorem getElem?_perform (h : i ≠ .setRegister index) (f : Frame) :
    (s.perform i f).2.registers[index]? = f.registers[index]? := by
  by_cases hset : ∃ other, i = .setRegister other
  · obtain ⟨other, rfl⟩ := hset
    have hne : other ≠ index := fun heq => h (congrArg _ heq)
    rcases s.perform_setRegister other f with ⟨v, g, hgo, hassigned⟩ | ⟨fault, g, hfault, hkept⟩
    · rw [hgo, hassigned, Array.getElem?_setIfInBounds_ne hne]
    · rw [hfault, hkept]
  · rw [s.registers_perform (fun other heq => hset ⟨other, heq⟩) f]

/-! ## Runs -/

/-- The instruction at a place sets a register. -/
def SetsAt (s : Setting) (body : Body) (p : Place) (index : Nat) : Prop :=
  ∃ op, s.fetch body p.1 = .ok op ∧
    Instruction.decode op s.program.code p.1 = .setRegister index

/-- A run of a body from a frame carries out, without a fault, an instruction that sets a
    register. -/
def Assigns (s : Setting) (body : Body) (f : Frame) (index : Nat) : Prop :=
  ∃ p q, s.Visits body f p ∧ s.Step body p q ∧ s.SetsAt body p index

theorem Step.getElem?_eq (h : s.Step body p q) (hkeeps : ¬ s.SetsAt body p index) :
    q.2.registers[index]? = p.2.registers[index]? := by
  obtain ⟨op, _, hfetch, hperform⟩ := h.exists_perform
  have hkept := s.getElem?_perform (fun heq => hkeeps ⟨op, hfetch, heq⟩) p.2
  rw [hperform] at hkept
  exact hkept

theorem Ends.registers_eq (h : s.Ends body p r g) : g.registers = p.2.registers := by
  cases h with
  | unfetched _ => rfl
  | fault _ hperform => exact registers_of_perform hperform nofun
  | exit _ hperform => exact registers_of_perform hperform nofun

theorem getElem?_of_visits (hkeeps : ¬ s.Assigns body f index) (h : s.Visits body f p) :
    p.2.registers[index]? = f.registers[index]? := by
  induction h with
  | refl => rfl
  | tail hvisits hstep ih =>
    rw [hstep.getElem?_eq fun hsets => hkeeps ⟨_, _, hvisits, hstep, hsets⟩, ih]

/-- A run of a body keeps the registers that it does not set. -/
theorem getElem?_runBody (hkeeps : ¬ s.Assigns body f index) (record : Bool)
    (events : Array Trace.Event) :
    (s.runBody record body f events).2.1.registers[index]? = f.registers[index]? := by
  obtain ⟨p, hvisits, hends⟩ := exists_visits_ends s record body f events
  rw [hends.registers_eq, getElem?_of_visits hkeeps hvisits]

/-! ## Bodies that set no register -/

theorem Leads.le (h : s.Leads body p q) : p.1 ≤ q.1 := by
  induction h with
  | refl => exact Nat.le_refl _
  | tail _ hstep ih => exact Nat.le_trans ih (Nat.le_of_lt hstep.lt)

/-- Only one opcode stands for the setting of a register. -/
theorem eq_setRegister_of_decode {op : Opcode} {code : Array UInt8} {a : Nat}
    (h : Instruction.decode op code a = .setRegister index) : op = .setRegister := by
  cases op with
  | setRegister => rfl
  | _ => cases h

/-- No run of a body sets a register if no byte of the body is the opcode for it. -/
theorem not_assigns (h : ∀ a, body.start ≤ a → a < body.stop →
    Opcode.ofByte? (s.program.code.getD a 0) ≠ some .setRegister) (f : Frame) (index : Nat) :
    ¬ s.Assigns body f index := by
  rintro ⟨p, q, hvisits, -, op, hfetch, hdecode⟩
  have hbyte := (fetch_eq_ok_iff.1 hfetch).1
  rw [eq_setRegister_of_decode hdecode] at hbyte
  exact h p.1 (Leads.le hvisits) (lt_of_fetch hfetch) hbyte

end Setting

end EndpointRules
