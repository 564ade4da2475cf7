import EndpointRules.Machine.Perform

/-!
# Where instructions lead

Every instruction goes on with the next one, except that a jump may skip the distance it names, that
the returns end the body with an endpoint or a value, and that the raising of an error never
completes.
-/

namespace EndpointRules

namespace Exec

variable {α β : Type}

/-- Every value of the computation has the property. -/
def Yields (m : Exec α) (property : α → Prop) : Prop :=
  ∀ f x g, m f = (.ok x, g) → property x

theorem yields_pure {property : α → Prop} {x : α} (h : property x) :
    Yields (pure x) property := by
  rintro f y g ⟨⟩
  exact h

theorem yields_fail {property : α → Prop} {fault : Fault} :
    Yields (fail fault) property := by
  rintro f y g ⟨⟩

theorem yields_bind {property : β → Prop} {m : Exec α} {k : α → Exec β}
    (h : ∀ x, Yields (k x) property) : Yields (m >>= k) property := by
  intro f y g hy
  rw [bind_apply] at hy
  split at hy
  · next x f' _ => exact h x f' y g hy
  · cases hy

end Exec

/-- The ways in which an instruction may complete. -/
def Instruction.Admits : Instruction → Control → Prop
  | .jumpIfSetOrPop distance, control => control = .next ∨ control = .skip distance
  | .returnEndpoint _ _, control => ∃ endpoint, control = .exit (.endpoint endpoint)
  | .returnValue, control => ∃ value, control = .exit (.value value)
  | .raise, _ => False
  | _, control => control = .next

namespace Setting

open Exec

theorem yields_perform (s : Setting) (i : Instruction) : Yields (s.perform i) i.Admits := by
  cases i with
  | parseUrl =>
    refine yields_bind fun text => ?_
    split
    · exact yields_bind fun _ => yields_pure rfl
    · exact yields_bind fun found => yields_bind fun _ => yields_pure rfl
  | uriEncode =>
    refine yields_bind fun text => ?_
    split
    · exact yields_bind fun _ => yields_pure rfl
    · exact yields_bind fun _ => yields_pure rfl
  | jumpIfSetOrPop distance =>
    refine yields_bind fun v => ?_
    split
    · exact yields_pure (.inr rfl)
    · exact yields_bind fun _ => yields_pure (.inl rfl)
  | raise => exact yields_bind fun v => yields_fail
  | returnEndpoint hasProperties hasHeaders =>
    exact yields_bind fun endpoint => yields_pure ⟨endpoint, rfl⟩
  | returnValue => exact yields_bind fun value => yields_pure ⟨value, rfl⟩
  | _ =>
    repeat refine yields_bind fun _ => ?_
    exact yields_pure rfl

/-- Only a jump skips bytes, and as many as it says. -/
theorem eq_jump_of_skip {s : Setting} {i : Instruction} {f g : Frame} {distance : Nat}
    (h : s.perform i f = (.ok (.skip distance), g)) : i = .jumpIfSetOrPop distance := by
  have hadmits := s.yields_perform i f _ g h
  cases i with
  | jumpIfSetOrPop d =>
    rcases hadmits with heq | heq <;> cases heq
    rfl
  | returnEndpoint => obtain ⟨endpoint, heq⟩ := hadmits; cases heq
  | returnValue => obtain ⟨value, heq⟩ := hadmits; cases heq
  | raise => exact hadmits.elim
  | _ => cases hadmits

/-- A jump skips no more bytes than two operand bytes can tell. -/
theorem distance_le_of_skip {s : Setting} {op : Opcode} {byte : Nat → UInt8} {distance : Nat}
    {f g : Frame}
    (h : s.perform (.ofBytes op fun place => (byte place).toNat) f = (.ok (.skip distance), g)) :
    distance ≤ 0xFFFF := by
  have hjump := eq_jump_of_skip h
  cases op <;> cases hjump
  show (byte 1).toNat * 256 + (byte 2).toNat ≤ 0xFFFF
  have := (byte 1).toNat_lt
  have := (byte 2).toNat_lt
  omega

end Setting

end EndpointRules
