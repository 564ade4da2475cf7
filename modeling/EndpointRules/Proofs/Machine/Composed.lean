import EndpointRules.Machine.Perform

/-!
# What instructions are made of

Every instruction is composed of a few computations on frames: pushing and popping operands, reading
and assigning registers, looking up URIs, and faults.  `Exec.Composed` says so of a computation,
and says besides whether it assigns registers and which faults it raises.  Whatever the primitive
computations keep is kept by every instruction.
-/

namespace EndpointRules

namespace Exec

/-- The computation is composed of primitive ones.  It assigns registers only if `assigns` holds,
    and the faults it raises satisfy `raises`. -/
inductive Composed (assigns : Prop) (raises : Fault → Prop) : {α : Type} → Exec α → Prop
  | pure {α : Type} (x : α) : Composed assigns raises (Pure.pure x : Exec α)
  | bind {α β : Type} {m : Exec α} {k : α → Exec β} (hm : Composed assigns raises m)
      (hk : ∀ x, Composed assigns raises (k x)) : Composed assigns raises (m >>= k)
  | fail {α : Type} {fault : Fault} (h : raises fault) :
      Composed assigns raises (Exec.fail fault : Exec α)
  | push (v : Value) : Composed assigns raises (Exec.push v)
  | pop (h : raises .stackUnderflow) : Composed assigns raises Exec.pop
  | peek (h : raises .stackUnderflow) : Composed assigns raises Exec.peek
  | popMany (count : Nat) (h : raises .stackUnderflow) :
      Composed assigns raises (Exec.popMany count)
  | register (index : Nat) (h : raises (.registerIndex index)) :
      Composed assigns raises (Exec.register index)
  | assign (index : Nat) (v : Value) (h : assigns) :
      Composed assigns raises (Exec.assign index v)
  | findUri? (text : Bytes) : Composed assigns raises (Exec.findUri? text)

namespace Composed

variable {assigns : Prop} {raises : Fault → Prop} {α : Type}

theorem result {r : Except Fault α} (h : ∀ fault, r = .error fault → raises fault) :
    Composed assigns raises (Exec.result r) := by
  cases r with
  | ok x => exact .pure x
  | error fault => exact .fail (h fault rfl)

theorem constant {p : Program} {index : Nat} (h : raises (.constantIndex index)) :
    Composed assigns raises (Exec.constant p index) := by
  unfold Exec.constant
  split
  · exact .fail h
  · exact .pure _

/-- A fault of a composed computation is one that it may raise. -/
theorem raises_of_eq_error {m : Exec α} (hm : Composed assigns raises m) {f g : Frame}
    {fault : Fault} (h : m f = (.error fault, g)) : raises fault := by
  induction hm generalizing f g with
  | pure x => cases h
  | bind hm hk ihm ihk =>
    rw [bind_apply] at h
    split at h
    · next x f' hx => exact ihk x h
    · next fault' f' hfault =>
      cases h
      exact ihm hfault
  | fail hraises =>
    cases h
    exact hraises
  | push v => cases h
  | pop hraises =>
    unfold Exec.pop at h
    split at h <;> cases h
    exact hraises
  | peek hraises =>
    unfold Exec.peek at h
    split at h <;> cases h
    exact hraises
  | popMany count hraises =>
    unfold Exec.popMany at h
    dsimp only at h
    split at h <;> cases h
    exact hraises
  | register index hraises =>
    unfold Exec.register at h
    split at h <;> cases h
    exact hraises
  | assign index v _ => cases h
  | findUri? text =>
    unfold Exec.findUri? at h
    split at h <;> cases h

end Composed

end Exec

end EndpointRules
