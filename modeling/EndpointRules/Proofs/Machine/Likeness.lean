import EndpointRules.Proofs.Machine.Composed
import EndpointRules.Proofs.Uri.Cache

/-!
# Frames that no instruction tells apart

How much room a stack has and what a cache of URIs holds makes no difference to an instruction:
frames with the same registers and the same operands give the same value or the same fault, and
frames that are alike again.
-/

namespace EndpointRules

/-- The frames have the same registers and the same operands. -/
structure Frame.Alike (f g : Frame) : Prop where
  registers : f.registers = g.registers
  items : f.stack.items = g.stack.items

namespace Exec

variable {assigns : Prop} {raises : Fault → Prop} {α : Type} {m : Exec α} {f g : Frame}

/-- A lookup of a URI finds what the text is, and keeps all but the cache. -/
theorem exists_findUri?_eq (text : Bytes) (f : Frame) :
    ∃ cache, findUri? text f = (.ok (Uri.parse? text), { f with cache }) := by
  obtain ⟨registers, stack, cache⟩ := f
  cases cache with
  | none => exact ⟨none, rfl⟩
  | some cache => exact ⟨some (cache.get text).2, by simp [findUri?, cache.uri?_get]⟩

/-- A composed computation has the same outcome on frames that are alike, and leaves frames that are
    alike. -/
theorem Composed.alike (hm : Composed assigns raises m) (h : f.Alike g) :
    (m f).1 = (m g).1 ∧ (m f).2.Alike (m g).2 := by
  induction hm generalizing f g with
  | pure x => exact ⟨rfl, h⟩
  | @bind _ _ m k _ _ ihm ihk =>
    obtain ⟨hfst, hsnd⟩ := ihm h
    rw [bind_apply, bind_apply]
    cases hf : m f with
    | mk r f' =>
      cases hg : m g with
      | mk r' g' =>
        rw [hf, hg] at hfst hsnd
        obtain rfl : r = r' := hfst
        cases r with
        | ok x => exact ihk x hsnd
        | error fault => exact ⟨rfl, hsnd⟩
  | fail _ => exact ⟨rfl, h⟩
  | push v =>
    refine ⟨rfl, h.registers, ?_⟩
    simp only [Exec.push, Stack.items_push, h.items]
  | pop _ =>
    simp only [Exec.pop, h.items]
    split
    · exact ⟨rfl, h⟩
    · exact ⟨rfl, h.registers, congrArg (List.drop 1) h.items⟩
  | peek _ =>
    simp only [Exec.peek, h.items]
    split
    · exact ⟨rfl, h⟩
    · exact ⟨rfl, h⟩
  | popMany count _ =>
    simp only [Exec.popMany, h.items]
    split
    · exact ⟨rfl, h⟩
    · exact ⟨rfl, h.registers, congrArg (List.drop count) h.items⟩
  | register index _ =>
    simp only [Exec.register, h.registers]
    split
    · exact ⟨rfl, h⟩
    · exact ⟨rfl, h⟩
  | assign index v _ =>
    exact ⟨rfl, congrArg (·.setIfInBounds index v) h.registers, h.items⟩
  | findUri? text =>
    obtain ⟨_, hf⟩ := exists_findUri?_eq text f
    obtain ⟨_, hg⟩ := exists_findUri?_eq text g
    rw [hf, hg]
    exact ⟨rfl, h.registers, h.items⟩

end Exec

end EndpointRules
