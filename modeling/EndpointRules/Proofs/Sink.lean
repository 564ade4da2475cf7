import EndpointRules.Proofs.Except
import EndpointRules.Proofs.Word
import EndpointRules.Sink

/-!
# What writers append

Every operation of a sink appends bytes.  `Sink.Appends` says of a writer that may fail when it
succeeds and what it then appends.
-/

namespace EndpointRules

namespace Sink

variable {α ε : Type}

theorem bytes_raw (s : Sink) (data : Bytes) : (s.raw data).bytes = s.bytes ++ data.toArray := by
  have h : ∀ (data : Bytes) (out : Array UInt8),
      data.foldl Array.push out = out ++ data.toArray := by
    intro data
    induction data with
    | nil => simp
    | cons b data ih =>
      intro out
      rw [List.foldl_cons, ih]
      simp
  exact h data s.bytes

@[simp] theorem raw_raw (s : Sink) (a b : Bytes) : (s.raw a).raw b = s.raw (a ++ b) := by
  rw [raw, raw, raw, List.foldl_append]

theorem u8_eq_raw (s : Sink) (b : UInt8) : s.u8 b = s.raw [b] := rfl

theorem string_eq_raw (s : Sink) (t : Bytes) : s.string t = s.raw (Word.sized t) := by
  rw [string, u16, raw_raw]
  rfl

theorem append_eq_raw (s : Sink) (data : Array UInt8) : s.append data = s.raw data.toList := by
  have h := bytes_raw s data.toList
  rw [append, ← data.toArray_toList, ← h]

theorem foldl_eq_raw {write : Sink → α → Sink} {bytes : α → Bytes}
    (h : ∀ out x, write out x = out.raw (bytes x)) (xs : List α) (out : Sink) :
    xs.foldl write out = out.raw (xs.flatMap bytes) := by
  induction xs generalizing out with
  | nil => rfl
  | cons x xs ih => rw [List.foldl_cons, h, ih, raw_raw, List.flatMap_cons]

/-- The writer succeeds exactly on the things that fit, and then appends their bytes. -/
def Appends (write : Sink → α → Except ε Sink) (fits : α → Prop) (bytes : α → Bytes) : Prop :=
  ∀ out x out', write out x = .ok out' ↔ fits x ∧ out' = out.raw (bytes x)

theorem Appends.foldlM {write : Sink → α → Except ε Sink} {fits : α → Prop} {bytes : α → Bytes}
    (h : Appends write fits bytes) (xs : List α) (out out' : Sink) :
    xs.foldlM write out = .ok out' ↔ (∀ x ∈ xs, fits x) ∧ out' = out.raw (xs.flatMap bytes) := by
  induction xs generalizing out with
  | nil =>
    constructor
    · intro hout
      cases hout
      exact ⟨by simp, rfl⟩
    · rintro ⟨-, rfl⟩
      rfl
  | cons x xs ih =>
    rw [List.foldlM_cons, Except.bind_eq_ok_iff, List.forall_mem_cons, List.flatMap_cons,
      ← raw_raw]
    constructor
    · rintro ⟨out₁, hx, hxs⟩
      obtain ⟨hfits, rfl⟩ := (h out x out₁).1 hx
      obtain ⟨hrest, rfl⟩ := (ih _).1 hxs
      exact ⟨⟨hfits, hrest⟩, rfl⟩
    · rintro ⟨⟨hfits, hrest⟩, rfl⟩
      exact ⟨_, (h out x _).2 ⟨hfits, rfl⟩, (ih _).2 ⟨hrest, rfl⟩⟩

end Sink

end EndpointRules
