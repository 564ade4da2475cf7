import Mathlib.Data.List.Forall2
import EndpointRules.Error

/-!
# Results of computations that may fail

When a chain of computations that may fail succeeds: exactly when every link does.
-/

namespace Except

variable {ε ε' α β : Type}

theorem bind_eq_ok_iff {x : Except ε α} {k : α → Except ε β} {b : β} :
    x >>= k = .ok b ↔ ∃ a, x = .ok a ∧ k a = .ok b := by
  cases x with
  | error e => simp [bind, Except.bind]
  | ok a => simp [bind, Except.bind]

theorem bind_eq_error_iff {x : Except ε α} {k : α → Except ε β} {e : ε} :
    x >>= k = .error e ↔ x = .error e ∨ ∃ a, x = .ok a ∧ k a = .error e := by
  cases x with
  | error e => simp [bind, Except.bind]
  | ok a => simp [bind, Except.bind]

theorem map_eq_ok_iff {x : Except ε α} {f : α → β} {b : β} :
    x.map f = .ok b ↔ ∃ a, x = .ok a ∧ f a = b := by
  cases x with
  | error e => simp [Except.map]
  | ok a => simp [Except.map]

theorem mapError_eq_ok_iff {x : Except ε α} {f : ε → ε'} {a : α} :
    x.mapError f = .ok a ↔ x = .ok a := by
  cases x with
  | error e => exact ⟨nofun, nofun⟩
  | ok b =>
    change ok b = ok a ↔ ok b = ok a
    rw [ok.injEq, ok.injEq]

theorem mapError_eq_error_iff {x : Except ε α} {f : ε → ε'} {e' : ε'} :
    x.mapError f = .error e' ↔ ∃ e, x = .error e ∧ f e = e' := by
  cases x with
  | error e =>
    change error (f e) = error e' ↔ _
    simp
  | ok a =>
    change ok a = error e' ↔ _
    simp

/-- A check of every element of a list succeeds exactly when each single check does. -/
theorem forM_eq_ok_iff {check : α → Except ε Unit} {xs : List α} :
    forM xs check = .ok () ↔ ∀ x ∈ xs, check x = .ok () := by
  induction xs with
  | nil => simp [pure, Except.pure]
  | cons x xs ih =>
    rw [List.forM_cons, bind_eq_ok_iff]
    simp only [List.mem_cons, forall_eq_or_imp]
    constructor
    · rintro ⟨⟨⟩, hx, hxs⟩
      exact ⟨hx, ih.1 hxs⟩
    · rintro ⟨hx, hxs⟩
      exact ⟨⟨⟩, hx, ih.2 hxs⟩

/-- What a check of every element of a list finds wrong is wrong with one of them. -/
theorem exists_of_forM_eq_error {check : α → Except ε Unit} {xs : List α} {e : ε}
    (h : forM xs check = .error e) : ∃ x ∈ xs, check x = .error e := by
  induction xs with
  | nil => cases h
  | cons x xs ih =>
    rw [List.forM_cons, bind_eq_error_iff] at h
    rcases h with hx | ⟨⟨⟩, _, hxs⟩
    · exact ⟨x, by simp, hx⟩
    · obtain ⟨y, hy, hcheck⟩ := ih hxs
      exact ⟨y, by simp [hy], hcheck⟩

/-- What goes wrong for a list of computations goes wrong for one of them. -/
theorem exists_of_mapM_eq_error {f : α → Except ε β} {xs : List α} {e : ε}
    (h : xs.mapM f = .error e) : ∃ x ∈ xs, f x = .error e := by
  induction xs with
  | nil => cases h
  | cons x xs ih =>
    rw [List.mapM_cons] at h
    cases hx : f x with
    | error e' =>
      rw [hx] at h
      cases h
      exact ⟨x, by simp, hx⟩
    | ok y =>
      cases hxs : xs.mapM f with
      | error e' =>
        rw [hx, hxs] at h
        cases h
        obtain ⟨z, hz, hfz⟩ := ih hxs
        exact ⟨z, by simp [hz], hfz⟩
      | ok ys =>
        rw [hx, hxs] at h
        cases h

/-- A list of computations succeeds exactly when each of them does, and with their values. -/
theorem mapM_eq_ok_iff {f : α → Except ε β} {R : α → β → Prop} {xs : List α} {ys : List β}
    (hf : ∀ x y, f x = .ok y ↔ R x y) : xs.mapM f = .ok ys ↔ List.Forall₂ R xs ys := by
  induction xs generalizing ys with
  | nil => cases ys <;> simp [pure, Except.pure]
  | cons x xs ih =>
    rw [List.mapM_cons, bind_eq_ok_iff]
    constructor
    · intro ⟨y, hy, h⟩
      obtain ⟨ys', hys', heq⟩ := bind_eq_ok_iff.1 h
      cases heq
      exact .cons ((hf x y).1 hy) (ih.1 hys')
    · intro h
      cases h with
      | cons hy hys => exact ⟨_, (hf _ _).2 hy, bind_eq_ok_iff.2 ⟨_, ih.2 hys, rfl⟩⟩

theorem map_eq_error_iff {x : Except ε α} {f : α → β} {e : ε} :
    x.map f = .error e ↔ x = .error e := by
  cases x with
  | error e' => simp [Except.map]
  | ok a => simp [Except.map]

end Except
