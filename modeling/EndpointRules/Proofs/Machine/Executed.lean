import EndpointRules.Proofs.Machine.Control
import EndpointRules.Proofs.Machine.Relocation

/-!
# The instructions that a run carries out

A run of a body carries out instructions at addresses that strictly increase and stay inside the
body, so there are at most as many of them as the body has bytes.  If the run returns, it does so by
its last instruction.  The addresses are read off the record that a run keeps of its instructions;
the record is the same whatever was recorded before.
-/

namespace EndpointRules

/-- The address of the instruction that an event records, if it records one. -/
def Trace.Event.address? : Trace.Event → Option Nat
  | .step _ _ offset => some offset
  | _ => none

namespace Setting

variable {s : Setting} {body : Body} {p : Place} {as : List Nat} {r : Except Failure Exit}
  {f g : Frame}

/-- The addresses of the instructions that a run of a body from a frame carries out, in order. -/
def executed (s : Setting) (body : Body) (f : Frame) : List Nat :=
  (s.runBody true body f #[]).2.2.toList.filterMap Trace.Event.address?

/-- The run from a place carries out the instructions at some addresses and ends with a result,
    leaving a frame.  An instruction that faults is among them. -/
inductive Executes (s : Setting) (body : Body) :
    Place → List Nat → Except Failure Exit → Frame → Prop
  | unfetched {a : Nat} {f : Frame} {fault : Fault} (hfetch : s.fetch body a = .error fault) :
      Executes s body (a, f) [] (.error ⟨fault, some a⟩) f
  | ends {a : Nat} {f g : Frame} {op : Opcode} {r : Except Failure Exit}
      (hfetch : s.fetch body a = .ok op) (hends : s.Ends body (a, f) r g) :
      Executes s body (a, f) [a] r g
  | step {p q : Place} {as : List Nat} {r : Except Failure Exit} {g : Frame}
      (hstep : s.Step body p q) (hrest : Executes s body q as r g) :
      Executes s body p (p.1 :: as) r g

theorem Ends.exists_executes (h : s.Ends body p r g) : ∃ as, s.Executes body p as r g := by
  cases h with
  | unfetched hfetch => exact ⟨[], .unfetched hfetch⟩
  | fault hfetch hperform => exact ⟨_, .ends hfetch (.fault hfetch hperform)⟩
  | exit hfetch hperform => exact ⟨_, .ends hfetch (.exit hfetch hperform)⟩

theorem Ends.exists_executes_of_leads {q : Place} (h : s.Ends body q r g)
    (hleads : s.Leads body p q) : ∃ as, s.Executes body p as r g := by
  induction hleads using Relation.ReflTransGen.head_induction_on with
  | refl => exact h.exists_executes
  | head hstep _ ih =>
    obtain ⟨as, hrest⟩ := ih
    exact ⟨_, .step hstep hrest⟩

theorem exists_executes (s : Setting) (body : Body) (p : Place) :
    ∃ as r g, s.Executes body p as r g := by
  obtain ⟨q, hleads, hends⟩ := exists_ends s false body p.1 p.2 #[]
  obtain ⟨as, h⟩ := hends.exists_executes_of_leads hleads
  exact ⟨as, _, _, h⟩

/-! ## The record of a run -/

theorem Step.runFrom_eq {q : Place} (h : s.Step body p q) (record : Bool)
    (events : Array Trace.Event) :
    s.runFrom record body p.1 p.2 events = s.runFrom record body q.1 q.2
      (if record then events.push (.step body.sort body.index p.1) else events) := by
  cases h with
  | next hfetch hperform =>
    rw [runFrom_eq_of_fetch hfetch, hperform]
  | skip hfetch hperform =>
    rw [runFrom_eq_of_fetch hfetch, hperform]

theorem Ends.runFrom_eq {op : Opcode} (h : s.Ends body p r g) (hfetch : s.fetch body p.1 = .ok op)
    (record : Bool) (events : Array Trace.Event) :
    s.runFrom record body p.1 p.2 events =
      (r, g, if record then events.push (.step body.sort body.index p.1) else events) := by
  cases h with
  | unfetched hfault => cases hfetch.symm.trans hfault
  | fault hop hperform =>
    rw [runFrom_eq_of_fetch hop, hperform]
  | exit hop hperform =>
    rw [runFrom_eq_of_fetch hop, hperform]

/-- A run records the instructions that it carries out, behind what was recorded before. -/
theorem Executes.runFrom_eq (h : s.Executes body p as r g) (record : Bool)
    (events : Array Trace.Event) :
    s.runFrom record body p.1 p.2 events =
      (r, g, if record then events ++ (as.map (.step body.sort body.index)).toArray
        else events) := by
  induction h generalizing events with
  | unfetched hfetch => simp [runFrom_of_unfetched hfetch]
  | ends hfetch hends =>
    rw [hends.runFrom_eq hfetch]
    simp
  | step hstep _ ih =>
    rw [hstep.runFrom_eq, ih]
    cases record <;> simp

theorem Executes.runBody_eq (h : s.Executes body (entry body f) as r g) (record : Bool)
    (events : Array Trace.Event) :
    s.runBody record body f events =
      (r, g, if record then events ++ (as.map (.step body.sort body.index)).toArray
        else events) :=
  h.runFrom_eq record events

theorem executes_executed (s : Setting) (body : Body) (f : Frame) (record : Bool)
    (events : Array Trace.Event) :
    s.Executes body (entry body f) (s.executed body f) (s.runBody record body f events).1
      (s.runBody record body f events).2.1 := by
  obtain ⟨as, r, g, h⟩ := exists_executes s body (entry body f)
  have hlist : s.executed body f = as := by
    rw [executed, h.runBody_eq]
    simp [List.filterMap_map, Function.comp_def, Trace.Event.address?]
  rw [hlist, h.runBody_eq]
  exact h

/-- What a run of a body records. -/
theorem events_runBody (s : Setting) (record : Bool) (body : Body) (f : Frame)
    (events : Array Trace.Event) :
    (s.runBody record body f events).2.2 =
      if record then events ++ ((s.executed body f).map (.step body.sort body.index)).toArray
      else events := by
  rw [(s.executes_executed body f record events).runBody_eq]

/-! ## The addresses -/

theorem Executes.inside (h : s.Executes body p as r g) :
    ∀ b ∈ as, p.1 ≤ b ∧ ∃ op, s.fetch body b = .ok op := by
  induction h with
  | unfetched _ => simp
  | ends hfetch _ => simp [hfetch]
  | step hstep _ ih =>
    intro b hb
    rcases List.mem_cons.1 hb with rfl | hb
    · obtain ⟨op, _, hfetch, -⟩ := hstep.exists_perform
      exact ⟨Nat.le_refl _, op, hfetch⟩
    · obtain ⟨hle, hfetch⟩ := ih b hb
      exact ⟨Nat.le_trans (Nat.le_of_lt hstep.lt) hle, hfetch⟩

theorem Executes.increasing (h : s.Executes body p as r g) : as.Pairwise (· < ·) := by
  induction h with
  | unfetched _ => exact .nil
  | ends _ _ => simp
  | step hstep hrest ih =>
    exact .cons (fun b hb => Nat.lt_of_lt_of_le hstep.lt (hrest.inside b hb).1) ih

theorem Executes.length_le (h : s.Executes body p as r g) : as.length ≤ body.stop - p.1 := by
  induction h with
  | unfetched _ => exact Nat.zero_le _
  | ends hfetch _ =>
    have := lt_of_fetch hfetch
    simp only [List.length_singleton]
    omega
  | step hstep _ ih =>
    obtain ⟨_, _, hfetch, -⟩ := hstep.exists_perform
    have := lt_of_fetch hfetch
    have := hstep.lt
    simp only [List.length_cons]
    omega

/-! ## The end -/

/-- Only a return instruction ends a body with a result. -/
theorem isReturn_of_exit {op : Opcode} {a : Nat} {exit : Exit}
    (h : s.perform (.decode op s.program.code a) f = (.ok (.exit exit), g)) :
    op.isReturn = true := by
  have hadmits := s.yields_perform _ f _ g h
  cases op with
  | returnError => rfl
  | returnEndpoint => rfl
  | returnValue => rfl
  | jumpIfSetOrPop => rcases hadmits with heq | heq <;> cases heq
  | _ => cases hadmits

/-- A run that returns does so by the last instruction that it carries out. -/
theorem Executes.exists_return (h : s.Executes body p as r g) {exit : Exit} (hr : r = .ok exit) :
    ∃ b op, as.getLast? = some b ∧ s.fetch body b = .ok op ∧ op.isReturn = true := by
  induction h with
  | unfetched _ => cases hr
  | ends hfetch hends =>
    subst hr
    cases hends with
    | exit hop hperform => exact ⟨_, _, rfl, hop, isReturn_of_exit hperform⟩
  | step _ _ ih =>
    obtain ⟨b, op, hlast, hfetch, hreturn⟩ := ih hr
    exact ⟨b, op, by simp [List.getLast?_cons, hlast], hfetch, hreturn⟩

/-- A run that fails does so in the last instruction that it carries out, or behind it, where no
    instruction can be fetched. -/
theorem Executes.exists_fault (h : s.Executes body p as r g) {failure : Failure}
    (hr : r = .error failure) :
    ∃ a, failure.address = some a ∧ p.1 ≤ a ∧
      (as.getLast? = some a ∨ s.fetch body a = .error failure.fault) := by
  induction h with
  | unfetched hfetch =>
    cases hr
    exact ⟨_, rfl, Nat.le_refl _, .inr hfetch⟩
  | ends hfetch hends =>
    subst hr
    cases hends with
    | unfetched hfault => exact ⟨_, rfl, Nat.le_refl _, .inr hfault⟩
    | fault _ _ => exact ⟨_, rfl, Nat.le_refl _, .inl rfl⟩
  | step hstep _ ih =>
    obtain ⟨a, haddress, hle, hlast⟩ := ih hr
    refine ⟨a, haddress, Nat.le_trans (Nat.le_of_lt hstep.lt) hle, ?_⟩
    rcases hlast with hlast | hfault
    · exact .inl (by simp [List.getLast?_cons, hlast])
    · exact .inr hfault

end Setting

end EndpointRules
