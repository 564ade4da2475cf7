import Mathlib.Order.Lattice.Nat
import EndpointRules.Proofs.Machine.Linking
import EndpointRules.Proofs.Machine.Tracing

/-!
# The room of the operand stack

The stack of a new machine has room for 16 operands, and pushing onto a full stack doubles it; no
other computation changes the capacity.  So the capacity of a machine tells how deep its stack has
been in all bodies that it has run so far, whether they returned or failed: it is 16, doubled as
often as it takes to hold the most operands that were ever on the stack.
-/

namespace EndpointRules

/-! ## Doubling -/

theorem Stack.capacity_le_push (s : Stack) (v : Value) : s.capacity ≤ (s.push v).capacity := by
  unfold push capacity
  split
  · next hroom =>
    simp only [hroom, List.length_cons]
    omega
  · next room hroom =>
    simp only [hroom, List.length_cons]
    omega

/-- The capacity is 16 doubled as often as it takes for the operands of some stacks to fit, and no
    oftener.  None of these stacks was larger. -/
structure Stack.Fits (capacity : Nat) (seen : Set Stack) : Prop where
  least : ∃ k, capacity = 16 * 2 ^ k ∧ IsLeast {j | ∀ s ∈ seen, s.items.length ≤ 16 * 2 ^ j} k
  le_capacity : ∀ s ∈ seen, s.capacity ≤ capacity

namespace Stack.Fits

variable {capacity capacity' : Nat} {seen seen' : Set Stack} {s : Stack}

theorem initial : Fits 16 ∅ :=
  ⟨⟨0, rfl, fun _ => False.elim, fun _ _ => Nat.zero_le _⟩, fun _ => False.elim⟩

theorem pos (h : Fits capacity seen) : 0 < capacity := by
  obtain ⟨k, rfl, -⟩ := h.least
  exact Nat.mul_pos (by decide) (Nat.two_pow_pos k)

/-- A capacity goes on to fit as long as it has not been exceeded. -/
theorem mono (h : Fits capacity seen) (hsub : seen ⊆ seen')
    (hle : ∀ s ∈ seen', s.capacity ≤ capacity) : Fits capacity seen' := by
  obtain ⟨k, rfl, -, hleast⟩ := h.least
  refine ⟨⟨k, rfl, ?_, ?_⟩, hle⟩
  · exact fun s hs => Nat.le_trans (Nat.le_add_right _ _) (hle s hs)
  · exact fun j hj => hleast fun s hs => hj s (hsub hs)

/-- Once a stack holds more operands than the capacity, this has to be doubled. -/
theorem double (h : Fits capacity seen) (hmem : s ∈ seen') (hlt : capacity < s.items.length)
    (hle : ∀ s ∈ seen', s.capacity ≤ 2 * capacity) : Fits (2 * capacity) seen' := by
  obtain ⟨k, rfl, -, -⟩ := h.least
  have hdouble : 2 * (16 * 2 ^ k) = 16 * 2 ^ (k + 1) := by
    rw [Nat.pow_succ]
    omega
  rw [hdouble] at hle ⊢
  refine ⟨⟨k + 1, rfl, ?_, ?_⟩, hle⟩
  · exact fun s hs => Nat.le_trans (Nat.le_add_right _ _) (hle s hs)
  · intro j hj
    have hpow : 2 ^ k < 2 ^ j := by
      have := hj s hmem
      omega
    exact (Nat.pow_lt_pow_iff_right (by decide)).1 hpow

/-- After a push the capacity fits the stack that the push leaves, too. -/
theorem push (h : Fits s.capacity seen) (v : Value) (hsub : seen ⊆ seen')
    (hmem : s.push v ∈ seen') (hle : ∀ t ∈ seen', t.capacity ≤ (s.push v).capacity) :
    Fits (s.push v).capacity seen' := by
  rw [capacity_push h.pos] at hle ⊢
  by_cases hfull : s.items.length = s.capacity
  · rw [if_pos hfull] at hle ⊢
    refine h.double hmem ?_ hle
    rw [items_push, List.length_cons]
    omega
  · rw [if_neg hfull] at hle ⊢
    exact h.mono hsub hle

/-- The stack with the most operands decides on the capacity. -/
theorem exists_deepest (h : Fits capacity seen) :
    ∃ deepest k, IsGreatest (insert 0 ((·.items.length) '' seen)) deepest ∧
      IsLeast {j | deepest ≤ 16 * 2 ^ j} k ∧ capacity = 16 * 2 ^ k := by
  obtain ⟨k, rfl, hfits, hleast⟩ := h.least
  have hle : ∀ d ∈ insert 0 ((·.items.length) '' seen), d ≤ 16 * 2 ^ k := by
    rintro d (rfl | ⟨s, hs, rfl⟩)
    · exact Nat.zero_le _
    · exact hfits s hs
  have hbounded : BddAbove (insert 0 ((·.items.length) '' seen)) := ⟨_, hle⟩
  have hgreatest : IsGreatest (insert 0 ((·.items.length) '' seen)) _ :=
    ⟨Nat.sSup_mem ⟨0, Set.mem_insert 0 _⟩ hbounded, fun d hd => le_csSup hbounded hd⟩
  refine ⟨_, k, hgreatest, ⟨hle _ hgreatest.1, fun j hj => hleast fun s hs => ?_⟩, rfl⟩
  exact Nat.le_trans (hgreatest.2 (.inr ⟨s, hs, rfl⟩)) hj

/-- A capacity that fits more stacks is a capacity that fits fewer, doubled some times. -/
theorem exists_eq_mul (h : Fits capacity seen) (h' : Fits capacity' seen')
    (hsub : seen ⊆ seen') : ∃ n, capacity' = 2 ^ n * capacity := by
  obtain ⟨k, rfl, -, hleast⟩ := h.least
  obtain ⟨k', rfl, hfits', -⟩ := h'.least
  obtain ⟨n, rfl⟩ := Nat.exists_eq_add_of_le (hleast fun s hs => hfits' s (hsub hs))
  refine ⟨n, ?_⟩
  rw [Nat.pow_add, ← Nat.mul_assoc, Nat.mul_comm]

end Stack.Fits

/-! ## Computations -/

namespace Exec

variable {assigns : Prop} {raises : Fault → Prop} {α β : Type} {m : Exec α} {f : Frame}
  {s : Stack}

/-- A computation that is composed of primitive ones, whatever they assign and raise. -/
abbrev IsComposed (m : Exec α) : Prop := Composed True (fun _ => True) m

theorem Composed.isComposed (hm : Composed assigns raises m) : IsComposed m := by
  induction hm with
  | pure x => exact .pure x
  | bind _ _ ihm ihk => exact .bind ihm ihk
  | fail _ => exact .fail trivial
  | push v => exact .push v
  | pop _ => exact .pop trivial
  | peek _ => exact .peek trivial
  | popMany count _ => exact .popMany count trivial
  | register index _ => exact .register index trivial
  | assign index v _ => exact .assign index v trivial
  | findUri? text => exact .findUri? text

/-- The stacks that a computation leaves on the way: its own, and those of the computations that it
    is composed of. -/
inductive Passes : {α : Type} → Exec α → Frame → Stack → Prop
  | ends {α : Type} {m : Exec α} {f : Frame} (hm : IsComposed m) : Passes m f (m f).2.stack
  | first {α β : Type} {m : Exec α} {k : α → Exec β} {f : Frame} {s : Stack}
      (hm : Passes m f s) (hk : ∀ x, IsComposed (k x)) : Passes (m >>= k) f s
  | rest {α β : Type} {m : Exec α} {k : α → Exec β} {f g : Frame} {x : α} {s : Stack}
      (hm : IsComposed m) (hx : m f = (.ok x, g)) (hk : Passes (k x) g s) : Passes (m >>= k) f s

/-- As far as the capacity of the stack goes, a composed computation is one that keeps it, a push,
    or one computation behind another. -/
theorem Composed.by_capacity {P : {α : Type} → Exec α → Prop} (hm : Composed assigns raises m)
    (hkeeps : ∀ {α : Type} {m : Exec α}, IsComposed m →
      (∀ f, (m f).2.stack.capacity = f.stack.capacity) → P m)
    (hpush : ∀ v, P (Exec.push v))
    (hbind : ∀ {α β : Type} {m : Exec α} {k : α → Exec β}, IsComposed m →
      (∀ x, IsComposed (k x)) → P m → (∀ x, P (k x)) → P (m >>= k)) : P m := by
  induction hm with
  | pure x => exact hkeeps (.pure x) fun _ => rfl
  | bind hm hk ihm ihk => exact hbind hm.isComposed (fun x => (hk x).isComposed) ihm ihk
  | fail _ => exact hkeeps (.fail trivial) fun _ => rfl
  | push v => exact hpush v
  | pop _ =>
    refine hkeeps (.pop trivial) fun f => ?_
    unfold Exec.pop
    split
    · rfl
    · next hitems => exact Stack.capacity_drop (by simp [hitems])
  | peek _ =>
    refine hkeeps (.peek trivial) fun f => ?_
    unfold Exec.peek
    split <;> rfl
  | popMany count _ =>
    refine hkeeps (.popMany count trivial) fun f => ?_
    rw [popMany_eq]
    split
    · rfl
    · next hcount => exact Stack.capacity_drop (Nat.le_of_not_lt hcount)
  | register index _ =>
    refine hkeeps (.register index trivial) fun f => ?_
    unfold Exec.register
    split <;> rfl
  | assign index v _ => exact hkeeps (.assign index v trivial) fun _ => rfl
  | findUri? text =>
    refine hkeeps (.findUri? text) fun f => ?_
    obtain ⟨cache, heq⟩ := exists_findUri?_eq text f
    rw [heq]

/-- No computation makes the stack smaller. -/
theorem Composed.capacity_le (hm : Composed assigns raises m) (f : Frame) :
    f.stack.capacity ≤ (m f).2.stack.capacity := by
  refine hm.by_capacity (P := fun m => ∀ f, f.stack.capacity ≤ (m f).2.stack.capacity)
    ?_ ?_ ?_ f
  · intro α m _ hkeeps f
    exact Nat.le_of_eq (hkeeps f).symm
  · exact fun v f => f.stack.capacity_le_push v
  · intro α β m k _ _ hm hk f
    rw [bind_apply]
    have hfirst := hm f
    cases hf : m f with
    | mk r g =>
      rw [hf] at hfirst
      cases r with
      | ok x => exact Nat.le_trans hfirst (hk x g)
      | error fault => exact hfirst

/-- No stack that comes up on the way is larger than the one that is left. -/
theorem Passes.capacity_le (h : Passes m f s) : s.capacity ≤ (m f).2.stack.capacity := by
  induction h with
  | ends hm => exact Nat.le_refl _
  | @first α β m k f s _ hk ih =>
    rw [bind_apply]
    cases hf : m f with
    | mk r g =>
      rw [hf] at ih
      cases r with
      | ok x => exact Nat.le_trans ih ((hk x).capacity_le g)
      | error fault => exact ih
  | rest hm hx _ ih =>
    rw [bind_apply, hx]
    exact ih

theorem Composed.le_capacity (hm : Composed assigns raises m) {before : Set Stack}
    (h : Stack.Fits f.stack.capacity before) :
    ∀ s ∈ before ∪ {s | Passes m f s}, s.capacity ≤ (m f).2.stack.capacity := by
  rintro s (hs | hs)
  · exact Nat.le_trans (h.le_capacity s hs) (hm.capacity_le f)
  · exact hs.capacity_le

/-- If the capacity fits the stacks that came up before, then it does so after a computation, with
    those of the computation among them. -/
theorem Composed.fits (hm : Composed assigns raises m) {before : Set Stack}
    (h : Stack.Fits f.stack.capacity before) :
    Stack.Fits (m f).2.stack.capacity (before ∪ {s | Passes m f s}) := by
  refine hm.by_capacity (P := fun m => ∀ f before, Stack.Fits f.stack.capacity before →
    Stack.Fits (m f).2.stack.capacity (before ∪ {s | Passes m f s})) ?_ ?_ ?_ f before h
  · intro α m hm hkeeps f before h
    have hle := hm.le_capacity h
    rw [hkeeps f] at hle ⊢
    exact h.mono Set.subset_union_left hle
  · intro v f before h
    have hpush : IsComposed (Exec.push v) := .push v
    exact h.push v Set.subset_union_left (.inr (.ends hpush)) (hpush.le_capacity h)
  · intro α β m k hm hk ihm ihk f before h
    have hle := (hm.bind hk).le_capacity h
    have hfirst := ihm f before h
    have hsub : before ∪ {s | Passes m f s} ⊆ before ∪ {s | Passes (m >>= k) f s} :=
      Set.union_subset_union_right before fun s hs => .first hs hk
    rw [bind_apply] at hle ⊢
    cases hf : m f with
    | mk r g =>
      rw [hf] at hle hfirst
      cases r with
      | ok x =>
        have hrest : {s | Passes (k x) g s} ⊆ before ∪ {s | Passes (m >>= k) f s} :=
          fun s hs => .inr (.rest hm hf hs)
        exact (ihk x g _ hfirst).mono (Set.union_subset hsub hrest) hle
      | error fault => exact hfirst.mono hsub hle

end Exec

/-! ## Runs of bodies -/

namespace Setting

variable {s : Setting} {body : Body} {p q : Place} {r : Except Failure Exit} {f g : Frame}
  {op : Opcode}

/-- The stacks that come up in a run of a body from a place, while its instructions are carried
    out. -/
def passed (s : Setting) (body : Body) (p : Place) : Set Stack :=
  {t | ∃ a f op, s.Leads body p (a, f) ∧ s.fetch body a = .ok op ∧
    (s.perform (.decode op s.program.code a)).Passes f t}

theorem Ends.eq_of_leads (h : s.Ends body p r g) (hleads : s.Leads body p q) : q = p := by
  rcases hleads.cases_head with rfl | ⟨q', hstep, -⟩
  · rfl
  · exact absurd hstep h.not_step

theorem Ends.passed_eq (h : s.Ends body p r g) (hfetch : s.fetch body p.1 = .ok op) :
    s.passed body p = {t | (s.perform (.decode op s.program.code p.1)).Passes p.2 t} := by
  refine Set.Subset.antisymm ?_ fun t ht => ⟨p.1, p.2, op, .refl, hfetch, ht⟩
  rintro t ⟨a, f, op', hleads, hfetch', ht⟩
  cases h.eq_of_leads hleads
  cases hfetch.symm.trans hfetch'
  exact ht

theorem passed_of_unfetched {fault : Fault} (hfetch : s.fetch body p.1 = .error fault) :
    s.passed body p = ∅ := by
  refine Set.eq_empty_of_forall_notMem ?_
  rintro t ⟨a, f, op, hleads, hfetch', -⟩
  cases (Ends.unfetched (f := p.2) hfetch).eq_of_leads hleads
  cases hfetch.symm.trans hfetch'

theorem Step.passed_eq (h : s.Step body p q) (hfetch : s.fetch body p.1 = .ok op) :
    s.passed body p =
      {t | (s.perform (.decode op s.program.code p.1)).Passes p.2 t} ∪ s.passed body q := by
  refine Set.Subset.antisymm ?_ (Set.union_subset ?_ ?_)
  · rintro t ⟨a, f, op', hleads, hfetch', ht⟩
    rcases hleads.cases_head with rfl | ⟨q', hstep, hleads⟩
    · cases hfetch.symm.trans hfetch'
      exact .inl ht
    · rw [hstep.unique h] at hleads
      exact .inr ⟨a, f, op', hleads, hfetch', ht⟩
  · exact fun t ht => ⟨p.1, p.2, op, .refl, hfetch, ht⟩
  · rintro t ⟨a, f, op', hleads, hfetch', ht⟩
    exact ⟨a, f, op', .head h hleads, hfetch', ht⟩

theorem fits_of_perform {i : Instruction} {result : Except Fault Control} {before : Set Stack}
    (hperform : s.perform i f = (result, g)) (h : Stack.Fits f.stack.capacity before) :
    Stack.Fits g.stack.capacity (before ∪ {t | (s.perform i).Passes f t}) := by
  have hfits := (s.composed_perform i).fits h
  rwa [hperform] at hfits

/-- If the capacity fits the stacks that came up before a run, then it does so after the run. -/
theorem Ends.fits_of_leads (hends : s.Ends body q r g) (hleads : s.Leads body p q)
    {before : Set Stack} (h : Stack.Fits p.2.stack.capacity before) :
    Stack.Fits g.stack.capacity (before ∪ s.passed body p) := by
  induction hleads using Relation.ReflTransGen.head_induction_on generalizing before with
  | refl =>
    cases hends with
    | unfetched hfetch =>
      rw [passed_of_unfetched hfetch, Set.union_empty]
      exact h
    | fault hfetch hperform =>
      rw [Ends.passed_eq (.fault hfetch hperform) hfetch]
      exact fits_of_perform hperform h
    | exit hfetch hperform =>
      rw [Ends.passed_eq (.exit hfetch hperform) hfetch]
      exact fits_of_perform hperform h
  | head hstep _ ih =>
    obtain ⟨op, control, hfetch, hperform⟩ := hstep.exists_perform
    rw [hstep.passed_eq hfetch, ← Set.union_assoc]
    exact ih (fits_of_perform hperform h)

/-- A run of a body starts on the cleared stack, which has the capacity of the old one. -/
theorem fits_runBody (s : Setting) (record : Bool) (body : Body) (events : Array Trace.Event)
    {before : Set Stack} (h : Stack.Fits f.stack.capacity before) :
    Stack.Fits (s.runBody record body f events).2.1.stack.capacity
      (before ∪ s.passed body (entry body f)) := by
  obtain ⟨q, hvisits, hends⟩ := s.exists_visits_ends record body f events
  refine hends.fits_of_leads hvisits ?_
  rwa [entry, Stack.capacity_clear]

end Setting

/-! ## Histories -/

namespace Machine

variable {setup : Setup} {m k : Machine} {runs : List BodyRun} {before : Set Stack}

/-- The stacks that come up in a run. -/
def BodyRun.passed (setup : Setup) (r : BodyRun) : Set Stack :=
  (r.machine.setting setup).passed r.body (Setting.entry r.body r.machine.frame)

/-- The stacks that come up in some runs. -/
def passedBy (setup : Setup) (runs : List BodyRun) : Set Stack :=
  {t | ∃ r ∈ runs, t ∈ r.passed setup}

theorem passedBy_nil : passedBy setup [] = ∅ := by
  simp [passedBy]

theorem passedBy_append (runs runs' : List BodyRun) :
    passedBy setup (runs ++ runs') = passedBy setup runs ∪ passedBy setup runs' := by
  ext t
  simp only [passedBy, List.mem_append, or_and_right, exists_or, Set.mem_ofPred_eq, Set.mem_union]

theorem passedBy_singleton (r : BodyRun) : passedBy setup [r] = r.passed setup := by
  ext t
  simp [passedBy]

/-- The capacity of the machine fits the stacks. -/
abbrev Fits (m : Machine) (seen : Set Stack) : Prop :=
  Stack.Fits m.frame.stack.capacity seen

theorem frame_run (setup : Setup) (body : Body) (m : Machine) :
    (m.run setup body).2.frame = ((m.setting setup).runBody (setup.mode == .instructions) body
      m.frame m.events).2.1 :=
  m.frame_conclude _

theorem Fits.run (h : m.Fits before) (setup : Setup) (body : Body) :
    (m.run setup body).2.Fits (before ∪ BodyRun.passed setup ⟨body, m⟩) := by
  rw [Fits, frame_run]
  exact (m.setting setup).fits_runBody _ body m.events h

theorem Makes.fits (h : m.Makes setup runs k) (hm : m.Fits before) :
    k.Fits (before ∪ passedBy setup runs) := by
  induction h with
  | refl =>
    rw [passedBy_nil, Set.union_empty]
    exact hm
  | run _ body ih =>
    rw [passedBy_append, passedBy_singleton, ← Set.union_assoc]
    exact Fits.run ih setup body
  | note _ _ ih => rwa [Fits, frame_note]

/-- Filling the registers keeps the capacity. -/
theorem capacity_reset (setup : Setup) (context : Context) (parameters : Parameters)
    (m : Machine) :
    (m.reset setup context parameters).2.frame.stack.capacity = m.frame.stack.capacity :=
  m.frame.stack.capacity_clear

theorem Fits.filled (h : m.Fits before) (op : Operation) : (op.filled setup m).Fits before := by
  cases op with
  | reset context parameters => rwa [Fits, Operation.filled, capacity_reset]
  | evaluate context parameters => rwa [Fits, Operation.filled, capacity_reset]
  | test index => exact h
  | resolve index => exact h
  | decide => exact h

theorem Fits.apply (h : m.Fits before) (setup : Setup) (op : Operation) :
    (op.apply setup m).Fits (before ∪ passedBy setup (op.runs setup m)) :=
  (makes_apply setup m op).fits (Fits.filled h op)

theorem Fits.after (h : m.Fits before) (setup : Setup) (history : List Operation) :
    (m.after setup history).Fits (before ∪ passedBy setup (m.runsOf setup history)) := by
  induction history generalizing m before with
  | nil =>
    rw [runsOf, passedBy_nil, Set.union_empty]
    exact h
  | cons op history ih =>
    rw [after_cons, runsOf, passedBy_append, ← Set.union_assoc]
    exact ih (Fits.apply h setup op)

/-- After every history, the capacity of the stack is 16 doubled as often as it takes to hold the
    most operands that were on the stack in any body that was run, and no oftener.  There are never
    more operands than the capacity, neither in a run nor after it, and the capacity was never
    larger than it is.  Filling the registers keeps it, and no other operation does anything to it
    but double it some times. -/
theorem stackCapacity_after (setup : Setup) (cache : Option Uri.Cache) (history : List Operation) :
    let m := (start setup cache).after setup history
    let seen := passedBy setup ((start setup cache).runsOf setup history)
    (∃ deepest k, IsGreatest (insert 0 ((·.items.length) '' seen)) deepest ∧
        IsLeast {j | deepest ≤ 16 * 2 ^ j} k ∧ m.frame.stack.capacity = 16 * 2 ^ k) ∧
      (∀ s ∈ seen, s.items.length ≤ s.capacity ∧ s.capacity ≤ m.frame.stack.capacity) ∧
      m.frame.stack.items.length ≤ m.frame.stack.capacity ∧
      (∀ context parameters, (m.reset setup context parameters).2.frame.stack.capacity =
        m.frame.stack.capacity) ∧
      ∀ op : Operation, ∃ n, (op.apply setup m).frame.stack.capacity =
        2 ^ n * m.frame.stack.capacity := by
  intro m seen
  have hnew : (start setup cache).Fits ∅ := Stack.Fits.initial
  have hfits : m.Fits seen := by
    have h := Fits.after hnew setup history
    rwa [Set.empty_union] at h
  refine ⟨hfits.exists_deepest, ?_, ?_, ?_, ?_⟩
  · exact fun s hs => ⟨Nat.le_add_right _ _, hfits.le_capacity s hs⟩
  · exact Nat.le_add_right _ _
  · exact fun context parameters => capacity_reset setup context parameters m
  · intro op
    exact hfits.exists_eq_mul (Fits.apply hfits setup op) Set.subset_union_left

/-- A program whose condition pushes 17 operands and returns the last of them. -/
def deepening : Program where
  parts := {
    code := (List.replicate 17 [0x00, 0x00]).flatten.toArray.push 0x28
    conditions := #[0]
    constants := #[.boolean true]
    diagram := { entries := #[], root := 1 } }
  starts := [0]
  starts_eq := by decide
  check_eq := by cbv

/-- The last push doubles the capacity, and filling the registers keeps it.  As it has been doubled,
    there was a stack of more than 16 operands. -/
theorem stackCapacity_after_deepening :
    let m := (start (plainSetup deepening) none).after (plainSetup deepening)
      [.test 0, .reset [] []]
    m.frame.stack.capacity = 32 ∧
      ∃ s ∈ passedBy (plainSetup deepening) ((start (plainSetup deepening) none).runsOf
          (plainSetup deepening) [.test 0, .reset [] []]),
        16 < s.items.length ∧ s.items.length ≤ s.capacity ∧ s.capacity ≤ 32 := by
  intro m
  have hcapacity : m.frame.stack.capacity = 32 := by decide +kernel
  obtain ⟨⟨deepest, k, hgreatest, hleast, hk⟩, hseen, -⟩ :=
    stackCapacity_after (plainSetup deepening) none [.test 0, .reset [] []]
  rw [hcapacity] at hk hseen
  have hdeep : 16 < deepest := by
    by_contra hle
    obtain rfl : k = 0 := Nat.le_zero.1 (hleast.2 (Nat.le_of_not_lt hle))
    cases hk
  rcases hgreatest.1 with rfl | ⟨s, hs, rfl⟩
  · cases hdeep
  · obtain ⟨hfits, hle⟩ := hseen s hs
    exact ⟨hcapacity, s, hs, hdeep, hfits, hle⟩

end Machine

end EndpointRules
