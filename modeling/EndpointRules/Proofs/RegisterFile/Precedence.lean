import Mathlib.Data.List.Permutation
import EndpointRules.Machine
import EndpointRules.Proofs.Program.Registers
import EndpointRules.Proofs.RegisterFile.IndexSet

/-!
# Which value a register starts with

Filling the registers comes to one rule for each register, whichever representation of sets is used
and in whatever order the parameters are given: `Register.initial` is the parameter, the provider's
value, the default or null, the first of these that there is.
-/

namespace EndpointRules

/-! ## The rule -/

namespace Register

/-- The parameter that a register takes: the one of its name, unless the register is temporary or
    the parameter is null. -/
def supplied? (r : Register) (parameters : Parameters) : Option Value :=
  if r.temporary then none else (parameters.get? r.name).filter Value.isSet

/-- What the provider of a builtin gives, unless there is no provider with content or it gives
    null. -/
def offer? (context : Context) (providers : Providers) (builtin : Bytes) : Option Value :=
  (providers.get? builtin).bind fun content => (content.map (· context)).filter Value.isSet

/-- What a provider gives for a register. -/
def provided? (r : Register) (context : Context) (providers : Providers) : Option Value :=
  r.builtin.bind (offer? context providers)

/-- The value that a register has at the start of an evaluation. -/
def initial (context : Context) (parameters : Parameters) (providers : Providers) (r : Register) :
    Value :=
  (((r.supplied? parameters).or (r.provided? context providers)).or r.defaultValue).getD .null

end Register

namespace RegisterFile

variable {σ : Type} {p : Program} {parameters : Parameters} {i : Nat} {r : Register}

/-! ## Assignments -/

/-- The registers after assignments. -/
def assign (registers : Array Value) (assignments : List (Nat × Value)) : Array Value :=
  assignments.foldl (fun registers (i, v) => registers.setIfInBounds i v) registers

/-- Where no register is assigned twice, each has the value assigned to it or the one it had. -/
theorem getElem?_assign {assignments : List (Nat × Value)} (h : (assignments.map (·.1)).Nodup)
    (registers : Array Value) (i : Nat) :
    (assign registers assignments)[i]? =
      registers[i]?.map fun v => (assignments.lookup i).getD v := by
  induction assignments generalizing registers with
  | nil => simp [assign]
  | cons assignment assignments ih =>
    obtain ⟨k, v⟩ := assignment
    obtain ⟨hk, hrest⟩ := List.nodup_cons.1 h
    have hfirst : assign registers ((k, v) :: assignments) =
        assign (registers.setIfInBounds k v) assignments := rfl
    rw [hfirst, ih hrest, List.lookup_cons]
    by_cases hik : i = k
    · subst hik
      have hnone : assignments.lookup i = none := by
        rw [List.lookup_eq_none_iff]
        intro a ha
        simp only [bne_iff_ne]
        intro hia
        exact hk (List.mem_map.2 ⟨a, ha, hia.symm⟩)
      rw [Array.getElem?_setIfInBounds_self, hnone, BEq.rfl]
      split
      · next hlt => simp [Array.getElem?_eq_getElem hlt]
      · next hge => simp [Array.getElem?_eq_none (Nat.not_lt.1 hge)]
    · have hne : (i == k) = false := by simpa using hik
      rw [Array.getElem?_setIfInBounds_ne (Ne.symm hik), hne]

/-- The parameters that registers take. -/
def taken (p : Program) (parameters : Parameters) : List (Nat × Value) :=
  parameters.filterMap fun (name, v) =>
    if v.isNull then none else (p.inputs.lookup name).map (·, v)

/-- What the providers give to registers that are not filled. -/
def offered (p : Program) (context : Context) (providers : Providers) (filled : Nat → Bool) :
    List (Nat × Value) :=
  p.builtins.filterMap fun (i, name) =>
    if filled i then none else (Register.offer? context providers name).map (i, ·)

theorem applyParameters_eq (set : IndexSet σ) (p : Program) (parameters : Parameters) :
    applyParameters set p parameters = (assign p.template (taken p parameters),
      ((taken p parameters).map (·.1)).foldl set.insert (set.empty p.parts.registers.size)) := by
  unfold applyParameters
  dsimp only
  generalize p.template = registers
  generalize set.empty p.parts.registers.size = filled
  induction parameters generalizing registers filled with
  | nil => rfl
  | cons parameter parameters ih =>
    obtain ⟨name, v⟩ := parameter
    rw [List.foldl_cons]
    by_cases hv : v.isNull = true
    · simp only [hv, if_true]
      rw [ih]
      simp [taken, hv]
    · simp only [hv]
      cases hlookup : p.inputs.lookup name with
      | none =>
        dsimp only
        rw [ih]
        simp [taken, hv, hlookup]
      | some i =>
        dsimp only
        rw [ih]
        simp [taken, hv, hlookup, assign]

theorem applyProviders_eq (set : IndexSet σ) (p : Program) (context : Context)
    (providers : Providers) (filled : σ) (registers : Array Value) :
    applyProviders set p context providers filled registers =
      assign registers (offered p context providers (set.contains filled)) := by
  unfold applyProviders offered
  generalize p.builtins = builtins
  induction builtins generalizing registers with
  | nil => rfl
  | cons builtin builtins ih =>
    obtain ⟨i, name⟩ := builtin
    rw [List.foldl_cons, List.filterMap_cons]
    by_cases hfilled : set.contains filled i = true
    · simp only [hfilled, if_true]
      exact ih _
    · simp only [hfilled, Bool.false_eq_true, if_false]
      rw [Register.offer?]
      cases providers.get? name with
      | none => exact ih _
      | some content =>
        cases content with
        | none => exact ih _
        | some provider =>
          rw [Option.bind_some, Option.map_some, Option.filter_some]
          by_cases hset : (provider context).isSet = true
          · simp only [hset, if_true]
            exact ih _
          · simp only [hset]
            exact ih _

/-! ## What is assigned -/

theorem mem_taken {v : Value} : (i, v) ∈ taken p parameters ↔
    ∃ r, p.parts.registers[i]? = some r ∧ r.temporary = false ∧ (r.name, v) ∈ parameters ∧
      v.isSet = true := by
  simp only [taken, List.mem_filterMap, Prod.exists]
  constructor
  · rintro ⟨name, w, hmem, heq⟩
    split at heq
    · cases heq
    · next hnull =>
      obtain ⟨j, hlookup, hpair⟩ := Option.map_eq_some_iff.1 heq
      cases hpair
      obtain ⟨r, hr, htemporary, rfl⟩ := Program.lookup_inputs.1 hlookup
      exact ⟨r, hr, htemporary, hmem, by simpa [Value.isNull] using hnull⟩
  · rintro ⟨r, hr, htemporary, hmem, hset⟩
    have hlookup : p.inputs.lookup r.name = some i :=
      Program.lookup_inputs.2 ⟨r, hr, htemporary, rfl⟩
    exact ⟨r.name, v, hmem, by simp [Value.isNull, hset, hlookup]⟩

theorem nodup_taken (h : (parameters.map (·.1)).Nodup) :
    ((taken p parameters).map (·.1)).Nodup := by
  refine nodup_keys_filterMap h fun (name, v) (name', v') a ha b hb hab => ?_
  dsimp only at ha hb ⊢
  split at ha
  · cases ha
  split at hb
  · cases hb
  obtain ⟨i, hi, rfl⟩ := Option.map_eq_some_iff.1 ha
  obtain ⟨j, hj, rfl⟩ := Option.map_eq_some_iff.1 hb
  obtain rfl : i = j := hab
  obtain ⟨r, hr, -, rfl⟩ := Program.lookup_inputs.1 hi
  obtain ⟨r', hr', -, rfl⟩ := Program.lookup_inputs.1 hj
  rw [hr] at hr'
  cases hr'
  rfl

/-- A register is assigned the parameter that it takes. -/
theorem lookup_taken (h : (parameters.map (·.1)).Nodup) (hr : p.parts.registers[i]? = some r) :
    (taken p parameters).lookup i = r.supplied? parameters := by
  ext v
  rw [lookup_eq_some_iff_mem (nodup_taken h), mem_taken, Register.supplied?,
    Dict.get?_eq_lookup]
  simp only [hr, Option.some.injEq, exists_eq_left', ← lookup_eq_some_iff_mem h]
  by_cases htemporary : r.temporary = true
  · simp [htemporary]
  · simp [htemporary, Option.filter_eq_some_iff]

theorem nodup_offered (p : Program) (context : Context) (providers : Providers)
    (filled : Nat → Bool) : ((offered p context providers filled).map (·.1)).Nodup := by
  refine nodup_keys_filterMap p.nodup_builtins fun (i, name) (j, name') a ha b hb hab => ?_
  dsimp only at ha hb ⊢
  split at ha
  · cases ha
  split at hb
  · cases hb
  obtain ⟨_, _, rfl⟩ := Option.map_eq_some_iff.1 ha
  obtain ⟨_, _, rfl⟩ := Option.map_eq_some_iff.1 hb
  exact hab

theorem mem_offered {context : Context} {providers : Providers} {filled : Nat → Bool} {v : Value} :
    (i, v) ∈ offered p context providers filled ↔ filled i = false ∧
      ∃ r, p.parts.registers[i]? = some r ∧ r.provided? context providers = some v := by
  simp only [offered, List.mem_filterMap, Prod.exists]
  constructor
  · rintro ⟨j, name, hmem, heq⟩
    split at heq
    · cases heq
    · next hfilled =>
      obtain ⟨w, hoffer, hpair⟩ := Option.map_eq_some_iff.1 heq
      cases hpair
      obtain ⟨r, hr, hbuiltin⟩ := Program.mem_builtins.1 hmem
      refine ⟨by simpa using hfilled, r, hr, ?_⟩
      rw [Register.provided?, hbuiltin]
      exact hoffer
  · rintro ⟨hfilled, r, hr, hprovided⟩
    obtain ⟨name, hbuiltin, hoffer⟩ := Option.bind_eq_some_iff.1 hprovided
    exact ⟨i, name, Program.mem_builtins.2 ⟨r, hr, hbuiltin⟩, by simp [hfilled, hoffer]⟩

theorem lookup_offered (context : Context) (providers : Providers) (filled : Nat → Bool)
    (hr : p.parts.registers[i]? = some r) :
    (offered p context providers filled).lookup i =
      if filled i then none else r.provided? context providers := by
  ext v
  rw [lookup_eq_some_iff_mem (nodup_offered p context providers filled), mem_offered]
  simp only [hr, Option.some.injEq, exists_eq_left']
  by_cases hfilled : filled i = true
  · simp [hfilled]
  · simp [hfilled]

/-! ## Filling -/

/-- Whether a register is filled is whether it takes a parameter. -/
theorem contains_filled {set : IndexSet σ} (hset : set.Faithful p.parts.registers.size)
    (h : (parameters.map (·.1)).Nodup) (hr : p.parts.registers[i]? = some r) :
    set.contains (applyParameters set p parameters).2 i = (r.supplied? parameters).isSome := by
  have hinside : ∀ j ∈ (taken p parameters).map (·.1), j < p.parts.registers.size := by
    intro j hj
    obtain ⟨⟨j', v⟩, hmem, rfl⟩ := List.mem_map.1 hj
    obtain ⟨r', hr', -⟩ := mem_taken.1 hmem
    exact (Array.getElem?_eq_some_iff.1 hr').1
  have hi : i < p.parts.registers.size := (Array.getElem?_eq_some_iff.1 hr).1
  rw [applyParameters_eq, hset _ hinside i hi, ← lookup_taken h hr, List.contains_eq_any_beq,
    List.any_map]
  rw [Bool.eq_iff_iff, List.lookup_isSome_iff, List.any_eq_true]
  rfl

/-- A faithful representation of sets makes every register start with its initial value. -/
theorem fillWith_eq {set : IndexSet σ} (hset : set.Faithful p.parts.registers.size)
    (h : (parameters.map (·.1)).Nodup) (context : Context) (providers : Providers) :
    fillWith set p context parameters providers =
      (checkRequired p (p.parts.registers.map (Register.initial context parameters providers)),
        p.parts.registers.map (Register.initial context parameters providers)) := by
  have hregisters : applyProviders set p context providers (applyParameters set p parameters).2
      (applyParameters set p parameters).1 =
        p.parts.registers.map (Register.initial context parameters providers) := by
    apply Array.ext_getElem?
    intro i
    rw [applyProviders_eq, getElem?_assign (nodup_offered _ _ _ _), applyParameters_eq,
      getElem?_assign (nodup_taken h), Program.getElem?_template, Array.getElem?_map]
    cases hr : p.parts.registers[i]? with
    | none => rfl
    | some r =>
      have hfilled := contains_filled hset h hr
      rw [applyParameters_eq] at hfilled
      simp only [Option.map_some, lookup_offered _ _ _ hr, lookup_taken h hr, hfilled]
      congr 1
      rw [Register.initial]
      cases r.supplied? parameters with
      | some v => rfl
      | none =>
        cases r.provided? context providers with
        | some v => rfl
        | none => rfl
  simp only [fillWith, hregisters]

/-- The error, if there is one, names the first register that must not be null and is. -/
theorem checkRequired_map (p : Program) (value : Register → Value) :
    checkRequired p (p.parts.registers.map value) =
      match p.parts.registers.toList.find? fun r =>
        r.required && !r.temporary && (value r).isNull with
      | some r => .error (.missingParameter r.name)
      | none => .ok () := by
  have hfind := p.find?_required value
  unfold checkRequired
  split
  · next name hsome =>
    rw [hsome] at hfind
    obtain ⟨r, hr, hname⟩ := Option.map_eq_some_iff.1 hfind.symm
    obtain rfl : r.name = name := hname
    rw [hr]
  · next hnone =>
    rw [hnone] at hfind
    rw [Option.map_eq_none_iff.1 hfind.symm]

/-- If the check finds nothing then no register is null that must not be. -/
theorem isNull_eq_false_of_checkRequired {value : Register → Value}
    (h : checkRequired p (p.parts.registers.map value) = .ok ())
    (hr : p.parts.registers[i]? = some r) (hrequired : r.required = true)
    (htemporary : r.temporary = false) : (value r).isNull = false := by
  have hmem : r ∈ p.parts.registers.toList := Array.mem_toList_iff.2 (Array.mem_of_getElem? hr)
  rw [checkRequired_map] at h
  split at h
  · cases h
  · next hnone =>
    have hr' := List.find?_eq_none.1 hnone r hmem
    simpa [hrequired, htemporary] using hr'

/-- A register without provider and default is null unless it takes a parameter. -/
theorem exists_parameter_of_initial {context : Context} {providers : Providers}
    (hdefault : r.defaultValue = none) (hbuiltin : r.builtin = none)
    (h : (r.initial context parameters providers).isNull = false) :
    ∃ v, parameters.get? r.name = some v ∧ v.isNull = false := by
  have hinitial : r.initial context parameters providers =
      (r.supplied? parameters).getD .null := by
    rw [Register.initial, Register.provided?, hdefault, hbuiltin]
    simp
  rw [hinitial] at h
  cases hsupplied : r.supplied? parameters with
  | none =>
    rw [hsupplied] at h
    cases h
  | some v =>
    rw [Register.supplied?] at hsupplied
    split at hsupplied
    · cases hsupplied
    · obtain ⟨hv, hset⟩ := Option.filter_eq_some_iff.1 hsupplied
      exact ⟨v, hv, by simp [Value.isNull, hset]⟩

theorem fill_choose (h : (parameters.map (·.1)).Nodup) (p : Program)
    (requested : Option Strategy) (context : Context) (providers : Providers) :
    fill (Strategy.choose p requested) p context parameters providers =
      (checkRequired p (p.parts.registers.map (Register.initial context parameters providers)),
        p.parts.registers.map (Register.initial context parameters providers)) := by
  cases hstrategy : Strategy.choose p requested with
  | flags => exact fillWith_eq (faithful_flagSet _) h context providers
  | word =>
    have hsize : p.parts.registers.size < wordLimit := by
      unfold Strategy.choose at hstrategy
      split at hstrategy
      · cases hstrategy
      · split at hstrategy
        · assumption
        · cases hstrategy
    exact fillWith_eq (faithful_wordSet (Nat.le_of_lt hsize)) h context providers

/-- Under every strategy that can be chosen, and whatever the registers held before, each register
    starts with its initial value, and the outcome names the first register that must not be null
    and is.  So there are parameters for all registers that nothing else can fill if there is no
    error. -/
theorem fill_by_precedence (h : (parameters.map (·.1)).Nodup) (p : Program)
    (requested : Option Strategy) (context : Context) (providers : Providers) :
    let initial := Register.initial context parameters providers
    let outcome : Except Fault Unit :=
      match p.parts.registers.toList.find? fun r =>
        r.required && !r.temporary && (initial r).isNull with
      | some r => .error (.missingParameter r.name)
      | none => .ok ()
    fill (Strategy.choose p requested) p context parameters providers =
        (outcome, p.parts.registers.map initial) ∧
      (outcome = .ok () → ∀ i name, (i, name) ∈ p.hardRequired →
        ∃ v, parameters.get? name = some v ∧ v.isNull = false) ∧
      ∀ (hooks : List Hook) (mode : Trace.Mode) (m : Machine),
        let setup : Setup :=
          { program := p, strategy := Strategy.choose p requested, hooks, providers, mode }
        (m.reset setup context parameters).1 = outcome.mapError Failure.unplaced ∧
          (m.reset setup context parameters).2.frame.registers = p.parts.registers.map initial := by
  intro initial outcome
  have houtcome : checkRequired p (p.parts.registers.map initial) = outcome :=
    checkRequired_map p initial
  have hfill : fill (Strategy.choose p requested) p context parameters providers =
      (outcome, p.parts.registers.map initial) := by
    rw [fill_choose h, houtcome]
  refine ⟨hfill, ?_, ?_⟩
  · intro hok i name hmem
    obtain ⟨r, hr, rfl, hrequired, htemporary, hdefault, hbuiltin⟩ :=
      Program.exists_of_mem_hardRequired hmem
    have hvalue : (initial r).isNull = false :=
      isNull_eq_false_of_checkRequired (houtcome.trans hok) hr hrequired htemporary
    exact exists_parameter_of_initial hdefault hbuiltin hvalue
  · intro hooks mode m setup
    unfold Machine.reset
    rw [hfill]
    exact ⟨rfl, rfl⟩

/-- A program with a register for each rank of precedence. -/
def layered : Program where
  parts := {
    registers := #[
      { name := "region", required := true, builtin := some "Region" },
      { name := "scratch", temporary := true, defaultValue := some (.integer 1) },
      { name := "endpoint", defaultValue := some (.integer 2), builtin := some "Endpoint" },
      { name := "stage", defaultValue := some (.integer 3), builtin := some "Stage" },
      { name := "bucket" }]
    diagram := { entries := #[], root := 1 } }
  starts := []
  starts_eq := by decide
  check_eq := by cbv

/-- Parameters for `layered`, of which only one is taken: one is null, and one is for a temporary
    register. -/
def layeredParameters : Parameters :=
  [("stage", .null), ("scratch", .integer 9), ("region", .integer 4)]

/-- Providers for `layered`, of which one gives null and one comes after a parameter. -/
def layeredProviders : Providers :=
  [("Endpoint", some fun _ => .integer 5), ("Region", some fun _ => .integer 6),
    ("Stage", some fun _ => .null)]

theorem fill_layered :
    (layeredParameters.map (·.1)).Nodup ∧
      fill (Strategy.choose layered none) layered [] layeredParameters layeredProviders =
        (.ok (), #[.integer 4, .integer 1, .integer 5, .integer 3, .null]) := by
  have hnames : (layeredParameters.map (·.1)).Nodup := by decide
  refine ⟨hnames, (fill_by_precedence hnames layered none [] layeredProviders).1.trans ?_⟩
  cbv

end RegisterFile

end EndpointRules
