import EndpointRules.Proofs.Assembler.Refusals
import EndpointRules.Proofs.Pool

/-!
# Constants and function names of assembled programs

The index of a constant or of a function name is told from the calls alone: it is the number of
distinct ones before its first occurrence.  A program that is built has each constant at its index
and no others.  The same holds of function names with one exception: the empty name is dropped if it
has no implementation, since the list of missing names does not show it.
-/

namespace EndpointRules

theorem missingText_eq_nil_iff {names : List Bytes} :
    missingText names = [] ↔ ∀ name ∈ names, name = [] := by
  have hfrom : ∀ text, names.foldl (fun text name =>
      if text.isEmpty then name else text ++ ", " ++ name) text = [] ↔
        text = [] ∧ ∀ name ∈ names, name = [] := by
    induction names with
    | nil => simp
    | cons name names ih =>
      intro text
      rw [List.foldl_cons, ih]
      cases text with
      | nil => simp
      | cons b text => simp
  exact (hfrom []).trans (by simp)

namespace Assembler

open Pool (rank Tabulates)

/-- The constant that a call asks the index of. -/
def Call.constant? : Call → Option Value
  | constant v => some v
  | _ => none

/-- The function name that a call asks the index of. -/
def Call.name? : Call → Option Bytes
  | function name => some name
  | _ => none

/-- The constants that calls ask the indices of, in the order of the calls. -/
def constantsOf (calls : List Call) : List Value := calls.filterMap Call.constant?

/-- The function names that calls ask the indices of, in the order of the calls. -/
def namesOf (calls : List Call) : List Bytes := calls.filterMap Call.name?

/-- The names of the functions of a program, in the order of their indices. -/
def functionNames (p : Program) : List Bytes := p.parts.functions.toList.map (·.name)

variable {calls before after : List Call} {c : Call} {registers : Array Register}
  {functions : List Function} {diagram : Diagram} {p : Program} {name : Bytes} {v : Value}

/-! ## Pools -/

/-- A call puts into the pools what it asks the index of. -/
theorem pools_apply (hrefused : Refused (calls ++ [c])) :
    (c.apply (ofCalls calls)).constants = c.constant?.elim (ofCalls calls).constants
        (fun v => ((ofCalls calls).constants.intern v).2) ∧
      (c.apply (ofCalls calls)).functions = c.name?.elim (ofCalls calls).functions
        (fun name => ((ofCalls calls).functions.intern name).2) := by
  cases c with
  | jump l =>
    simp only [Call.apply, jump]
    split
    · exact ⟨rfl, rfl⟩
    · exact ⟨rfl, rfl⟩
    · exact ⟨rfl, rfl⟩
  | mark l =>
    -- Only the jumps that wait for the mark are patched, and that concerns the code alone.
    simp only [Call.apply, mark]
    split
    · exact ⟨rfl, rfl⟩
    · exact ⟨rfl, rfl⟩
    · next pending _ =>
      obtain ⟨code, error, hpatch⟩ := exists_foldl_patch_eq (ofCalls calls).position
        { ofCalls calls with
          labels := (ofCalls calls).labels.setIfInBounds l
            { position := some (ofCalls calls).position } } pending.toList
      rw [← Array.foldl_toList, hpatch]
      exact ⟨rfl, rfl⟩
  | startBody sort => cases sort <;> exact ⟨rfl, rfl⟩
  | build registers functions diagram =>
    rw [hrefused.apply_build]
    exact ⟨rfl, rfl⟩
  | _ => exact ⟨rfl, rfl⟩

/-- A pool that something may be put into keeps listing what has been put into it. -/
theorem tabulates_elim {α : Type} [DecidableEq α] {xs : List α} {pool : Pool α}
    (h : Tabulates xs pool.items.toList) (x? : Option α) :
    Tabulates (xs ++ x?.toList) (x?.elim pool (fun x => (pool.intern x).2)).items.toList := by
  cases x? with
  | none => simpa using h
  | some x => exact (h.intern x).2

theorem tabulates_ofCalls (hrefused : Refused calls) :
    Tabulates (constantsOf calls) (ofCalls calls).constants.items.toList ∧
      Tabulates (namesOf calls) (ofCalls calls).functions.items.toList := by
  induction calls using List.reverseRecOn with
  | nil => exact ⟨.nil, .nil⟩
  | append_singleton calls c ih =>
    obtain ⟨hconstants, hnames⟩ := ih hrefused.of_append_singleton
    obtain ⟨hconstant, hname⟩ := pools_apply hrefused
    have hmore : ∀ {α : Type} (f : Call → Option α),
        (calls ++ [c]).filterMap f = calls.filterMap f ++ (f c).toList := by
      intro α f
      rw [List.filterMap_append]
      cases h : f c with
      | none => simp [h]
      | some x => simp [h]
    rw [ofCalls_append_singleton, hconstant, hname, constantsOf, namesOf, hmore, hmore]
    exact ⟨tabulates_elim hconstants _, tabulates_elim hnames _⟩

/-! ## Indices -/

theorem reply_constant (hrefused : Refused (before ++ .constant v :: after)) :
    (Call.constant v).reply (ofCalls before) =
      .index (rank (constantsOf (before ++ .constant v :: after)) v) := by
  obtain ⟨hindex, -⟩ := (tabulates_ofCalls hrefused.of_append).1.intern v
  rw [constantsOf, Pool.rank_filterMap Call.constant? (b := .constant v) rfl]
  exact congrArg Reply.index hindex

theorem reply_function (hrefused : Refused (before ++ .function name :: after)) :
    (Call.function name).reply (ofCalls before) =
      .index (rank (namesOf (before ++ .function name :: after)) name) := by
  obtain ⟨hindex, -⟩ := (tabulates_ofCalls hrefused.of_append).2.intern name
  rw [namesOf, Pool.rank_filterMap Call.name? (b := .function name) rfl]
  exact congrArg Reply.index hindex

/-! ## Tables -/

/-- The tables of a program are those of the assembler, without the functions that have no
    implementation; only the empty name may be among these. -/
theorem tables_of_build
    (h : ((ofCalls calls).build registers functions diagram).1 = .ok p) :
    p.parts.constants = (ofCalls calls).constants.items ∧
      functionNames p = (ofCalls calls).functions.items.toList.filter
        (fun name => (implementation? functions name).isSome) ∧
      ∀ name ∈ (ofCalls calls).functions.items.toList,
        (implementation? functions name).isSome = false → name = [] := by
  unfold build at h
  split at h
  · cases h
  · next parts hparts =>
    obtain ⟨-, -, -, -, -, hconstants, hmissing, hslots⟩ := of_parts_eq_ok hparts
    have hp : p.parts = parts := Program.parts_of_create h
    refine ⟨by rw [hp, hconstants], ?_, ?_⟩
    · rw [functionNames, hp, hslots, List.toList_toArray, List.map_filterMap,
        ← List.filterMap_eq_filter]
      refine List.filterMap_congr fun name _ => ?_
      cases h : implementation? functions name <;> simp [Option.guard, h]
    · intro name hname hnone
      refine missingText_eq_nil_iff.1 hmissing name (List.mem_filter.2 ⟨hname, ?_⟩)
      simpa using hnone

/-- Constants and function names are numbered in the order of their first appearance, different
    ones differently, and keep their numbers.  A program that is built lists the constants by their
    numbers, and it lists the function names by theirs unless the empty name is among them and has
    no implementation. -/
theorem interning_faithful (hrefused : Refused calls) :
    (∀ before v after, calls = before ++ .constant v :: after →
      (Call.constant v).reply (ofCalls before) = .index (rank (constantsOf calls) v)) ∧
    (∀ before name after, calls = before ++ .function name :: after →
      (Call.function name).reply (ofCalls before) = .index (rank (namesOf calls) name)) ∧
    (∀ v ∈ constantsOf calls, ∀ w ∈ constantsOf calls,
      rank (constantsOf calls) v = rank (constantsOf calls) w ↔ v.same w = true) ∧
    (∀ name ∈ namesOf calls, ∀ name' ∈ namesOf calls,
      rank (namesOf calls) name = rank (namesOf calls) name' ↔ name = name') ∧
    ∀ registers functions diagram p,
      ((ofCalls calls).build registers functions diagram).1 = .ok p →
        Tabulates (constantsOf calls) p.parts.constants.toList ∧
          (Tabulates (namesOf calls) (functionNames p) ↔
            ([] ∈ namesOf calls → (implementation? functions []).isSome = true)) := by
  obtain ⟨hconstants, hnames⟩ := tabulates_ofCalls hrefused
  refine ⟨?_, ?_, ?_, ?_, ?_⟩
  · rintro before v after rfl
    exact reply_constant hrefused
  · rintro before name after rfl
    exact reply_function hrefused
  · intro v hv w hw
    rw [hconstants.rank_eq_iff hv hw, Value.same_iff]
  · intro name hname name' hname'
    exact hnames.rank_eq_iff hname hname'
  · intro registers functions diagram p hbuild
    obtain ⟨htable, hslots, hmissing⟩ := tables_of_build hbuild
    refine ⟨by rw [htable]; exact hconstants, ?_⟩
    rw [hslots]
    constructor
    · intro hlisted hmem
      exact (List.mem_filter.1 ((hlisted.mem_iff []).2 hmem)).2
    · intro himplemented
      rw [List.filter_eq_self.2 ?_]
      · exact hnames
      · intro name hname
        -- The build let the name pass, so without an implementation it would be the empty one.
        by_contra hnone
        rw [Bool.not_eq_true] at hnone
        obtain rfl := hmissing name hname hnone
        rw [himplemented ((hnames.mem_iff []).1 hname)] at hnone
        cases hnone

/-- Calls that ask twice for one of two constants, which differ in their kinds only, and for one of
    two function names.  The result calls the second function on the second constant. -/
def repeatingCalls : List Call := [
  .constant (.list [.integer 1]), .function "isSet", .constant (.list [.string "1"]),
  .function "not", .constant (.list [.integer 1]), .function "isSet",
  .startBody .result, .opcode .loadConst, .byte 1, .opcode .call1, .byte 1, .opcode .returnValue]

/-- The program of those calls. -/
def repeating : Program where
  parts := {
    code := #[0x00, 0x01, 0x14, 0x01, 0x28]
    results := #[0]
    constants := #[.list [.integer 1], .list [.string "1"]]
    functions := #[
      { name := "isSet", function := some StandardFunctions.isSet },
      { name := "not", function := some StandardFunctions.not }]
    diagram := onlyResult }
  starts := [0]
  starts_eq := by decide
  check_eq := by cbv

theorem interning_faithful_repeating :
    Refused repeatingCalls ∧
    ((ofCalls repeatingCalls).build #[] [StandardFunctions.not, StandardFunctions.isSet]
      onlyResult).1 = .ok repeating ∧
    (Call.constant (.list [.integer 1])).reply (ofCalls (repeatingCalls.take 4)) = .index 0 ∧
    (Call.function "not").reply (ofCalls (repeatingCalls.take 3)) = .index 1 ∧
    Tabulates (constantsOf repeatingCalls) [.list [.integer 1], .list [.string "1"]] ∧
    Tabulates (namesOf repeatingCalls) ["isSet", "not"] := by
  have hrefused : Refused repeatingCalls := by
    apply refused_of_not_mem
    simp [repeatingCalls]
  have hparts : (ofCalls repeatingCalls).parts #[] [StandardFunctions.not, StandardFunctions.isSet]
      onlyResult = .ok repeating.parts := by with_unfolding_all rfl
  have hbuild : ((ofCalls repeatingCalls).build #[] [StandardFunctions.not, StandardFunctions.isSet]
      onlyResult).1 = .ok repeating := by
    rw [build, hparts]
    exact Program.create_parts repeating
  obtain ⟨hconstant, hfunction, -, -, htables⟩ := interning_faithful hrefused
  obtain ⟨hconstants, hnames⟩ := htables _ _ _ _ hbuild
  have hrank : rank (constantsOf repeatingCalls) (.list [.integer 1]) = 0 := by decide
  have hrank' : rank (namesOf repeatingCalls) "not" = 1 := by decide
  refine ⟨hrefused, hbuild, ?_, ?_, hconstants, hnames.2 ?_⟩
  · exact (hconstant _ _ _ rfl).trans (congrArg Reply.index hrank)
  · exact (hfunction _ _ _ rfl).trans (congrArg Reply.index hrank')
  · decide

/-- Calls that ask for the empty name before two others.  The result calls the second of the three
    functions. -/
def unnamedCalls : List Call := [
  .function [], .function "isSet", .function "not", .startBody .result,
  .opcode .loadRegister, .byte 0, .opcode .call1, .byte 1, .opcode .returnValue]

/-- The program of those calls if there is no implementation of the empty name. -/
def renumbered : Program where
  parts := {
    code := #[0x03, 0x00, 0x14, 0x01, 0x28]
    results := #[0]
    registers := #[{ name := "Bucket" }]
    functions := #[
      { name := "isSet", function := some StandardFunctions.isSet },
      { name := "not", function := some StandardFunctions.not }]
    diagram := onlyResult }
  starts := [0]
  starts_eq := by decide
  check_eq := by cbv

/-- Without an implementation of the empty name the program is built all the same, and the index
    that one function was given is that of another one. -/
theorem not_tabulates_unnamed :
    (Call.function "isSet").reply (ofCalls (unnamedCalls.take 1)) = .index 1 ∧
    ((ofCalls unnamedCalls).build #[{ name := "Bucket" }]
      [StandardFunctions.isSet, StandardFunctions.not] onlyResult).1 = .ok renumbered ∧
    (functionNames renumbered)[1]? = some (Bytes.ofString "not") ∧
    ¬ Tabulates (namesOf unnamedCalls) (functionNames renumbered) := by
  have hparts : (ofCalls unnamedCalls).parts #[{ name := "Bucket" }]
      [StandardFunctions.isSet, StandardFunctions.not] onlyResult =
        .ok renumbered.parts := by
    with_unfolding_all rfl
  refine ⟨by cbv, ?_, rfl, ?_⟩
  · rw [build, hparts]
    exact Program.create_parts renumbered
  · intro hlisted
    have hmem : [] ∈ functionNames renumbered := (hlisted.mem_iff []).2 (by decide)
    exact absurd hmem (by decide)

end Assembler

end EndpointRules
