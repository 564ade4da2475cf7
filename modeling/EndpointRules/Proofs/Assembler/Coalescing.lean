import EndpointRules.Proofs.Assembler.Bodies
import EndpointRules.Proofs.Assembler.Refusals
import EndpointRules.Proofs.Machine.StackEffects

/-!
# Results that coalesce registers

A result that loads one register after the other, and jumps to its end as soon as one is set,
returns the first value that is set.  The jumps all lead to one label, which the assembler completes
when it is marked; each finds its operand to be the distance that is left.
-/

namespace EndpointRules

/-- The first value that is set among some registers, or null if none is. -/
def firstSet (registers : Array Value) (indices : List Nat) : Value :=
  ((indices.map (registers.getD · .null)).find? Value.isSet).getD .null

theorem firstSet_cons (registers : Array Value) (r : Nat) (rs : List Nat) :
    firstSet registers (r :: rs) =
      if (registers.getD r .null).isSet then registers.getD r .null
      else firstSet registers rs := by
  by_cases h : (registers.getD r .null).isSet = true
  · rw [if_pos h, firstSet, List.map_cons, List.find?_cons_of_pos h, Option.getD_some]
  · rw [if_neg h, firstSet, List.map_cons, List.find?_cons_of_neg h]
    rfl

theorem firstSet_singleton (registers : Array Value) (r : Nat) :
    firstSet registers [r] = registers.getD r .null := by
  rw [firstSet_cons]
  cases registers.getD r .null <;> rfl

namespace Assembler

/-- Loads registers in turn, each but the last followed by a jump to a label. -/
def loads (label : Nat) : List Nat → List Call
  | [] => []
  | [r] => [.opcode .loadRegister, .byte (UInt8.ofNat r)]
  | r :: r' :: rs =>
    .opcode .loadRegister :: .byte (UInt8.ofNat r) :: .opcode .jumpIfSetOrPop :: .jump label ::
      loads label (r' :: rs)

/-- Loads registers in turn and returns as soon as one is set. -/
def coalescing (label : Nat) (rs : List Nat) : List Call :=
  loads label rs ++ [.mark label, .opcode .returnValue]

/-! ## Instructions -/

/-- The instruction that loads a register. -/
def loading (r : Nat) : Written := { op := .loadRegister, operands := [UInt8.ofNat r] }

/-- The jump over a distance. -/
def jumping (distance : Nat) : Written where
  op := .jumpIfSetOrPop
  operands := Word.bytes 2 distance
  length_eq := by rw [Word.length_bytes]; rfl

/-- The instruction that returns the top of the stack. -/
def returning : Written := { op := .returnValue, operands := [] }

theorem instruction_loading {r : Nat} (h : r < 256) :
    (loading r).instruction = .loadRegister r := by
  have hr : (UInt8.ofNat r).toNat = r := UInt8.toNat_ofNat_of_lt h
  show Instruction.loadRegister (UInt8.ofNat r).toNat = .loadRegister r
  rw [hr]

theorem instruction_jumping {distance : Nat} (h : distance ≤ 0xFFFF) :
    (jumping distance).instruction = .jumpIfSetOrPop distance := by
  show Instruction.jumpIfSetOrPop
    ((UInt8.ofNat (distance / 256)).toNat * 256 + (UInt8.ofNat distance).toNat) = _
  rw [UInt8.toNat_ofNat', UInt8.toNat_ofNat']
  congr 1
  omega

theorem extent_loads_cons (label r r' : Nat) (rs : List Nat) :
    extent (loads label (r :: r' :: rs)) = 5 + extent (loads label (r' :: rs)) := by
  simp only [loads, extent_cons, Call.width]
  omega

theorem layOutFrom_loads_cons (target : Nat → Nat) (offset label r r' : Nat) (rs : List Nat) :
    layOutFrom target offset (loads label (r :: r' :: rs)) =
      (loading r).bytes ++ ((jumping (target label - (offset + 5))).bytes ++
        layOutFrom target (offset + 5) (loads label (r' :: rs))) := rfl

end Assembler

namespace Setting

open Assembler

variable {s : Setting} {body : Body} {f : Frame}

theorem perform_loadRegister {r : Nat} {v : Value} (h : f.registers[r]? = some v) :
    s.perform (.loadRegister r) f = (.ok .next, { f with stack := f.stack.push v }) := by
  simp [perform, Exec.bind_apply, Exec.register, h, Exec.push, Exec.pure_apply]

/-- A load leads to what follows it, with the register on top of the stack. -/
theorem step_of_loading {a r : Nat} (h : s.Holds body a (loading r).bytes) (hr : r < 256)
    (hsize : r < f.registers.size) :
    s.Step body (a, f)
      (a + 2, { f with stack := f.stack.push (f.registers.getD r .null) }) := by
  have hregister : f.registers[r]? = some (f.registers.getD r .null) := by
    rw [Array.getD_eq_getD_getElem?, Array.getElem?_eq_getElem hsize, Option.getD_some]
  have hperform := perform_loadRegister (s := s) hregister
  rw [← instruction_loading hr] at hperform
  exact h.step hperform

/-- A jump leads behind the distance if the top of the stack is set, and otherwise to what follows
    it, without the operand. -/
theorem step_of_jumping {a distance : Nat} {v : Value} {rest : List Value}
    (h : s.Holds body a (jumping distance).bytes) (hfits : distance ≤ 0xFFFF)
    (hitems : f.stack.items = v :: rest) :
    s.Step body (a, f) (if v.isSet then (a + 3 + distance, f)
      else (a + 3, { f with stack := f.stack.drop 1 })) := by
  have hperform := s.perform_jumpIfSetOrPop distance f
  rw [hitems, ← instruction_jumping hfits] at hperform
  by_cases hset : v.isSet = true
  · rw [if_pos hset]
    exact h.skip (hperform.trans (if_pos hset))
  · rw [if_neg hset]
    exact h.step (hperform.trans (if_neg hset))

/-- Loads that stand in a body lead to their label, with the first register that is set on top of
    the stack. -/
theorem leads_of_loads {t : Nat → Nat} {label a r : Nat} {rs : List Nat}
    (h : s.Holds body a (layOutFrom t a (loads label (r :: rs))))
    (htarget : t label = a + extent (loads label (r :: rs)))
    (hfits : extent (loads label (r :: rs)) ≤ 0xFFFF + 5)
    (hindices : ∀ i ∈ r :: rs, i < 256 ∧ i < f.registers.size) :
    ∃ g, s.Leads body (a, f) (t label, g) ∧ g.registers = f.registers ∧
      g.stack.items = firstSet f.registers (r :: rs) :: f.stack.items := by
  obtain ⟨hr, hsize⟩ := hindices r List.mem_cons_self
  induction rs generalizing a r f with
  | nil =>
    have hload : s.Holds body a (loading r).bytes := h
    rw [htarget, firstSet_singleton]
    exact ⟨_, .single (step_of_loading hload hr hsize), rfl, f.stack.items_push _⟩
  | cons r' rs ih =>
    rw [layOutFrom_loads_cons] at h
    rw [extent_loads_cons] at htarget hfits
    let loaded : Frame := { f with stack := f.stack.push (f.registers.getD r .null) }
    have hload : s.Step body (a, f) (a + 2, loaded) := step_of_loading h.left hr hsize
    have hitems : loaded.stack.items = f.registers.getD r .null :: f.stack.items :=
      f.stack.items_push _
    have hjump := step_of_jumping h.right.left (by omega) hitems
    rw [firstSet_cons]
    by_cases hset : (f.registers.getD r .null).isSet = true
    · -- the jump is taken, to the label
      have hend : a + 2 + 3 + (t label - (a + 5)) = t label := by omega
      rw [if_pos hset] at hjump ⊢
      refine ⟨loaded, .head hload (.single ?_), rfl, hitems⟩
      rw [← hend]
      exact hjump
    · rw [if_neg hset] at hjump ⊢
      let dropped : Frame := { loaded with stack := loaded.stack.drop 1 }
      have hrest : s.Holds body (a + 5) (layOutFrom t (a + 5) (loads label (r' :: rs))) :=
        h.right.right
      obtain ⟨hr', hsize'⟩ := hindices r' (by simp)
      obtain ⟨g, hleads, hregisters, hg⟩ := ih (f := dropped) hrest (by omega) (by omega)
        (fun i hi => hindices i (List.mem_cons_of_mem _ hi)) hr' hsize'
      have hdropped : dropped.stack.items = f.stack.items := by
        show loaded.stack.items.drop 1 = f.stack.items
        rw [hitems]
        rfl
      refine ⟨g, .head hload (.head hjump hleads), hregisters, ?_⟩
      rw [hg, hdropped]

/-- Coalescing code in a body returns the first register that is set. -/
theorem exists_ends_of_coalescing {t : Nat → Nat} {label a r : Nat} {rs : List Nat}
    (h : s.Holds body a (layOutFrom t a (coalescing label (r :: rs))))
    (htarget : t label = a + extent (loads label (r :: rs)))
    (hfits : extent (loads label (r :: rs)) ≤ 0xFFFF + 5)
    (hindices : ∀ i ∈ r :: rs, i < 256 ∧ i < f.registers.size) :
    ∃ p g, s.Leads body (a, f) p ∧
      s.Ends body p (.ok (.value (firstSet f.registers (r :: rs)))) g := by
  rw [coalescing, layOutFrom_append] at h
  obtain ⟨g, hleads, -, hitems⟩ := leads_of_loads h.left htarget hfits hindices
  have hreturn : s.Holds body (t label) returning.bytes := by
    have hright := h.right
    rw [length_layOutFrom, ← htarget] at hright
    exact hright
  refine ⟨(t label, g), { g with stack := g.stack.drop 1 }, hleads, hreturn.exit ?_⟩
  show s.perform .returnValue g = _
  simp [perform, Exec.bind_apply, Exec.pop, hitems, Exec.pure_apply]

end Setting

/-- A result whose body returns a value resolves to that value. -/
theorem Machine.resolve_of_run {setup : Setup} {m : Machine} {index : Nat} {body : Body}
    {v : Value} (hbody : setup.program.body? .result index = some body)
    (h : (m.run setup body).1 = .ok (.value v)) :
    (m.resolve setup index).1 = .ok (.value index v) := by
  have hrun : m.run setup body = (.ok (.value v), (m.run setup body).2) := Prod.ext h rfl
  rw [resolve_natCast, hbody]
  dsimp only
  rw [hrun]
  rfl

namespace Assembler

/-! ## Programs -/

variable {calls before after : List Call} {label : Nat} {p : Program}

/-- Loads start no body. -/
theorem starts_of_mem_loads {rs : List Nat} {c : Call} (h : c ∈ loads label rs)
    (sort : BodySort) : c.starts sort = false := by
  fun_induction loads label rs with
  | case1 => cases h
  | case2 r =>
    simp only [List.mem_cons, List.not_mem_nil, or_false] at h
    rcases h with rfl | rfl <;> rfl
  | case3 r r' rs ih =>
    simp only [List.mem_cons] at h
    rcases h with rfl | rfl | rfl | rfl | h
    · rfl
    · rfl
    · rfl
    · rfl
    · exact ih h

theorem starts_of_mem_coalescing {rs : List Nat} {c : Call} (h : c ∈ coalescing label rs)
    (sort : BodySort) : c.starts sort = false := by
  rcases List.mem_append.1 h with h | h
  · exact starts_of_mem_loads h sort
  · simp only [List.mem_cons, List.not_mem_nil, or_false] at h
    rcases h with rfl | rfl <;> rfl

/-- The calls that write a result which coalesces registers, between others. -/
def aroundCoalescing (before : List Call) (label : Nat) (rs : List Nat) (after : List Call) :
    List Call :=
  before ++ .startBody .result :: (coalescing label rs ++ after)

/-- The label of coalescing code leads to its end. -/
theorem Encoded.target_coalescing {rs : List Nat}
    (h : Encoded (aroundCoalescing before label rs after) p) :
    target (aroundCoalescing before label rs after) label =
      extent before + extent (loads label rs) := by
  have hsplit : aroundCoalescing before label rs after =
      (before ++ .startBody .result :: loads label rs) ++
        .mark label :: (.opcode .returnValue :: after) := by
    simp [aroundCoalescing, coalescing]
  rw [hsplit] at h ⊢
  rw [h.target_eq, extent_append, extent_cons]
  simp [Call.width]

/-- Of the jumps to the end of loads, each is longer than the next one by less than 32 bits could
    hide, so the first fits as well as the last does. -/
theorem Encoded.extent_loads_le {front rest : List Call} {r : Nat} {rs : List Nat}
    (h : Encoded (front ++ (loads label (r :: rs) ++ .mark label :: rest)) p) :
    extent (loads label (r :: rs)) ≤ 0xFFFF + 5 := by
  induction rs generalizing front r with
  | nil =>
    show 2 ≤ 0xFFFF + 5
    omega
  | cons r' rs ih =>
    let first := front ++ [.opcode .loadRegister, .byte (UInt8.ofNat r), .opcode .jumpIfSetOrPop]
    have hsplit : front ++ (loads label (r :: r' :: rs) ++ .mark label :: rest) =
        first ++ .jump label :: (loads label (r' :: rs) ++ .mark label :: rest) := by
      simp [first, loads]
    have hsplit' : first ++ .jump label :: (loads label (r' :: rs) ++ .mark label :: rest) =
        (first ++ [.jump label]) ++ (loads label (r' :: rs) ++ .mark label :: rest) := by
      simp
    rw [hsplit] at h
    have hfits := h.extent_between_le
    rw [hsplit'] at h
    have hrest := hfits (Nat.lt_of_le_of_lt (ih h) (by decide))
    rw [extent_loads_cons]
    omega

/-- A result that coalesces registers takes at most 0x10005 bytes. -/
theorem Encoded.extent_aroundCoalescing_lt {r : Nat} {rs : List Nat}
    (h : Encoded (aroundCoalescing before label (r :: rs) after) p)
    (hroom : extent before + 0x10005 + extent after < 0x100000000) :
    extent (loads label (r :: rs)) ≤ 0xFFFF + 5 ∧
      extent (aroundCoalescing before label (r :: rs) after) < 0x100000000 := by
  have hsplit : aroundCoalescing before label (r :: rs) after =
      (before ++ [.startBody .result]) ++
        (loads label (r :: rs) ++ .mark label :: .opcode .returnValue :: after) := by
    simp [aroundCoalescing, coalescing]
  rw [hsplit] at h ⊢
  have hloads := h.extent_loads_le
  refine ⟨hloads, ?_⟩
  simp only [extent_append, extent_cons, extent_nil, Call.width]
  omega

/-- A result that coalesces registers returns the first of them that is set, or null if none is,
    whatever the registers hold.  Since the assembler was last empty any calls may have been made
    before and after those that write the result, which is the next one in order, as long as there
    are addresses for what all of them write.  The result itself takes at most 0x10005 bytes, or its
    jumps would not fit. -/
theorem resolve_eq_of_coalescing {registers : Array Register} {functions : List Function}
    {diagram : Diagram} {setup : Setup} {m : Machine} {rs : List Nat} (hne : rs ≠ [])
    (hcalls : current calls = before ++ .startBody .result :: (coalescing label rs ++ after))
    (hroom : extent before + 0x10005 + extent after < 0x100000000)
    (hbuild : ((ofCalls calls).build registers functions diagram).1 = .ok setup.program)
    (hindices : ∀ r ∈ rs, r < setup.program.parts.registers.size)
    (hfile : m.frame.registers.size = setup.program.parts.registers.size) :
    let index := before.countP (Call.starts .result)
    (m.resolve setup index).1 = .ok (.value index (firstSet m.frame.registers rs)) := by
  intro index
  obtain ⟨r, rs, rfl⟩ := List.exists_cons_of_ne_nil hne
  rw [← ofCalls_current] at hbuild
  have hencoded := encoded_of_build (refused_current calls) hbuild
  rw [hcalls] at hencoded
  obtain ⟨hloads, hextent⟩ := hencoded.extent_aroundCoalescing_lt hroom
  have hassembled := hencoded.assembled_of_extent_lt hextent
  obtain ⟨body, hbody, hstart, hstop⟩ :=
    hassembled.exists_body hextent fun c hc => starts_of_mem_coalescing hc
  have hholds := Assembled.holds (s := m.setting setup) hassembled hstop
  have hbytes : ∀ i ∈ r :: rs, i < 256 ∧ i < m.frame.registers.size := by
    intro i hi
    have hsizes := (Parts.checkSizes_eq_ok_iff.1 setup.program.checked.sizes).1
    have hlt := hindices i hi
    rw [maxRegisters] at hsizes
    omega
  obtain ⟨p, g, hleads, hends⟩ := Setting.exists_ends_of_coalescing
    (f := { m.frame with stack := m.frame.stack.clear }) hholds hencoded.target_coalescing
    hloads hbytes
  have hvisits : (m.setting setup).Visits body m.frame p := by
    rw [Setting.Visits, Setting.entry, hstart]
    exact hleads
  have hrun := (Setting.runBody_of_visits hvisits hends (setup.mode == .instructions)
    m.events).1
  rw [← (Machine.run_eq_runBody setup body m).1] at hrun
  exact Machine.resolve_of_run hbody hrun

/-- The program of a result that coalesces the second register, the first and the third. -/
def coalesced : Program where
  parts := {
    code := #[0x03, 0x01, 0x2A, 0x00, 0x07, 0x03, 0x00, 0x2A, 0x00, 0x02, 0x03, 0x02, 0x28]
    results := #[0]
    registers := #[{ name := "Bucket" }, { name := "Key" }, { name := "Region" }]
    diagram := onlyResult }
  starts := [0]
  starts_eq := by decide
  check_eq := by cbv

/-- The setup of that program. -/
def coalescedSetup : Setup :=
  { program := coalesced, strategy := .word, hooks := [], providers := [], mode := .off }

/-- A machine whose second register is null. -/
def partlyFilled : Machine :=
  { frame := { registers := #[.string "logs", .null, .string "eu"] } }

/-- The calls that write that result. -/
def coalescedCalls : List Call :=
  [.label] ++ .startBody .result :: (coalescing 0 [1, 0, 2] ++ [])

theorem resolve_eq_of_coalescing_partlyFilled :
    current coalescedCalls = [.label] ++ .startBody .result :: (coalescing 0 [1, 0, 2] ++ []) ∧
    extent [.label] + 0x10005 + extent [] < 0x100000000 ∧
    ((ofCalls coalescedCalls).build coalesced.parts.registers [] onlyResult).1 =
      .ok coalescedSetup.program ∧
    (∀ r ∈ [1, 0, 2], r < coalescedSetup.program.parts.registers.size) ∧
    partlyFilled.frame.registers.size = coalescedSetup.program.parts.registers.size ∧
    (partlyFilled.resolve coalescedSetup 0).1 = .ok (.value 0 (.string "logs")) := by
  have hcalls : current coalescedCalls = coalescedCalls := by
    apply current_of_refused
    apply refused_of_not_mem
    simp [coalescedCalls, coalescing, loads]
  have hparts : (ofCalls coalescedCalls).parts coalesced.parts.registers [] onlyResult =
      .ok coalesced.parts := by cbv
  have hbuild : ((ofCalls coalescedCalls).build coalesced.parts.registers [] onlyResult).1 =
      .ok coalescedSetup.program := by
    rw [build, hparts]
    exact Program.create_parts coalesced
  have hindices : ∀ r ∈ [1, 0, 2], r < coalescedSetup.program.parts.registers.size := by decide
  have hroom : extent [.label] + 0x10005 + extent [] < 0x100000000 := by decide
  exact ⟨hcalls, hroom, hbuild, hindices, rfl,
    resolve_eq_of_coalescing (List.cons_ne_nil _ _) hcalls hroom hbuild hindices rfl⟩

end Assembler

end EndpointRules
