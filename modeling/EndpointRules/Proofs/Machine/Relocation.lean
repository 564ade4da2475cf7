import Mathlib.Data.List.Basic
import EndpointRules.Machine
import EndpointRules.Proofs.Machine.Faults
import EndpointRules.Proofs.Machine.Likeness
import EndpointRules.Proofs.Machine.Steps
import EndpointRules.Proofs.Program.Bodies

/-!
# Relocation of bodies

A body means the same wherever it stands.  Two bodies that hold the same bytes, in programs with
the same constants and functions, go through the same instructions at the same distances from their
starts, whatever else the two programs have for code, and so they end alike.
-/

namespace EndpointRules

/-- An instruction is made of its own bytes. -/
theorem Instruction.ofBytes_congr {op : Opcode} {byte byte' : Nat → Nat}
    (h : ∀ place < op.length, byte place = byte' place) : ofBytes op byte = ofBytes op byte' := by
  -- the cases by the number of bytes behind the opcode, the most first
  cases op <;> first
    | simp only [ofBytes, Nat.reduceAdd, h 1 (by decide), h 2 (by decide), h 3 (by decide)]
    | simp only [ofBytes, Nat.reduceAdd, h 1 (by decide), h 2 (by decide)]
    | simp only [ofBytes, h 1 (by decide)]
    | simp only [ofBytes]

theorem Instruction.decode_congr {op : Opcode} {code code' : Array UInt8} {a a' : Nat}
    (h : ∀ place < op.length, code.getD (a + place) 0 = code'.getD (a' + place) 0) :
    decode op code a = decode op code' a' :=
  ofBytes_congr fun place hplace => congrArg UInt8.toNat (h place hplace)

/-- The result of a run whose failures are placed by their distances from the start of the body. -/
abbrev Relative := Except (Fault × Nat) Exit

/-- The result of the run when the body starts at `start`. -/
def Relative.at (r : Relative) (start : Nat) : Except Failure Exit :=
  r.mapError fun (fault, d) => ⟨fault, some (start + d)⟩

namespace Setting

/-- The settings have the same constants, functions, hooks and context. -/
structure Agrees (s t : Setting) : Prop where
  constants : s.program.parts.constants = t.program.parts.constants
  functions : s.program.parts.functions = t.program.parts.functions
  hooks : s.hooks = t.hooks
  context : s.context = t.context

/-- The bodies are equally long and hold the same bytes. -/
structure SameBytes (s : Setting) (b : Body) (t : Setting) (c : Body) : Prop where
  length : b.stop - b.start = c.stop - c.start
  bytes : ∀ d < b.stop - b.start,
    s.program.code.getD (b.start + d) 0 = t.program.code.getD (c.start + d) 0

variable {s t : Setting} {b c : Body}

/-! ## Instructions -/

theorem perform_eq_of_agrees (h : s.Agrees t) (i : Instruction) : s.perform i = t.perform i := by
  have hconstant : ∀ index, Exec.constant s.program index = Exec.constant t.program index := by
    intro index
    rw [Exec.constant, Exec.constant, h.constants]
  have hname : ∀ index, s.propertyName index = t.propertyName index := by
    intro index
    rw [propertyName, propertyName, hconstant]
  cases i with
  | loadConstant index => rw [perform, perform, hconstant]
  | resolveTemplate count index =>
    rw [perform, perform, resolveTemplate, resolveTemplate, hconstant]
  | call arity index => rw [perform, perform, callFunction, callFunction, h.functions]
  | getProperty index => rw [perform, perform, hname]
  | getPropertyOf r index => rw [perform, perform, hname]
  | returnEndpoint hasProperties hasHeaders =>
    rw [perform, perform, popEndpoint, popEndpoint, h.hooks, h.context]
  | _ => rfl

theorem fetch_eq_of_sameBytes (h : s.SameBytes b t c) (d : Nat) :
    s.fetch b (b.start + d) = t.fetch c (c.start + d) := by
  have := h.length
  by_cases hd : d < b.stop - b.start
  · rw [fetch, fetch, if_neg (by omega), if_neg (by omega), h.bytes d hd]
    dsimp only
    split
    · rfl
    · next op _ =>
      by_cases hcut : b.stop < b.start + d + op.length
      · rw [if_pos hcut, if_pos (by omega)]
      · rw [if_neg hcut, if_neg (by omega)]
  · rw [fetch, fetch, if_pos (by omega), if_pos (by omega)]

/-- An instruction that is fetched lies inside its body. -/
theorem length_le_of_fetch {a : Nat} {op : Opcode} (h : s.fetch b a = .ok op) :
    a + op.length ≤ b.stop :=
  (fetch_eq_ok_iff.1 h).2

theorem decode_eq_of_sameBytes (h : s.SameBytes b t c) {d : Nat} {op : Opcode}
    (hfetch : s.fetch b (b.start + d) = .ok op) :
    Instruction.decode op s.program.code (b.start + d) =
      Instruction.decode op t.program.code (c.start + d) := by
  have hinside := length_le_of_fetch hfetch
  refine Instruction.decode_congr fun place hplace => ?_
  rw [Nat.add_assoc, Nat.add_assoc]
  exact h.bytes (d + place) (by omega)

/-- The instruction at a distance from the start does the same in both bodies. -/
theorem perform_alike (h : s.Agrees t) (hbytes : s.SameBytes b t c) {d : Nat} {op : Opcode}
    (hfetch : s.fetch b (b.start + d) = .ok op) {f g : Frame} (hfg : f.Alike g)
    {r : Except Fault Control} {f' : Frame}
    (hperform : s.perform (.decode op s.program.code (b.start + d)) f = (r, f')) :
    t.fetch c (c.start + d) = .ok op ∧
      ∃ g', t.perform (.decode op t.program.code (c.start + d)) g = (r, g') ∧ f'.Alike g' := by
  refine ⟨(fetch_eq_of_sameBytes hbytes d).symm.trans hfetch, ?_⟩
  rw [← decode_eq_of_sameBytes hbytes hfetch, ← perform_eq_of_agrees h]
  obtain ⟨hfst, hsnd⟩ := (composed_perform s _).alike hfg
  rw [hperform] at hfst hsnd
  exact ⟨(s.perform _ g).2, Prod.ext hfst.symm rfl, hsnd⟩

/-! ## Runs -/

/-- The places are equally far from the starts of the bodies, and their frames are alike. -/
def Matches (b c : Body) (p q : Place) : Prop :=
  ∃ d, p.1 = b.start + d ∧ q.1 = c.start + d ∧ p.2.Alike q.2

variable {p q : Place}

/-- A step in one body is a step in the other. -/
theorem exists_step_of_matches (h : s.Agrees t) (hbytes : s.SameBytes b t c)
    (hpq : Matches b c p q) {p' : Place} (hstep : s.Step b p p') :
    ∃ q', t.Step c q q' ∧ Matches b c p' q' := by
  obtain ⟨a, f⟩ := p
  obtain ⟨a', g⟩ := q
  obtain ⟨d, hp, hq, hfg⟩ := hpq
  dsimp only at hp hq
  subst hp hq
  cases hstep with
  | @next _ _ _ op hfetch hperform =>
    obtain ⟨hfetch', g', hperform', hlike⟩ := perform_alike h hbytes hfetch hfg hperform
    exact ⟨_, .next hfetch' hperform', d + op.length, Nat.add_assoc .., Nat.add_assoc .., hlike⟩
  | @skip _ skipped _ _ op hfetch hperform =>
    obtain ⟨hfetch', g', hperform', hlike⟩ := perform_alike h hbytes hfetch hfg hperform
    refine ⟨_, .skip hfetch' hperform', d + op.length + skipped, ?_, ?_, hlike⟩
    · dsimp only
      omega
    · dsimp only
      omega

theorem exists_leads_of_matches (h : s.Agrees t) (hbytes : s.SameBytes b t c)
    (hpq : Matches b c p q) {p' : Place} (hleads : s.Leads b p p') :
    ∃ q', t.Leads c q q' ∧ Matches b c p' q' := by
  induction hleads with
  | refl => exact ⟨q, .refl, hpq⟩
  | tail _ hstep ih =>
    obtain ⟨q₁, hleads₁, hmatches₁⟩ := ih
    obtain ⟨q₂, hstep₂, hmatches₂⟩ := exists_step_of_matches h hbytes hmatches₁ hstep
    exact ⟨q₂, .tail hleads₁ hstep₂, hmatches₂⟩

/-- Where a run of one body ends, a run of the other ends in the same way. -/
theorem exists_ends_of_matches (h : s.Agrees t) (hbytes : s.SameBytes b t c)
    (hpq : Matches b c p q) {result : Except Failure Exit} {f' : Frame}
    (hends : s.Ends b p result f') :
    ∃ (r : Relative) (g' : Frame), result = r.at b.start ∧ t.Ends c q (r.at c.start) g' ∧
      f'.Alike g' := by
  obtain ⟨a, f⟩ := p
  obtain ⟨a', g⟩ := q
  obtain ⟨d, hp, hq, hfg⟩ := hpq
  dsimp only at hp hq
  subst hp hq
  cases hends with
  | @unfetched _ _ fault hfetch =>
    have hfetch' := (fetch_eq_of_sameBytes hbytes d).symm.trans hfetch
    exact ⟨.error (fault, d), g, rfl, .unfetched hfetch', hfg⟩
  | @fault _ _ _ op fault hfetch hperform =>
    obtain ⟨hfetch', g', hperform', hlike⟩ := perform_alike h hbytes hfetch hfg hperform
    exact ⟨.error (fault, d), g', rfl, .fault hfetch' hperform', hlike⟩
  | @exit _ _ _ op exit hfetch hperform =>
    obtain ⟨hfetch', g', hperform', hlike⟩ := perform_alike h hbytes hfetch hfg hperform
    exact ⟨.ok exit, g', rfl, .exit hfetch' hperform', hlike⟩

theorem runBody_eq_of_sameBytes (h : s.Agrees t) (hbytes : s.SameBytes b t c) {f g : Frame}
    (hregisters : f.registers = g.registers) (record record' : Bool)
    (events events' : Array Trace.Event) :
    ∃ r : Relative, (s.runBody record b f events).1 = r.at b.start ∧
      (t.runBody record' c g events').1 = r.at c.start ∧
      (s.runBody record b f events).2.1.registers =
        (t.runBody record' c g events').2.1.registers := by
  have hentry : Matches b c (entry b f) (entry c g) := ⟨0, rfl, rfl, hregisters, rfl⟩
  obtain ⟨p, hvisits, hends⟩ := s.exists_visits_ends record b f events
  obtain ⟨q, hvisits', hmatches⟩ := exists_leads_of_matches h hbytes hentry hvisits
  obtain ⟨r, g', hresult, hends', hlike⟩ := exists_ends_of_matches h hbytes hmatches hends
  obtain ⟨hresult', hframe⟩ := runBody_of_visits hvisits' hends' record' events'
  refine ⟨r, hresult, hresult', ?_⟩
  rw [hframe]
  exact hlike.registers

/-- Bodies of programs that hold the same bytes. -/
theorem sameBytes_of_extract_eq {sort sort' : BodySort} {index index' : Nat}
    (hb : s.program.body? sort index = some b) (hc : t.program.body? sort' index' = some c)
    (h : s.program.code.extract b.start b.stop = t.program.code.extract c.start c.stop) :
    s.SameBytes b t c := by
  have hb₂ := Program.stop_le_size hb
  have hc₂ := Program.stop_le_size hc
  have hsize := congrArg Array.size h
  rw [Array.size_extract, Array.size_extract, Nat.min_eq_left hb₂, Nat.min_eq_left hc₂] at hsize
  refine ⟨hsize, fun d hd => ?_⟩
  have hget : (s.program.code.extract b.start b.stop)[d]? =
      (t.program.code.extract c.start c.stop)[d]? := by rw [h]
  rw [Array.getElem?_extract_of_lt (by omega), Array.getElem?_extract_of_lt (by omega)] at hget
  rw [Array.getD_eq_getD_getElem?, Array.getD_eq_getD_getElem?,
    Array.getElem?_eq_getElem (by omega), Array.getElem?_eq_getElem (by omega), hget]

end Setting

namespace Machine

/-- A machine gives the result of the run of a body and keeps its registers. -/
theorem run_eq_runBody (setup : Setup) (body : Body) (m : Machine) :
    (m.run setup body).1 = ((m.setting setup).runBody (setup.mode == .instructions) body m.frame
        m.events).1 ∧
      (m.run setup body).2.frame.registers = ((m.setting setup).runBody
        (setup.mode == .instructions) body m.frame m.events).2.1.registers := by
  rw [run, fst_conclude, frame_conclude]
  exact ⟨rfl, rfl⟩

/-- Bodies that hold the same bytes run alike, wherever they start and whatever surrounds them: they
    return the same, or they fail in the same way at the same distance from their starts, and they
    leave the same registers. -/
theorem run_eq_of_extract_eq {setup setup' : Setup} {m m' : Machine} {sort sort' : BodySort}
    {index index' : Nat} {body body' : Body}
    (hbody : setup.program.body? sort index = some body)
    (hbody' : setup'.program.body? sort' index' = some body')
    (hbytes : setup.program.code.extract body.start body.stop =
      setup'.program.code.extract body'.start body'.stop)
    (hconstants : setup.program.parts.constants = setup'.program.parts.constants)
    (hfunctions : setup.program.parts.functions = setup'.program.parts.functions)
    (hhooks : setup.hooks = setup'.hooks) (hcontext : m.context = m'.context)
    (hregisters : m.frame.registers = m'.frame.registers) :
    ∃ r : Relative, (m.run setup body).1 = r.at body.start ∧
      (m'.run setup' body').1 = r.at body'.start ∧
      (m.run setup body).2.frame.registers = (m'.run setup' body').2.frame.registers := by
  have hagrees : (m.setting setup).Agrees (m'.setting setup') :=
    ⟨hconstants, hfunctions, hhooks, hcontext⟩
  have hsame : (m.setting setup).SameBytes body (m'.setting setup') body' :=
    Setting.sameBytes_of_extract_eq hbody hbody' hbytes
  obtain ⟨r, hresult, hresult', hleft⟩ := Setting.runBody_eq_of_sameBytes hagrees hsame hregisters
    (setup.mode == .instructions) (setup'.mode == .instructions) m.events m'.events
  obtain ⟨hrun, hkept⟩ := run_eq_runBody setup body m
  obtain ⟨hrun', hkept'⟩ := run_eq_runBody setup' body' m'
  refine ⟨r, ?_, ?_, ?_⟩
  · rw [hrun, hresult]
  · rw [hrun', hresult']
  · rw [hkept, hkept', hleft]

/-- A program whose only body pushes a register and ends without a return. -/
def alone : Program where
  parts := {
    code := #[0x03, 0x00]
    conditions := #[0]
    registers := #[{ name := "Region" }]
    diagram := { entries := #[], root := 1 } }
  starts := [0]
  starts_eq := by decide
  check_eq := by cbv

/-- The same body between two bodies that only return. -/
def surrounded : Program where
  parts := {
    code := #[0x28, 0x03, 0x00, 0x28]
    conditions := #[0, 1, 3]
    registers := #[{ name := "Region" }]
    diagram := { entries := #[], root := 1 } }
  starts := [0, 1, 3]
  starts_eq := by decide
  check_eq := by cbv

/-- A setup of a program without hooks, providers and trace. -/
def plainSetup (p : Program) : Setup :=
  { program := p, strategy := .word, hooks := [], providers := [], mode := .off }

/-- The return behind the second body makes no difference to it. -/
theorem run_alone_eq_surrounded :
    alone.body? .condition 0 = some ⟨.condition, 0, 0, 2⟩ ∧
    surrounded.body? .condition 1 = some ⟨.condition, 1, 1, 3⟩ ∧
    ∃ r : Relative,
      ((start (plainSetup alone) none).run (plainSetup alone) ⟨.condition, 0, 0, 2⟩).1 = r.at 0 ∧
      ((start (plainSetup surrounded) none).run (plainSetup surrounded)
        ⟨.condition, 1, 1, 3⟩).1 = r.at 1 ∧
      ((start (plainSetup alone) none).run (plainSetup alone)
        ⟨.condition, 0, 0, 2⟩).2.frame.registers =
        ((start (plainSetup surrounded) none).run (plainSetup surrounded)
          ⟨.condition, 1, 1, 3⟩).2.frame.registers := by
  have hbody : (plainSetup alone).program.body? .condition 0 = some ⟨.condition, 0, 0, 2⟩ := rfl
  have hbody' : (plainSetup surrounded).program.body? .condition 1 =
      some ⟨.condition, 1, 1, 3⟩ := rfl
  exact ⟨hbody, hbody', run_eq_of_extract_eq hbody hbody' (by decide) rfl rfl rfl rfl rfl⟩

end Machine

end EndpointRules
