import Mathlib.Data.List.Basic
import EndpointRules.Proofs.Machine.Control
import EndpointRules.Proofs.Machine.Faults
import EndpointRules.Proofs.Machine.Steps
import EndpointRules.Proofs.Program.Calls

/-!
# Calls in runs

The check of a program reads a body from its start, one instruction behind the other, up to the
first byte that is no opcode.  A run follows jumps, which may lead behind such a byte or between
the bytes of an instruction, to calls that the check has not seen.  The runs of a body keep to the
functions of the table and to their numbers of arguments exactly when these calls happen to do so;
they do for certain when every jump that the check has seen leads to an instruction that it has
seen.
-/

namespace EndpointRules

namespace Exec

variable {count : Nat} {f g : Frame}

theorem popMany_eq (count : Nat) (f : Frame) :
    popMany count f = if f.stack.items.length < count then (.error .stackUnderflow, f)
      else (.ok (f.stack.items.take count).reverse, { f with stack := f.stack.drop count }) := by
  have hlength : (f.stack.items.take count).length < count ↔ f.stack.items.length < count := by
    rw [List.length_take]
    omega
  simp only [popMany, hlength]

theorem le_length_of_popMany {items : List Value} (h : popMany count f = (.ok items, g)) :
    count ≤ f.stack.items.length := by
  rw [popMany_eq] at h
  split at h
  · cases h
  · next hlength => exact Nat.le_of_not_lt hlength

theorem length_of_popMany {items : List Value} (h : popMany count f = (.ok items, g)) :
    items.length = count := by
  have hle := le_length_of_popMany h
  rw [popMany_eq, if_neg (Nat.not_lt.2 hle)] at h
  cases h
  rw [List.length_reverse, List.length_take, Nat.min_eq_left hle]

theorem exists_popMany (h : count ≤ f.stack.items.length) :
    ∃ items g, popMany count f = (.ok items, g) :=
  ⟨_, _, by rw [popMany_eq, if_neg (Nat.not_lt.2 h)]⟩

end Exec

namespace Setting

/-- The instruction at a place calls a linked function and passes it some arguments. -/
inductive Calls (s : Setting) (body : Body) : Place → Function → List Value → Prop
  | intro {a : Nat} {f g : Frame} {op : Opcode} {arity : Option Nat} {index : Nat} {slot : Slot}
      {fn : Function} {arguments : List Value} (hfetch : s.fetch body a = .ok op)
      (hdecode : Instruction.decode op s.program.code a = .call arity index)
      (hslot : s.program.parts.functions[index]? = some slot) (hlinked : slot.function = some fn)
      (hpop : Exec.popMany (arity.getD fn.arity) f = (.ok arguments, g)) :
      Calls s body (a, f) fn arguments

/-- The run of a body from a frame keeps to the table of functions: it does not end at a call whose
    function the table does not have, and every function that it calls is passed as many arguments
    as the function takes. -/
structure CallsLinked (s : Setting) (body : Body) (f : Frame) : Prop where
  found : ∀ (record : Bool) (events : Array Trace.Event) (index : Nat) (address : Option Nat),
    (s.runBody record body f events).1 ≠ .error ⟨.functionIndex index, address⟩
  fitting : ∀ (p : Place) (fn : Function) (arguments : List Value),
    s.Visits body f p → s.Calls body p fn arguments → arguments.length = fn.arity

/-- A call at a place has its function in the table, and a linked function for which the stack has
    enough arguments gets as many as it takes. -/
def LinkedAt (s : Setting) (body : Body) (p : Place) : Prop :=
  ∀ op arity index, s.fetch body p.1 = .ok op →
    Instruction.decode op s.program.code p.1 = .call arity index →
    ∃ slot, s.program.parts.functions[index]? = some slot ∧
      ∀ fn, slot.function = some fn → arity.getD fn.arity ≤ p.2.stack.items.length →
        arity.getD fn.arity = fn.arity

variable {s : Setting} {sort : BodySort} {index : Nat} {body : Body} {f : Frame} {p : Place}

/-! ## Calls that the check has seen -/

/-- What stands where an instruction can be fetched. -/
theorem opcode?_of_fetch (hbody : s.program.body? sort index = some body) {a : Nat} {op : Opcode}
    (h : s.fetch body a = .ok op) :
    (Cursor.mk s.program.code a).opcode? = some op ∧ a + op.length ≤ body.stop := by
  have hsize := Program.stop_le_size hbody
  have hlt := lt_of_fetch h
  obtain ⟨hop, hstop⟩ := fetch_eq_ok_iff.1 h
  exact ⟨(Cursor.opcode?_of_lt (Nat.lt_of_lt_of_le hlt hsize)).trans hop, hstop⟩

theorem linkedAt_of_reads (hbody : s.program.body? sort index = some body)
    (h : s.program.Reads body p.1) : s.LinkedAt body p := by
  intro op arity i hfetch hdecode
  obtain ⟨hop, hstop⟩ := opcode?_of_fetch hbody hfetch
  obtain ⟨hcall, rfl, rfl⟩ := Instruction.isCall_of_decode hdecode
  obtain ⟨slot, hslot, hfits⟩ := Program.links_of_reads hbody h hop hcall hstop
  exact ⟨slot, hslot, fun fn hfn _ => hfits fn hfn⟩

/-! ## Runs that keep to the table -/

/-- A run ends for want of a function only at a call that is not linked. -/
theorem not_functionIndex_of_ends {r : Except Failure Exit} {g : Frame}
    (hlinked : s.LinkedAt body p) (hends : s.Ends body p r g) (i : Nat) (address : Option Nat) :
    r ≠ .error ⟨.functionIndex i, address⟩ := by
  rintro rfl
  cases hends with
  | @unfetched a f _ hfetch =>
    unfold fetch at hfetch
    split at hfetch
    · cases hfetch
    · dsimp only at hfetch
      split at hfetch
      · cases hfetch
      · split at hfetch <;> cases hfetch
  | @fault a f _ op _ hfetch hperform =>
    obtain ⟨arity, hdecode, hnone⟩ :=
      ((s.composed_perform _).raises_of_eq_error hperform).exists_call
    obtain ⟨slot, hslot, -⟩ := hlinked op arity i hfetch hdecode
    rw [hnone] at hslot
    cases hslot

theorem length_of_calls {fn : Function} {arguments : List Value} (hlinked : s.LinkedAt body p)
    (hcalls : s.Calls body p fn arguments) : arguments.length = fn.arity := by
  obtain ⟨hfetch, hdecode, hslot, hfn, hpop⟩ := hcalls
  obtain ⟨slot', hslot', hfits⟩ := hlinked _ _ _ hfetch hdecode
  obtain rfl := Option.some.inj (hslot.symm.trans hslot')
  rw [Exec.length_of_popMany hpop]
  exact hfits _ hfn (Exec.le_length_of_popMany hpop)

theorem callsLinked_of_linkedAt (h : ∀ p, s.Visits body f p → s.LinkedAt body p) :
    s.CallsLinked body f where
  found record events i address := by
    obtain ⟨p, hvisits, hends⟩ := s.exists_visits_ends record body f events
    exact not_functionIndex_of_ends (h p hvisits) hends i address
  fitting p fn arguments hvisits hcalls := length_of_calls (h p hvisits) hcalls

/-- A run that keeps to the table comes by linked calls only. -/
theorem linkedAt_of_callsLinked (h : s.CallsLinked body f) (hvisits : s.Visits body f p) :
    s.LinkedAt body p := by
  intro op arity i hfetch hdecode
  obtain ⟨a, g⟩ := p
  cases hslot : s.program.parts.functions[i]? with
  | none =>
    have hperform : s.perform (.decode op s.program.code a) g = (.error (.functionIndex i), g) := by
      rw [hdecode, perform, Exec.bind_apply, callFunction, hslot]
      rfl
    have hends := runBody_of_visits hvisits (.fault hfetch hperform) false #[]
    exact absurd hends.1 (h.found false #[] i (some a))
  | some slot =>
    refine ⟨slot, rfl, fun fn hfn henough => ?_⟩
    obtain ⟨arguments, g', hpop⟩ := Exec.exists_popMany henough
    rw [← Exec.length_of_popMany hpop]
    exact h.fitting _ fn arguments hvisits (.intro hfetch hdecode hslot hfn hpop)

/-! ## Jumps to instructions that the check has seen -/

/-- What an instruction that a run completes does to the reading: the run goes on where the reading
    finds an instruction, or behind the end of the body. -/
theorem reads_of_step {q : Place} (hbody : s.program.body? sort index = some body)
    (hland : s.program.JumpsLand body) (h : s.program.Reads body p.1) (hstep : s.Step body p q) :
    s.program.Reads body q.1 ∨ body.stop ≤ q.1 := by
  cases hstep with
  | next hfetch _ => exact Program.reads_next_or_le h (opcode?_of_fetch hbody hfetch).1
  | @skip a distance f g op hfetch hperform =>
    obtain ⟨hop, hstop⟩ := opcode?_of_fetch hbody hfetch
    have hsize := Program.stop_le_size hbody
    have hjump := eq_jump_of_skip hperform
    obtain rfl : op = .jumpIfSetOrPop := by cases op <;> first | rfl | cases hjump
    have hlength : Opcode.jumpIfSetOrPop.length = 3 := rfl
    refine hland a _ h ?_
    rw [Cursor.jumpTarget_of_jump hop (by dsimp only; omega)]
    cases hjump
    rfl

theorem reads_of_visits (hbody : s.program.body? sort index = some body)
    (hland : s.program.JumpsLand body) (hvisits : s.Visits body f p) :
    s.program.Reads body p.1 ∨ body.stop ≤ p.1 := by
  induction hvisits with
  | refl => exact (Nat.lt_or_ge body.start body.stop).imp .start id
  | @tail q r _ hstep ih =>
    rcases ih with hreads | hstop
    · exact reads_of_step hbody hland hreads hstep
    · have hlt : q.1 < body.stop := by
        cases hstep with
        | next hfetch _ => exact lt_of_fetch hfetch
        | skip hfetch _ => exact lt_of_fetch hfetch
      exact absurd hlt (Nat.not_lt.2 hstop)

theorem linkedAt_of_stop_le (h : body.stop ≤ p.1) : s.LinkedAt body p := by
  intro op arity i hfetch _
  exact absurd (lt_of_fetch hfetch) (Nat.not_lt.2 h)

/-- When the runs of a body keep to the table of functions: a run does exactly when every call that
    it comes by is linked, apart from those that the check has seen.  All runs of a body do whose
    jumps lead to instructions that the check has seen. -/
theorem callsLinked_iff (hbody : s.program.body? sort index = some body) :
    (∀ f, s.CallsLinked body f ↔
      ∀ p, s.Visits body f p → ¬ s.program.Reads body p.1 → s.LinkedAt body p) ∧
      (s.program.JumpsLand body → ∀ f, s.CallsLinked body f) := by
  constructor
  · intro f
    constructor
    · intro h p hvisits _
      exact linkedAt_of_callsLinked h hvisits
    · intro h
      refine callsLinked_of_linkedAt fun p hvisits => ?_
      by_cases hreads : s.program.Reads body p.1
      · exact linkedAt_of_reads hbody hreads
      · exact h p hvisits hreads
  · intro hland f
    refine callsLinked_of_linkedAt fun p hvisits => ?_
    rcases reads_of_visits hbody hland hvisits with hreads | hstop
    · exact linkedAt_of_reads hbody hreads
    · exact linkedAt_of_stop_le hstop

/-! ## Bodies whose jumps land, and bodies whose jumps do not -/

/-- A function of some arguments that lists them. -/
def lister (arity : Nat) : Function where
  name := "list"
  arity
  apply := fun arguments => .ok (.list arguments)

/-- A body that pushes `true` and jumps over a call to its return. -/
def landedCall : Program where
  parts := {
    code := #[0x00, 0x00, 0x2A, 0x00, 0x02, 0x13, 0x00, 0x28]
    conditions := #[0]
    constants := #[.boolean true]
    functions := #[{ name := "list", function := some (lister 0) }]
    diagram := { entries := #[], root := 1 } }
  starts := [0]
  starts_eq := by decide
  check_eq := by cbv

theorem jumpsLand_landedCall : landedCall.JumpsLand ⟨.condition, 0, 0, 8⟩ := by
  have hreads : ∀ a, landedCall.Reads ⟨.condition, 0, 0, 8⟩ a → a = 0 ∨ a = 2 ∨ a = 5 ∨ a = 7 := by
    intro a h
    induction h with
    | start => exact .inl rfl
    | next _ hop hstop ih =>
      rcases ih with rfl | rfl | rfl | rfl <;> cases hop <;> revert hstop <;> decide
  have hzero : landedCall.Reads ⟨.condition, 0, 0, 8⟩ 0 := .start (by decide)
  have htwo : landedCall.Reads ⟨.condition, 0, 0, 8⟩ 2 :=
    .next hzero (rfl : (Cursor.mk landedCall.code 0).opcode? = some .loadConst) (by decide)
  have hfive : landedCall.Reads ⟨.condition, 0, 0, 8⟩ 5 :=
    .next htwo (rfl : (Cursor.mk landedCall.code 2).opcode? = some .jumpIfSetOrPop) (by decide)
  have hseven : landedCall.Reads ⟨.condition, 0, 0, 8⟩ 7 :=
    .next hfive (rfl : (Cursor.mk landedCall.code 5).opcode? = some .call0) (by decide)
  intro a target h htarget
  rcases hreads a h with rfl | rfl | rfl | rfl <;> cases htarget
  exact .inl hseven

/-- Whatever the registers are, the run of a body whose jumps land keeps to the table. -/
theorem callsLinked_landedCall :
    landedCall.body? .condition 0 = some ⟨.condition, 0, 0, 8⟩ ∧
      ∀ hooks context f,
        ({ program := landedCall, hooks, context } : Setting).CallsLinked
          ⟨.condition, 0, 0, 8⟩ f :=
  ⟨rfl, fun hooks context =>
    have hbody : landedCall.body? .condition 0 = some ⟨.condition, 0, 0, 8⟩ := rfl
    (callsLinked_iff (s := { program := landedCall, hooks, context }) hbody).2
      jumpsLand_landedCall⟩

/-- Two bodies that push `true`, jump over a byte that is no opcode, and make a call: the first of a
    function that the table does not have, the second of a function of two arguments with one. -/
def strayCalls : Program where
  parts := {
    code := #[0x00, 0x00, 0x2A, 0x00, 0x01, 0xFF, 0x13, 0xC8, 0x28,
      0x00, 0x00, 0x2A, 0x00, 0x01, 0xFF, 0x14, 0x00, 0x28]
    conditions := #[0, 9]
    constants := #[.boolean true]
    functions := #[{ name := "list", function := some (lister 2) }]
    diagram := { entries := #[], root := 1 } }
  starts := [0, 9]
  starts_eq := by decide
  check_eq := by cbv

/-- The setting of the runs of `strayCalls`. -/
def stray : Setting := { program := strayCalls, hooks := [], context := [] }

/-- The runs of `strayCalls` do not keep to the table, though it has passed the check. -/
theorem not_callsLinked_strayCalls :
    (strayCalls.body? .condition 0 = some ⟨.condition, 0, 0, 9⟩ ∧
      (stray.runBody false ⟨.condition, 0, 0, 9⟩ { registers := #[] } #[]).1 =
        .error ⟨.functionIndex 200, some 6⟩) ∧
    strayCalls.body? .condition 1 = some ⟨.condition, 1, 9, 18⟩ ∧
      ∃ p arguments, stray.Visits ⟨.condition, 1, 9, 18⟩ { registers := #[] } p ∧
        stray.Calls ⟨.condition, 1, 9, 18⟩ p (lister 2) arguments ∧
        arguments.length ≠ (lister 2).arity := by
  refine ⟨⟨rfl, by cbv⟩, rfl, ?_⟩
  -- the frame behind the first instruction, which the jump leaves as it is
  let pushed : Frame := { registers := #[], stack := ⟨[.boolean true], 15⟩ }
  have hfirst : stray.fetch ⟨.condition, 1, 9, 18⟩ 9 = .ok .loadConst := rfl
  have hpush : stray.Step ⟨.condition, 1, 9, 18⟩ (9, { registers := #[] }) (11, pushed) :=
    .next hfirst rfl
  have hsecond : stray.fetch ⟨.condition, 1, 9, 18⟩ 11 = .ok .jumpIfSetOrPop := rfl
  have hjump : stray.Step ⟨.condition, 1, 9, 18⟩ (11, pushed) (15, pushed) :=
    .skip hsecond (d := 1) rfl
  have hcall : stray.fetch ⟨.condition, 1, 9, 18⟩ 15 = .ok .call1 := rfl
  have hdecode : Instruction.decode .call1 stray.program.code 15 = .call (some 1) 0 := rfl
  exact ⟨(15, pushed), [.boolean true], .tail (.tail .refl hpush) hjump,
    .intro hcall hdecode rfl rfl (g := { registers := #[] }) rfl, by decide⟩

end Setting

end EndpointRules
