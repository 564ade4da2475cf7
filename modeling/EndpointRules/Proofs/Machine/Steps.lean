import EndpointRules.Machine.Run
import Mathlib.Logic.Relation

/-!
# Steps of a run

A run of a body as a sequence of steps.  A place in a run is the address of the next instruction and
the frame that the instruction will find.  A run goes from place to place until it ends, and it ends
where the last place leads.
-/

namespace EndpointRules

namespace Setting

/-- The address of the next instruction of a body, and the frame before it. -/
abbrev Place := Nat × Frame

/-- The instruction at the first place completes and leads to the second. -/
inductive Step (s : Setting) (body : Body) : Place → Place → Prop
  | next {a : Nat} {f g : Frame} {op : Opcode} (hfetch : s.fetch body a = .ok op)
      (hperform : s.perform (.decode op s.program.code a) f = (.ok .next, g)) :
      Step s body (a, f) (a + op.length, g)
  | skip {a d : Nat} {f g : Frame} {op : Opcode} (hfetch : s.fetch body a = .ok op)
      (hperform : s.perform (.decode op s.program.code a) f = (.ok (.skip d), g)) :
      Step s body (a, f) (a + op.length + d, g)

/-- The run ends at a place with a result, leaving a frame. -/
inductive Ends (s : Setting) (body : Body) : Place → Except Failure Exit → Frame → Prop
  | unfetched {a : Nat} {f : Frame} {fault : Fault} (hfetch : s.fetch body a = .error fault) :
      Ends s body (a, f) (.error ⟨fault, some a⟩) f
  | fault {a : Nat} {f g : Frame} {op : Opcode} {fault : Fault}
      (hfetch : s.fetch body a = .ok op)
      (hperform : s.perform (.decode op s.program.code a) f = (.error fault, g)) :
      Ends s body (a, f) (.error ⟨fault, some a⟩) g
  | exit {a : Nat} {f g : Frame} {op : Opcode} {exit : Exit} (hfetch : s.fetch body a = .ok op)
      (hperform : s.perform (.decode op s.program.code a) f = (.ok (.exit exit), g)) :
      Ends s body (a, f) (.ok exit) g

/-- The steps of a body lead from the first place to the second. -/
abbrev Leads (s : Setting) (body : Body) : Place → Place → Prop :=
  Relation.ReflTransGen (s.Step body)

/-- The place at which a run of a body from a frame starts. -/
def entry (body : Body) (f : Frame) : Place := (body.start, { f with stack := f.stack.clear })

/-- A run of a body from a frame comes by a place. -/
def Visits (s : Setting) (body : Body) (f : Frame) (p : Place) : Prop :=
  s.Leads body (entry body f) p

variable {s : Setting} {body : Body} {p q : Place} {f g : Frame}

/-- An instruction is fetched where its opcode stands and all its operands lie in the body. -/
theorem fetch_eq_ok_iff {a : Nat} {op : Opcode} :
    s.fetch body a = .ok op ↔
      Opcode.ofByte? (s.program.code.getD a 0) = some op ∧ a + op.length ≤ body.stop := by
  have hpos := op.length_pos
  unfold fetch
  by_cases hstop : body.stop ≤ a
  · rw [if_pos hstop]
    exact ⟨nofun, fun h => by omega⟩
  · rw [if_neg hstop]
    dsimp only
    cases Opcode.ofByte? (s.program.code.getD a 0) with
    | none => simp
    | some op' =>
      by_cases hcut : body.stop < a + op'.length
      · simp only [hcut, if_true, Option.some.injEq]
        constructor
        · exact nofun
        · rintro ⟨rfl, h⟩
          omega
      · simp only [hcut, if_false, Except.ok.injEq, Option.some.injEq]
        constructor
        · rintro rfl
          exact ⟨rfl, by omega⟩
        · exact fun h => h.1

/-- Every run comes to a place where it ends. -/
theorem exists_ends (s : Setting) (record : Bool) (body : Body) (a : Nat) (f : Frame)
    (events : Array Trace.Event) :
    ∃ p, s.Leads body (a, f) p ∧ s.Ends body p (s.runFrom record body a f events).1
      (s.runFrom record body a f events).2.1 := by
  fun_induction runFrom s record body a f events with
  | case1 a f events fault hfetch => exact ⟨(a, f), .refl, .unfetched hfetch⟩
  | case2 a f events op hfetch events' fault g hperform =>
    exact ⟨(a, f), .refl, .fault hfetch hperform⟩
  | case3 a f events op hfetch events' g hperform ih =>
    obtain ⟨p, hleads, hends⟩ := ih
    exact ⟨p, .head (.next hfetch hperform) hleads, hends⟩
  | case4 a f events op hfetch events' distance g hperform ih =>
    obtain ⟨p, hleads, hends⟩ := ih
    exact ⟨p, .head (.skip hfetch hperform) hleads, hends⟩
  | case5 a f events op hfetch events' exit g hperform =>
    exact ⟨(a, f), .refl, .exit hfetch hperform⟩

/-- Every step leads to a higher address. -/
theorem Step.lt (h : s.Step body p q) : p.1 < q.1 := by
  cases h with
  | @next _ _ _ op _ _ =>
    have := op.length_pos
    dsimp only
    omega
  | @skip _ _ _ _ op _ _ =>
    have := op.length_pos
    dsimp only
    omega

/-- A step is the completion of an instruction. -/
theorem Step.exists_perform (h : s.Step body p q) :
    ∃ op control, s.fetch body p.1 = .ok op ∧
      s.perform (.decode op s.program.code p.1) p.2 = (.ok control, q.2) := by
  cases h with
  | next hfetch hperform => exact ⟨_, _, hfetch, hperform⟩
  | skip hfetch hperform => exact ⟨_, _, hfetch, hperform⟩

/-- A run from an address where an instruction stands carries out that instruction. -/
theorem runFrom_eq_of_fetch {a : Nat} {op : Opcode} (hfetch : s.fetch body a = .ok op)
    (record : Bool) (events : Array Trace.Event) :
    s.runFrom record body a f events =
      let events' := if record then events.push (.step body.sort body.index a) else events
      match s.perform (.decode op s.program.code a) f with
      | (.error fault, g) => (.error ⟨fault, some a⟩, g, events')
      | (.ok .next, g) => s.runFrom record body (a + op.length) g events'
      | (.ok (.skip distance), g) => s.runFrom record body (a + op.length + distance) g events'
      | (.ok (.exit exit), g) => (.ok exit, g, events') := by
  rw [runFrom]
  split
  · next fault hfault =>
    rw [hfetch] at hfault
    cases hfault
  · next op' hfetch' =>
    obtain rfl : op = op' := Except.ok.inj (hfetch.symm.trans hfetch')
    rfl

theorem runFrom_of_fetch {a : Nat} {op : Opcode} (hfetch : s.fetch body a = .ok op) (record : Bool)
    (events : Array Trace.Event) :
    ∃ events', s.runFrom record body a f events =
      match s.perform (.decode op s.program.code a) f with
      | (.error fault, g) => (.error ⟨fault, some a⟩, g, events')
      | (.ok .next, g) => s.runFrom record body (a + op.length) g events'
      | (.ok (.skip distance), g) => s.runFrom record body (a + op.length + distance) g events'
      | (.ok (.exit exit), g) => (.ok exit, g, events') :=
  ⟨_, runFrom_eq_of_fetch hfetch record events⟩

theorem runFrom_of_unfetched {a : Nat} {fault : Fault} (hfetch : s.fetch body a = .error fault)
    (record : Bool) (events : Array Trace.Event) :
    s.runFrom record body a f events = (.error ⟨fault, some a⟩, f, events) := by
  rw [runFrom]
  split
  · next fault' hfetch' =>
    obtain rfl : fault = fault' := Except.error.inj (hfetch.symm.trans hfetch')
    rfl
  · next op hop =>
    rw [hfetch] at hop
    cases hop

/-- A run goes on from a place as it would from the next one. -/
theorem runFrom_of_step (h : s.Step body p q) (record : Bool) (events : Array Trace.Event) :
    ∃ events', s.runFrom record body p.1 p.2 events = s.runFrom record body q.1 q.2 events' := by
  cases h with
  | next hfetch hperform =>
    obtain ⟨events', heq⟩ := runFrom_of_fetch hfetch record events
    rw [hperform] at heq
    exact ⟨events', heq⟩
  | skip hfetch hperform =>
    obtain ⟨events', heq⟩ := runFrom_of_fetch hfetch record events
    rw [hperform] at heq
    exact ⟨events', heq⟩

theorem runFrom_of_leads (h : s.Leads body p q) (record : Bool) (events : Array Trace.Event) :
    ∃ events', s.runFrom record body p.1 p.2 events = s.runFrom record body q.1 q.2 events' := by
  induction h with
  | refl => exact ⟨events, rfl⟩
  | tail _ hstep ih =>
    obtain ⟨events₁, h₁⟩ := ih
    obtain ⟨events₂, h₂⟩ := runFrom_of_step hstep record events₁
    exact ⟨events₂, h₁.trans h₂⟩

theorem runFrom_of_ends {r : Except Failure Exit} (h : s.Ends body p r g) (record : Bool)
    (events : Array Trace.Event) :
    (s.runFrom record body p.1 p.2 events).1 = r ∧
      (s.runFrom record body p.1 p.2 events).2.1 = g := by
  cases h with
  | unfetched hfetch =>
    rw [runFrom_of_unfetched hfetch record events]
    exact ⟨rfl, rfl⟩
  | fault hfetch hperform =>
    obtain ⟨events', heq⟩ := runFrom_of_fetch hfetch record events
    rw [hperform] at heq
    rw [heq]
    exact ⟨rfl, rfl⟩
  | exit hfetch hperform =>
    obtain ⟨events', heq⟩ := runFrom_of_fetch hfetch record events
    rw [hperform] at heq
    rw [heq]
    exact ⟨rfl, rfl⟩

/-- A run that comes by a place where runs end has that place's end. -/
theorem runBody_of_visits {r : Except Failure Exit} (h : s.Visits body f p)
    (hends : s.Ends body p r g) (record : Bool) (events : Array Trace.Event) :
    (s.runBody record body f events).1 = r ∧ (s.runBody record body f events).2.1 = g := by
  obtain ⟨events', heq⟩ := runFrom_of_leads h record events
  have := runFrom_of_ends hends record events'
  rw [← heq] at this
  exact this

theorem exists_visits_ends (s : Setting) (record : Bool) (body : Body) (f : Frame)
    (events : Array Trace.Event) :
    ∃ p, s.Visits body f p ∧ s.Ends body p (s.runBody record body f events).1
      (s.runBody record body f events).2.1 :=
  exists_ends s record body _ _ events

end Setting

end EndpointRules
