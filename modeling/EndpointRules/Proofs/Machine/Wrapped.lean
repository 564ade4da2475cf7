import EndpointRules.Machine.Wrapped
import EndpointRules.Proofs.Machine.Control
import EndpointRules.Proofs.Machine.Relocation

/-!
# Steps of a run on addresses of 32 bits

A run on addresses of 32 bits goes from place to place as that of the machine does, but the address
behind an instruction and the one that a jump leads to may be lower ones.  Where a body ends so far
below the last address that no jump leads behind that, the run is the run of the machine, and so it
ends.
-/

namespace EndpointRules

/-- The body is not empty, and no jump of it leads behind the last address. -/
structure Body.Clear (body : Body) : Prop where
  start_lt : body.start < body.stop
  stop_add_lt : body.stop + 0xFFFF < 0x100000000

theorem Opcode.length_le_four (op : Opcode) : op.length ≤ 4 := by cases op <;> decide

/-- An instruction that ends where there are addresses is made of its own bytes. -/
theorem Instruction.decodeWrapped_eq {op : Opcode} {code : Array UInt8} {a : Nat}
    (h : a + op.length ≤ 0x100000000) : decodeWrapped op code a = decode op code a := by
  refine ofBytes_congr fun place hplace => ?_
  rw [address_of_lt (by omega)]

namespace Setting

variable {s : Setting} {body : Body} {a : Nat} {op : Opcode} {p q : Place} {f g : Frame}

theorem fetchWrapped_eq_ok_iff :
    s.fetchWrapped body a = .ok op ↔
      a < body.stop ∧ Opcode.ofByte? (s.program.code.getD a 0) = some op ∧
        address (a + op.length) ≤ body.stop := by
  unfold fetchWrapped
  by_cases hstop : body.stop ≤ a
  · rw [if_pos hstop]
    exact ⟨nofun, fun h => absurd hstop (Nat.not_le.2 h.1)⟩
  · rw [if_neg hstop]
    dsimp only
    cases Opcode.ofByte? (s.program.code.getD a 0) with
    | none => simp
    | some op' =>
      by_cases hcut : body.stop < address (a + op'.length)
      · simp only [hcut, if_true, Option.some.injEq]
        constructor
        · exact nofun
        · rintro ⟨-, rfl, h⟩
          exact absurd hcut (Nat.not_lt.2 h)
      · simp only [hcut, if_false, Except.ok.injEq, Option.some.injEq]
        constructor
        · rintro rfl
          exact ⟨Nat.lt_of_not_le hstop, rfl, Nat.le_of_not_lt hcut⟩
        · exact fun h => h.2.1

/-- Below the last addresses the same instructions are found. -/
theorem fetchWrapped_eq (hstop : body.stop + 3 < 0x100000000) (s : Setting) (a : Nat) :
    s.fetchWrapped body a = s.fetch body a := by
  unfold fetchWrapped fetch
  by_cases hlt : body.stop ≤ a
  · rw [if_pos hlt, if_pos hlt]
  · rw [if_neg hlt, if_neg hlt]
    dsimp only
    cases Opcode.ofByte? (s.program.code.getD a 0) with
    | none => rfl
    | some op =>
      have hlength := op.length_le_four
      simp only [address_of_lt (by omega : a + op.length < 0x100000000)]

/-- A run from an address where an instruction is found carries out that instruction. -/
theorem runFromWrapped_of_fetch (hfetch : s.fetchWrapped body a = .ok op) (record : Bool)
    (limit : Nat) (f : Frame) (events : Array Trace.Event) :
    s.runFromWrapped record body (limit + 1) a f events =
      let events' := if record then events.push (.step body.sort body.index a) else events
      match s.perform (.decodeWrapped op s.program.code a) f with
      | (.error fault, g) => some (.error ⟨fault, some a⟩, g, events')
      | (.ok .next, g) => s.runFromWrapped record body limit (address (a + op.length)) g events'
      | (.ok (.skip distance), g) =>
        s.runFromWrapped record body limit (address (a + op.length + distance)) g events'
      | (.ok (.exit exit), g) => some (.ok exit, g, events') := by
  rewrite [runFromWrapped, hfetch]
  rfl

theorem runFromWrapped_of_unfetched {fault : Fault} (hfetch : s.fetchWrapped body a = .error fault)
    (record : Bool) (limit : Nat) (f : Frame) (events : Array Trace.Event) :
    s.runFromWrapped record body (limit + 1) a f events =
      some (.error ⟨fault, some a⟩, f, events) := by
  rw [runFromWrapped, hfetch]

/-! ## Steps -/

/-- The instruction at the first place completes and leads to the second. -/
inductive StepWrapped (s : Setting) (body : Body) : Place → Place → Prop
  | next {a : Nat} {f g : Frame} {op : Opcode} (hfetch : s.fetchWrapped body a = .ok op)
      (hperform : s.perform (.decodeWrapped op s.program.code a) f = (.ok .next, g)) :
      StepWrapped s body (a, f) (address (a + op.length), g)
  | skip {a d : Nat} {f g : Frame} {op : Opcode} (hfetch : s.fetchWrapped body a = .ok op)
      (hperform : s.perform (.decodeWrapped op s.program.code a) f = (.ok (.skip d), g)) :
      StepWrapped s body (a, f) (address (a + op.length + d), g)

/-- The run ends at a place with a result, leaving a frame. -/
inductive EndsWrapped (s : Setting) (body : Body) : Place → Except Failure Exit → Frame → Prop
  | unfetched {a : Nat} {f : Frame} {fault : Fault}
      (hfetch : s.fetchWrapped body a = .error fault) :
      EndsWrapped s body (a, f) (.error ⟨fault, some a⟩) f
  | fault {a : Nat} {f g : Frame} {op : Opcode} {fault : Fault}
      (hfetch : s.fetchWrapped body a = .ok op)
      (hperform : s.perform (.decodeWrapped op s.program.code a) f = (.error fault, g)) :
      EndsWrapped s body (a, f) (.error ⟨fault, some a⟩) g
  | exit {a : Nat} {f g : Frame} {op : Opcode} {exit : Exit}
      (hfetch : s.fetchWrapped body a = .ok op)
      (hperform : s.perform (.decodeWrapped op s.program.code a) f = (.ok (.exit exit), g)) :
      EndsWrapped s body (a, f) (.ok exit) g

/-- The steps of a body lead from the first place to the second. -/
abbrev LeadsWrapped (s : Setting) (body : Body) : Place → Place → Prop :=
  Relation.ReflTransGen (s.StepWrapped body)

/-- A run of a body from a frame comes by a place. -/
def VisitsWrapped (s : Setting) (body : Body) (f : Frame) (p : Place) : Prop :=
  s.LeadsWrapped body (entry body f) p

/-- A run goes on from a place as it would from the next one. -/
theorem runFromWrapped_of_step (h : s.StepWrapped body p q) (record : Bool)
    (limit : Nat) (events : Array Trace.Event) :
    ∃ events', s.runFromWrapped record body (limit + 1) p.1 p.2 events =
      s.runFromWrapped record body limit q.1 q.2 events' := by
  cases h with
  | next hfetch hperform =>
    rw [runFromWrapped_of_fetch hfetch, hperform]
    exact ⟨_, rfl⟩
  | skip hfetch hperform =>
    rw [runFromWrapped_of_fetch hfetch, hperform]
    exact ⟨_, rfl⟩

theorem runFromWrapped_of_ends {r : Except Failure Exit} (h : s.EndsWrapped body p r g)
    (record : Bool) (limit : Nat) (events : Array Trace.Event) :
    ∃ events', s.runFromWrapped record body (limit + 1) p.1 p.2 events = some (r, g, events') := by
  cases h with
  | unfetched hfetch => exact ⟨events, runFromWrapped_of_unfetched hfetch record limit g events⟩
  | fault hfetch hperform =>
    rw [runFromWrapped_of_fetch hfetch, hperform]
    exact ⟨_, rfl⟩
  | exit hfetch hperform =>
    rw [runFromWrapped_of_fetch hfetch, hperform]
    exact ⟨_, rfl⟩

/-- A run that ends within its limit comes to a place where it ends. -/
theorem exists_endsWrapped {record : Bool} {limit : Nat} {r : Except Failure Exit}
    {events events' : Array Trace.Event}
    (hrun : s.runFromWrapped record body limit a f events = some (r, g, events')) :
    ∃ p, s.LeadsWrapped body (a, f) p ∧ s.EndsWrapped body p r g := by
  induction limit generalizing a f events with
  | zero => cases hrun
  | succ limit ih =>
    cases hfetch : s.fetchWrapped body a with
    | error fault =>
      rw [runFromWrapped_of_unfetched hfetch] at hrun
      cases hrun
      exact ⟨_, .refl, .unfetched hfetch⟩
    | ok op =>
      rw [runFromWrapped_of_fetch hfetch] at hrun
      rcases hperform : s.perform (.decodeWrapped op s.program.code a) f with
        ⟨fault | _ | distance | exit, f'⟩
      · rw [hperform] at hrun
        cases hrun
        exact ⟨_, .refl, .fault hfetch hperform⟩
      · rw [hperform] at hrun
        obtain ⟨p, hleads, hends⟩ := ih hrun
        exact ⟨p, .head (.next hfetch hperform) hleads, hends⟩
      · rw [hperform] at hrun
        obtain ⟨p, hleads, hends⟩ := ih hrun
        exact ⟨p, .head (.skip hfetch hperform) hleads, hends⟩
      · rw [hperform] at hrun
        cases hrun
        exact ⟨_, .refl, .exit hfetch hperform⟩

/-- A run that comes by a place where runs end has that place's end. -/
theorem eq_of_leadsWrapped {record : Bool} {limit : Nat} {r r' : Except Failure Exit}
    {f' : Frame} {events events' : Array Trace.Event} (h : s.LeadsWrapped body p q)
    (hends : s.EndsWrapped body q r g)
    (hrun : s.runFromWrapped record body limit p.1 p.2 events = some (r', f', events')) :
    r' = r := by
  induction h using Relation.ReflTransGen.head_induction_on generalizing limit events with
  | refl =>
    cases limit with
    | zero => cases hrun
    | succ limit =>
      obtain ⟨events₁, hlast⟩ := runFromWrapped_of_ends hends record limit events
      cases hrun.symm.trans hlast
      rfl
  | head hstep _ ih =>
    cases limit with
    | zero => cases hrun
    | succ limit =>
      obtain ⟨events₁, hnext⟩ := runFromWrapped_of_step hstep record limit events
      exact ih (hnext.symm.trans hrun)

/-- A step leads to the end of the body at most, or to where a jump can skip from there. -/
theorem StepWrapped.le_stop_add (h : s.StepWrapped body p q) : q.1 ≤ body.stop + 0xFFFF := by
  cases h with
  | next hfetch _ => exact Nat.le_add_right_of_le (fetchWrapped_eq_ok_iff.1 hfetch).2.2
  | skip hfetch hperform =>
    have hinside := (fetchWrapped_eq_ok_iff.1 hfetch).2.2
    have hdistance := distance_le_of_skip hperform
    exact Nat.le_trans (address_add_le ..) (Nat.add_le_add hinside hdistance)

theorem le_stop_add_of_visitsWrapped (hbody : body.start ≤ body.stop + 0xFFFF)
    (h : s.VisitsWrapped body f p) : p.1 ≤ body.stop + 0xFFFF := by
  rcases Relation.ReflTransGen.cases_tail h with rfl | ⟨_, -, hstep⟩
  · exact hbody
  · exact hstep.le_stop_add

/-! ## Bodies clear of the last address -/

/-- Where no jump leads behind the last address, every step leads to a higher address. -/
theorem StepWrapped.lt (hstop : body.stop + 0xFFFF < 0x100000000) (h : s.StepWrapped body p q) :
    p.1 < q.1 := by
  cases h with
  | @next a _ _ op hfetch _ =>
    have hlt := (fetchWrapped_eq_ok_iff.1 hfetch).1
    have hpos := op.length_pos
    have hlength := op.length_le_four
    rw [address_of_lt (by omega)]
    omega
  | @skip a d _ _ op hfetch hperform =>
    obtain ⟨hlt, -, hinside⟩ := fetchWrapped_eq_ok_iff.1 hfetch
    have hdistance := distance_le_of_skip hperform
    have hpos := op.length_pos
    have hlength := op.length_le_four
    rw [address_of_lt (by omega)] at hinside
    rw [address_of_lt (by omega)]
    omega

theorem LeadsWrapped.le (hstop : body.stop + 0xFFFF < 0x100000000)
    (h : s.LeadsWrapped body p q) : p.1 ≤ q.1 := by
  induction h with
  | refl => exact Nat.le_refl _
  | tail _ hstep ih => exact Nat.le_trans ih (Nat.le_of_lt (hstep.lt hstop))

/-- Where no jump leads behind the last address, nothing wraps: a run that ends within the limit
    ends as that of the machine, and it does so unless the limit is too low for the bytes ahead. -/
theorem runFromWrapped_cases (hstop : body.stop + 0xFFFF < 0x100000000) (s : Setting)
    (record : Bool) (limit a : Nat) (f : Frame) (events : Array Trace.Event) :
    (s.runFromWrapped record body limit a f events = none ∧ limit ≤ body.stop - a) ∨
      s.runFromWrapped record body limit a f events =
        some (s.runFrom record body a f events) := by
  induction limit generalizing a f events with
  | zero => exact .inl ⟨rfl, Nat.zero_le _⟩
  | succ limit ih =>
    have hsame := fetchWrapped_eq (by omega : body.stop + 3 < 0x100000000) s a
    cases hfetch : s.fetch body a with
    | error fault =>
      rw [runFromWrapped_of_unfetched (hsame.trans hfetch), runFrom_of_unfetched hfetch]
      exact .inr rfl
    | ok op =>
      have hpos := op.length_pos
      have hinside := length_le_of_fetch hfetch
      rw [runFromWrapped_of_fetch (hsame.trans hfetch), runFrom_eq_of_fetch hfetch,
        Instruction.decodeWrapped_eq (by omega)]
      dsimp only
      generalize hevents : (if record then events.push _ else events) = events'
      rcases hperform : s.perform (.decode op s.program.code a) f with ⟨_ | _ | distance | exit, g⟩
      · exact .inr rfl
      · dsimp only
        rw [address_of_lt (by omega)]
        exact (ih _ g events').imp (fun ⟨hnone, hle⟩ => ⟨hnone, by omega⟩) id
      · have hdistance := distance_le_of_skip hperform
        dsimp only
        rw [address_of_lt (by omega)]
        exact (ih _ g events').imp (fun ⟨hnone, hle⟩ => ⟨hnone, by omega⟩) id
      · exact .inr rfl

end Setting

namespace Machine

variable {setup : Setup} {index limit : Nat} {body : Body}

theorem runWrapped_cases (h : body.Clear) (setup : Setup) (limit : Nat) (m : Machine) :
    (m.runWrapped setup limit body = none ∧ limit ≤ body.stop - body.start) ∨
      m.runWrapped setup limit body = some (m.run setup body) := by
  refine ((m.setting setup).runFromWrapped_cases h.stop_add_lt (setup.mode == .instructions) limit
    body.start { m.frame with stack := m.frame.stack.clear } m.events).imp ?_ ?_
  · exact fun ⟨hnone, hle⟩ => ⟨congrArg (Option.map m.conclude) hnone, hle⟩
  · exact fun hsome => congrArg (Option.map m.conclude) hsome

theorem testWrapped_cases (hbody : setup.program.body? .condition index = some body)
    (h : body.Clear) (limit : Nat) (m : Machine) :
    (m.testWrapped setup limit index = none ∧ limit ≤ body.stop - body.start) ∨
      m.testWrapped setup limit index = some (m.test setup index) := by
  rw [testWrapped, test, hbody]
  refine (runWrapped_cases h setup limit m).imp ?_ ?_
  · exact fun ⟨hnone, hle⟩ => ⟨congrArg (Option.map _) hnone, hle⟩
  · exact fun hsome => congrArg (Option.map _) hsome

theorem resolveWrapped_cases (hbody : setup.program.body? .result index = some body)
    (h : body.Clear) (limit : Nat) (m : Machine) :
    (m.resolveWrapped setup limit index = none ∧ limit ≤ body.stop - body.start) ∨
      m.resolveWrapped setup limit index = some (m.resolve setup index) := by
  rw [resolve_natCast, hbody, resolveWrapped, if_neg (by omega), Int.toNat_natCast, hbody]
  refine (runWrapped_cases h setup limit m).imp ?_ ?_
  · exact fun ⟨hnone, hle⟩ => ⟨congrArg (Option.map _) hnone, hle⟩
  · exact fun hsome => congrArg (Option.map _) hsome

end Machine

end EndpointRules
