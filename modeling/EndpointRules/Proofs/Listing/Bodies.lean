import EndpointRules.Listing
import EndpointRules.Proofs.Machine.Executed
import EndpointRules.Proofs.Machine.Linking

/-!
# Listings of bodies

Where a body ends is known to the machine and to the check of calls, but not to the listing: it goes
on to the first instruction that returns, or to the end of the code.  So a listing shows the
instructions of its body, and no others, exactly if each instruction of the body is the last one
just in case it returns or ends the code.  An early return hides the rest of the body, also where a
jump leads behind it; a body without a return is listed together with the bodies that follow it.
-/

namespace EndpointRules

/-! ## What a cursor comes by -/

namespace Cursor

variable {c d : Cursor} {op : Opcode}

theorem trail_of_le (h : c.code.size ≤ c.position) : c.trail = [] := by
  have hnext : c.hasNext = false := by simpa [hasNext] using h
  simp [trail, hnext]

theorem trail_of_none (h : c.position < c.code.size) (hop : c.opcode? = none) :
    c.trail = [c] := by
  have hnone : c.next? = none := by simp [next?, hop]
  rw [trail, if_pos (by simpa [hasNext] using h)]
  split
  · next hnext => cases hnone.symm.trans hnext
  · rfl

theorem trail_of_opcode? (hop : c.opcode? = some op) :
    c.trail = c :: trail { c with position := c.position + op.length } := by
  have hsome : c.next? = some { c with position := c.position + op.length } := by
    simp [next?, hop]
  rw [trail, if_pos (by simpa [hasNext] using position_lt_of_opcode? hop)]
  split
  · next hnext =>
    cases hsome.symm.trans hnext
    rfl
  · next hnone => cases hsome.symm.trans hnone

theorem code_of_mem_trail (h : d ∈ c.trail) : d.code = c.code := by
  induction c using trail.induct with
  | case1 c hnext next hsome ih =>
    obtain ⟨op, hop, rfl⟩ := Option.map_eq_some_iff.1 hsome
    rw [trail_of_opcode? hop] at h
    rcases List.mem_cons.1 h with rfl | h
    · rfl
    · exact ih h
  | case2 c hnext hnone =>
    rw [trail_of_none (by simpa [hasNext] using hnext) (Option.map_eq_none_iff.1 hnone)] at h
    obtain rfl := List.mem_singleton.1 h
    rfl
  | case3 c hnext =>
    rw [trail_of_le (by simpa [hasNext] using hnext)] at h
    cases h

end Cursor

theorem Listing.mem_of_mem_takeThrough {ends : Cursor → Bool} {cursors : List Cursor} {c : Cursor}
    (h : c ∈ takeThrough ends cursors) : c ∈ cursors := by
  induction cursors with
  | nil => exact h
  | cons d rest ih =>
    by_cases hends : ends d
    · simp only [takeThrough, hends, if_true, List.mem_singleton] at h
      simp [h]
    · simp only [takeThrough, hends, Bool.false_eq_true, if_false, List.mem_cons] at h
      rcases h with rfl | h
      · simp
      · simp [ih h]

namespace Program

variable {p : Program} {sort : BodySort} {index : Nat} {body : Body} {stop a b : Nat} {op : Opcode}

/-! ## Two readings of the code -/

/-- The addresses of the instructions from `a` up to `stop`, one behind the other, through the first
    byte that is no opcode.  An instruction that is cut off at `stop` is the last one, as there is
    nothing behind it. -/
def sweep (p : Program) (stop a : Nat) : List Nat :=
  if a < stop then
    match (Cursor.mk p.code a).opcode? with
    | some op => a :: p.sweep stop (a + op.length)
    | none => [a]
  else []
termination_by stop - a
decreasing_by
  have := op.length_pos
  omega

/-- The addresses of the instructions that are listed for a body that starts at `a`. -/
def listed (p : Program) (a : Nat) : List Nat := (Listing.bodyCursors p a).map (·.position)

theorem sweep_of_le (h : stop ≤ a) : p.sweep stop a = [] := by
  rw [sweep, if_neg (by omega)]

theorem sweep_of_opcode? (h : a < stop) (hop : (Cursor.mk p.code a).opcode? = some op) :
    p.sweep stop a = a :: p.sweep stop (a + op.length) := by
  rw [sweep, if_pos h, hop]

theorem sweep_of_none (h : a < stop) (hop : (Cursor.mk p.code a).opcode? = none) :
    p.sweep stop a = [a] := by
  rw [sweep, if_pos h, hop]

theorem self_mem_sweep (h : a < stop) : a ∈ p.sweep stop a := by
  cases hop : (Cursor.mk p.code a).opcode? with
  | none => simp [sweep_of_none h hop]
  | some op => simp [sweep_of_opcode? h hop]

/-! ## What is listed -/

theorem bodyCursors_eq (p : Program) (a : Nat) :
    Listing.bodyCursors p a = (p.listed a).map fun b => ⟨p.code, b⟩ := by
  rw [listed, List.map_map]
  refine (List.map_id _).symm.trans (List.map_congr_left fun c hc => ?_)
  have hcode : c.code = p.code := Cursor.code_of_mem_trail (Listing.mem_of_mem_takeThrough hc)
  simp [← hcode]

theorem listed_of_none (h : a < p.code.size) (hop : (Cursor.mk p.code a).opcode? = none) :
    p.listed a = [a] := by
  rw [listed, Listing.bodyCursors, Cursor.trail_of_none h hop]
  simp [Listing.takeThrough, Cursor.isComplete, hop]

/-- Behind an instruction that returns or ends the code, nothing is listed. -/
theorem listed_of_opcode? (hop : (Cursor.mk p.code a).opcode? = some op) :
    p.listed a = a ::
      if op.isReturn = true ∨ p.code.size ≤ a + op.length then []
      else p.listed (a + op.length) := by
  rw [listed, Listing.bodyCursors, Cursor.trail_of_opcode? hop, Listing.takeThrough]
  by_cases hreturn : op.isReturn
  · simp [Cursor.isReturn, hop, hreturn]
  · by_cases hcut : p.code.size < a + op.length
    · have hle : p.code.size ≤ a + op.length := Nat.le_of_lt hcut
      simp [Cursor.isReturn, Cursor.isComplete, hop, hreturn, hcut, hle]
    · by_cases hlast : p.code.size ≤ a + op.length
      · have htrail := Cursor.trail_of_le (c := ⟨p.code, a + op.length⟩) hlast
        simp [Cursor.isReturn, Cursor.isComplete, hop, hreturn, hcut, hlast, htrail,
          Listing.takeThrough]
      · simp [Cursor.isReturn, Cursor.isComplete, hop, hreturn, hcut, hlast, listed,
          Listing.bodyCursors]

theorem listed_ne_nil (h : a < p.code.size) : p.listed a ≠ [] := by
  cases hop : (Cursor.mk p.code a).opcode? with
  | none => simp [listed_of_none h hop]
  | some op => simp [listed_of_opcode? hop]

/-- One of the readings goes on where the other one ends. -/
theorem listed_prefix_or_sweep_prefix (hstop : stop ≤ p.code.size) (a : Nat) :
    p.listed a <+: p.sweep stop a ∨ p.sweep stop a <+: p.listed a := by
  induction a using sweep.induct p stop with
  | case1 a h op hop ih =>
    rw [sweep_of_opcode? h hop, listed_of_opcode? hop]
    by_cases hends : op.isReturn = true ∨ p.code.size ≤ a + op.length
    · simp [hends]
    · simp only [hends, if_false, List.prefix_cons_inj]
      exact ih
  | case2 a h hop =>
    rw [sweep_of_none h hop, listed_of_none (by omega) hop]
    exact .inl (List.prefix_refl _)
  | case3 a h =>
    rw [sweep_of_le (by omega)]
    exact .inr List.nil_prefix

/-- The instruction at an address is the last one before `stop` exactly if it returns or ends the
    code. -/
def Closes (p : Program) (stop a : Nat) : Prop :=
  ∀ op, (Cursor.mk p.code a).opcode? = some op →
    (stop ≤ a + op.length ↔ op.isReturn = true ∨ p.code.size ≤ a + op.length)

theorem listed_eq_sweep_iff (hstop : stop ≤ p.code.size) (h : a < stop) :
    p.listed a = p.sweep stop a ↔ ∀ b ∈ p.sweep stop a, p.Closes stop b := by
  induction a using sweep.induct p stop with
  | case1 a _ op hop ih =>
    have hcloses : p.Closes stop a ↔
        (stop ≤ a + op.length ↔ op.isReturn = true ∨ p.code.size ≤ a + op.length) := by
      simp [Closes, hop]
    rw [sweep_of_opcode? h hop, listed_of_opcode? hop, List.forall_mem_cons, hcloses,
      List.cons_inj_right]
    by_cases hlast : stop ≤ a + op.length
    · rw [sweep_of_le hlast]
      by_cases hends : op.isReturn = true ∨ p.code.size ≤ a + op.length
      · simp [hends, hlast]
      · have hrest := listed_ne_nil (p := p) (a := a + op.length) (by omega)
        simp [hends, hlast, hrest]
    · have hinside : ¬ p.code.size ≤ a + op.length := by omega
      by_cases hreturn : op.isReturn
      · have hrest := List.ne_nil_of_mem (self_mem_sweep (p := p) (Nat.lt_of_not_le hlast))
        simp [hreturn, hlast, hrest.symm]
      · simp [hreturn, hlast, hinside, ih (Nat.lt_of_not_le hlast)]
  | case2 a _ hop =>
    rw [sweep_of_none h hop, listed_of_none (by omega) hop]
    simp [Closes, hop]
  | case3 a hnot => exact absurd h hnot

/-! ## The reading of a body -/

theorem mem_sweep_next (hop : (Cursor.mk p.code b).opcode? = some op) (hlt : b + op.length < stop)
    (h : b ∈ p.sweep stop a) : b + op.length ∈ p.sweep stop a := by
  induction a using sweep.induct p stop with
  | case1 a hstop op' hop' ih =>
    rw [sweep_of_opcode? hstop hop'] at h ⊢
    rcases List.mem_cons.1 h with rfl | h
    · obtain rfl : op = op' := Option.some.inj (hop.symm.trans hop')
      exact List.mem_cons_of_mem _ (self_mem_sweep hlt)
    · exact List.mem_cons_of_mem _ (ih h)
  | case2 a hstop hop' =>
    rw [sweep_of_none hstop hop'] at h
    obtain rfl := List.mem_singleton.1 h
    cases hop.symm.trans hop'
  | case3 a hstop =>
    rw [sweep_of_le (by omega)] at h
    cases h

theorem reads_of_mem_sweep (ha : p.Reads body a) (h : b ∈ p.sweep body.stop a) :
    p.Reads body b := by
  induction a using sweep.induct p body.stop with
  | case1 a hstop op hop ih =>
    rw [sweep_of_opcode? hstop hop] at h
    rcases List.mem_cons.1 h with rfl | h
    · exact ha
    · by_cases hnext : a + op.length < body.stop
      · exact ih (.next ha hop hnext) h
      · rw [sweep_of_le (by omega)] at h
        cases h
  | case2 a hstop hop =>
    rw [sweep_of_none hstop hop] at h
    obtain rfl := List.mem_singleton.1 h
    exact ha
  | case3 a hstop =>
    rw [sweep_of_le (by omega)] at h
    cases h

/-- The check of calls reads the same instructions of a body. -/
theorem mem_sweep_iff_reads : a ∈ p.sweep body.stop body.start ↔ p.Reads body a := by
  constructor
  · intro h
    have hstart : body.start < body.stop := by
      by_contra hnot
      rw [sweep_of_le (Nat.le_of_not_lt hnot)] at h
      cases h
    exact reads_of_mem_sweep (.start hstart) h
  · intro h
    induction h with
    | start hstop => exact self_mem_sweep hstop
    | next _ hop hstop ih => exact mem_sweep_next hop hstop ih

theorem mem_bodies (hbody : p.body? sort index = some body) : body ∈ p.bodies sort := by
  obtain ⟨start, hstart, rfl⟩ := body?_eq_some_iff.1 hbody
  refine List.mem_map.2 ⟨(start, index), ?_, rfl⟩
  rw [List.mem_zipIdx_iff_getElem?]
  simpa using hstart

end Program

/-! ## Runs that keep to the reading -/

namespace Setting

variable {s : Setting} {sort : BodySort} {index : Nat} {body : Body} {p q : Place} {f : Frame}

/-- A step that goes on with the next instruction, or jumps to an instruction of the reading from
    the start of the body. -/
def Lands (s : Setting) (body : Body) (p q : Place) : Prop :=
  s.Step body p q ∧
    ((∃ op, s.fetch body p.1 = .ok op ∧ q.1 = p.1 + op.length) ∨ s.program.Reads body q.1)

theorem reads_of_lands (hbody : s.program.body? sort index = some body)
    (h : Relation.ReflTransGen (s.Lands body) (entry body f) q) :
    s.program.Reads body q.1 ∨ body.stop ≤ q.1 := by
  induction h with
  | refl => exact (Nat.lt_or_ge body.start body.stop).imp .start id
  | @tail p q _ hlands ih =>
    obtain ⟨-, hnext | hreads⟩ := hlands
    · obtain ⟨op, hfetch, hq⟩ := hnext
      rcases ih with hreads | hstop
      · rw [hq]
        exact Program.reads_next_or_le hreads (opcode?_of_fetch hbody hfetch).1
      · exact absurd (lt_of_fetch hfetch) (Nat.not_lt.2 hstop)
    · exact .inl hreads

end Setting

/-! ## The listing of a body -/

/-- The heading of the bodies of a sort. -/
def Listing.headingOf : BodySort → Bytes
  | .condition => "Condition"
  | .result => "Result"

namespace Program

variable {p : Program} {sort : BodySort} {index : Nat} {body : Body}

/-- The body is not empty, and each instruction of it is the last one exactly if it returns or ends
    the code. -/
def Delimited (p : Program) (body : Body) : Prop :=
  body.start < body.stop ∧ ∀ a ∈ p.sweep body.stop body.start, p.Closes body.stop a

theorem body_infix_text (hbody : p.body? sort index = some body) :
    Listing.body p (Listing.headingOf sort) body <:+: Listing.text p := by
  have hsort : (p.bodies sort).flatMap (Listing.body p (Listing.headingOf sort)) <:+:
      Listing.text p := by
    refine List.infix_of_mem_flatten ?_
    cases sort <;> simp [Listing.headingOf]
  refine List.IsInfix.trans ?_ hsort
  exact List.infix_of_mem_flatten (List.mem_map_of_mem (mem_bodies hbody))

/-- The listing of a program has a part for each of its bodies: a heading, and a line for each
    instruction that is listed.  These instructions and those of the body, which are the ones that
    the check of calls reads, go along with each other until one of the two ends.  They are the same
    exactly if the body is not empty and each instruction of it is the last one just in case it
    returns or ends the code.  Then nothing is listed from the end of the body on, and every
    instruction is listed that a run comes to by going on with the next instruction or jumping to
    one of the body. -/
theorem listed_eq_sweep_iff_delimited (hbody : p.body? sort index = some body) :
    let listed := p.listed body.start
    let sweep := p.sweep body.stop body.start
    let heading := Listing.headingOf sort
    Listing.body p heading body <:+: Listing.text p ∧
      Listing.body p heading body =
        Listing.line [heading, " ", Bytes.decimal body.index, " (offset ",
          Bytes.decimal body.start, "):"] ++
          listed.flatMap (fun a => Listing.line ["  ", Listing.instruction p ⟨p.code, a⟩]) ∧
      (∀ a, a ∈ sweep ↔ p.Reads body a) ∧ (listed <+: sweep ∨ sweep <+: listed) ∧
      (listed = sweep ↔ p.Delimited body) ∧
      (p.Delimited body → (∀ a ∈ listed, a < body.stop) ∧
        ∀ hooks context f q op,
          let s : Setting := { program := p, hooks, context }
          Relation.ReflTransGen (s.Lands body) (Setting.entry body f) q →
          s.fetch body q.1 = .ok op → q.1 ∈ listed) := by
  intro listed sweep heading
  have hsize := stop_le_size hbody
  have hiff : listed = sweep ↔ p.Delimited body := by
    by_cases hstart : body.start < body.stop
    · exact (listed_eq_sweep_iff hsize hstart).trans (by simp [Delimited, hstart])
    · have hempty : sweep = [] := sweep_of_le (Nat.le_of_not_lt hstart)
      have hlisted : listed ≠ [] := listed_ne_nil (start_lt_size hbody)
      simp [Delimited, hstart, hempty, hlisted]
  refine ⟨body_infix_text hbody, ?_, fun a => mem_sweep_iff_reads,
    listed_prefix_or_sweep_prefix hsize body.start, hiff, ?_⟩
  · rw [Listing.body, bodyCursors_eq, List.flatMap_map]
  · intro hdelimited
    rw [hiff.2 hdelimited]
    refine ⟨fun a ha => lt_stop_of_reads (mem_sweep_iff_reads.1 ha), ?_⟩
    intro hooks context f q op s hreaches hfetch
    rcases Setting.reads_of_lands hbody hreaches with hreads | hstop
    · exact mem_sweep_iff_reads.2 hreads
    · exact absurd (Setting.lt_of_fetch hfetch) (Nat.not_lt.2 hstop)

/-- A condition with a jump over an instruction, and a result behind it. -/
def wellDelimited : Program where
  parts := {
    code := #[0x00, 0x00, 0x2A, 0x00, 0x01, 0x05, 0x28, 0x00, 0x00, 0x28]
    conditions := #[0]
    results := #[7]
    constants := #[.string "x"]
    diagram := { entries := #[], root := Reference.resultOffset } }
  starts := [0, 7]
  starts_eq := by decide
  check_eq := by cbv

theorem listed_eq_sweep_wellDelimited :
    wellDelimited.body? .condition 0 = some ⟨.condition, 0, 0, 7⟩ ∧
      wellDelimited.Delimited ⟨.condition, 0, 0, 7⟩ ∧ wellDelimited.listed 0 = [0, 2, 5, 6] := by
  have hbody : wellDelimited.body? .condition 0 = some ⟨.condition, 0, 0, 7⟩ := rfl
  obtain ⟨-, -, -, -, hiff, -⟩ := listed_eq_sweep_iff_delimited hbody
  have hlisted : wellDelimited.listed 0 = [0, 2, 5, 6] := by cbv
  have hsweep : wellDelimited.sweep 7 0 = [0, 2, 5, 6] := by cbv
  exact ⟨hbody, hiff.1 (hlisted.trans hsweep.symm), hlisted⟩

/-- A result with code behind an early return, to which a jump leads, and then a result that ends
    without a return. -/
def strayReturns : Program where
  parts := {
    code := #[0x00, 0x00, 0x2A, 0x00, 0x03, 0x00, 0x01, 0x28, 0x05, 0x28,
      0x00, 0x00,
      0x00, 0x00, 0x28]
    results := #[0, 10, 12]
    constants := #[.string "x", .string "y"]
    diagram := { entries := #[], root := Reference.resultOffset } }
  starts := [0, 10, 12]
  starts_eq := by decide
  check_eq := by cbv

/-- The listing of the first result misses two instructions of it, both of which a run carries out;
    the listing of the second one goes on with the instructions of the third. -/
theorem listed_ne_sweep_strayReturns :
    (strayReturns.body? .result 0 = some ⟨.result, 0, 0, 10⟩ ∧
      strayReturns.sweep 10 0 = [0, 2, 5, 7, 8, 9] ∧ strayReturns.listed 0 = [0, 2, 5, 7] ∧
      strayReturns.listed 0 ≠ strayReturns.sweep 10 0 ∧
      Setting.executed { program := strayReturns, hooks := [], context := [] }
        ⟨.result, 0, 0, 10⟩ { registers := #[] } = [0, 2, 8, 9]) ∧
    strayReturns.body? .result 1 = some ⟨.result, 1, 10, 12⟩ ∧
      strayReturns.sweep 12 10 = [10] ∧ strayReturns.listed 10 = [10, 12, 14] ∧
      strayReturns.listed 10 ≠ strayReturns.sweep 12 10 := by
  have hfirst : strayReturns.sweep 10 0 = [0, 2, 5, 7, 8, 9] := by cbv
  have hfirst' : strayReturns.listed 0 = [0, 2, 5, 7] := by cbv
  have hsecond : strayReturns.sweep 12 10 = [10] := by cbv
  have hsecond' : strayReturns.listed 10 = [10, 12, 14] := by cbv
  refine ⟨⟨rfl, hfirst, hfirst', ?_, ?_⟩, rfl, hsecond, hsecond', ?_⟩
  · simp [hfirst, hfirst']
  · decide +kernel
  · simp [hsecond, hsecond']

end Program

end EndpointRules
