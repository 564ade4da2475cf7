import Mathlib.Data.List.Permutation
import Mathlib.Logic.Function.Basic
import Mathlib.Tactic.IntervalCases
import EndpointRules.Proofs.Assembler.Calls
import EndpointRules.Proofs.Program.Bodies
import EndpointRules.Proofs.Word

/-!
# Jumps of assembled programs

However many labels are open at once, and in whatever order they are marked, the operand of every
jump ends up as the distance from behind it to the mark of its label.  `Records` relates an
assembler without error to the calls that led to it: the operands of jumps to labels that are
marked are complete, those of the others are zero and listed under their label.

Offsets and distances are told in 32 bits.  So the operand of a jump that has no address is written
elsewhere, a jump that is too long may look short, and a body may seem to start further ahead.
-/

namespace EndpointRules

/-- Whether an assembler notices the misuse: a jump that is too long may look short in 32 bits. -/
def CompileError.isNoticed : CompileError → Bool
  | jumpTooLong distance _ => 0xFFFF < distance
  | _ => true

namespace Assembler

variable {a : Assembler} {calls : List Call} {c : Call} {e : CompileError} {offset label m : Nat}

/-! ## Operands -/

/-- Code in which the operand at an offset leads to `m`. -/
def withOperand (m : Nat) (code : Bytes) (offset : Nat) : Bytes :=
  (code.set offset (shortBytes (m - (offset + 2))).1).set (offset + 1)
    (shortBytes (m - (offset + 2))).2

theorem shortBytes_eq (n : Nat) : [(shortBytes n).1, (shortBytes n).2] = Word.bytes 2 n := rfl

@[simp] theorem shortBytes_address (n : Nat) : shortBytes (address n) = shortBytes n := by
  have hbyte : ∀ m, UInt8.ofNat (m % 0x100000000) = UInt8.ofNat m := by
    intro m
    apply UInt8.toNat_inj.1
    rw [UInt8.toNat_ofNat', UInt8.toNat_ofNat']
    omega
  have hhigh : UInt8.ofNat (n % 0x100000000 / 256) = UInt8.ofNat (n / 256) := by
    apply UInt8.toNat_inj.1
    rw [UInt8.toNat_ofNat', UInt8.toNat_ofNat']
    omega
  rw [shortBytes, shortBytes, address, hhigh, hbyte]

@[simp] theorem length_withOperand (m : Nat) (code : Bytes) (offset : Nat) :
    (withOperand m code offset).length = code.length := by
  simp [withOperand]

theorem withOperand_append {code : Bytes} (h : offset + 2 ≤ code.length) (m : Nat) (s : Bytes) :
    withOperand m (code ++ s) offset = withOperand m code offset ++ s := by
  unfold withOperand
  rw [List.set_append_left _ _ (by omega),
    List.set_append_left _ _ (by rw [List.length_set]; omega)]

theorem foldl_withOperand_append {code : Bytes} {offsets : List Nat}
    (h : ∀ offset ∈ offsets, offset + 2 ≤ code.length) (m : Nat) (s : Bytes) :
    offsets.foldl (withOperand m) (code ++ s) = offsets.foldl (withOperand m) code ++ s := by
  induction offsets generalizing code with
  | nil => rfl
  | cons offset offsets ih =>
    have hrest : ∀ offset' ∈ offsets, offset' + 2 ≤ (withOperand m code offset).length := by
      intro offset' hmem
      rw [length_withOperand]
      exact h offset' (List.mem_cons_of_mem _ hmem)
    rw [List.foldl_cons, List.foldl_cons, withOperand_append (h offset List.mem_cons_self),
      ih hrest]

/-- An operand at the end of the code is overwritten as a whole. -/
theorem withOperand_length (m : Nat) (code : Bytes) (high low : UInt8) :
    withOperand m (code ++ [high, low]) code.length =
      code ++ Word.bytes 2 (m - (code.length + 2)) := by
  rw [← shortBytes_eq, withOperand, List.set_append_right _ _ (Nat.le_refl _),
    List.set_append_right _ _ (by omega)]
  simp

/-- Completing all jumps to a label gives the code in which the label's target is `m`. -/
theorem foldl_withOperand_layOut (t : Nat → Nat) (label m : Nat) (calls : List Call) :
    (offsetsOf (Call.jumpsTo label) calls).foldl (withOperand m) (layOut t calls) =
      layOut (Function.update t label m) calls := by
  induction calls using List.reverseRecOn with
  | nil => rfl
  | append_singleton calls c ih =>
    have hinside : ∀ offset ∈ offsetsOf (Call.jumpsTo label) calls,
        offset + 2 ≤ (layOut t calls).length := by
      intro offset hmem
      rw [length_layOut]
      exact add_two_le_extent hmem
    rw [offsetsOf_append_singleton, List.foldl_append, layOut_append_singleton,
      layOut_append_singleton, foldl_withOperand_append hinside, ih]
    by_cases hjump : c.jumpsTo label = true
    · obtain rfl : c = .jump label := by cases c <;> simp_all [Call.jumpsTo]
      have hlength := length_layOut (Function.update t label m) calls
      have hoperand := withOperand_length m (layOut (Function.update t label m) calls)
      rw [hlength] at hoperand
      simp only [hjump, if_true, List.foldl_cons, List.foldl_nil, Call.bytes,
        Function.update_self]
      exact hoperand _ _
    · have hsame : c.bytes (Function.update t label m) (extent calls) =
          c.bytes t (extent calls) := by
        cases c with
        | jump l =>
          have hne : l ≠ label := by simpa [Call.jumpsTo] using hjump
          simp [Call.bytes, hne]
        | _ => rfl
      rw [if_neg hjump, hsame]
      rfl

/-! ## Errors -/

/-- The misuse that a mark at `m` is if it is too far behind the operand at an offset.  It tells the
    distance and the offset in 32 bits. -/
def tooLong? (m offset : Nat) : Option CompileError :=
  let distance := m - (offset + 2)
  if 0xFFFF < distance then some (.jumpTooLong (address distance) (address offset)) else none

theorem tooLong?_eq_some_iff :
    tooLong? m offset = some e ↔
      0xFFFF < m - (offset + 2) ∧
        e = .jumpTooLong (address (m - (offset + 2))) (address offset) := by
  unfold tooLong?
  by_cases hfar : 0xFFFF < m - (offset + 2)
  · simp [hfar, eq_comm]
  · simp [hfar]

@[simp] theorem error_fail (a : Assembler) (e : CompileError) :
    (a.fail e).error = a.error.or (some e) := rfl

/-- The operand of a jump that lies before the mark, as addresses tell it. -/
theorem patch_address (h : offset + 2 ≤ m) (a : Assembler) :
    patch (address m) a (address offset) =
      if 0xFFFF < address (m - (offset + 2)) then
        a.fail (.jumpTooLong (address (m - (offset + 2))) (address offset))
      else
        let (high, low) := shortBytes (m - (offset + 2))
        let code := a.code.setIfInBounds (address offset) high
        { a with code := code.setIfInBounds (address (address offset + 1)) low } := by
  rw [patch, addressDistance_address h, shortBytes_address]

theorem error_patch (h : offset + 2 ≤ m) (a : Assembler) :
    (patch (address m) a (address offset)).error =
      a.error.or ((tooLong? m offset).filter CompileError.isNoticed) := by
  have hle := address_le (m - (offset + 2))
  rw [patch_address h, tooLong?]
  by_cases hnoticed : 0xFFFF < address (m - (offset + 2))
  · have hfar : 0xFFFF < m - (offset + 2) := by omega
    simp [hnoticed, hfar, Option.filter, CompileError.isNoticed]
  · by_cases hfar : 0xFFFF < m - (offset + 2)
    · simp [hnoticed, hfar, Option.filter, CompileError.isNoticed]
    · simp [hnoticed, hfar]

/-- Completing jumps remembers the first that is noticed to be too long. -/
theorem error_foldl_patch {offsets : List Nat} (h : ∀ offset ∈ offsets, offset + 2 ≤ m)
    (a : Assembler) :
    ((offsets.map address).foldl (patch (address m)) a).error =
      a.error.or ((offsets.filterMap (tooLong? m)).find? CompileError.isNoticed) := by
  induction offsets generalizing a with
  | nil => simp
  | cons offset offsets ih =>
    rw [List.map_cons, List.foldl_cons, ih fun o ho => h o (List.mem_cons_of_mem _ ho),
      error_patch (h offset List.mem_cons_self), Option.or_assoc, List.filterMap_cons]
    cases tooLong? m offset with
    | none => rfl
    | some e =>
      by_cases hnoticed : e.isNoticed = true
      · simp [hnoticed, Option.filter]
      · simp [hnoticed, Option.filter]

/-- Completing jumps leaves an error as it is. -/
theorem error_foldl_patch_of_eq_some (h : a.error = some e) (target : Nat) (offsets : List Nat) :
    (offsets.foldl (patch target) a).error = some e := by
  induction offsets generalizing a with
  | nil => exact h
  | cons offset offsets ih =>
    rw [List.foldl_cons]
    refine ih ?_
    rw [patch]
    by_cases hfar : 0xFFFF < addressDistance (offset + 2) target
    · simp only [hfar, if_true, error_fail, h, Option.some_or]
    · simp only [hfar, if_false, h]

theorem error_fail_ne_none (a : Assembler) (e : CompileError) : (a.fail e).error ≠ none := by
  unfold fail
  cases a.error <;> simp

/-- Without an error the distance in 32 bits fits into the operand.  The patch has written it,
    where it belongs if there is an address for it. -/
theorem patch_of_error_eq_none (hbehind : offset + 2 ≤ m)
    (h : (patch (address m) a (address offset)).error = none) :
    address (m - (offset + 2)) ≤ 0xFFFF ∧
      ∃ code, patch (address m) a (address offset) = { a with code } ∧ code.size = a.code.size ∧
        (offset + 2 ≤ 0x100000000 → code.toList = withOperand m a.code.toList offset) := by
  rw [patch_address hbehind] at h ⊢
  split at h
  · exact absurd h (error_fail_ne_none _ _)
  · next hfits =>
    rw [if_neg hfits]
    refine ⟨by omega, _, rfl, by simp, ?_⟩
    intro haddress
    rw [address_of_lt (by omega : offset < 0x100000000), address_of_lt (by omega), withOperand,
      Array.toList_setIfInBounds, Array.toList_setIfInBounds]
    rfl

theorem foldl_patch_of_error_eq_none {offsets : List Nat}
    (hbehind : ∀ offset ∈ offsets, offset + 2 ≤ m)
    (h : ((offsets.map address).foldl (patch (address m)) a).error = none) :
    (∀ offset ∈ offsets, address (m - (offset + 2)) ≤ 0xFFFF) ∧
      ∃ code, (offsets.map address).foldl (patch (address m)) a = { a with code } ∧
        code.size = a.code.size ∧ ((∀ offset ∈ offsets, offset + 2 ≤ 0x100000000) →
          code.toList = offsets.foldl (withOperand m) a.code.toList) := by
  induction offsets using List.reverseRecOn with
  | nil => exact ⟨nofun, a.code, rfl, rfl, fun _ => rfl⟩
  | append_singleton offsets offset ih =>
    have hlast : offset ∈ offsets ++ [offset] := List.mem_append_right _ List.mem_cons_self
    have hearlier : ∀ o ∈ offsets, o ∈ offsets ++ [offset] := fun o => List.mem_append_left _
    rw [List.map_append, List.foldl_append, List.map_singleton, List.foldl_cons,
      List.foldl_nil] at h ⊢
    obtain ⟨hfits, code', hpatch, hsize', hcode'⟩ := patch_of_error_eq_none (hbehind _ hlast) h
    have herror : ((offsets.map address).foldl (patch (address m)) a).error = none := by
      rw [hpatch] at h
      exact h
    obtain ⟨hall, code, hfold, hsize, hcode⟩ := ih (fun o ho => hbehind o (hearlier o ho)) herror
    refine ⟨?_, code', by rw [hpatch, hfold], by rw [hsize', hfold]; exact hsize, ?_⟩
    · intro offset' hmem
      rcases List.mem_append.1 hmem with hmem | hmem
      · exact hall offset' hmem
      · rw [List.mem_singleton.1 hmem]
        exact hfits
    · intro haddresses
      rw [hcode' (haddresses _ hlast), hfold, List.foldl_append]
      exact congrArg (withOperand m · offset) (hcode fun o ho => haddresses o (hearlier o ho))

/-! ## What the assembler records -/

/-- The offsets at which the bodies of a sort start. -/
def bodyOffsets (a : Assembler) : BodySort → Array Nat
  | .condition => a.conditions
  | .result => a.results

/-- What is recorded of a label is what the calls say of it: that it is marked, or where the jumps
    stand that wait for the mark. -/
def Recorded (calls : List Call) (l : Nat) : Option Label → Prop
  | none => offsetsOf (Call.marks l) calls = [] ∧ offsetsOf (Call.jumpsTo l) calls = []
  | some { position := none, pending } =>
    offsetsOf (Call.marks l) calls = [] ∧
      pending.toList = (offsetsOf (Call.jumpsTo l) calls).map address
  | some { position := some _, pending } =>
    pending = #[] ∧ ∃ m, offsetsOf (Call.marks l) calls = [m] ∧
      ∀ offset ∈ offsetsOf (Call.jumpsTo l) calls,
        offset + 2 ≤ m ∧ address (m - (offset + 2)) ≤ 0xFFFF

/-- The assembler has recorded the calls. -/
structure Records (a : Assembler) (calls : List Call) : Prop where
  size : a.code.size = extent calls
  code : Addressed calls → a.code.toList = layOut (target calls) calls
  bodies : ∀ sort, (a.bodyOffsets sort).toList = (offsetsOf (Call.starts sort) calls).map address
  labels : ∀ l, Recorded calls l a.labels[l]?

/-- A call that neither marks a label nor jumps to it leaves what is recorded of it. -/
theorem recorded_append_singleton {l : Nat} (hmarks : c.marks l = false)
    (hjumps : c.jumpsTo l = false) {record : Option Label} (h : Recorded calls l record) :
    Recorded (calls ++ [c]) l record := by
  unfold Recorded at h ⊢
  rw [offsetsOf_append_singleton_of_not hmarks, offsetsOf_append_singleton_of_not hjumps]
  exact h

/-- Only marks change the targets of labels. -/
theorem target_append_singleton (h : ∀ l, c.marks l = false) :
    target (calls ++ [c]) = target calls := by
  funext l
  rw [target, target, offsetsOf_append_singleton_of_not (h l)]

/-- A mark gives its label a target if the label had none. -/
theorem target_append_mark (h : offsetsOf (Call.marks label) calls = []) :
    target (calls ++ [.mark label]) = Function.update (target calls) label (extent calls) := by
  funext l
  by_cases hl : l = label
  · subst hl
    simp [target, offsetsOf_append_singleton, h, Call.marks]
  · have hmarks : (Call.mark label).marks l = false := by simp [Call.marks, Ne.symm hl]
    rw [Function.update_of_ne hl, target, target, offsetsOf_append_singleton_of_not hmarks]

theorem toList_short (a : Assembler) (n : Nat) :
    (a.short n).code.toList = a.code.toList ++ Word.bytes 2 n := by
  simp [short, byte, ← shortBytes_eq]

theorem size_short (a : Assembler) (n : Nat) : (a.short n).code.size = a.code.size + 2 := by
  simp [short, byte]

namespace Records

theorem nil : Records {} [] where
  size := rfl
  code _ := rfl
  bodies := by
    intro sort
    cases sort <;> rfl
  labels := by
    intro l
    exact ⟨rfl, rfl⟩

theorem position_eq (h : a.Records calls) : a.position = address (extent calls) := by
  rw [position, h.size]

/-- A call that has nothing to do with labels appends its bytes, and starts a body or does not. -/
theorem append_plain (h : a.Records calls) {a' : Assembler} (hmarks : ∀ l, c.marks l = false)
    (hjumps : ∀ l, c.jumpsTo l = false)
    (hcode : ∀ t offset, a'.code.toList = a.code.toList ++ c.bytes t offset)
    (hbodies : ∀ sort, (a'.bodyOffsets sort).toList =
      (a.bodyOffsets sort).toList ++ if c.starts sort then [a.position] else [])
    (hlabels : a'.labels = a.labels) : a'.Records (calls ++ [c]) where
  size := by
    rw [← Array.length_toList, hcode (target calls) 0, List.length_append, Call.length_bytes,
      Array.length_toList, h.size, extent_append_singleton]
  code := by
    intro haddressed
    rw [target_append_singleton hmarks, layOut_append_singleton,
      ← h.code haddressed.of_append_singleton]
    exact hcode _ _
  bodies := by
    intro sort
    rw [hbodies, h.bodies, h.position_eq, offsetsOf_append_singleton, List.map_append]
    split <;> rfl
  labels := by
    intro l
    rw [hlabels]
    exact recorded_append_singleton (hmarks l) (hjumps l) (h.labels l)

/-- A call that starts no body leaves what is recorded of bodies. -/
theorem bodies_append_singleton (h : a.Records calls) {a' : Assembler} {sort : BodySort}
    (hstarts : c.starts sort = false) (hkept : a'.bodyOffsets sort = a.bodyOffsets sort) :
    (a'.bodyOffsets sort).toList = (offsetsOf (Call.starts sort) (calls ++ [c])).map address := by
  rw [offsetsOf_append_singleton_of_not hstarts, ← h.bodies, hkept]

/-- A call that has to do with one label changes what is recorded of it only. -/
theorem labels_setIfInBounds (h : a.Records calls) {old new : Label}
    (hlabel : a.labels[label]? = some old)
    (hother : ∀ l, label ≠ l → c.marks l = false ∧ c.jumpsTo l = false)
    (hnew : Recorded (calls ++ [c]) label (some new)) (l : Nat) :
    Recorded (calls ++ [c]) l (a.labels.setIfInBounds label new)[l]? := by
  by_cases hl : label = l
  · subst hl
    obtain ⟨hlt, -⟩ := Array.getElem?_eq_some_iff.1 hlabel
    rw [Array.getElem?_setIfInBounds_self_of_lt hlt]
    exact hnew
  · obtain ⟨hmarks, hjumps⟩ := hother l hl
    rw [Array.getElem?_setIfInBounds_ne hl]
    exact recorded_append_singleton hmarks hjumps (h.labels l)

theorem append_label (h : a.Records calls) : a.label.2.Records (calls ++ [.label]) where
  size := by
    rw [extent_append_singleton]
    exact h.size
  code := by
    intro haddressed
    rw [target_append_singleton fun _ => rfl, layOut_append_singleton,
      ← h.code haddressed.of_append_singleton]
    exact (List.append_nil _).symm
  bodies := by
    intro sort
    exact h.bodies_append_singleton rfl (by cases sort <;> rfl)
  labels := by
    intro l
    have hold := h.labels l
    apply recorded_append_singleton rfl rfl
    change Recorded calls l (a.labels.push {})[l]?
    rw [Array.getElem?_push]
    by_cases hl : l = a.labels.size
    · subst hl
      rw [Array.getElem?_eq_none (Nat.le_refl _)] at hold
      rw [if_pos rfl]
      exact ⟨hold.1, by rw [hold.2]; rfl⟩
    · rw [if_neg hl]
      exact hold

theorem append_jump (h : a.Records calls) (herror : (a.jump label).error = none) :
    (a.jump label).Records (calls ++ [.jump label]) := by
  have hold := h.labels label
  unfold jump at herror ⊢
  dsimp only at herror ⊢
  split at herror
  · exact absurd herror (error_fail_ne_none _ _)
  · exact absurd herror (error_fail_ne_none _ _)
  · next pending hlabel =>
    change a.labels[label]? = some { position := none, pending } at hlabel
    rw [hlabel] at hold
    obtain ⟨hmarks, hjumps⟩ := hold
    have hplace : ∀ l, (Call.jump label).marks l = false := fun _ => rfl
    refine ⟨?_, ?_, ?_, ?_⟩
    · rw [extent_append_singleton, ← h.size]
      exact size_short a 0
    · intro haddressed
      have htarget : target calls label = 0 := by rw [target, hmarks]; rfl
      rw [target_append_singleton hplace, layOut_append_singleton,
        ← h.code haddressed.of_append_singleton, Call.bytes, htarget, Nat.zero_sub]
      exact toList_short a 0
    · intro sort
      exact h.bodies_append_singleton rfl (by cases sort <;> rfl)
    · refine h.labels_setIfInBounds hlabel (fun l hl => ⟨rfl, by simp [Call.jumpsTo, hl]⟩) ⟨?_, ?_⟩
      · rw [offsetsOf_append_singleton_of_not (hplace label), hmarks]
      · simp [offsetsOf_append_singleton, Call.jumpsTo, hjumps, h.position_eq]

theorem append_mark (h : a.Records calls) (herror : (a.mark label).error = none) :
    (a.mark label).Records (calls ++ [.mark label]) := by
  have hold := h.labels label
  unfold mark at herror ⊢
  split at herror
  · exact absurd herror (error_fail_ne_none _ _)
  · exact absurd herror (error_fail_ne_none _ _)
  · next pending hlabel =>
    rw [hlabel] at hold
    obtain ⟨hmarks, hjumps⟩ := hold
    have hbehind : ∀ offset ∈ offsetsOf (Call.jumpsTo label) calls, offset + 2 ≤ extent calls :=
      fun _ => add_two_le_extent
    rw [← Array.foldl_toList, hjumps, h.position_eq] at herror ⊢
    obtain ⟨hfits, code, hfold, hsize, hcode⟩ := foldl_patch_of_error_eq_none hbehind herror
    rw [hfold]
    refine ⟨?_, ?_, ?_, ?_⟩
    · rw [extent_append_singleton, ← h.size]
      exact hsize
    · intro haddressed
      have hoperands := haddressed.of_append_singleton
      rw [target_append_mark hmarks, layOut_append_singleton, ← foldl_withOperand_layOut,
        ← h.code hoperands]
      refine Eq.trans (hcode fun offset hmem => ?_) (List.append_nil _).symm
      exact hoperands offset label (mem_offsetsOf_jumpsTo.1 hmem)
    · intro sort
      exact h.bodies_append_singleton rfl (by cases sort <;> rfl)
    · refine h.labels_setIfInBounds hlabel (fun l hl => ⟨by simp [Call.marks, hl], rfl⟩)
        ⟨rfl, extent calls, ?_, ?_⟩
      · simp [offsetsOf_append_singleton, Call.marks, hmarks]
      · intro offset hmem
        rw [offsetsOf_append_singleton_of_not rfl] at hmem
        exact ⟨hbehind offset hmem, hfits offset hmem⟩

end Records

/-! ## Runs of calls -/

/-- Every build among the calls finds something that rules a program out, so that the assembler
    stays as it is. -/
def Refused (calls : List Call) : Prop :=
  ∀ before registers functions diagram after,
    calls = before ++ .build registers functions diagram :: after →
      ∃ e, (ofCalls before).parts registers functions diagram = .error e

/-- Calls that build nothing are refused nothing. -/
theorem refused_of_not_mem
    (h : ∀ registers functions diagram, Call.build registers functions diagram ∉ calls) :
    Refused calls := by
  intro before registers functions diagram after heq
  have hmem : Call.build registers functions diagram ∈ calls := by
    rw [heq]
    exact List.mem_append_right _ List.mem_cons_self
  exact absurd hmem (h _ _ _)

theorem build_of_parts_eq_error {registers : Array Register} {functions : List Function}
    {diagram : Diagram} {e : CompileError} (h : a.parts registers functions diagram = .error e) :
    (a.build registers functions diagram).2 = a := by
  rw [build, h]

theorem Refused.of_append {rest : List Call} (h : Refused (calls ++ rest)) : Refused calls := by
  intro before registers functions diagram after heq
  refine h before registers functions diagram (after ++ rest) ?_
  rw [heq, List.append_assoc, List.cons_append]

theorem Refused.of_append_singleton (h : Refused (calls ++ [c])) : Refused calls := h.of_append

theorem Refused.apply_build {registers : Array Register} {functions : List Function}
    {diagram : Diagram} (h : Refused (calls ++ [.build registers functions diagram])) :
    (Call.build registers functions diagram).apply (ofCalls calls) = ofCalls calls := by
  obtain ⟨e, he⟩ := h calls registers functions diagram [] rfl
  exact build_of_parts_eq_error he

/-- An error remains until a program is built. -/
theorem error_apply_of_eq_some (hrefused : Refused (calls ++ [c]))
    (h : (ofCalls calls).error = some e) : (c.apply (ofCalls calls)).error = some e := by
  cases c with
  | jump l =>
    simp only [Call.apply, jump]
    have hshort : ((ofCalls calls).short 0).error = some e := h
    split
    · rw [error_fail, hshort, Option.some_or]
    · rw [error_fail, hshort, Option.some_or]
    · exact hshort
  | mark l =>
    simp only [Call.apply, mark]
    split
    · rw [error_fail, h, Option.some_or]
    · rw [error_fail, h, Option.some_or]
    · rw [← Array.foldl_toList]
      apply error_foldl_patch_of_eq_some
      exact h
  | startBody sort => cases sort <;> exact h
  | build registers functions diagram =>
    rw [hrefused.apply_build]
    exact h
  | _ => exact h

theorem error_eq_none_of_apply (hrefused : Refused (calls ++ [c]))
    (h : (c.apply (ofCalls calls)).error = none) : (ofCalls calls).error = none := by
  cases herror : (ofCalls calls).error with
  | none => rfl
  | some e =>
    rw [error_apply_of_eq_some hrefused herror] at h
    cases h

theorem Records.apply (h : (ofCalls calls).Records calls) (hrefused : Refused (calls ++ [c]))
    (herror : (c.apply (ofCalls calls)).error = none) :
    (c.apply (ofCalls calls)).Records (calls ++ [c]) := by
  have hkept : ∀ sort : BodySort, ((ofCalls calls).bodyOffsets sort).toList =
      ((ofCalls calls).bodyOffsets sort).toList ++ [] := fun _ => (List.append_nil _).symm
  have hempty : (ofCalls calls).code.toList = (ofCalls calls).code.toList ++ [] :=
    (List.append_nil _).symm
  cases c with
  | byte b =>
    refine h.append_plain (fun _ => rfl) (fun _ => rfl) (fun _ _ => ?_) hkept rfl
    exact Array.toList_push
  | short n =>
    exact h.append_plain (fun _ => rfl) (fun _ => rfl) (fun _ _ => toList_short _ _) hkept rfl
  | opcode op =>
    refine h.append_plain (fun _ => rfl) (fun _ => rfl) (fun _ _ => ?_) hkept rfl
    exact Array.toList_push
  | label => exact h.append_label
  | jump label => exact h.append_jump herror
  | mark label => exact h.append_mark herror
  | startBody sort =>
    refine h.append_plain (fun _ => rfl) (fun _ => rfl) (fun _ _ => ?_) ?_ ?_
    · cases sort <;> exact hempty
    · intro sort'
      cases sort <;> cases sort' <;> simp [Call.apply, startBody, bodyOffsets, Call.starts]
    · cases sort <;> rfl
  | constant v =>
    exact h.append_plain (fun _ => rfl) (fun _ => rfl) (fun _ _ => hempty) hkept rfl
  | function name =>
    exact h.append_plain (fun _ => rfl) (fun _ => rfl) (fun _ _ => hempty) hkept rfl
  | build registers functions diagram =>
    rw [hrefused.apply_build]
    exact h.append_plain (fun _ => rfl) (fun _ => rfl) (fun _ _ => hempty) hkept rfl

/-- An assembler without error has recorded the calls that led to it. -/
theorem records_ofCalls (hrefused : Refused calls) (h : (ofCalls calls).error = none) :
    (ofCalls calls).Records calls := by
  induction calls using List.reverseRecOn with
  | nil => exact .nil
  | append_singleton calls c ih =>
    rw [ofCalls_append_singleton] at h ⊢
    have hbefore := error_eq_none_of_apply hrefused h
    exact (ih hrefused.of_append_singleton hbefore).apply hrefused h

/-! ## Programs -/

/-- What tables that can be put together say of the assembler. -/
theorem of_parts_eq_ok {registers : Array Register} {functions : List Function}
    {diagram : Diagram} {parts : Parts} (h : a.parts registers functions diagram = .ok parts) :
    a.error = none ∧ (∀ l ∈ a.labels, l.pending.isEmpty) ∧ parts.code = a.code ∧
      parts.conditions = a.conditions ∧ parts.results = a.results ∧
      parts.constants = a.constants.items ∧
      missingText (a.functions.items.toList.filter fun name =>
        (implementation? functions name).isNone) = [] ∧
      parts.functions = (a.functions.items.toList.filterMap fun name =>
        (implementation? functions name).map fun f =>
          { name, function := some f : Slot }).toArray := by
  unfold Assembler.parts at h
  cases herror : a.error with
  | some e =>
    rw [herror] at h
    cases h
  | none =>
    rw [herror] at h
    cases hpending : a.labels.findIdx? (!·.pending.isEmpty) with
    | some i =>
      rw [hpending] at h
      cases h
    | none =>
      rw [hpending] at h
      have hcomplete : ∀ l ∈ a.labels, l.pending.isEmpty := by
        intro l hl
        have := Array.findIdx?_eq_none_iff.1 hpending l hl
        simpa using this
      -- what is left to check says nothing of code and bodies
      dsimp only at h
      split at h
      · cases h
      split at h
      · cases h
      split at h
      · cases h
      next hmissing =>
      cases h
      exact ⟨rfl, hcomplete, rfl, rfl, rfl, rfl, by simpa using hmissing, rfl⟩

/-- A label that no jump waits for is marked if there is a jump to it. -/
theorem Records.exists_mark (h : a.Records calls) (hpending : ∀ l ∈ a.labels, l.pending.isEmpty)
    (hjump : offset ∈ offsetsOf (Call.jumpsTo label) calls) :
    ∃ m, offsetsOf (Call.marks label) calls = [m] ∧ offset + 2 ≤ m ∧
      address (m - (offset + 2)) ≤ 0xFFFF := by
  have hrecorded := h.labels label
  cases hlabel : a.labels[label]? with
  | none =>
    rw [hlabel] at hrecorded
    rw [hrecorded.2] at hjump
    cases hjump
  | some l =>
    rw [hlabel] at hrecorded
    obtain ⟨position, pending⟩ := l
    cases position with
    | none =>
      have hempty : pending.isEmpty := hpending _ (Array.mem_of_getElem? hlabel)
      obtain rfl := Array.isEmpty_iff.1 hempty
      rw [List.map_eq_nil_iff.1 hrecorded.2.symm] at hjump
      cases hjump
    | some _ =>
      obtain ⟨-, m, hmark, hnear⟩ := hrecorded
      exact ⟨m, hmark, hnear offset hjump⟩

/-- A label is marked at most once. -/
theorem Records.marks_eq (h : a.Records calls)
    (hmark : offset ∈ offsetsOf (Call.marks label) calls) :
    offsetsOf (Call.marks label) calls = [offset] := by
  have hrecorded := h.labels label
  cases hlabel : a.labels[label]? with
  | none =>
    rw [hlabel] at hrecorded
    rw [hrecorded.1] at hmark
    cases hmark
  | some l =>
    rw [hlabel] at hrecorded
    obtain ⟨position, pending⟩ := l
    cases position with
    | none =>
      rw [hrecorded.1] at hmark
      cases hmark
    | some _ =>
      obtain ⟨-, m, hmarks, -⟩ := hrecorded
      rw [hmarks] at hmark ⊢
      rw [List.mem_singleton.1 hmark]

/-- The program is made of what the calls have written, as far as 32 bits tell.  Bodies start at
    the addresses of where the calls start them.  Every label jumped to is marked once, behind the
    operands of all jumps to it, at a distance that fits into an operand in 32 bits, and the
    operands are these distances if they all have addresses. -/
structure Encoded (calls : List Call) (p : Program) : Prop where
  size : p.code.size = extent calls
  code : Addressed calls → p.code.toList = layOut (target calls) calls
  bodies : ∀ sort, (p.offsets sort).toList = (offsetsOf (Call.starts sort) calls).map address
  marks : ∀ offset label, offset ∈ offsetsOf (Call.marks label) calls →
    offsetsOf (Call.marks label) calls = [offset]
  jumps : ∀ offset label, (offset, Call.jump label) ∈ placed calls →
    ∃ m, offsetsOf (Call.marks label) calls = [m] ∧ offset + 2 ≤ m ∧
      address (m - (offset + 2)) ≤ 0xFFFF

theorem encoded_of_build {registers : Array Register} {functions : List Function}
    {diagram : Diagram} {p : Program} (hrefused : Refused calls)
    (h : ((ofCalls calls).build registers functions diagram).1 = .ok p) : Encoded calls p := by
  unfold build at h
  split at h
  · cases h
  · next parts hparts =>
    obtain ⟨herror, hpending, hcode, hconditions, hresults, -⟩ := of_parts_eq_ok hparts
    have hrecords := records_ofCalls hrefused herror
    have hp : p.parts = parts := Program.parts_of_create h
    refine ⟨?_, ?_, ?_, fun _ _ => hrecords.marks_eq, ?_⟩
    · rw [Program.code, hp, hcode, hrecords.size]
    · rw [Program.code, hp, hcode]
      exact hrecords.code
    · intro sort
      rw [← hrecords.bodies sort]
      cases sort
      · rw [Program.offsets, hp, hconditions]
        rfl
      · rw [Program.offsets, hp, hresults]
        rfl
    · intro offset label hjump
      exact hrecords.exists_mark hpending (mem_offsetsOf_jumpsTo.2 hjump)

/-- The program is made of what the calls have written.  Its code is the bytes that the calls
    append, in the order of the calls.  Every label jumped to is marked once, behind the operands of
    all jumps to it, and each of these operands is the distance from behind it to the mark, which
    fits two bytes.  Bodies start where the calls say. -/
structure Assembled (calls : List Call) (p : Program) : Prop where
  code : p.code.toList = layOut (target calls) calls
  jumps : ∀ offset label, (offset, Call.jump label) ∈ placed calls →
    ∃ m, offsetsOf (Call.marks label) calls = [m] ∧ offset + 2 ≤ m ∧ m - (offset + 2) ≤ 0xFFFF ∧
      (p.code.extract offset (offset + 2)).toList = Word.bytes 2 (m - (offset + 2))
  bodies : ∀ sort, (p.offsets sort).toList = offsetsOf (Call.starts sort) calls

/-- Every mark of a label is so close to the jumps to it that 32 bits tell the distance. -/
def Near (calls : List Call) : Prop :=
  ∀ offset label m, (offset, Call.jump label) ∈ placed calls →
    m ∈ offsetsOf (Call.marks label) calls → m - (offset + 2) < 0x100000000

/-- There are addresses for the starts of all bodies. -/
def StartsAddressed (calls : List Call) : Prop :=
  ∀ sort, ∀ offset ∈ offsetsOf (Call.starts sort) calls, offset < 0x100000000

theorem map_address_eq_self_iff {offsets : List Nat} :
    offsets.map address = offsets ↔ ∀ offset ∈ offsets, offset < 0x100000000 := by
  induction offsets with
  | nil => simp
  | cons offset offsets ih => simp [ih, address_eq_self_iff]

variable {p : Program}

theorem Encoded.assembled (h : Encoded calls p) (haddressed : Addressed calls) (hnear : Near calls)
    (hstarts : StartsAddressed calls) : Assembled calls p where
  code := h.code haddressed
  jumps := by
    intro offset label hjump
    obtain ⟨m, hmark, hbehind, hfits⟩ := h.jumps offset label hjump
    have hdistance := hnear offset label m hjump (by rw [hmark]; exact List.mem_cons_self)
    rw [address_of_lt hdistance] at hfits
    refine ⟨m, hmark, hbehind, hfits, ?_⟩
    have htarget : target calls label = m := by rw [target, hmark]; rfl
    have hbytes := take_drop_layOut (target calls) hjump
    rw [Call.bytes, htarget, ← h.code haddressed] at hbytes
    rw [← hbytes, Array.toList_extract, List.extract_eq_take_drop, Nat.add_sub_cancel_left]
    rfl
  bodies := by
    intro sort
    rw [h.bodies, map_address_eq_self_iff.2 (hstarts sort)]

theorem Assembled.near (h : Assembled calls p) : Near calls := by
  intro offset label m hjump hmark
  obtain ⟨m', hmarks, -, hfits, -⟩ := h.jumps offset label hjump
  rw [hmarks, List.mem_singleton] at hmark
  omega

/-- Calls that append less bytes than there are addresses leave nothing to 32 bits. -/
theorem near_of_extent_lt (h : extent calls < 0x100000000) : Near calls := by
  intro offset label m _ hmark
  obtain ⟨c, hmem, -⟩ := mem_offsetsOf.1 hmark
  have := add_width_le_extent hmem
  omega

theorem startsAddressed_of_extent_lt (h : extent calls < 0x100000000) : StartsAddressed calls := by
  intro sort offset hstart
  obtain ⟨c, hmem, -⟩ := mem_offsetsOf.1 hstart
  have := add_width_le_extent hmem
  omega

theorem Encoded.assembled_of_extent_lt (h : Encoded calls p)
    (hextent : extent calls < 0x100000000) : Assembled calls p :=
  h.assembled (addressed_of_extent_le (Nat.le_of_lt hextent)) (near_of_extent_lt hextent)
    (startsAddressed_of_extent_lt hextent)

/-- A program that calls of a new assembler have led to is made of what the calls have written, as
    far as 32 bits tell.  If it is so without that reserve, 32 bits tell the distances of all jumps
    and the starts of all bodies, and if they do that, it is so unless a jump has no address. -/
theorem assembled_iff {registers : Array Register} {functions : List Function} {diagram : Diagram}
    (hrefused : Refused calls)
    (h : ((ofCalls calls).build registers functions diagram).1 = .ok p) :
    Encoded calls p ∧ (Assembled calls p → Near calls ∧ StartsAddressed calls) ∧
      (Addressed calls → (Assembled calls p ↔ Near calls ∧ StartsAddressed calls)) := by
  have hencoded := encoded_of_build hrefused h
  have htold : Assembled calls p → Near calls ∧ StartsAddressed calls := by
    intro hassembled
    refine ⟨hassembled.near, fun sort => map_address_eq_self_iff.1 ?_⟩
    rw [← hencoded.bodies, hassembled.bodies]
  refine ⟨hencoded, htold, fun haddressed => ⟨htold, ?_⟩⟩
  intro ⟨hnear, hstarts⟩
  exact hencoded.assembled haddressed hnear hstarts

/-- Calls with two jumps whose labels are marked in the order of the jumps, so that each jump leads
    out of what the other one skips.  A build before the second mark is refused. -/
def crossedCalls : List Call := [
  .label, .label, .startBody .condition, .constant (.boolean true),
  .opcode .loadConst, .byte 0, .opcode .jumpIfSetOrPop, .jump 0,
  .opcode .loadConst, .byte 0, .opcode .jumpIfSetOrPop, .jump 1,
  .opcode .loadConst, .byte 0, .mark 0,
  .build #[] [] { entries := #[], root := 1 },
  .opcode .not, .mark 1, .opcode .returnValue]

/-- The program of `crossedCalls`. -/
def crossed : Program where
  parts := {
    code := #[0x00, 0x00, 0x2A, 0x00, 0x07, 0x00, 0x00, 0x2A, 0x00, 0x03, 0x00, 0x00, 0x04, 0x28]
    conditions := #[0]
    constants := #[.boolean true]
    diagram := { entries := #[], root := 1 } }
  starts := [0]
  starts_eq := by decide
  check_eq := by cbv

theorem refused_crossedCalls : Refused crossedCalls := by
  intro before registers functions diagram after heq
  have hcall : crossedCalls[before.length]? = some (.build registers functions diagram) := by
    rw [heq]
    simp
  have hbefore : crossedCalls.take before.length = before := by
    rw [heq]
    simp
  have hlength : before.length = 15 := by
    have hlt : before.length < 19 := (List.getElem?_eq_some_iff.1 hcall).1
    interval_cases before.length <;> first | rfl | cases hcall
  rw [hlength] at hbefore
  subst hbefore
  exact ⟨.labelNeverMarked 1, by cbv⟩

theorem assembled_crossedCalls :
    Refused crossedCalls ∧
      ((ofCalls crossedCalls).build #[] [] { entries := #[], root := 1 }).1 = .ok crossed ∧
      Encoded crossedCalls crossed ∧ Assembled crossedCalls crossed := by
  have hparts : (ofCalls crossedCalls).parts #[] [] { entries := #[], root := 1 } =
      .ok crossed.parts := by cbv
  have hbuild : ((ofCalls crossedCalls).build #[] [] { entries := #[], root := 1 }).1 =
      .ok crossed := by
    rw [build, hparts]
    exact Program.create_parts crossed
  have hextent : extent crossedCalls < 0x100000000 := by decide
  obtain ⟨hencoded, -, hiff⟩ := assembled_iff refused_crossedCalls hbuild
  refine ⟨refused_crossedCalls, hbuild, hencoded, ?_⟩
  exact (hiff (addressed_of_extent_le (Nat.le_of_lt hextent))).2
    ⟨near_of_extent_lt hextent, startsAddressed_of_extent_lt hextent⟩

/-- Calls that write some bytes and behind them a result of one byte. -/
def resultBehind (n : Nat) : List Call :=
  List.replicate n (.byte 0xFF) ++ [.startBody .result] ++ [.byte 0xFF]

theorem foldl_byte (a : Assembler) (n : Nat) (b : UInt8) :
    (List.replicate n (.byte b)).foldl Call.apply a =
      { a with code := a.code ++ Array.replicate n b } := by
  induction n with
  | zero => simp
  | succ n ih =>
    rw [List.replicate_succ', List.foldl_append, ih, Array.replicate_succ, Array.append_push]
    rfl

theorem ofCalls_resultBehind (n : Nat) :
    ofCalls (resultBehind n) = { code := Parts.padded n #[0xFF], results := #[address n] } := by
  rw [resultBehind, ofCalls_append_singleton, ofCalls_append_singleton, ofCalls, foldl_byte]
  simp [Call.apply, startBody, byte, position, Parts.padded]

theorem extent_replicate (n : Nat) (c : Call) : extent (List.replicate n c) = n * c.width := by
  simp [extent]

/-- Calls without the property have no offset. -/
theorem offsetsOf_replicate_of_not {property : Call → Bool} (h : property c = false) (n : Nat) :
    offsetsOf property (List.replicate n c) = [] := by
  induction n with
  | zero => rfl
  | succ n ih => rw [List.replicate_succ', offsetsOf_append_singleton_of_not h, ih]

theorem starts_resultBehind (n : Nat) :
    offsetsOf (Call.starts .result) (resultBehind n) = [n] := by
  rw [resultBehind, offsetsOf_append_singleton_of_not rfl, offsetsOf_append_singleton,
    offsetsOf_replicate_of_not rfl, extent_replicate]
  simp [Call.starts, Call.width]

/-- The program of those calls. -/
def resultAhead (n : Nat) : Program :=
  .ofCallsNothing
    { code := Parts.padded n #[0xFF]
      results := #[address n]
      diagram := { entries := #[], root := 1 } }
    { sizes := by simp [Parts.checkSizes_eq_ok_iff]
      names := rfl
      conditions := by simp
      results := by
        intro a ha
        rw [Array.mem_singleton.1 ha, Parts.size_padded]
        exact Nat.lt_succ_of_le (address_le n)
      diagram := by
        show Diagram.validate { entries := #[], root := 1 } 0 1 = .ok ()
        decide }
    (Parts.callsNothing_padded n (by
      intro byte hbyte op hop
      rw [Array.mem_singleton.1 hbyte] at hop
      cases hop))

theorem refused_resultBehind (n : Nat) : Refused (resultBehind n) := by
  apply refused_of_not_mem
  simp [resultBehind, List.mem_replicate]

theorem build_resultBehind (n : Nat) :
    ((ofCalls (resultBehind n)).build #[] [] { entries := #[], root := 1 }).1 =
      .ok (resultAhead n) := by
  have hparts : (ofCalls (resultBehind n)).parts #[] [] { entries := #[], root := 1 } =
      .ok (resultAhead n).parts := by
    rw [ofCalls_resultBehind]
    with_unfolding_all rfl
  rw [build, hparts]
  exact Program.create_parts (resultAhead n)

/-- Behind as many bytes as there are addresses, the result starts at address 0. -/
theorem not_assembled_resultBehind :
    let calls := resultBehind (0x100000000)
    let p := resultAhead (0x100000000)
    Refused calls ∧ ((ofCalls calls).build #[] [] { entries := #[], root := 1 }).1 = .ok p ∧
      offsetsOf (Call.starts .result) calls = [0x100000000] ∧ p.offsets .result = #[0] ∧
      ¬ Assembled calls p := by
  intro calls p
  have hstarts : offsetsOf (Call.starts .result) calls = [0x100000000] := starts_resultBehind _
  have hresults : p.offsets .result = #[0] := rfl
  refine ⟨refused_resultBehind _, build_resultBehind _, hstarts, hresults, fun h => ?_⟩
  have hbodies := h.bodies .result
  rw [hresults, hstarts] at hbodies
  exact absurd hbodies (by decide)

end EndpointRules.Assembler
