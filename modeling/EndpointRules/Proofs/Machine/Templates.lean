import EndpointRules.Proofs.Machine.StackEffects
import EndpointRules.Proofs.Machine.Straight

/-!
# Filling templates

A template is filled with strings from the stack: it gives its parts in order, with the strings in
the order of their pushes in the place of its slots.  The instruction completes exactly if it asks
for as many operands as the template has slots, finds them, and finds strings only; so there is a
string for every slot.
-/

namespace EndpointRules

/-! ## Templates and strings -/

namespace Value

/-- What the part of a template at a place stands for: its own text, or for a slot the string that
    has as many strings before it as there are slots before the part. -/
def piece? (parts : List TemplatePart) (strings : List Bytes) (place : Nat) : Option Bytes :=
  match parts[place]? with
  | some (.text s) => some s
  | some .slot => strings[slotCount (parts.take place)]?
  | none => none

/-- The text consists of the parts of a template in order, every slot being replaced by its
    string. -/
def Interleaves (parts : List TemplatePart) (strings : List Bytes) (text : Bytes) : Prop :=
  ∃ pieces : List Bytes, text = pieces.flatten ∧ pieces.length = parts.length ∧
    ∀ place, pieces[place]? = piece? parts strings place

variable {parts parts' : List TemplatePart} {strings strings' : List Bytes} {text text' s : Bytes}

theorem slotCount_append (parts parts' : List TemplatePart) :
    slotCount (parts ++ parts') = slotCount parts + slotCount parts' :=
  List.countP_append

theorem slotCount_slot_cons (parts : List TemplatePart) :
    slotCount (.slot :: parts) = slotCount parts + 1 :=
  List.countP_cons_of_pos rfl

/-- A slot has fewer slots before it than the template has. -/
theorem slotCount_take_lt {place : Nat} (h : parts[place]? = some .slot) :
    slotCount (parts.take place) < slotCount parts := by
  obtain ⟨hplace, hslot⟩ := List.getElem?_eq_some_iff.1 h
  have hsplit : parts = parts.take place ++ .slot :: parts.drop (place + 1) := by
    rw [← hslot, ← List.drop_eq_getElem_cons hplace, List.take_append_drop]
  have hcount := congrArg slotCount hsplit
  rw [slotCount_append, slotCount_slot_cons] at hcount
  omega

theorem piece?_append_left (hcount : strings.length = slotCount parts) {place : Nat}
    (h : place < parts.length) :
    piece? (parts ++ parts') (strings ++ strings') place = piece? parts strings place := by
  unfold piece?
  rw [List.getElem?_append_left h]
  split
  · rfl
  · next hslot =>
    rw [List.take_append_of_le_length (Nat.le_of_lt h),
      List.getElem?_append_left (hcount ▸ slotCount_take_lt hslot)]
  · rfl

theorem piece?_append_right (hcount : strings.length = slotCount parts) (place : Nat) :
    piece? (parts ++ parts') (strings ++ strings') (parts.length + place) =
      piece? parts' strings' place := by
  unfold piece?
  rw [List.getElem?_append_right (Nat.le_add_right _ _), Nat.add_sub_cancel_left]
  split
  · rfl
  · rw [List.take_length_add_append, slotCount_append, ← hcount,
      List.getElem?_append_right (Nat.le_add_right _ _), Nat.add_sub_cancel_left]
  · rfl

theorem interleaves_nil : Interleaves [] [] [] :=
  ⟨[], rfl, rfl, fun _ => rfl⟩

theorem interleaves_text (s : Bytes) : Interleaves [.text s] [] s := by
  refine ⟨[s], by simp, rfl, ?_⟩
  intro place
  cases place <;> rfl

theorem interleaves_slot (s : Bytes) : Interleaves [.slot] [s] s := by
  refine ⟨[s], by simp, rfl, ?_⟩
  intro place
  cases place <;> rfl

/-- Templates that stand one behind the other are filled one after the other. -/
theorem Interleaves.append (h : Interleaves parts strings text)
    (hcount : strings.length = slotCount parts) (h' : Interleaves parts' strings' text') :
    Interleaves (parts ++ parts') (strings ++ strings') (text ++ text') := by
  obtain ⟨pieces, rfl, hlength, hpieces⟩ := h
  obtain ⟨pieces', rfl, hlength', hpieces'⟩ := h'
  refine ⟨pieces ++ pieces', by simp, by simp [hlength, hlength'], ?_⟩
  intro place
  by_cases hplace : place < parts.length
  · rw [piece?_append_left hcount hplace, List.getElem?_append_left (hlength ▸ hplace), hpieces]
  · obtain ⟨offset, rfl⟩ := Nat.exists_eq_add_of_le (Nat.le_of_not_lt hplace)
    rw [piece?_append_right hcount, ← hlength, List.getElem?_append_right (Nat.le_add_right _ _),
      Nat.add_sub_cancel_left, hpieces']

theorem Interleaves.unique (h : Interleaves parts strings text)
    (h' : Interleaves parts strings text') : text = text' := by
  obtain ⟨pieces, rfl, -, hpieces⟩ := h
  obtain ⟨pieces', rfl, -, hpieces'⟩ := h'
  obtain rfl : pieces = pieces' :=
    List.ext_getElem? fun place => (hpieces place).trans (hpieces' place).symm
  rfl

end Value

/-! ## The instruction -/

namespace Setting

open Exec Value

variable {parts parts' : List TemplatePart} {strings strings' : List Bytes} {text text' : Bytes}

/-- The instruction that fills a template, as it is written in code. -/
def resolving (count high low : UInt8) : Written := ⟨.resolveTemplate, [count, high, low], rfl⟩

/-- Two bytes of an index stand for a constant that is a template. -/
def TemplateAt (s : Setting) (high low : UInt8) (parts : List TemplatePart) : Prop :=
  s.program.parts.constants[high.toNat * 256 + low.toNat]? = some (.template parts)

/-- The instruction takes the strings off the stack, the last one from the top, pushes the text in
    their place and goes on with the next instruction. -/
def Resolves (s : Setting) (count high low : UInt8) (strings : List Bytes) (text : Bytes) : Prop :=
  ∀ f rest, f.stack.items = (strings.map Value.string).reverse ++ rest →
    ∃ g, s.perform (resolving count high low).instruction f = (.ok .next, g) ∧
      g.stack.items = .string text :: rest

variable {s : Setting} {count high low : UInt8} {f : Frame}

theorem perform_resolving (h : s.TemplateAt high low parts) (count : UInt8) (f : Frame) :
    s.perform (resolving count high low).instruction f =
      if slotCount parts ≠ count.toNat then
        (.error (.templateArity (slotCount parts) count.toNat), f)
      else if f.stack.items.length < count.toNat then (.error .stackUnderflow, f)
      else
        match fillTemplate 0 parts (f.stack.items.take count.toNat).reverse with
        | .ok text =>
          (.ok .next, { f with stack := (f.stack.drop count.toNat).push (.string text) })
        | .error fault => (.error fault, { f with stack := f.stack.drop count.toNat }) := by
  have hinstruction : (resolving count high low).instruction =
      .resolveTemplate count.toNat (high.toNat * 256 + low.toNat) := rfl
  have hconstant : constant s.program (high.toNat * 256 + low.toNat) = pure (.template parts) := by
    rw [constant, h]
  rw [hinstruction]
  simp only [perform, resolveTemplate, hconstant]
  by_cases hcount : slotCount parts = count.toNat
  · by_cases hfew : f.stack.items.length < count.toNat
    · simp [hcount, hfew, bind_apply, pure_apply, popMany_eq]
    · cases hfill : fillTemplate 0 parts (f.stack.items.take count.toNat).reverse with
      | ok text => simp [hcount, hfew, hfill, bind_apply, pure_apply, popMany_eq, result, push]
      | error fault => simp [hcount, hfew, hfill, bind_apply, pure_apply, popMany_eq, result]
  · simp [hcount, bind_apply, pure_apply, fail]

/-- A template is filled if there is a string for each of its slots. -/
theorem exists_fillTemplate_eq (place : Nat) (h : slotCount parts = strings.length) :
    ∃ text, fillTemplate place parts (strings.map .string) = .ok text ∧
      Interleaves parts strings text := by
  induction parts generalizing strings place with
  | nil =>
    obtain rfl : strings = [] := List.length_eq_zero_iff.1 h.symm
    exact ⟨[], rfl, interleaves_nil⟩
  | cons part parts ih =>
    cases part with
    | text s =>
      have hcount : slotCount parts = strings.length := h
      obtain ⟨text, hfill, htext⟩ := ih place hcount
      exact ⟨s ++ text, by rw [fillTemplate, hfill]; rfl, (interleaves_text s).append rfl htext⟩
    | slot =>
      rw [slotCount_slot_cons] at h
      cases strings with
      | nil => cases h
      | cons s strings =>
        obtain ⟨text, hfill, htext⟩ := ih (place + 1) (Nat.succ.inj h)
        exact ⟨s ++ text, by rw [List.map_cons, fillTemplate, hfill]; rfl,
          (interleaves_slot s).append rfl htext⟩

/-- A template with as many slots as arguments is filled with strings only. -/
theorem exists_strings_of_fillTemplate {place : Nat} {arguments : List Value}
    (hcount : slotCount parts = arguments.length)
    (h : fillTemplate place parts arguments = .ok text) :
    ∃ strings : List Bytes, arguments = strings.map .string := by
  induction parts generalizing arguments place text with
  | nil => exact ⟨[], List.length_eq_zero_iff.1 hcount.symm⟩
  | cons part parts ih =>
    cases part with
    | text s =>
      rw [fillTemplate] at h
      obtain ⟨text, hfill, -⟩ := Except.map_eq_ok_iff.1 h
      exact ih hcount hfill
    | slot =>
      rw [slotCount_slot_cons] at hcount
      cases arguments with
      | nil => cases hcount
      | cons v arguments =>
        cases v with
        | string s =>
          rw [fillTemplate] at h
          obtain ⟨text, hfill, -⟩ := Except.map_eq_ok_iff.1 h
          obtain ⟨strings, rfl⟩ := ih (Nat.succ.inj hcount) hfill
          exact ⟨s :: strings, rfl⟩
        | _ => cases h

/-- With enough strings on the stack the instruction replaces them by the template that is filled
    with them. -/
theorem exists_resolves (h : s.TemplateAt high low parts) (hcount : count.toNat = slotCount parts)
    (hlength : strings.length = count.toNat) :
    ∃ text, s.Resolves count high low strings text ∧ Interleaves parts strings text := by
  obtain ⟨text, hfill, htext⟩ := exists_fillTemplate_eq 0 (hcount.symm.trans hlength.symm)
  refine ⟨text, ?_, htext⟩
  intro f rest hitems
  have hreverse : (strings.map Value.string).reverse.length = count.toNat := by simp [hlength]
  have hfew : ¬ f.stack.items.length < count.toNat := by
    rw [hitems, List.length_append]
    omega
  rw [perform_resolving h, if_neg (not_not.2 hcount.symm), if_neg hfew, hitems,
    List.take_left' hreverse, List.reverse_reverse, hfill]
  refine ⟨_, rfl, ?_⟩
  rw [Stack.items_push, Stack.drop, hitems, List.drop_left' hreverse]

/-- What the instruction finds and does when it completes. -/
theorem exists_of_perform_resolving {g : Frame} {control : Control}
    (h : s.TemplateAt high low parts)
    (hperform : s.perform (resolving count high low).instruction f = (.ok control, g)) :
    count.toNat = slotCount parts ∧ ∃ (strings : List Bytes) (rest : List Value),
      strings.length = count.toNat ∧
        f.stack.items = (strings.map Value.string).reverse ++ rest := by
  rw [perform_resolving h] at hperform
  split at hperform
  · cases hperform
  · next hcount =>
    rw [not_not] at hcount
    split at hperform
    · cases hperform
    · next hfew =>
      split at hperform
      · next text hfill =>
        have hlength : (f.stack.items.take count.toNat).reverse.length = count.toNat := by
          rw [List.length_reverse, List.length_take]
          omega
        obtain ⟨strings, hstrings⟩ :=
          exists_strings_of_fillTemplate (hcount.trans hlength.symm) hfill
        refine ⟨hcount.symm, strings, f.stack.items.drop count.toNat, ?_, ?_⟩
        · rw [← hlength, hstrings, List.length_map]
        · rw [← hstrings, List.reverse_reverse, List.take_append_drop]
      · cases hperform

/-- The strings that the instruction replaces are as many as the template has slots, and the text
    that it pushes is the template filled with them. -/
theorem Resolves.interleaves (h : s.TemplateAt high low parts)
    (hresolves : s.Resolves count high low strings text) :
    count.toNat = slotCount parts ∧ strings.length = count.toNat ∧
      Interleaves parts strings text := by
  let f : Frame := { registers := #[], stack := { items := (strings.map Value.string).reverse } }
  obtain ⟨g, hperform, hg⟩ := hresolves f [] (List.append_nil _).symm
  obtain ⟨hcount, strings', rest, hlength, hitems⟩ := exists_of_perform_resolving h hperform
  obtain ⟨text', hresolves', htext'⟩ := exists_resolves h hcount hlength
  obtain ⟨g', hperform', hg'⟩ := hresolves' f rest hitems
  rw [hperform] at hperform'
  cases hperform'
  rw [hg] at hg'
  cases hg'
  have hstrings : strings = strings' := by
    rw [List.append_nil, List.reverse_inj] at hitems
    exact List.map_injective_iff.2 (fun _ _ => Value.string.inj) hitems
  exact ⟨hcount, hstrings ▸ hlength, hstrings ▸ htext'⟩

/-- Filling a template.  The instruction completes exactly if its count is the number of slots, that
    many operands are on the stack and all of them are strings.  It then replaces them by the parts
    of the template in order, with the strings in the order of their pushes in the place of the
    slots.  It runs out of operands only on a stack that holds fewer than it counts, so it never
    lacks a string for a slot.  A template that consists of two others, filled with the strings of
    both, gives the text of the one and then the text of the other. -/
theorem resolving_interleaves (h : s.TemplateAt high low parts) (count : UInt8) :
    (∀ f, (∃ control g, s.perform (resolving count high low).instruction f = (.ok control, g)) ↔
      count.toNat = slotCount parts ∧ ∃ (strings : List Bytes) (rest : List Value),
        strings.length = count.toNat ∧
          f.stack.items = (strings.map Value.string).reverse ++ rest) ∧
    (count.toNat = slotCount parts → ∀ strings : List Bytes, strings.length = count.toNat →
      ∃ text, s.Resolves count high low strings text ∧ Interleaves parts strings text) ∧
    (∀ f fault g, s.perform (resolving count high low).instruction f = (.error fault, g) →
      fault.kind = .stackUnderflow → f.stack.items.length < count.toNat) ∧
    ∀ parts' high' low' count' high₂ low₂ count₂ strings strings' text text',
      s.TemplateAt high' low' parts' → s.TemplateAt high₂ low₂ (parts ++ parts') →
      count₂.toNat = slotCount (parts ++ parts') →
      s.Resolves count high low strings text → s.Resolves count' high' low' strings' text' →
      s.Resolves count₂ high₂ low₂ (strings ++ strings') (text ++ text') := by
  refine ⟨?_, fun hcount strings hlength => exists_resolves h hcount hlength, ?_, ?_⟩
  · intro f
    constructor
    · intro ⟨control, g, hperform⟩
      exact exists_of_perform_resolving h hperform
    · intro ⟨hcount, strings, rest, hlength, hitems⟩
      obtain ⟨text, hresolves, -⟩ := exists_resolves h hcount hlength
      obtain ⟨g, hperform, -⟩ := hresolves f rest hitems
      exact ⟨_, g, hperform⟩
  · intro f fault g hperform hkind
    exact (s.stack_perform _ f).2 fault g hperform hkind
  · intro parts' high' low' count' high₂ low₂ count₂ strings strings' text text' h' h₂ hcount₂
      hresolves hresolves'
    obtain ⟨hcount, hlength, htext⟩ := hresolves.interleaves h
    obtain ⟨hcount', hlength', htext'⟩ := hresolves'.interleaves h'
    have hlength₂ : (strings ++ strings').length = count₂.toNat := by
      rw [List.length_append, hcount₂, slotCount_append]
      omega
    obtain ⟨text₂, hresolves₂, htext₂⟩ := exists_resolves h₂ hcount₂ hlength₂
    rwa [(htext.append (hlength.trans hcount) htext').unique htext₂]

/-- A template with neighbouring slots at its start, an empty text, and a slot at its end. -/
def slotted : List TemplatePart := [.slot, .slot, .text [], .text "-", .slot]

/-- A template with texts around a slot. -/
def enclosing : List TemplatePart := [.text "/", .slot, .text "."]

/-- A program without code whose constants are two templates and the one that consists of both. -/
def templated : Program where
  parts := {
    code := #[]
    constants := #[.template slotted, .template enclosing, .template (slotted ++ enclosing)]
    diagram := { entries := #[], root := 1 } }
  starts := []
  starts_eq := by decide
  check_eq := by cbv

/-- The setting of `templated`. -/
def templating : Setting := { program := templated, hooks := [], context := [] }

/-- Four strings fill both templates, and the one that consists of them. -/
theorem resolving_interleaves_templating :
    templating.TemplateAt 0 0 slotted ∧ templating.TemplateAt 0 1 enclosing ∧
    templating.TemplateAt 0 2 (slotted ++ enclosing) ∧
    templating.Resolves 3 0 0 ["a", "b", "c"] "ab-c" ∧
    ∃ text, templating.Resolves 1 0 1 ["d"] text ∧ Interleaves enclosing ["d"] text ∧
      templating.Resolves 4 0 2 ["a", "b", "c", "d"] ("ab-c" ++ text) := by
  have h : templating.TemplateAt 0 0 slotted := by cbv
  have h' : templating.TemplateAt 0 1 enclosing := by cbv
  have h₂ : templating.TemplateAt 0 2 (slotted ++ enclosing) := by cbv
  have hslotted : ∃ text,
      fillTemplate 0 slotted ((["a", "b", "c"] : List Bytes).map .string) = .ok text ∧
        Interleaves slotted ["a", "b", "c"] text := exists_fillTemplate_eq 0 rfl
  obtain ⟨text, heq, htext⟩ := hslotted
  obtain rfl : "ab-c" = text := Except.ok.inj heq
  obtain ⟨-, hfill, -, happend⟩ := resolving_interleaves h 3
  obtain ⟨-, hfill', -, -⟩ := resolving_interleaves h' 1
  obtain ⟨text, hresolves, hinterleaves⟩ := hfill rfl ["a", "b", "c"] rfl
  obtain rfl := hinterleaves.unique htext
  obtain ⟨text', hresolves', htext'⟩ := hfill' rfl ["d"] rfl
  exact ⟨h, h', h₂, hresolves, text', hresolves', htext',
    happend _ _ _ _ _ _ _ _ _ _ _ h' h₂ rfl hresolves hresolves'⟩

end Setting

end EndpointRules
