import EndpointRules.Proofs.Image.Sections

/-!
# Uniqueness of layouts

Everything in an image shows where it ends, and so does the image itself: bytes that start with an
image start with no other, and no image has two layouts.
-/

namespace EndpointRules

namespace Image

open Reading

section

variable {α φ ψ : Type} {fits : φ → Prop} {bytes : φ → Bytes} {fits' : ψ → Prop}
  {bytes' : ψ → Bytes}

/-- Bytes that start with something that fits start with nothing else that does. -/
def SelfDelimiting (fits : φ → Prop) (bytes : φ → Bytes) : Prop :=
  ∀ ⦃f g : φ⦄ ⦃r s : Bytes⦄, fits f → fits g → bytes f ++ r = bytes g ++ s → f = g ∧ r = s

/-- What a reader tells apart shows where it ends. -/
theorem Reading.Reads.selfDelimiting {read : Reading α} {value : φ → α}
    (h : Reads read (Denotes fits bytes value)) (hvalue : ∀ f g, value f = value g → f = g) :
    SelfDelimiting fits bytes := by
  intro f g r s hf hg heq
  let data := (bytes f ++ r).toArray
  have hreadF : read { data } = .ok (value f, { data, position := 0 + (bytes f).length }) :=
    (h data 0 (Nat.zero_le _) _ _).2 ⟨_, r, rfl, ⟨f, hf, rfl, rfl⟩, rfl⟩
  have hreadG : read { data } = .ok (value g, { data, position := 0 + (bytes g).length }) :=
    (h data 0 (Nat.zero_le _) _ _).2 ⟨_, s, heq, ⟨g, hg, rfl, rfl⟩, rfl⟩
  rw [hreadF] at hreadG
  obtain rfl : f = g := hvalue f g (Prod.mk.inj (Except.ok.inj hreadG)).1
  exact ⟨rfl, List.append_cancel_left heq⟩

theorem SelfDelimiting.pair (h : SelfDelimiting fits bytes) (h' : SelfDelimiting fits' bytes') :
    SelfDelimiting (fun e : φ × ψ => fits e.1 ∧ fits' e.2) fun e => bytes e.1 ++ bytes' e.2 := by
  rintro ⟨f, f'⟩ ⟨g, g'⟩ r s ⟨hf, hf'⟩ ⟨hg, hg'⟩ heq
  rw [List.append_assoc, List.append_assoc] at heq
  obtain ⟨hfirst, heq'⟩ := h hf hg heq
  obtain ⟨hsecond, hrest⟩ := h' hf' hg' heq'
  exact ⟨Prod.ext hfirst hsecond, hrest⟩

theorem SelfDelimiting.flatMap (h : SelfDelimiting fits bytes) {fs gs : List φ} {r s : Bytes}
    (hlength : fs.length = gs.length) (hfs : ∀ f ∈ fs, fits f) (hgs : ∀ g ∈ gs, fits g)
    (heq : fs.flatMap bytes ++ r = gs.flatMap bytes ++ s) : fs = gs ∧ r = s := by
  induction fs generalizing gs with
  | nil =>
    obtain rfl := List.eq_nil_of_length_eq_zero hlength.symm
    exact ⟨rfl, heq⟩
  | cons f fs ih =>
    cases gs with
    | nil => cases hlength
    | cons g gs =>
      rw [List.flatMap_cons, List.flatMap_cons, List.append_assoc, List.append_assoc] at heq
      obtain ⟨rfl, heq'⟩ := h (hfs f (by simp)) (hgs g (by simp)) heq
      obtain ⟨rfl, hrest⟩ := ih (Nat.succ.inj hlength)
        (fun x hx => hfs x (List.mem_cons_of_mem _ hx))
        (fun x hx => hgs x (List.mem_cons_of_mem _ hx)) heq'
      exact ⟨rfl, hrest⟩

/-- A collection behind its count. -/
theorem SelfDelimiting.counted (h : SelfDelimiting fits bytes) :
    SelfDelimiting (fun fs : List φ => fs.length ≤ 0xFFFF ∧ ∀ f ∈ fs, fits f)
      fun fs => Word.bytes 2 fs.length ++ fs.flatMap bytes := by
  intro fs gs r s hfs hgs heq
  rw [List.append_assoc, List.append_assoc] at heq
  obtain ⟨hlength, heq'⟩ := reads_u16.selfDelimiting (fun _ _ h => h) hfs.1 hgs.1 heq
  exact h.flatMap hlength hfs.2 hgs.2 heq'

end

theorem selfDelimiting_sized : SelfDelimiting (·.length ≤ 0xFFFF) Word.sized :=
  reads_string.selfDelimiting fun _ _ h => h

theorem selfDelimiting_part : SelfDelimiting PartForm.Fits PartForm.bytes := by
  intro f g r s hf hg heq
  cases f with
  | text a =>
    cases g with
    | text b =>
      obtain ⟨rfl, hrest⟩ := selfDelimiting_sized hf hg (List.cons.inj heq).2
      exact ⟨rfl, hrest⟩
    | slot byte => exact absurd (List.cons.inj heq).1.symm hg
  | slot byte =>
    cases g with
    | text b => exact absurd (List.cons.inj heq).1 hf
    | slot byte' =>
      obtain ⟨rfl, hrest⟩ := List.cons.inj heq
      exact ⟨rfl, hrest⟩

namespace Form

theorem tag_eq_of_ofNat_eq {f g : Form} (h : UInt8.ofNat f.tag = UInt8.ofNat g.tag) :
    f.tag = g.tag := by
  have hf := f.tag_lt
  have hg := g.tag_lt
  have h' := congrArg UInt8.toNat h
  rw [UInt8.toNat_ofNat', UInt8.toNat_ofNat'] at h'
  omega

theorem selfDelimiting (levels : Nat) : SelfDelimiting (Fits levels) bytes := by
  induction levels with
  | zero => exact fun _ _ _ _ hf => hf.elim
  | succ levels ih =>
    intro f g r s hf hg heq
    rw [bytes_eq_cons f, bytes_eq_cons g] at heq
    obtain ⟨hbyte, htail⟩ := List.cons.inj heq
    have htag := tag_eq_of_ofNat_eq hbyte
    cases f with
    | null =>
      cases g with
      | null => exact ⟨rfl, htail⟩
      | _ => simp [tag] at htag
    | string a =>
      cases g with
      | string b =>
        simp only [bytes, List.tail_cons] at htail
        obtain ⟨rfl, hrest⟩ := selfDelimiting_sized hf hg htail
        exact ⟨rfl, hrest⟩
      | _ => simp [tag] at htag
    | integer m =>
      cases g with
      | integer n =>
        simp only [bytes, List.tail_cons] at htail
        obtain ⟨rfl, hrest⟩ := reads_i32.selfDelimiting (fun _ _ h => h) trivial trivial htail
        exact ⟨rfl, hrest⟩
      | _ => simp [tag] at htag
    | boolean a =>
      cases g with
      | boolean b =>
        simp only [bytes, List.tail_cons] at htail
        obtain ⟨rfl, hrest⟩ := List.cons.inj htail
        exact ⟨rfl, hrest⟩
      | _ => simp [tag] at htag
    | list items =>
      cases g with
      | list items' =>
        simp only [bytes, List.tail_cons, bytesOfItems_eq] at htail
        obtain ⟨rfl, hrest⟩ := SelfDelimiting.counted ih hf hg htail
        exact ⟨rfl, hrest⟩
      | _ => simp [tag] at htag
    | map entries =>
      cases g with
      | map entries' =>
        simp only [bytes, List.tail_cons, bytesOfEntries_eq] at htail
        obtain ⟨rfl, hrest⟩ := (selfDelimiting_sized.pair ih).counted hf hg htail
        exact ⟨rfl, hrest⟩
      | _ => simp [tag] at htag
    | template parts =>
      cases g with
      | template parts' =>
        simp only [bytes, List.tail_cons] at htail
        obtain ⟨rfl, hrest⟩ := selfDelimiting_part.counted hf hg htail
        exact ⟨rfl, hrest⟩
      | _ => simp [tag] at htag

end Form

theorem selfDelimiting_option {φ : Type} {fits : φ → Prop} {bytes : φ → Bytes}
    (h : SelfDelimiting fits bytes) :
    SelfDelimiting (fun f : Option (UInt8 × φ) => ∀ x ∈ f, x.1 ≠ 0 ∧ fits x.2)
      (optionBytes bytes) := by
  intro f g r s hf hg heq
  cases f with
  | none =>
    cases g with
    | none => exact ⟨rfl, (List.cons.inj heq).2⟩
    | some y => exact absurd (List.cons.inj heq).1.symm (hg y rfl).1
  | some x =>
    cases g with
    | none => exact absurd (List.cons.inj heq).1 (hf x rfl).1
    | some y =>
      obtain ⟨hflag, htail⟩ := List.cons.inj heq
      obtain ⟨hvalue, hrest⟩ := h (hf x rfl).2 (hg y rfl).2 htail
      exact ⟨congrArg some (Prod.ext hflag hvalue), hrest⟩

theorem selfDelimiting_register : SelfDelimiting RegisterForm.Fits RegisterForm.bytes := by
  intro f g r s hf hg heq
  obtain ⟨name, required, temporary, defaultValue, builtin⟩ := f
  obtain ⟨name', required', temporary', defaultValue', builtin'⟩ := g
  simp only [RegisterForm.bytes, List.append_assoc, List.cons_append] at heq
  obtain ⟨rfl, heq₁⟩ := selfDelimiting_sized hf.name hg.name heq
  obtain ⟨rfl, heq₂⟩ := List.cons.inj heq₁
  obtain ⟨rfl, heq₃⟩ := List.cons.inj heq₂
  obtain ⟨rfl, heq₄⟩ := selfDelimiting_option (Form.selfDelimiting _) hf.defaultValue
    hg.defaultValue heq₃
  obtain ⟨rfl, hrest⟩ := selfDelimiting_option selfDelimiting_sized hf.builtin hg.builtin heq₄
  exact ⟨rfl, hrest⟩

theorem selfDelimiting_offset (codeStart : Nat) :
    SelfDelimiting (codeStart + · < 256 ^ 4) (Layout.offsetBytes codeStart) := by
  intro a b r s ha hb heq
  obtain ⟨hsum, hrest⟩ := (reads_word 4).selfDelimiting (fun _ _ h => h) ha hb heq
  exact ⟨Nat.add_left_cancel hsum, hrest⟩

namespace Layout

variable {w w' : Layout}

theorem codeStart_add_lt (hw : w.Fits) {a : Nat} (ha : a < w.code.length) :
    w.codeStart + a < 256 ^ 4 :=
  Nat.lt_trans (Nat.add_lt_add_left ha _) hw.constantPool

/-- An image shows where it ends, whatever follows it. -/
theorem selfDelimiting : SelfDelimiting Fits bytes := by
  intro w w' r s hw hw' h
  simp only [bytes, middle, tail, List.append_assoc] at h
  obtain ⟨hheader, heq₁⟩ := reads_header.selfDelimiting (fun _ _ h => h) (readable_header hw)
    (readable_header hw') h
  simp only [header, Header.mk.injEq] at hheader
  obtain ⟨-, hconditionCount, hresultCount, hregisterCount, hconstantCount, hnameCount, hnodes,
    hroot, hconditionTable, hresultTable, hfunctionTable, hconstantPool, hdiagramTable⟩ := hheader
  have hentryCount : w.entries.length = w'.entries.length := by
    have h₁ := hw.entries
    have h₂ := hw'.entries
    omega
  have hcodeStart : w.codeStart = w'.codeStart := by
    rw [codeStart, codeStart, hdiagramTable, hentryCount]
  have hgap₁ : w.conditionGap.length = w'.conditionGap.length := by
    rw [conditionTable, conditionTable] at hconditionTable
    omega
  have hgap₂ : w.resultGap.length = w'.resultGap.length := by
    rw [resultTable, resultTable] at hresultTable
    omega
  have hgap₃ : w.functionGap.length = w'.functionGap.length := by
    rw [functionTable, functionTable] at hfunctionTable
    omega
  have hcodeLength : w.code.length = w'.code.length := by
    rw [constantPool, constantPool] at hconstantPool
    omega
  rw [hcodeStart] at heq₁
  have hoffsets := selfDelimiting_offset w'.codeStart
  have hinside : ∀ a < w.code.length, w'.codeStart + a < 256 ^ 4 :=
    fun a ha => hcodeStart ▸ codeStart_add_lt hw ha
  have hinside' : ∀ a < w'.code.length, w'.codeStart + a < 256 ^ 4 :=
    fun a ha => codeStart_add_lt hw' ha
  obtain ⟨hconditionGap, heq₂⟩ := List.append_inj heq₁ hgap₁
  obtain ⟨hconditions, heq₃⟩ := hoffsets.flatMap hconditionCount
    (fun a ha => hinside a (hw.conditions a ha)) (fun a ha => hinside' a (hw'.conditions a ha)) heq₂
  obtain ⟨hresultGap, heq₄⟩ := List.append_inj heq₃ hgap₂
  obtain ⟨hresults, heq₅⟩ := hoffsets.flatMap hresultCount
    (fun a ha => hinside a (hw.results a ha)) (fun a ha => hinside' a (hw'.results a ha)) heq₄
  obtain ⟨hfunctionGap, heq₆⟩ := List.append_inj heq₅ hgap₃
  obtain ⟨hnames, heq₇⟩ := selfDelimiting_sized.flatMap hnameCount hw.names hw'.names heq₆
  obtain ⟨hregisters, heq₈⟩ :=
    selfDelimiting_register.flatMap hregisterCount hw.registers hw'.registers heq₇
  obtain ⟨hentries, heq₉⟩ := (reads_i32.selfDelimiting fun _ _ h => h).flatMap hentryCount
    (fun _ _ => trivial) (fun _ _ => trivial) heq₈
  obtain ⟨hcode, heq₁₀⟩ := List.append_inj heq₉ hcodeLength
  obtain ⟨hconstants, hrest⟩ := (Form.selfDelimiting _).flatMap hconstantCount hw.constants
    hw'.constants heq₁₀
  refine ⟨?_, hrest⟩
  cases w
  cases w'
  exact (Layout.mk.injEq ..).mpr ⟨hroot, hconditionGap, hconditions, hresultGap, hresults,
    hfunctionGap, hnames, hregisters, hentries, hcode, hconstants⟩

/-- No image has two layouts. -/
theorem eq_of_bytes_eq (hw : w.Fits) (hw' : w'.Fits) (h : w.bytes = w'.bytes) : w = w' :=
  (selfDelimiting hw hw' (congrArg (· ++ []) h)).1

end Layout

end Image

end EndpointRules
