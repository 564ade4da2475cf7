import EndpointRules.Image.Constant
import EndpointRules.Proofs.Image.Canonical
import EndpointRules.Proofs.Sink

/-!
# Writing of constants

The writer of constants accepts the values that fit and appends the bytes of their forms.
-/

namespace EndpointRules

namespace Image

theorem appends_string : Sink.Appends writeString (·.length ≤ 0xFFFF) Word.sized := by
  intro out s out'
  unfold writeString
  split
  · next hlong =>
    constructor
    · intro h
      cases h
    · rintro ⟨hshort, -⟩
      exact absurd hlong (Nat.not_lt.2 hshort)
  · next hshort =>
    rw [Except.ok.injEq, Sink.string_eq_raw, eq_comm]
    exact ⟨fun h => ⟨Nat.le_of_not_lt hshort, h⟩, fun h => h.2⟩

theorem writeCount_eq_ok_iff {out out' : Sink} {what : Counted} {count : Nat} :
    writeCount out what count = .ok out' ↔
      count ≤ 0xFFFF ∧ out' = out.raw (Word.bytes 2 count) := by
  unfold writeCount
  split
  · next hlarge =>
    constructor
    · intro h
      cases h
    · rintro ⟨hsmall, -⟩
      exact absurd hlarge (Nat.not_lt.2 hsmall)
  · next hsmall =>
    rw [Except.ok.injEq, eq_comm]
    exact ⟨fun h => ⟨Nat.le_of_not_lt hsmall, h⟩, fun h => h.2⟩

/-- Writes a part of a template. -/
def writePart (out : Sink) : TemplatePart → Except CompileError Sink
  | .slot => .ok (out.u8 1)
  | .text s => writeString (out.u8 0) s

theorem appends_part : Sink.Appends writePart (fun part => (PartForm.ofPart part).Fits)
    fun part => (PartForm.ofPart part).bytes := by
  intro out part out'
  cases part with
  | slot =>
    rw [writePart, Except.ok.injEq, eq_comm]
    exact ⟨fun h => ⟨(by decide : (1 : UInt8) ≠ 0), h⟩, fun h => h.2⟩
  | text s =>
    rw [writePart, appends_string, Sink.u8_eq_raw, Sink.raw_raw]
    rfl

theorem writeParts_eq_foldlM (parts : List TemplatePart) (out : Sink) :
    writeParts parts out = parts.foldlM writePart out := by
  induction parts generalizing out with
  | nil => rfl
  | cons part rest ih =>
    rw [List.foldlM_cons]
    cases part with
    | slot => exact ih _
    | text s =>
      rw [writeParts, writePart]
      split
      · next e he => rw [he]; rfl
      · next out₁ hout₁ => rw [hout₁]; exact ih out₁

theorem writeItems_eq_foldlM (depth : Nat) (items : List Value) (out : Sink) :
    writeItems depth items out =
      items.foldlM (fun out v => writeConstant (depth + 1) v out) out := by
  induction items generalizing out with
  | nil => rw [writeItems]; rfl
  | cons v rest ih =>
    rw [writeItems, List.foldlM_cons]
    split
    · next e he => rw [he]; rfl
    · next out₁ hout₁ => rw [hout₁]; exact ih out₁

/-- Writes an entry of a map that `depth` containers enclose. -/
def writeEntry (depth : Nat) (out : Sink) (e : Bytes × Value) : Except CompileError Sink := do
  let out ← writeString out e.1
  writeConstant (depth + 1) e.2 out

theorem writeEntries_eq_foldlM (depth : Nat) (entries : List (Bytes × Value)) (out : Sink) :
    writeEntries depth entries out = entries.foldlM (writeEntry depth) out := by
  induction entries generalizing out with
  | nil => rw [writeEntries]; rfl
  | cons e rest ih =>
    rw [writeEntries, List.foldlM_cons, writeEntry]
    split
    · next e he => rw [he]; rfl
    · next out₁ hout₁ =>
      rw [hout₁]
      split
      · next e he => simp only [bind, Except.bind, he]
      · next out₂ hout₂ =>
        simp only [bind, Except.bind, hout₂]
        exact ih out₂

theorem appends_entry {depth : Nat} {fits : Value → Prop} {bytes : Value → Bytes}
    (h : Sink.Appends (fun out v => writeConstant (depth + 1) v out) fits bytes) :
    Sink.Appends (writeEntry depth) (fun e => e.1.length ≤ 0xFFFF ∧ fits e.2)
      fun e => Word.sized e.1 ++ bytes e.2 := by
  intro out e out'
  rw [writeEntry, Except.bind_eq_ok_iff]
  constructor
  · rintro ⟨out₁, hout₁, hout'⟩
    obtain ⟨hkey, rfl⟩ := (appends_string out e.1 out₁).1 hout₁
    obtain ⟨hvalue, rfl⟩ := (h _ e.2 out').1 hout'
    exact ⟨⟨hkey, hvalue⟩, Sink.raw_raw _ _ _⟩
  · rintro ⟨⟨hkey, hvalue⟩, rfl⟩
    exact ⟨_, (appends_string out e.1 _).2 ⟨hkey, rfl⟩,
      (h _ e.2 _).2 ⟨hvalue, (Sink.raw_raw _ _ _).symm⟩⟩

/-- Writing a collection: its tag and count, and then what is in it. -/
theorem counted_eq_ok_iff {α : Type} {write : Sink → α → Except CompileError Sink}
    {fits : α → Prop} {bytes : α → Bytes} (h : Sink.Appends write fits bytes)
    (tag : UInt8) (what : Counted) (xs : List α) (out out' : Sink) :
    (writeCount (out.u8 tag) what xs.length >>= fun out => xs.foldlM write out) = .ok out' ↔
      (xs.length ≤ 0xFFFF ∧ ∀ x ∈ xs, fits x) ∧
        out' = out.raw (tag :: (Word.bytes 2 xs.length ++ xs.flatMap bytes)) := by
  rw [Except.bind_eq_ok_iff]
  constructor
  · rintro ⟨out₁, hout₁, hout'⟩
    obtain ⟨hcount, rfl⟩ := writeCount_eq_ok_iff.1 hout₁
    obtain ⟨hxs, rfl⟩ := (h.foldlM xs _ out').1 hout'
    refine ⟨⟨hcount, hxs⟩, ?_⟩
    rw [Sink.u8_eq_raw, Sink.raw_raw, Sink.raw_raw]
    rfl
  · rintro ⟨⟨hcount, hxs⟩, rfl⟩
    refine ⟨_, writeCount_eq_ok_iff.2 ⟨hcount, rfl⟩, (h.foldlM xs _ _).2 ⟨hxs, ?_⟩⟩
    rw [Sink.u8_eq_raw, Sink.raw_raw, Sink.raw_raw]
    rfl

section

variable {depth : Nat} (hdepth : ¬ maxConstantDepth < depth)

include hdepth

theorem writeConstant_list (items : List Value) (out : Sink) :
    writeConstant depth (.list items) out = (writeCount (out.u8 4) .list items.length >>=
      fun out => items.foldlM (fun out v => writeConstant (depth + 1) v out) out) := by
  rw [writeConstant, if_neg hdepth]
  split
  · next e he => rw [he]; rfl
  · next out₁ hout₁ => rw [hout₁]; exact writeItems_eq_foldlM depth items out₁

theorem writeConstant_map (entries : List (Bytes × Value)) (out : Sink) :
    writeConstant depth (.map entries) out = (writeCount (out.u8 5) .map entries.length >>=
      fun out => entries.foldlM (writeEntry depth) out) := by
  rw [writeConstant, if_neg hdepth]
  split
  · next e he => rw [he]; rfl
  · next out₁ hout₁ => rw [hout₁]; exact writeEntries_eq_foldlM depth entries out₁

theorem writeConstant_template (parts : List TemplatePart) (out : Sink) :
    writeConstant depth (.template parts) out = (writeCount (out.u8 6) .template parts.length >>=
      fun out => parts.foldlM writePart out) := by
  rw [writeConstant, if_neg hdepth]
  split
  · next e he => rw [he]; rfl
  · next out₁ hout₁ => rw [hout₁]; exact writeParts_eq_foldlM parts out₁

end

/-- The writer writes the values that fit, each in its canonical form. -/
theorem appends_constant {levels depth : Nat} (hlevels : depth + levels = maxConstantDepth + 1) :
    Sink.Appends (fun out v => writeConstant depth v out) (Value.Fits levels)
      fun v => (Form.ofValue v).bytes := by
  induction levels generalizing depth with
  | zero =>
    intro out v out'
    dsimp only
    rw [writeConstant.eq_def, if_pos (by omega)]
    constructor
    · intro h
      cases h
    · rintro ⟨h, -⟩
      exact h.elim
  | succ levels ih =>
    have hdeeper : Sink.Appends (fun out v => writeConstant (depth + 1) v out) (Value.Fits levels)
        fun v => (Form.ofValue v).bytes := ih (by omega)
    have hdepth : ¬ maxConstantDepth < depth := by omega
    intro out v out'
    dsimp only
    cases v with
    | null =>
      rw [writeConstant, if_neg hdepth, Except.ok.injEq, eq_comm]
      exact ⟨fun h => ⟨⟨trivial, trivial⟩, h⟩, fun h => h.2⟩
    | string s =>
      rw [writeConstant, if_neg hdepth, appends_string, Sink.u8_eq_raw, Sink.raw_raw]
      exact ⟨fun h => ⟨⟨h.1, trivial⟩, h.2⟩, fun h => ⟨h.1.1, h.2⟩⟩
    | integer n =>
      rw [writeConstant, if_neg hdepth]
      split
      · next hlarge =>
        simp only [Bool.or_eq_true, decide_eq_true_eq] at hlarge
        constructor
        · intro h
          cases h
        · rintro ⟨⟨⟨hleast, hgreatest⟩, -⟩, -⟩
          omega
      · next hsmall =>
        simp only [Bool.or_eq_true, decide_eq_true_eq] at hsmall
        rw [Except.ok.injEq, eq_comm]
        exact ⟨fun h => ⟨⟨⟨by omega, by omega⟩, trivial⟩, h⟩, fun h => h.2⟩
    | boolean b =>
      rw [writeConstant, if_neg hdepth, Except.ok.injEq, eq_comm]
      exact ⟨fun h => ⟨⟨trivial, trivial⟩, h⟩, fun h => h.2⟩
    | list items =>
      rw [writeConstant_list hdepth, counted_eq_ok_iff hdeeper, Form.ofValue, Form.ofItems_eq,
        Form.bytes, Form.bytesOfItems_eq, List.length_map, List.flatMap_map]
      exact Iff.rfl
    | map entries =>
      rw [writeConstant_map hdepth, counted_eq_ok_iff (appends_entry hdeeper), Form.ofValue,
        Form.ofEntries_eq, Form.bytes, Form.bytesOfEntries_eq, List.length_map, List.flatMap_map]
      refine and_congr ?_ Iff.rfl
      constructor
      · rintro ⟨hcount, hentries⟩
        exact ⟨⟨hcount, fun e he => (hentries e he).1⟩, fun e he => (hentries e he).2⟩
      · rintro ⟨⟨hcount, hkeys⟩, hvalues⟩
        exact ⟨hcount, fun e he => ⟨hkeys e he, hvalues e he⟩⟩
    | template parts =>
      rw [writeConstant_template hdepth, counted_eq_ok_iff appends_part, Form.ofValue,
        Form.bytes, List.length_map, List.flatMap_map]
      refine and_congr ?_ Iff.rfl
      constructor
      · rintro ⟨hcount, hparts⟩
        exact ⟨⟨hcount, fun s hs => hparts _ hs⟩, trivial⟩
      · rintro ⟨⟨hcount, htexts⟩, -⟩
        exact ⟨hcount, fun part hpart => PartForm.fits_ofPart fun s hs => htexts s (hs ▸ hpart)⟩
    | uri u =>
      rw [writeConstant, if_neg hdepth]
      constructor
      · intro h
        cases h
      · rintro ⟨⟨hsmall, -⟩, -⟩
        exact hsmall.elim

end Image

end EndpointRules
