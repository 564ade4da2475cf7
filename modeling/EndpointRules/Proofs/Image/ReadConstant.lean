import EndpointRules.Proofs.Image.Form
import EndpointRules.Proofs.Image.Reading

/-!
# Reading of constants

The reader of constants accepts the bytes of the forms that fit and returns their values.
-/

namespace EndpointRules

namespace Image

open Reading

section

variable {α β φ : Type} {read : Reading α} {fits : φ → Prop} {bytes : φ → Bytes} {value : φ → α}

theorem reads_bind_pure (h : Reads read (Denotes fits bytes value)) (g : α → β) :
    Reads (read >>= fun x => pure (g x)) (Denotes fits bytes fun f => g (value f)) := by
  refine (h.bind fun x => reads_pure (g x)).congr fun b y => ?_
  constructor
  · rintro ⟨_, _, _, rfl, ⟨f, hf, rfl, rfl⟩, rfl, rfl⟩
    exact ⟨f, hf, by simp, rfl⟩
  · rintro ⟨f, hf, rfl, rfl⟩
    exact ⟨_, [], _, by simp, ⟨f, hf, rfl, rfl⟩, rfl, rfl⟩

/-- Things behind their number in two bytes. -/
theorem reads_counted (h : Reads read (Denotes fits bytes value)) (g : List α → β) :
    Reads (do
        let count ← checked Source.u16
        return g (← readMany read count #[]).toList)
      (Denotes (fun fs : List φ => fs.length ≤ 0xFFFF ∧ ∀ f ∈ fs, fits f)
        (fun fs => Word.bytes 2 fs.length ++ fs.flatMap bytes) fun fs => g (fs.map value)) := by
  refine (reads_u16.bind fun count => (reads_readMany h count #[]).bind fun xs =>
    reads_pure (g xs.toList)).congr fun b y => ?_
  constructor
  · rintro ⟨_, _, _, rfl, ⟨count, hcount, rfl, rfl⟩, _, _, _, rfl, ⟨fs, hlength, hfs, rfl, rfl⟩,
      rfl, rfl⟩
    obtain rfl : fs.length = count := hlength
    exact ⟨fs, ⟨hcount, hfs⟩, by simp, by simp⟩
  · rintro ⟨fs, ⟨hcount, hfs⟩, rfl, rfl⟩
    exact ⟨_, _, _, rfl, ⟨_, hcount, rfl, rfl⟩, _, [], _, by simp, ⟨fs, rfl, hfs, rfl, rfl⟩, rfl,
      by simp⟩

theorem reads_entry {read : Reading Value} {value : φ → Value}
    (h : Reads read (Denotes fits bytes value)) :
    Reads (readEntry read)
      (Denotes (fun e : Bytes × φ => e.1.length ≤ 0xFFFF ∧ fits e.2)
        (fun e => Word.sized e.1 ++ bytes e.2) fun e => (e.1, value e.2)) := by
  refine (reads_string.bind fun key => reads_bind_pure h (Prod.mk key)).congr fun b e => ?_
  constructor
  · rintro ⟨_, _, _, rfl, ⟨key, hkey, rfl, rfl⟩, ⟨f, hf, rfl, rfl⟩⟩
    exact ⟨(key, f), ⟨hkey, hf⟩, rfl, rfl⟩
  · rintro ⟨⟨key, f⟩, ⟨hkey, hf⟩, rfl, rfl⟩
    exact ⟨_, _, _, rfl, ⟨key, hkey, rfl, rfl⟩, ⟨f, hf, rfl, rfl⟩⟩

end

theorem reads_part : Reads readPart (Denotes PartForm.Fits PartForm.bytes PartForm.value) := by
  have hbranch : ∀ byte : Nat, Reads
      (if byte != 0 then pure .slot else checked Source.string >>= fun s => pure (.text s))
      fun b part => if byte ≠ 0 then b = [] ∧ part = .slot
        else ∃ s : Bytes, s.length ≤ 0xFFFF ∧ Word.sized s = b ∧ TemplatePart.text s = part := by
    intro byte
    by_cases hbyte : byte = 0
    · simp only [hbyte, bne_self_eq_false, Bool.false_eq_true, if_false, ne_eq, not_true]
      exact reads_bind_pure reads_string TemplatePart.text
    · simp only [bne_iff_ne, ne_eq, hbyte, not_false_eq_true, if_true]
      exact reads_pure _
  refine (reads_u8.bind hbranch).congr fun b part => ?_
  constructor
  · rintro ⟨_, b₂, _, rfl, ⟨byte, -, rfl, rfl⟩, hpart⟩
    split at hpart
    · next hbyte =>
      obtain ⟨rfl, rfl⟩ := hpart
      refine ⟨.slot byte, ?_, rfl, rfl⟩
      rintro rfl
      exact hbyte rfl
    · next hbyte =>
      obtain ⟨s, hs, rfl, rfl⟩ := hpart
      obtain rfl : byte = 0 := UInt8.toNat_inj.1 (Decidable.not_not.1 hbyte)
      exact ⟨.text s, hs, rfl, rfl⟩
  · rintro ⟨f, hf, rfl, rfl⟩
    cases f with
    | text s => exact ⟨[0], _, 0, rfl, ⟨0, trivial, rfl, rfl⟩, s, hf, rfl, rfl⟩
    | slot byte =>
      refine ⟨[byte], [], byte.toNat, rfl, ⟨byte, trivial, rfl, rfl⟩, ?_⟩
      have hbyte : byte.toNat ≠ 0 := fun h => hf (UInt8.toNat_inj.1 h)
      rw [if_pos hbyte]
      exact ⟨rfl, rfl⟩

namespace Form

/-- The number of the byte that a constant starts with. -/
def tag : Form → Nat
  | null => 0
  | string _ => 1
  | integer _ => 2
  | boolean _ => 3
  | list _ => 4
  | map _ => 5
  | template _ => 6

theorem bytes_eq_cons (f : Form) : f.bytes = UInt8.ofNat f.tag :: f.bytes.tail := by
  cases f <;> simp [bytes, tag]

theorem tag_lt (f : Form) : f.tag < 7 := by
  cases f <;> simp [tag]

/-- The bytes behind the tag of a constant of some levels mean its value. -/
def Tagged (levels tag : Nat) (b : Bytes) (v : Value) : Prop :=
  ∃ f : Form, f.Fits levels ∧ f.tag = tag ∧ f.bytes.tail = b ∧ f.value = v

/-- Bytes mean a constant if they are a tag and what means the constant behind that tag. -/
theorem denotes_iff_tagged {levels : Nat} {b : Bytes} {v : Value} :
    Denotes (Fits levels) bytes value b v ↔ ∃ b₁ b₂ tag, b = b₁ ++ b₂ ∧
      Denotes (fun _ : UInt8 => True) ([·]) UInt8.toNat b₁ tag ∧ Tagged levels tag b₂ v := by
  constructor
  · rintro ⟨f, hf, rfl, rfl⟩
    have htag : (UInt8.ofNat f.tag).toNat = f.tag :=
      UInt8.toNat_ofNat_of_lt' (Nat.lt_trans f.tag_lt (by decide))
    exact ⟨[UInt8.ofNat f.tag], f.bytes.tail, f.tag, f.bytes_eq_cons, ⟨_, trivial, rfl, htag⟩,
      f, hf, rfl, rfl, rfl⟩
  · rintro ⟨_, _, _, rfl, ⟨byte, -, rfl, rfl⟩, f, hf, htag, rfl, rfl⟩
    refine ⟨f, hf, ?_, rfl⟩
    rw [bytes_eq_cons, htag, UInt8.ofNat_toNat]
    rfl

end Form

/-- What is read behind a tag. -/
theorem Reading.Reads.tagged {levels tag : Nat} {read : Reading Value} {φ : Type}
    {fits : φ → Prop} {bytes : φ → Bytes} {value : φ → Value} (form : φ → Form)
    (h : Reads read (Denotes fits bytes value))
    (hform : ∀ x, fits x → (form x).Fits levels ∧ (form x).tag = tag ∧
      (form x).bytes.tail = bytes x ∧ (form x).value = value x)
    (hall : ∀ f : Form, f.Fits levels → f.tag = tag → ∃ x, fits x ∧ form x = f) :
    Reads read (Form.Tagged levels tag) := by
  refine h.congr fun b v => ?_
  constructor
  · rintro ⟨x, hx, rfl, rfl⟩
    exact ⟨form x, hform x hx⟩
  · rintro ⟨f, hf, htag, rfl, rfl⟩
    obtain ⟨x, hx, rfl⟩ := hall f hf htag
    obtain ⟨-, -, hbytes, hvalue⟩ := hform x hx
    exact ⟨x, hx, hbytes.symm, hvalue.symm⟩

theorem reads_constant (levels : Nat) :
    Reads (readConstant levels) (Denotes (Form.Fits levels) Form.bytes Form.value) := by
  induction levels with
  | zero =>
    refine (reads_fail .constantTooDeep).congr fun b v => ?_
    constructor
    · exact False.elim
    · rintro ⟨f, hf, -⟩
      exact hf
  | succ levels ih =>
    refine reads_position fun start => Reads.congr
      (Reads.bind reads_u8 (?_ : ∀ tag, Reads _ (Form.Tagged (levels + 1) tag))) ?_
    · intro tag
      split
      · refine (reads_pure Value.null).congr fun b v => ?_
        constructor
        · rintro ⟨rfl, rfl⟩
          exact ⟨.null, trivial, rfl, rfl, rfl⟩
        · rintro ⟨f, -, htag, rfl, rfl⟩
          cases f <;> cases htag
          exact ⟨rfl, rfl⟩
      · refine (reads_bind_pure reads_string Value.string).tagged Form.string ?_ ?_
        · exact fun s hs => ⟨hs, rfl, rfl, rfl⟩
        · intro f hf htag
          cases f <;> cases htag
          exact ⟨_, hf, rfl⟩
      · refine (reads_bind_pure reads_i32 fun n => Value.integer n.toInt).tagged Form.integer ?_ ?_
        · exact fun n _ => ⟨trivial, rfl, rfl, rfl⟩
        · intro f _ htag
          cases f <;> cases htag
          exact ⟨_, trivial, rfl⟩
      · refine (reads_bind_pure reads_u8 fun byte => Value.boolean (byte != 0)).tagged
          Form.boolean ?_ ?_
        · intro byte _
          refine ⟨trivial, rfl, rfl, ?_⟩
          rw [Form.value, Word.toNat_bne_zero]
        · intro f _ htag
          cases f <;> cases htag
          exact ⟨_, trivial, rfl⟩
      · refine (reads_counted ih Value.list).tagged Form.list ?_ ?_
        · intro items hitems
          refine ⟨hitems, rfl, ?_, ?_⟩
          · rw [Form.bytes, Form.bytesOfItems_eq, List.tail_cons]
          · rw [Form.value, Form.valueOfItems_eq]
        · intro f hf htag
          cases f <;> cases htag
          exact ⟨_, hf, rfl⟩
      · refine (reads_counted (reads_entry ih) fun pairs => Value.map (Dict.ofPairs pairs)).tagged
          Form.map ?_ ?_
        · intro entries hentries
          refine ⟨hentries, rfl, ?_, ?_⟩
          · rw [Form.bytes, Form.bytesOfEntries_eq, List.tail_cons]
            rfl
          · rw [Form.value, Form.valueOfEntries_eq]
        · intro f hf htag
          cases f <;> cases htag
          exact ⟨_, hf, rfl⟩
      · refine (reads_counted reads_part Value.template).tagged Form.template ?_ ?_
        · exact fun parts hparts => ⟨hparts, rfl, rfl, rfl⟩
        · intro f hf htag
          cases f <;> cases htag
          exact ⟨_, hf, rfl⟩
      · next h₀ h₁ h₂ h₃ h₄ h₅ h₆ =>
        refine (reads_fail _).congr fun b v => ?_
        constructor
        · exact False.elim
        · rintro ⟨f, -, rfl, -⟩
          cases f <;> contradiction
    · exact fun b v => Form.denotes_iff_tagged.symm

theorem reads_outermost :
    Reads constant (Denotes (Form.Fits (maxConstantDepth + 1)) Form.bytes Form.value) :=
  reads_constant _

end Image

end EndpointRules
