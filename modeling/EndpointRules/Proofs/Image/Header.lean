import EndpointRules.Image.Header
import EndpointRules.Proofs.Image.Reading
import EndpointRules.Proofs.Sink

/-!
# Headers as bytes

A header is read from the 44 bytes that it is written as, and its layout is accepted when its tables
stand in order and leave each other room.
-/

namespace EndpointRules

namespace Image

open Reading

namespace Header

/-- The bytes of a header. -/
def bytes (h : Header) : Bytes :=
  Word.bytes 4 imageMagic.toNat ++ (Word.bytes 2 h.version.toNat ++
    (Word.bytes 2 h.conditionCount ++ (Word.bytes 2 h.resultCount ++
    (Word.bytes 2 h.registerCount ++ (Word.bytes 2 h.constantCount ++
    (Word.bytes 2 h.functionCount ++ (Word.bytes 4 h.nodeCount ++
    (Word.bytes 4 h.root.toUInt32.toNat ++ (Word.bytes 4 h.conditionTable ++
    (Word.bytes 4 h.resultTable ++ (Word.bytes 4 h.functionTable ++
    (Word.bytes 4 h.constantPool ++ Word.bytes 4 h.diagramTable))))))))))))

/-- The version is right, and every number fits the bytes that it is written in. -/
structure Readable (h : Header) : Prop where
  version : h.version = imageVersion
  conditionCount : h.conditionCount ≤ 0xFFFF
  resultCount : h.resultCount ≤ 0xFFFF
  registerCount : h.registerCount ≤ 0xFFFF
  constantCount : h.constantCount ≤ 0xFFFF
  functionCount : h.functionCount ≤ 0xFFFF
  nodeCount : h.nodeCount < 256 ^ 4
  conditionTable : h.conditionTable < 256 ^ 4
  resultTable : h.resultTable < 256 ^ 4
  functionTable : h.functionTable < 256 ^ 4
  constantPool : h.constantPool < 256 ^ 4
  diagramTable : h.diagramTable < 256 ^ 4

theorem length_bytes (h : Header) : h.bytes.length = headerSize := by
  simp only [bytes, List.length_append, Word.length_bytes]
  rfl

theorem write_eq_raw (h : Header) (out : Sink) : h.write out = out.raw h.bytes := by
  simp only [write, Sink.u32, Sink.u16, Sink.i32, Sink.raw_raw, bytes, List.append_assoc]

/-- When the layout is accepted: each table starts behind the end of the one before it. -/
theorem checkLayout_eq_ok_iff {h : Header} {size : Nat} :
    h.checkLayout size = .ok () ↔
      headerSize ≤ h.conditionTable ∧ h.conditionTable + 4 * h.conditionCount ≤ h.resultTable ∧
        h.resultTable + 4 * h.resultCount ≤ h.functionTable ∧ h.functionTable ≤ h.diagramTable ∧
        h.codeStart ≤ h.constantPool ∧ h.constantPool ≤ size ∧ h.registerCount ≤ maxRegisters := by
  have hcode : h.codeStart = h.diagramTable + 12 * h.nodeCount := rfl
  unfold checkLayout
  simp only [Bool.or_eq_true, decide_eq_true_eq]
  constructor
  · intro haccepted
    split at haccepted
    · cases haccepted
    split at haccepted
    · cases haccepted
    split at haccepted
    · cases haccepted
    split at haccepted
    · cases haccepted
    split at haccepted
    · cases haccepted
    next horder hconditions hresults hdiagram hregisters =>
    simp only [not_or, Nat.not_lt] at horder
    obtain ⟨⟨⟨⟨⟨h₁, -⟩, -⟩, h₄⟩, -⟩, h₆⟩ := horder
    exact ⟨h₁, Nat.not_lt.1 hconditions, Nat.not_lt.1 hresults, h₄, Nat.not_lt.1 hdiagram, h₆,
      Nat.not_lt.1 hregisters⟩
  · rintro ⟨h₁, h₂, h₃, h₄, h₅, h₆, h₇⟩
    rw [if_neg (by omega), if_neg (by omega), if_neg (by omega), if_neg (by omega),
      if_neg (by omega)]

end Header

/-- A reader that goes on unless a condition holds. -/
theorem reads_unless {α : Type} {c : Prop} [Decidable c] {e : FormatError} {k : PUnit → Reading α}
    {means : Bytes → α → Prop} (hk : Reads (k ⟨⟩) means) :
    Reads (if c then fail e >>= k else k ⟨⟩) fun b x => ¬ c ∧ means b x := by
  split
  · next hc =>
    intro data place _ x s
    constructor
    · intro h
      cases h
    · rintro ⟨b, rest, -, ⟨hnot, -⟩, -⟩
      exact absurd hc hnot
  · next hc => exact hk.congr fun b x => ⟨fun h => ⟨hc, h⟩, fun h => h.2⟩

/-- Exactly the bytes of the headers that can be read are read, each as that header. -/
theorem reads_header : Reads Header.read (Denotes Header.Readable Header.bytes id) := by
  unfold Header.read
  refine Reads.congr ((reads_word 4).andThen fun magic _ => reads_unless <|
    reads_u16.andThen fun version _ => reads_unless <| reads_u16.andThen fun conditionCount _ =>
    reads_u16.andThen fun resultCount _ => reads_u16.andThen fun registerCount _ =>
    reads_u16.andThen fun constantCount _ => reads_u16.andThen fun functionCount _ =>
    (reads_word 4).andThen fun nodeCount _ => reads_i32.andThen fun root _ =>
    (reads_word 4).andThen fun conditionTable _ => (reads_word 4).andThen fun resultTable _ =>
    (reads_word 4).andThen fun functionTable _ => (reads_word 4).andThen fun constantPool _ =>
    (reads_word 4).andThen fun diagramTable _ => reads_pure _) fun b h => ?_
  constructor
  · rintro ⟨magic, _, -, rfl, hmagic, version, _, hversion, rfl, himage, conditionCount, _, h₁, rfl,
      resultCount, _, h₂, rfl, registerCount, _, h₃, rfl, constantCount, _, h₄, rfl,
      functionCount, _, h₅, rfl, nodeCount, _, h₆, rfl, root, _, -, rfl, conditionTable, _, h₇, rfl,
      resultTable, _, h₈, rfl, functionTable, _, h₉, rfl, constantPool, _, h₁₀, rfl,
      diagramTable, _, h₁₁, rfl, rfl, rfl⟩
    obtain rfl : magic = imageMagic.toNat := Decidable.not_not.1 hmagic
    have hversion' : UInt16.ofNat version = imageVersion := Decidable.not_not.1 himage
    refine ⟨_, ⟨hversion', h₁, h₂, h₃, h₄, h₅, h₆, h₇, h₈, h₉, h₁₀, h₁₁⟩, ?_, rfl⟩
    have hback : (UInt16.ofNat version).toNat = version :=
      UInt16.toNat_ofNat_of_lt' (Nat.lt_succ_of_le hversion)
    simp only [Header.bytes, id, hback, List.append_nil]
  · rintro ⟨⟨version, conditionCount, resultCount, registerCount, constantCount, functionCount,
        nodeCount, root, conditionTable, resultTable, functionTable, constantPool, diagramTable⟩,
      ⟨hversion, h₁, h₂, h₃, h₄, h₅, h₆, h₇, h₈, h₉, h₁₀, h₁₁⟩, rfl, rfl⟩
    obtain rfl : version = imageVersion := hversion
    exact ⟨imageMagic.toNat, _, by decide, rfl, fun h => h rfl,
      imageVersion.toNat, _, by decide, rfl, fun h => h rfl,
      conditionCount, _, h₁, rfl, resultCount, _, h₂, rfl, registerCount, _, h₃, rfl,
      constantCount, _, h₄, rfl, functionCount, _, h₅, rfl, nodeCount, _, h₆, rfl,
      root, _, trivial, rfl, conditionTable, _, h₇, rfl, resultTable, _, h₈, rfl,
      functionTable, _, h₉, rfl, constantPool, _, h₁₀, rfl,
      diagramTable, [], h₁₁, (List.append_nil _).symm, rfl, rfl⟩

end Image

end EndpointRules
