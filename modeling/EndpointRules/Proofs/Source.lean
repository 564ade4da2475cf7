import Mathlib.Data.Nat.Digits.Defs
import EndpointRules.Proofs.Word
import EndpointRules.Source

/-!
# What sources answer

As long as all bytes that calls need stand in the data, a source answers with what they stand for
and moves behind them.  The first call that needs a byte at the end of the data or past it fails, at
the offset where it would have read on.  From then on that offset is kept, every read answers zero
or the empty string, and the place is that of the last seek, if there is one.
-/

namespace EndpointRules.Source

/-! ## Calls -/

/-- A call of a source. -/
inductive Call
  | u8
  | u16
  | u32
  | i32
  | string
  | seek (target : Nat)

/-- What a call returns. -/
inductive Reply
  | number (n : Int)
  | text (s : Bytes)
  /-- A seek returns nothing. -/
  | moved
  deriving DecidableEq

/-- The reply to a call, and the source after it. -/
def perform (s : Source) : Call → Reply × Source
  | .u8 => (.number s.u8.1, s.u8.2)
  | .u16 => (.number s.u16.1, s.u16.2)
  | .u32 => (.number s.u32.1, s.u32.2)
  | .i32 => (.number s.i32.1.toInt, s.i32.2)
  | .string => (.text s.string.1, s.string.2)
  | .seek target => (.moved, s.seek target)

/-- The source after calls. -/
def after (s : Source) (calls : List Call) : Source := calls.foldl (fun s c => (s.perform c).2) s

/-- The replies to calls. -/
def replies (s : Source) : List Call → List Reply
  | [] => []
  | c :: calls => (s.perform c).1 :: replies (s.perform c).2 calls

namespace Call

/-- The reply of a call that reads nothing: zero or the empty string. -/
def blank : Call → Reply
  | u8 | u16 | u32 | i32 => .number 0
  | string => .text []
  | seek _ => .moved

/-- The count of bytes that a call reads first; for a string these are the bytes of its length. -/
def width : Call → Nat
  | u8 => 1
  | u16 | string => 2
  | u32 | i32 => 4
  | seek _ => 0

/-- The offset that a call moves to, if it is a seek. -/
def target? : Call → Option Nat
  | seek target => some target
  | _ => none

end Call

/-- The offset that the last seek moves to, if there is one. -/
def lastTarget? (calls : List Call) : Option Nat := (calls.filterMap Call.target?).getLast?

/-! ## Answers and failures -/

/-- The data holds bytes from a place on, all of them before its end. -/
structure StandsAt (data : Array UInt8) (place : Nat) (b : Bytes) : Prop where
  le_size : place + b.length ≤ data.size
  getElem?_eq : ∀ i < b.length, data[place + i]? = b[i]?

/-- The number that bytes stand for, the last byte counting one. -/
def bigEndian (b : Bytes) : Nat := Nat.ofDigits 256 (b.reverse.map UInt8.toNat)

/-- What a call answers at a place of the data if it can read all its bytes, and the place where it
    leaves the source. -/
inductive Answers (data : Array UInt8) (place : Nat) : Call → Reply → Nat → Prop
  | unsigned {c : Call} {b : Bytes} (hc : c = .u8 ∨ c = .u16 ∨ c = .u32)
      (hb : StandsAt data place b) (hlength : b.length = c.width) :
      Answers data place c (.number (bigEndian b)) (place + c.width)
  /-- Numbers from `2 ^ 31` on stand for the negative ones. -/
  | signed {b : Bytes} (hb : StandsAt data place b) (hlength : b.length = 4) :
      Answers data place .i32 (.number ((bigEndian b : Int).bmod (2 ^ 32))) (place + 4)
  | string {b text : Bytes} (hb : StandsAt data place (b ++ text)) (htwo : b.length = 2)
      (hlength : text.length = bigEndian b) :
      Answers data place .string (.text text) (place + (2 + text.length))
  | seek (target : Nat) : Answers data place (.seek target) .moved target

/-- A call needs a byte at the end of the data or past it.  The offset is where the bytes start of
    which it is one: the bytes of a string are asked for only if its length can be read. -/
inductive FailsAt (data : Array UInt8) (place : Nat) : Call → Nat → Prop
  | first {c : Call} {i : Nat} (hi : i < c.width) (hend : data.size ≤ place + i) :
      FailsAt data place c place
  /-- The length of the string can be read, but not all of the string. -/
  | text {b : Bytes} {i : Nat} (hb : StandsAt data place b) (htwo : b.length = 2)
      (hi : i < bigEndian b) (hend : data.size ≤ place + 2 + i) :
      FailsAt data place .string (place + 2)

variable {s : Source} {data : Array UInt8} {place offset count : Nat} {b text : Bytes} {c : Call}
  {reply : Reply}

/-! ## Bytes of the data -/

theorem StandsAt.extract_eq (hb : StandsAt data place b) :
    (data.extract place (place + b.length)).toList = b := by
  have hsize := hb.le_size
  refine List.ext_getElem? fun i => ?_
  rw [Array.getElem?_toList, Array.getElem?_extract]
  by_cases hi : i < b.length
  · rw [if_pos (by omega), hb.getElem?_eq i hi]
  · rw [if_neg (by omega), List.getElem?_eq_none (by omega)]

theorem exists_standsAt (h : place + count ≤ data.size) :
    ∃ b, b.length = count ∧ StandsAt data place b := by
  have hlength : (data.extract place (place + count)).toList.length = count := by
    rw [Array.length_toList, Array.size_extract]
    omega
  refine ⟨_, hlength, by rwa [hlength], fun i hi => ?_⟩
  rw [hlength] at hi
  rw [Array.getElem?_toList, Array.getElem?_extract, if_pos (by omega)]

theorem standsAt_append_iff : StandsAt data place (b ++ text) ↔
    StandsAt data place b ∧ StandsAt data (place + b.length) text := by
  constructor
  · intro h
    have hsize := h.le_size
    rw [List.length_append] at hsize
    refine ⟨⟨by omega, fun i hi => ?_⟩, by omega, fun i hi => ?_⟩
    · rw [h.getElem?_eq i (by rw [List.length_append]; omega), List.getElem?_append_left hi]
    · rw [Nat.add_assoc, h.getElem?_eq _ (by rw [List.length_append]; omega),
        List.getElem?_append_right (by omega), Nat.add_sub_cancel_left]
  · intro ⟨hb, htext⟩
    have hsize := htext.le_size
    refine ⟨by rw [List.length_append]; omega, fun i hi => ?_⟩
    by_cases hlt : i < b.length
    · rw [hb.getElem?_eq i hlt, List.getElem?_append_left hlt]
    · obtain ⟨j, rfl⟩ := Nat.exists_eq_add_of_le (Nat.le_of_not_lt hlt)
      rw [List.length_append] at hi
      rw [← Nat.add_assoc, htext.getElem?_eq j (by omega), List.getElem?_append_right (by omega),
        Nat.add_sub_cancel_left]

theorem value_eq_bigEndian (b : Bytes) : Word.value b = bigEndian b := by
  rw [bigEndian, Nat.ofDigits_eq_foldr, List.foldr_map, List.foldr_reverse, Word.value]
  congr 1
  funext n a
  rw [Nat.mul_comm, Nat.add_comm]
  rfl

/-! ## One read -/

theorem failed_eq_false_iff : s.failed = false ↔ s.failure = none := by
  rw [failed, Option.isSome_eq_false_iff, Option.isNone_iff_eq_none]

theorem take_of_standsAt (hs : s.failed = false) (hb : StandsAt s.data s.position b) :
    s.take b.length = (b, s.seek (s.position + b.length)) := by
  have hadmits : s.admits b.length = true := by simp [admits, hs, hb.le_size]
  rw [take, if_pos hadmits, hb.extract_eq]
  rfl

/-- A read that needs a byte past the end fails where it starts. -/
theorem take_of_lt (hs : s.failed = false) (h : s.data.size < s.position + count) :
    s.take count = ([], { s with failure := some s.position }) := by
  have hadmits : s.admits count = false := by simp [admits, h]
  rw [take, hadmits, fail, failed_eq_false_iff.1 hs]
  rfl

/-- After a failure nothing is read. -/
theorem take_of_failed (hs : s.failed = true) (count : Nat) : s.take count = ([], s) := by
  have hadmits : s.admits count = false := by simp [admits, hs]
  obtain ⟨offset, hoffset⟩ := Option.isSome_iff_exists.1 hs
  have hfail : s.fail = s := by rw [fail, hoffset, Option.some_or, ← hoffset]
  rw [take, hadmits, hfail]
  rfl

theorem word_of_standsAt (hs : s.failed = false) (hb : StandsAt s.data s.position b) :
    s.word b.length = (bigEndian b, s.seek (s.position + b.length)) := by
  rw [← value_eq_bigEndian, word, take_of_standsAt hs hb]

theorem word_of_lt (hs : s.failed = false) (h : s.data.size < s.position + count) :
    s.word count = (0, { s with failure := some s.position }) := by
  rw [word, take_of_lt hs h]
  rfl

theorem word_of_failed (hs : s.failed = true) (count : Nat) : s.word count = (0, s) := by
  rw [word, take_of_failed hs]
  rfl

theorem toInt_toInt32 (n : Nat) : (UInt32.ofNat n).toInt32.toInt = (n : Int).bmod (2 ^ 32) :=
  BitVec.toInt_ofNat' n

/-! ## One call -/

theorem perform_unsigned (s : Source) (hc : c = .u8 ∨ c = .u16 ∨ c = .u32) :
    s.perform c = (.number (s.word c.width).1, (s.word c.width).2) := by
  rcases hc with rfl | rfl | rfl <;> rfl

/-- While nothing has failed, a call that can read all its bytes does so. -/
theorem perform_of_answers (hs : s.failed = false)
    (h : Answers s.data s.position c reply place) : s.perform c = (reply, s.seek place) := by
  cases h with
  | unsigned hc hb hlength =>
    rw [perform_unsigned s hc, ← hlength, word_of_standsAt hs hb]
  | signed hb hlength =>
    rw [← toInt_toInt32, perform, i32, u32, ← hlength, word_of_standsAt hs hb]
  | @string b text hb htwo hlength =>
    obtain ⟨hb, htext⟩ := standsAt_append_iff.1 hb
    have hread : (s.seek (s.position + b.length)).take text.length =
        (text, s.seek (s.position + b.length + text.length)) := take_of_standsAt hs htext
    rw [hlength] at hread
    rw [perform, string, u16, ← htwo, word_of_standsAt hs hb]
    dsimp only
    rw [hread, hlength, Nat.add_assoc]
  | seek target => rfl

/-- A read that does not get the bytes that it needs first answers nothing; a string does not go on
    to its bytes then, although it takes its length to be zero. -/
theorem perform_of_word {s' : Source} (hread : c.target? = none)
    (hword : s.word c.width = (0, s')) (hs' : s'.failed = true) : s.perform c = (c.blank, s') := by
  cases c with
  | u8 => rw [perform_unsigned s (.inl rfl), hword]; rfl
  | u16 => rw [perform_unsigned s (.inr (.inl rfl)), hword]; rfl
  | u32 => rw [perform_unsigned s (.inr (.inr rfl)), hword]; rfl
  | i32 =>
    change s.word 4 = _ at hword
    rw [perform, i32, u32, hword]
    rfl
  | string =>
    change s.word 2 = _ at hword
    rw [perform, string, u16, hword]
    dsimp only
    rw [take_of_failed hs']
    rfl
  | seek target => cases hread

/-- While nothing has failed, a call that cannot read all its bytes fails. -/
theorem perform_of_failsAt (hs : s.failed = false) (h : FailsAt s.data s.position c offset) :
    s.perform c = (c.blank, { s with position := offset, failure := some offset }) := by
  cases h with
  | @first _ i hi hend =>
    have hread : c.target? = none := by
      cases c with
      | seek target => cases hi
      | _ => rfl
    exact perform_of_word hread (word_of_lt hs (by omega)) rfl
  | @text b i hb htwo hi hend =>
    have hread : (s.seek (s.position + b.length)).take (bigEndian b) =
        ([], { s with position := s.position + b.length
                      failure := some (s.position + b.length) }) := by
      refine take_of_lt hs ?_
      change s.data.size < s.position + b.length + bigEndian b
      omega
    rw [perform, string, u16, ← htwo, word_of_standsAt hs hb]
    dsimp only
    rw [hread]
    rfl

/-- After a failure nothing is read, and the place changes only if the call is a seek. -/
theorem perform_of_failed (hs : s.failed = true) (c : Call) :
    s.perform c = (c.blank, s.seek (c.target?.getD s.position)) := by
  cases htarget : c.target? with
  | none => exact perform_of_word htarget (word_of_failed hs _) hs
  | some target =>
    obtain rfl : c = .seek target := by
      cases c with
      | seek target' => exact congrArg Call.seek (Option.some.inj htarget)
      | _ => cases htarget
    rfl

theorem failsAt_of_lt (hwidth : 0 < c.width) (h : data.size < place + c.width) :
    FailsAt data place c place :=
  .first (Nat.sub_one_lt_of_lt hwidth) (by omega)

/-- A call can read all its bytes, or it needs one that the data does not hold. -/
theorem answers_or_failsAt (data : Array UInt8) (place : Nat) (c : Call) :
    (∃ reply place', Answers data place c reply place') ∨ ∃ offset, FailsAt data place c offset := by
  by_cases hfits : place + c.width ≤ data.size
  · obtain ⟨b, hlength, hb⟩ := exists_standsAt hfits
    cases c with
    | u8 => exact .inl ⟨_, _, .unsigned (.inl rfl) hb hlength⟩
    | u16 => exact .inl ⟨_, _, .unsigned (.inr (.inl rfl)) hb hlength⟩
    | u32 => exact .inl ⟨_, _, .unsigned (.inr (.inr rfl)) hb hlength⟩
    | i32 => exact .inl ⟨_, _, .signed hb hlength⟩
    | string =>
      by_cases htext : place + b.length + bigEndian b ≤ data.size
      · obtain ⟨text, hcount, htext⟩ := exists_standsAt htext
        exact .inl ⟨_, _, .string (standsAt_append_iff.2 ⟨hb, htext⟩) hlength hcount⟩
      · have hle := hb.le_size
        rw [hlength] at hle htext
        change place + 2 ≤ data.size at hle
        change ¬ place + 2 + bigEndian b ≤ data.size at htext
        have hlast : bigEndian b - 1 < bigEndian b := by omega
        exact .inr ⟨_, .text hb hlength hlast (by omega)⟩
    | seek target => exact .inl ⟨_, _, .seek target⟩
  · have hlt := Nat.lt_of_not_le hfits
    cases c with
    | seek target => exact .inl ⟨_, _, .seek target⟩
    | _ => exact .inr ⟨_, failsAt_of_lt (by decide) hlt⟩

theorem not_failsAt_of_answers (hs : s.failed = false)
    (h : Answers s.data s.position c reply place) : ¬ FailsAt s.data s.position c offset := by
  intro hfails
  have hsame := (perform_of_answers hs h).symm.trans (perform_of_failsAt hs hfails)
  have hfailure : s.failure = some offset := congrArg (·.2.failure) hsame
  rw [failed_eq_false_iff.1 hs] at hfailure
  cases hfailure

/-- What a call does while nothing has failed. -/
theorem perform_of_not_failed (hs : s.failed = false) (c : Call) :
    let reply := (s.perform c).1
    let next := (s.perform c).2
    (next.failed = true ↔ ∃ offset, FailsAt s.data s.position c offset) ∧
    (next.failed = false → Answers s.data s.position c reply next.position) ∧
    (next.failed = true → FailsAt s.data s.position c next.failureOffset ∧
      next.position = next.failureOffset ∧ reply = c.blank) := by
  intro reply next
  rcases answers_or_failsAt s.data s.position c with ⟨reply', place, h⟩ | ⟨offset, h⟩
  · have hperform : s.perform c = (reply', s.seek place) := perform_of_answers hs h
    have hnext : next = s.seek place := congrArg Prod.snd hperform
    have hreply : reply = reply' := congrArg Prod.fst hperform
    have hfailed : next.failed = false := by
      rw [hnext]
      exact hs
    have hnot : ¬ ∃ offset, FailsAt s.data s.position c offset := by
      intro ⟨_, hfails⟩
      exact not_failsAt_of_answers hs h hfails
    refine ⟨?_, ?_, ?_⟩
    · simp [hfailed, hnot]
    · intro _
      rw [hreply, hnext]
      exact h
    · intro htrue
      cases hfailed.symm.trans htrue
  · have hperform := perform_of_failsAt hs h
    have hnext : next = { s with position := offset, failure := some offset } :=
      congrArg Prod.snd hperform
    have hreply : reply = c.blank := congrArg Prod.fst hperform
    have hfailed : next.failed = true := by
      rw [hnext]
      rfl
    refine ⟨iff_of_true hfailed ⟨offset, h⟩, ?_, ?_⟩
    · intro hfalse
      cases hfailed.symm.trans hfalse
    · intro _
      rw [hnext]
      exact ⟨h, rfl, hreply⟩

/-! ## All calls -/

theorem data_perform (s : Source) (c : Call) : (s.perform c).2.data = s.data := by
  cases hs : s.failed with
  | true => rw [perform_of_failed hs]; rfl
  | false =>
    rcases answers_or_failsAt s.data s.position c with ⟨reply, place, h⟩ | ⟨offset, h⟩
    · rw [perform_of_answers hs h]; rfl
    · rw [perform_of_failsAt hs h]

theorem data_after (s : Source) (calls : List Call) : (s.after calls).data = s.data := by
  induction calls generalizing s with
  | nil => rfl
  | cons c calls ih => exact (ih (s.perform c).2).trans (data_perform s c)

theorem lastTarget?_cons (c : Call) (calls : List Call) :
    lastTarget? (c :: calls) = (lastTarget? calls).or c.target? := by
  rw [lastTarget?, List.filterMap_cons, lastTarget?]
  cases c.target? with
  | none => simp
  | some target => cases calls.filterMap Call.target? <;> simp [List.getLast?_cons]

/-- After a failure all calls together do nothing but the last seek. -/
theorem after_of_failed (hs : s.failed = true) (calls : List Call) :
    s.after calls = s.seek ((lastTarget? calls).getD s.position) ∧
      s.replies calls = calls.map Call.blank := by
  induction calls generalizing s with
  | nil => exact ⟨rfl, rfl⟩
  | cons c calls ih =>
    have hnext := perform_of_failed hs c
    obtain ⟨hafter, hreplies⟩ := ih (s := s.seek (c.target?.getD s.position)) hs
    constructor
    · have hcons : s.after (c :: calls) = (s.perform c).2.after calls := rfl
      have hplace : ((lastTarget? calls).or c.target?).getD s.position =
          (lastTarget? calls).getD (c.target?.getD s.position) := by
        cases lastTarget? calls <;> rfl
      rw [hcons, hnext, hafter, lastTarget?_cons, hplace]
      rfl
    · rw [replies, hnext, List.map_cons, hreplies]

/-- Up to the first failure a call fails exactly if it needs a byte at the end of the data or past
    it.  A call that does not fail answers with what its bytes stand for and moves behind them, and
    one that fails stays at the offset of its failure.  After a failure, whatever is called, the
    offset is kept, every reply is zero or the empty string, and the place is that of the last
    seek. -/
theorem answers_until_first_failure (data : Array UInt8) (start : Nat) (calls : List Call) :
    let s := after { data, position := start } calls
    (s.failed = false → ∀ c : Call,
      let reply := (s.perform c).1
      let next := (s.perform c).2
      (next.failed = true ↔ ∃ offset, FailsAt data s.position c offset) ∧
      (next.failed = false → Answers data s.position c reply next.position) ∧
      (next.failed = true → FailsAt data s.position c next.failureOffset ∧
        next.position = next.failureOffset ∧ reply = c.blank)) ∧
    (s.failed = true → ∀ rest : List Call,
      let later := s.after rest
      later.failed = true ∧ later.failureOffset = s.failureOffset ∧
        later.position = (lastTarget? rest).getD s.position ∧
        s.replies rest = rest.map Call.blank) := by
  intro s
  have hdata : s.data = data := data_after _ calls
  constructor
  · intro hs c
    have hcall := perform_of_not_failed hs c
    rwa [hdata] at hcall
  · intro hs rest later
    obtain ⟨hlater, hreplies⟩ := after_of_failed hs rest
    change later = _ at hlater
    rw [hlater]
    exact ⟨hs, rfl, rfl, hreplies⟩

/-- A string whose length can be read, but of which only two bytes of five are there. -/
theorem answers_until_first_failure_cutString :
    let data : Array UInt8 := #[0x00, 0x05, 0x61, 0x62]
    let s := after { data } [.u8, .seek 0]
    let t := after { data } [.u8, .seek 0, .string]
    s.failed = false ∧ Answers data s.position .u16 (.number 5) 2 ∧
      t.failed = true ∧ FailsAt data s.position .string 2 ∧
      (t.after [.u16, .seek 1, .u8]).failureOffset = 2 ∧
      (t.after [.u16, .seek 1, .u8]).position = 1 ∧
      t.replies [.u16, .seek 1, .u8] = [.number 0, .moved, .number 0] := by
  intro data s t
  have hs : s.failed = false := by decide
  have ht : t.failed = true := by decide
  obtain ⟨-, hanswers, -⟩ := (answers_until_first_failure data 0 [.u8, .seek 0]).1 hs .u16
  obtain ⟨-, -, hfails⟩ := (answers_until_first_failure data 0 [.u8, .seek 0]).1 hs .string
  obtain ⟨-, hoffset, hposition, hreplies⟩ :=
    (answers_until_first_failure data 0 [.u8, .seek 0, .string]).2 ht [.u16, .seek 1, .u8]
  have hreply : (s.perform .u16).1 = .number 5 := by decide +kernel
  have hplace : (s.perform .u16).2.position = 2 := by decide
  rw [hreply, hplace] at hanswers
  exact ⟨hs, hanswers (by decide), ht, (hfails ht).1, hoffset, hposition, hreplies⟩

end EndpointRules.Source
