import EndpointRules.Image.Constant
import EndpointRules.Proofs.Source
import EndpointRules.Proofs.Word

/-!
# What readers accept

`Reading.Reads` says exactly when a reader succeeds and what it leaves: it reads some bytes at its
place that stand for the thing it returns, and goes on behind them.  A reader that reads one thing
after the other accepts the bytes of the one followed by the bytes of the other.
-/

namespace EndpointRules

namespace Image

namespace Reading

variable {α β φ : Type}

/-- The reader succeeds exactly where bytes stand that mean something, returns what they mean, and
    moves behind them. -/
def Reads (read : Reading α) (means : Bytes → α → Prop) : Prop :=
  ∀ (data : Array UInt8) (place : Nat), place ≤ data.size → ∀ x s,
    read { data, position := place } = .ok (x, s) ↔
      ∃ b rest, data.toList.drop place = b ++ rest ∧ means b x ∧
        s = { data, position := place + b.length }

/-- Bytes mean what the things written as them stand for. -/
def Denotes (fits : φ → Prop) (bytes : φ → Bytes) (value : φ → α) (b : Bytes) (x : α) : Prop :=
  ∃ f, fits f ∧ bytes f = b ∧ value f = x

variable {means : Bytes → α → Prop}

theorem Reads.congr {means' : Bytes → α → Prop} {read : Reading α} (h : Reads read means)
    (hmeans : ∀ b x, means b x ↔ means' b x) : Reads read means' := by
  intro data place hplace x s
  rw [h data place hplace x s]
  constructor
  · rintro ⟨b, rest, hdata, hb, hs⟩
    exact ⟨b, rest, hdata, (hmeans b x).1 hb, hs⟩
  · rintro ⟨b, rest, hdata, hb, hs⟩
    exact ⟨b, rest, hdata, (hmeans b x).2 hb, hs⟩

theorem reads_pure (x : α) : Reads (pure x) fun b y => b = [] ∧ y = x := by
  intro data place _ y s
  rw [pure_apply]
  constructor
  · intro h
    cases h
    exact ⟨[], _, rfl, ⟨rfl, rfl⟩, rfl⟩
  · rintro ⟨b, rest, -, ⟨rfl, rfl⟩, rfl⟩
    rfl

theorem reads_fail (e : FormatError) : Reads (fail e : Reading α) fun _ _ => False := by
  intro data place _ y s
  constructor
  · intro h
    cases h
  · rintro ⟨b, rest, -, h, -⟩
    exact h.elim

/-- Where bytes have been read, the data goes on behind them. -/
theorem drop_of_drop_eq {data : Array UInt8} {place : Nat} {b rest : Bytes}
    (hplace : place ≤ data.size) (h : data.toList.drop place = b ++ rest) :
    data.toList.drop (place + b.length) = rest ∧ place + b.length ≤ data.size := by
  constructor
  · rw [← List.drop_drop, h, List.drop_left]
  · have := congrArg List.length h
    rw [List.length_drop, List.length_append, Array.length_toList] at this
    omega

theorem bind_eq_ok_iff {m : Reading α} {k : α → Reading β} {s s' : Source} {y : β} :
    (m >>= k) s = .ok (y, s') ↔ ∃ x s₁, m s = .ok (x, s₁) ∧ k x s₁ = .ok (y, s') := by
  rw [bind_apply]
  cases hm : m s with
  | error e => simp
  | ok r =>
    obtain ⟨x, s₁⟩ := r
    constructor
    · intro h
      exact ⟨x, s₁, rfl, h⟩
    · rintro ⟨_, _, ⟨⟩, h⟩
      exact h

theorem Reads.bind {m : Reading α} {k : α → Reading β} {means' : α → Bytes → β → Prop}
    (hm : Reads m means) (hk : ∀ x, Reads (k x) (means' x)) :
    Reads (m >>= k) fun b y => ∃ b₁ b₂ x, b = b₁ ++ b₂ ∧ means b₁ x ∧ means' x b₂ y := by
  intro data place hplace y s
  rw [bind_eq_ok_iff]
  constructor
  · rintro ⟨x, s₁, hx, hy⟩
    obtain ⟨b₁, rest₁, hdata₁, hb₁, rfl⟩ := (hm data place hplace x s₁).1 hx
    obtain ⟨hdrop, hplace₁⟩ := drop_of_drop_eq hplace hdata₁
    obtain ⟨b₂, rest₂, hdata₂, hb₂, rfl⟩ := (hk x data _ hplace₁ y s).1 hy
    refine ⟨b₁ ++ b₂, rest₂, ?_, ⟨b₁, b₂, x, rfl, hb₁, hb₂⟩, ?_⟩
    · rw [hdata₁, ← hdrop, hdata₂, List.append_assoc]
    · rw [List.length_append, Nat.add_assoc]
  · rintro ⟨b, rest, hdata, ⟨b₁, b₂, x, rfl, hb₁, hb₂⟩, rfl⟩
    rw [List.append_assoc] at hdata
    obtain ⟨hdrop, hplace₁⟩ := drop_of_drop_eq hplace hdata
    refine ⟨x, _, (hm data place hplace x _).2 ⟨b₁, _, hdata, hb₁, rfl⟩, ?_⟩
    rw [hk x data _ hplace₁]
    refine ⟨b₂, rest, hdrop, hb₂, ?_⟩
    rw [List.length_append, Nat.add_assoc]

/-- What is read behind one thing may depend on how that is written. -/
theorem Reads.andThen {m : Reading α} {k : α → Reading β} {fits : φ → Prop} {bytes : φ → Bytes}
    {value : φ → α} {means' : φ → Bytes → β → Prop} (hm : Reads m (Denotes fits bytes value))
    (hk : ∀ f, fits f → Reads (k (value f)) (means' f)) :
    Reads (m >>= k) fun b y => ∃ f b', fits f ∧ b = bytes f ++ b' ∧ means' f b' y := by
  intro data place hplace y s
  rw [bind_eq_ok_iff]
  constructor
  · rintro ⟨x, s₁, hx, hy⟩
    obtain ⟨b₁, rest₁, hdata₁, ⟨f, hf, rfl, rfl⟩, rfl⟩ := (hm data place hplace x s₁).1 hx
    obtain ⟨hdrop, hplace₁⟩ := drop_of_drop_eq hplace hdata₁
    obtain ⟨b', rest', hdata', hb', rfl⟩ := (hk f hf data _ hplace₁ y s).1 hy
    refine ⟨bytes f ++ b', rest', ?_, ⟨f, b', hf, rfl, hb'⟩, ?_⟩
    · rw [hdata₁, ← hdrop, hdata', List.append_assoc]
    · rw [List.length_append, Nat.add_assoc]
  · rintro ⟨b, rest, hdata, ⟨f, b', hf, rfl, hb'⟩, rfl⟩
    rw [List.append_assoc] at hdata
    obtain ⟨hdrop, hplace₁⟩ := drop_of_drop_eq hplace hdata
    refine ⟨value f, _, (hm data place hplace _ _).2 ⟨_, _, hdata, ⟨f, hf, rfl, rfl⟩, rfl⟩, ?_⟩
    rw [hk f hf data _ hplace₁]
    refine ⟨b', rest, hdrop, hb', ?_⟩
    rw [List.length_append, Nat.add_assoc]

theorem reads_position {k : Nat → Reading α} (hk : ∀ place, Reads (k place) means) :
    Reads (position >>= k) means := by
  intro data place hplace x s
  exact hk place data place hplace x s

/-! ## Runs of readers -/

section

variable {m : Reading α} {k : α → Reading β} {data : Array UInt8} {place : Nat}

/-- What a reader that goes on has read. -/
theorem Reads.bind_eq_ok_iff (hm : Reads m means) (hplace : place ≤ data.size) {y : β}
    {s : Source} :
    (m >>= k) { data, position := place } = .ok (y, s) ↔
      ∃ b rest x, data.toList.drop place = b ++ rest ∧ means b x ∧
        k x { data, position := place + b.length } = .ok (y, s) := by
  rw [Reading.bind_eq_ok_iff]
  constructor
  · rintro ⟨x, s₁, hx, hy⟩
    obtain ⟨b, rest, hdata, hb, rfl⟩ := (hm data place hplace x s₁).1 hx
    exact ⟨b, rest, x, hdata, hb, hy⟩
  · rintro ⟨b, rest, x, hdata, hb, hy⟩
    exact ⟨x, _, (hm data place hplace x _).2 ⟨b, rest, hdata, hb, rfl⟩, hy⟩

/-- Where the bytes stand that a reader wants, reading goes on behind them. -/
theorem Reads.bind_eq (hm : Reads m means) (hplace : place ≤ data.size) {b rest : Bytes} {x : α}
    (hdata : data.toList.drop place = b ++ rest) (hb : means b x) :
    (m >>= k) { data, position := place } = k x { data, position := place + b.length } := by
  have hx := (hm data place hplace x _).2 ⟨b, rest, hdata, hb, rfl⟩
  rw [bind_apply, hx]

theorem bind_seek (k : PUnit → Reading β) (place offset : Nat) :
    (seek offset >>= k) { data, position := place } = k ⟨⟩ { data, position := offset } := rfl

theorem bind_position (k : Nat → Reading β) (place : Nat) :
    (position >>= k) { data, position := place } = k place { data, position := place } := rfl

theorem bind_require {check : Except FormatError Unit} (h : check = .ok ())
    (k : PUnit → Reading β) (s : Source) : (require check >>= k) s = k ⟨⟩ s := by
  subst h
  rfl

theorem require_eq_ok_iff {check : Except FormatError Unit} {k : PUnit → Reading β} {s s' : Source}
    {y : β} :
    (require check >>= k) s = .ok (y, s') ↔ check = .ok () ∧ k ⟨⟩ s = .ok (y, s') := by
  cases check with
  | error e =>
    constructor
    · intro h
      cases h
    · rintro ⟨h, -⟩
      cases h
  | ok u => exact ⟨fun h => ⟨rfl, h⟩, fun h => h.2⟩

theorem unless_eq_ok_iff {c : Prop} [Decidable c] {e : FormatError} {k : PUnit → Reading β}
    {s s' : Source} {y : β} :
    (if c then fail e >>= k else k ⟨⟩) s = .ok (y, s') ↔ ¬ c ∧ k ⟨⟩ s = .ok (y, s') := by
  split
  · next hc =>
    constructor
    · intro h
      cases h
    · rintro ⟨hnot, -⟩
      exact absurd hc hnot
  · next hc => exact ⟨fun h => ⟨hc, h⟩, fun h => h.2⟩

end

/-! ## Numbers and strings -/

theorem reads_take (count : Nat) :
    Reads (checked (·.take count)) fun b x => b.length = count ∧ x = b := by
  intro data place hplace x s
  have hsize : data.toList.length = data.size := Array.length_toList
  by_cases hfits : place + count ≤ data.size
  · have hread : checked (·.take count) { data, position := place } =
        .ok ((data.toList.drop place).take count, { data, position := place + count }) := by
      simp [checked, Source.take, Source.admits, Source.failed, hfits]
    rw [hread]
    constructor
    · intro h
      cases h
      have hlength : ((data.toList.drop place).take count).length = count := by
        rw [List.length_take, List.length_drop]
        omega
      refine ⟨_, (data.toList.drop place).drop count, (List.take_append_drop _ _).symm,
        ⟨hlength, rfl⟩, ?_⟩
      rw [hlength]
    · rintro ⟨b, rest, hdata, ⟨rfl, rfl⟩, rfl⟩
      rw [hdata, List.take_left]
  · have hread : checked (·.take count) { data, position := place } =
        .error (.unexpectedEnd place) := by
      rw [checked, Source.take_of_lt rfl (Nat.lt_of_not_le hfits)]
    rw [hread]
    constructor
    · intro h
      cases h
    · rintro ⟨b, rest, hdata, ⟨rfl, -⟩, -⟩
      have := (drop_of_drop_eq hplace hdata).2
      exact absurd this hfits

theorem Reads.map {read : Source → α × Source} (h : Reads (checked read) means) (g : α → β) :
    Reads (checked fun s => (g (read s).1, (read s).2)) fun b y => ∃ x, means b x ∧ y = g x := by
  have heq : (checked fun s => (g (read s).1, (read s).2)) =
      (checked read >>= fun x => pure (g x)) := by
    funext s
    rw [bind_apply]
    unfold checked
    dsimp only
    split
    · rfl
    · rfl
  rw [heq]
  refine (h.bind fun x => reads_pure (g x)).congr fun b y => ?_
  constructor
  · rintro ⟨b₁, b₂, x, rfl, hx, rfl, rfl⟩
    exact ⟨x, by simpa using hx, rfl⟩
  · rintro ⟨x, hx, rfl⟩
    exact ⟨b, [], x, by simp, hx, rfl, rfl⟩

/-- A number of some bytes. -/
theorem reads_word (width : Nat) :
    Reads (checked (·.word width))
      (Denotes (· < 256 ^ width) (Word.bytes width) id) := by
  refine ((reads_take width).map Word.value).congr fun b n => ?_
  constructor
  · rintro ⟨s, ⟨rfl, rfl⟩, rfl⟩
    exact ⟨_, Word.value_lt s, Word.bytes_value s, rfl⟩
  · rintro ⟨n, hn, rfl, rfl⟩
    exact ⟨_, ⟨Word.length_bytes _ _, rfl⟩, (Word.value_bytes hn).symm⟩

theorem reads_u8 :
    Reads (checked Source.u8) (Denotes (fun _ : UInt8 => True) ([·]) UInt8.toNat) := by
  refine (reads_word 1).congr fun b n => ?_
  constructor
  · rintro ⟨n, hn, rfl, rfl⟩
    refine ⟨UInt8.ofNat n, trivial, by simp [Word.bytes], ?_⟩
    rw [UInt8.toNat_ofNat', id]
    omega
  · rintro ⟨c, -, rfl, rfl⟩
    exact ⟨c.toNat, c.toNat_lt, Word.bytes_one c, rfl⟩

theorem reads_i32 :
    Reads (checked Source.i32) (Denotes (fun _ : Int32 => True)
      (fun n => Word.bytes 4 n.toUInt32.toNat) id) := by
  refine ((reads_word 4).map fun n => (UInt32.ofNat n).toInt32).congr fun b n => ?_
  constructor
  · rintro ⟨_, ⟨n, hn, rfl, rfl⟩, rfl⟩
    exact ⟨_, trivial, congrArg (Word.bytes 4) (Word.toNat_toInt32 hn), rfl⟩
  · rintro ⟨n, -, rfl, rfl⟩
    exact ⟨_, ⟨_, n.toUInt32.toNat_lt, rfl, rfl⟩, (Word.toInt32_toNat n).symm⟩

theorem reads_u16 : Reads (checked Source.u16) (Denotes (· ≤ 0xFFFF) (Word.bytes 2) id) := by
  refine (reads_word 2).congr fun b n => ?_
  constructor
  · rintro ⟨n, hn, rfl, rfl⟩
    exact ⟨n, Nat.le_of_lt_succ hn, rfl, rfl⟩
  · rintro ⟨n, hn, rfl, rfl⟩
    exact ⟨n, Nat.lt_succ_of_le hn, rfl, rfl⟩

theorem checked_string :
    checked Source.string = checked Source.u16 >>= fun count => checked (·.take count) := by
  funext s
  rw [bind_apply]
  unfold checked Source.string
  dsimp only
  cases h : s.u16.2.failure with
  | none => rfl
  | some offset =>
    have hfailed : s.u16.2.failed = true := Option.isSome_iff_exists.2 ⟨offset, h⟩
    rw [Source.take_of_failed hfailed, h]

theorem reads_string :
    Reads (checked Source.string) (Denotes (·.length ≤ 0xFFFF) Word.sized id) := by
  rw [checked_string]
  refine (reads_u16.bind fun count => reads_take count).congr fun b t => ?_
  constructor
  · rintro ⟨_, s, _, rfl, ⟨n, hn, rfl, rfl⟩, hlength, rfl⟩
    obtain rfl : t.length = n := hlength
    exact ⟨t, hn, rfl, rfl⟩
  · rintro ⟨s, hs, rfl, rfl⟩
    exact ⟨_, _, _, rfl, ⟨_, hs, rfl, rfl⟩, rfl, rfl⟩

/-! ## Things one after the other -/

theorem reads_readMany {read : Reading α} {fits : φ → Prop} {bytes : φ → Bytes} {value : φ → α}
    (h : Reads read (Denotes fits bytes value)) (count : Nat) (done : Array α) :
    Reads (readMany read count done) fun b xs =>
      ∃ fs : List φ, fs.length = count ∧ (∀ f ∈ fs, fits f) ∧ fs.flatMap bytes = b ∧
        xs = done ++ (fs.map value).toArray := by
  induction count generalizing done with
  | zero =>
    refine (reads_pure done).congr fun b xs => ?_
    constructor
    · rintro ⟨rfl, rfl⟩
      exact ⟨[], rfl, by simp, rfl, by simp⟩
    · rintro ⟨fs, hfs, -, rfl, rfl⟩
      obtain rfl := List.eq_nil_of_length_eq_zero hfs
      exact ⟨rfl, by simp⟩
  | succ count ih =>
    let rest : α → Reading (Array α) := fun x => readMany read count (done.push x)
    have heq : readMany read (count + 1) done = (read >>= rest) := by
      funext s
      rw [bind_apply, readMany]
      split
      · next e hread => rw [hread]
      · next x s₁ hread => rw [hread]
    rw [heq]
    refine (h.bind fun x => ih (done.push x)).congr fun b xs => ?_
    constructor
    · rintro ⟨_, _, _, rfl, ⟨f, hf, rfl, rfl⟩, fs, hcount, hfs, rfl, rfl⟩
      refine ⟨f :: fs, by simp [hcount], ?_, by simp, by simp⟩
      intro g hg
      rcases List.mem_cons.1 hg with rfl | hg
      · exact hf
      · exact hfs g hg
    · rintro ⟨fs, hcount, hfs, rfl, rfl⟩
      cases fs with
      | nil => cases hcount
      | cons f fs =>
        refine ⟨_, _, _, List.flatMap_cons, ⟨f, hfs f (by simp), rfl, rfl⟩, fs, ?_, ?_, rfl, ?_⟩
        · simpa using hcount
        · exact fun g hg => hfs g (List.mem_cons_of_mem _ hg)
        · simp

end Reading

end Image

end EndpointRules
