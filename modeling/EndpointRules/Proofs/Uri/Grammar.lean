import Mathlib.Data.Option.Basic
import EndpointRules.Proofs.Bytes
import EndpointRules.Uri

/-!
# The grammar of absolute URIs

A text is a URI exactly if it can be put together from a scheme, an authority, a path and, where
they are present, a query and a fragment, each of the form that the grammar asks for.  There is one
way at most to do so, and reading the text finds it.
-/

namespace EndpointRules.Uri

open Bytes

/-! ## The grammar -/

/-- A letter, and then letters, digits, `+`, `-` and `.`. -/
def SchemeForm (scheme : Bytes) : Prop :=
  ∃ first rest, scheme = first :: rest ∧ isAlpha first = true ∧ ∀ b ∈ rest, isSchemeByte b = true

/-- Bytes that a component may hold, with two hexadecimal digits behind each `%`. -/
structure Spelled (brackets : Bool) (s : Bytes) : Prop where
  plain : ∀ b ∈ s, isPlain brackets b = true
  escape : ∀ before after, s = before ++ '%'.toUInt8 :: after →
    ∃ a b rest, after = a :: b :: rest ∧ isHexDigit a = true ∧ isHexDigit b = true

/-- A host, with a colon and digits behind it if there is a port.  The host is anything up to the
    first closing bracket behind an opening one, or a text without brackets; a text without brackets
    is the host up to its last colon. -/
structure HostPort (hostPort host : Bytes) (port : Option Bytes) : Prop where
  text_eq : hostPort = host ++ port.elim [] (':'.toUInt8 :: ·)
  digits : ∀ number ∈ port, ∀ b ∈ number, isDigit b = true
  host : (∃ inner, host = '['.toUInt8 :: (inner ++ [']'.toUInt8]) ∧ ']'.toUInt8 ∉ inner) ∨
    host ≠ [] ∧ (∀ b ∈ host, isBracket b = false) ∧ (port = none → ':'.toUInt8 ∉ host)

/-- The text that is put together from components. -/
def Components.text (c : Components) : Bytes :=
  c.scheme ++ "://" ++ c.authority ++ c.path ++ c.query.elim [] ('?'.toUInt8 :: ·)
    ++ c.fragment.elim [] ('#'.toUInt8 :: ·)

/-- The components have the forms that the grammar asks for, and they make up the text. -/
structure Decomposes (text : Bytes) (c : Components) : Prop where
  text_eq : text = c.text
  scheme : SchemeForm c.scheme
  authority_ne_nil : c.authority ≠ []
  authority_marks :
    '/'.toUInt8 ∉ c.authority ∧ '?'.toUInt8 ∉ c.authority ∧ '#'.toUInt8 ∉ c.authority
  path_start : c.path = [] ∨ ∃ rest, c.path = '/'.toUInt8 :: rest
  path_marks : '?'.toUInt8 ∉ c.path ∧ '#'.toUInt8 ∉ c.path
  query_marks : ∀ query ∈ c.query, '#'.toUInt8 ∉ query
  fragment_marks : ∀ fragment ∈ c.fragment, '#'.toUInt8 ∉ fragment
  authority : Spelled true c.authority
  path : Spelled false c.path
  query : ∀ query ∈ c.query, Spelled false query
  fragment : ∀ fragment ∈ c.fragment, Spelled false fragment
  /-- The host stands behind the last `@` of the authority. -/
  host : ∃ hostPort port,
    (c.authority = hostPort ∨ ∃ user, c.authority = user ++ '@'.toUInt8 :: hostPort) ∧
      '@'.toUInt8 ∉ hostPort ∧ HostPort hostPort c.host port

variable {text authority hostPort host s : Bytes} {brackets : Bool} {port : Option Bytes}
  {b : UInt8} {c c' : Components}

/-! ## Schemes and components -/

theorem isScheme_iff : isScheme s = true ↔ SchemeForm s := by
  cases s with
  | nil => simp [isScheme, SchemeForm]
  | cons first rest => simp [isScheme, SchemeForm, and_assoc]

theorem colon_not_mem_of_schemeForm (h : SchemeForm s) : ':'.toUInt8 ∉ s := by
  obtain ⟨first, rest, rfl, hfirst, hrest⟩ := h
  intro hmem
  rcases List.mem_cons.1 hmem with hmem | hmem
  · rw [← hmem] at hfirst
    exact absurd hfirst (by decide)
  · exact absurd (hrest _ hmem) (by decide)

/-- Printable bytes of a class may stand in every component if the class has none of the marks that
    some component does not hold. -/
theorem isPlain_of_class {inClass : UInt8 → Bool}
    (hmarks : (0x7F :: '['.toUInt8 :: ']'.toUInt8 :: barredMarks).all (!inClass ·) = true)
    (hblank : 0x20 < b) (h : inClass b = true) (brackets : Bool) : isPlain brackets b = true := by
  have hother : ∀ m ∈ 0x7F :: '['.toUInt8 :: ']'.toUInt8 :: barredMarks, b ≠ m := by
    rintro m hm rfl
    have hnot := List.all_eq_true.1 hmarks b hm
    simp [h] at hnot
  have hbarred : b ∉ barredMarks := fun hmem => hother b (by simp [hmem]) rfl
  simp [isPlain, isBracket, hblank, hbarred, hother 0x7F, hother '['.toUInt8, hother ']'.toUInt8]

/-- A hexadecimal digit may stand in every component, and it starts no escape. -/
theorem isPlain_of_isHexDigit (h : isHexDigit b = true) (brackets : Bool) :
    isPlain brackets b = true ∧ b ≠ '%'.toUInt8 := by
  have hblank : 0x20 < b := by
    simp only [isHexDigit, isDigit, Bool.or_eq_true, Bool.and_eq_true, decide_eq_true_eq] at h
    grind
  refine ⟨isPlain_of_class (by decide) hblank h brackets, ?_⟩
  rintro rfl
  exact absurd h (by decide)

theorem spelled_nil (brackets : Bool) : Spelled brackets [] := by
  refine ⟨by simp, ?_⟩
  intro before after h
  simp at h

theorem spelled_cons_iff :
    Spelled brackets (b :: s) ↔ isPlain brackets b = true ∧
      (b = '%'.toUInt8 → ∃ x y rest, s = x :: y :: rest ∧ isHexDigit x = true ∧
        isHexDigit y = true) ∧ Spelled brackets s := by
  constructor
  · intro h
    refine ⟨h.plain b (by simp), ?_, ?_, ?_⟩
    · intro hb
      exact h.escape [] s (by simp [hb])
    · intro x hx
      exact h.plain x (by simp [hx])
    · intro before after hs
      exact h.escape (b :: before) after (by simp [hs])
  · intro ⟨hb, hescape, hs⟩
    refine ⟨?_, ?_⟩
    · intro x hx
      rcases List.mem_cons.1 hx with hx | hx
      · exact hx ▸ hb
      · exact hs.plain x hx
    · intro before after h
      cases before with
      | nil =>
        cases h
        exact hescape rfl
      | cons x before =>
        cases h
        exact hs.escape before after rfl

/-- The digits of an escape can be read as bytes of their own. -/
theorem spelled_cons_of_isHexDigit (h : isHexDigit b = true) :
    Spelled brackets (b :: s) ↔ Spelled brackets s := by
  obtain ⟨hplain, hescape⟩ := isPlain_of_isHexDigit h brackets
  simp [spelled_cons_iff, hplain, hescape]

theorem isComponent_iff : isComponent brackets s = true ↔ Spelled brackets s := by
  fun_induction isComponent brackets s with
  | case1 => simp [spelled_nil]
  | case2 b hb x y rest ih =>
    have hmark : isPlain brackets '%'.toUInt8 = true := by cases brackets <;> decide
    obtain rfl : b = '%'.toUInt8 := by simpa using hb
    rw [Bool.and_eq_true, Bool.and_eq_true, ih, spelled_cons_iff]
    constructor
    · intro ⟨⟨hx, hy⟩, hrest⟩
      refine ⟨hmark, fun _ => ⟨x, y, rest, rfl, hx, hy⟩, ?_⟩
      rwa [spelled_cons_of_isHexDigit hx, spelled_cons_of_isHexDigit hy]
    · intro ⟨_, hescape, hrest⟩
      obtain ⟨_, _, _, heq, hx, hy⟩ := hescape rfl
      cases heq
      rw [spelled_cons_of_isHexDigit hx, spelled_cons_of_isHexDigit hy] at hrest
      exact ⟨⟨hx, hy⟩, hrest⟩
  | case3 b rest hb hshort =>
    obtain rfl : b = '%'.toUInt8 := by simpa using hb
    rw [spelled_cons_iff]
    refine ⟨nofun, ?_⟩
    intro ⟨_, hescape, _⟩
    obtain ⟨x, y, rest', heq, _⟩ := hescape rfl
    exact absurd heq (hshort x y rest')
  | case4 b rest hb ih =>
    have hescape : b ≠ '%'.toUInt8 := by simpa using hb
    simp [spelled_cons_iff, hescape, ih]

/-! ## Hosts -/

theorem isBracket_of_isDigit (h : isDigit b = true) : isBracket b = false := by
  rcases hb : isBracket b with _ | _
  · rfl
  · simp only [isBracket, Bool.or_eq_true, beq_iff_eq] at hb
    rcases hb with rfl | rfl <;> exact absurd h (by decide)

/-- A text that begins with an opening bracket is a bracketed host, with or without a port. -/
theorem hostPort_iff_of_bracket (h : hostPort.head? = some '['.toUInt8) :
    HostPort hostPort host port ↔
      (∃ inner, cut ']'.toUInt8 hostPort = (inner, some (port.elim [] (':'.toUInt8 :: ·))) ∧
        host = inner ++ [']'.toUInt8]) ∧ ∀ number ∈ port, ∀ b ∈ number, isDigit b = true := by
  constructor
  · intro hport
    refine ⟨?_, hport.digits⟩
    rcases hport.host with ⟨inner, hhost, hinner⟩ | ⟨hne, hplain, -⟩
    · refine ⟨'['.toUInt8 :: inner, cut_eq_iff.2 ⟨?_, ?_⟩, by simp [hhost]⟩
      · simp [hport.text_eq, hhost]
      · rw [List.mem_cons, not_or]
        exact ⟨by decide, hinner⟩
    · obtain ⟨b, rest, rfl⟩ := List.exists_cons_of_ne_nil hne
      rw [hport.text_eq, List.cons_append, List.head?_cons, Option.some.injEq] at h
      subst h
      exact absurd (hplain _ List.mem_cons_self) (by decide)
  · intro ⟨⟨inner, hcut, hhost⟩, hdigits⟩
    obtain ⟨htext, hinner⟩ := cut_eq_iff.1 hcut
    refine ⟨by simp [htext, hhost], hdigits, .inl ?_⟩
    cases inner with
    | nil =>
      rw [htext] at h
      exact absurd (Option.some.inj h) (by decide)
    | cons b inner =>
      rw [htext, List.cons_append, List.head?_cons, Option.some.injEq] at h
      subst h
      exact ⟨inner, hhost, fun hmem => hinner (List.mem_cons_of_mem _ hmem)⟩

/-- A text that begins with anything else is a host without brackets up to the last colon. -/
theorem hostPort_iff_of_plain (h : hostPort.head? ≠ some '['.toUInt8) :
    HostPort hostPort host port ↔ host ≠ [] ∧ (∀ b ∈ hostPort, isBracket b = false) ∧
      cutLast? ':'.toUInt8 hostPort = port.map (host, ·) ∧ (port = none → hostPort = host) ∧
        ∀ number ∈ port, ∀ b ∈ number, isDigit b = true := by
  constructor
  · intro hport
    rcases hport.host with ⟨inner, hhost, -⟩ | ⟨hne, hplain, hcolon⟩
    · rw [hport.text_eq, hhost] at h
      exact absurd rfl h
    · refine ⟨hne, ?_, ?_, ?_, hport.digits⟩
      · intro b hb
        rw [hport.text_eq, List.mem_append] at hb
        rcases hb with hb | hb
        · exact hplain b hb
        · cases port with
          | none => simp at hb
          | some number =>
            rcases List.mem_cons.1 hb with rfl | hb
            · decide
            · exact isBracket_of_isDigit (hport.digits number rfl b hb)
      · cases port with
        | none =>
          rw [hport.text_eq]
          exact cutLast?_eq_none_iff.2 (by simpa using hcolon rfl)
        | some number =>
          refine cutLast?_eq_some_iff.2 ⟨hport.text_eq, ?_⟩
          intro hmem
          exact absurd (hport.digits number rfl _ hmem) (by decide)
      · intro hnone
        simp [hport.text_eq, hnone]
  · intro ⟨hne, hplain, hcut, hnone, hdigits⟩
    cases port with
    | none =>
      obtain rfl := hnone rfl
      exact ⟨by simp, hdigits, .inr ⟨hne, hplain, fun _ => cutLast?_eq_none_iff.1 hcut⟩⟩
    | some number =>
      obtain ⟨htext, -⟩ := cutLast?_eq_some_iff.1 hcut
      refine ⟨htext, hdigits, .inr ⟨hne, ?_, nofun⟩⟩
      intro b hb
      exact hplain b (by simp [htext, hb])

theorem hostOf?_eq_some_iff_of_bracket
    (hbracket : (afterLast '@'.toUInt8 authority).head? = some '['.toUInt8) :
    hostOf? authority = some host ↔
      ∃ port, HostPort (afterLast '@'.toUInt8 authority) host port := by
  unfold hostOf?
  generalize afterLast '@'.toUInt8 authority = hostPort at *
  simp only [hostPort_iff_of_bracket hbracket, hbracket, beq_self_eq_true, if_true]
  cases hcut : cut ']'.toUInt8 hostPort with
  | mk inner behind =>
    cases behind with
    | none => simp
    | some rest =>
      cases rest with
      | nil =>
        constructor
        · intro h
          exact ⟨none, ⟨inner, rfl, (Option.some.inj h).symm⟩, nofun⟩
        · intro ⟨port, ⟨inner', heq, hhost⟩, _⟩
          obtain ⟨rfl, _⟩ := Prod.mk.inj heq
          rw [hhost]
      | cons mark number =>
        constructor
        · intro h
          dsimp only at h
          split at h
          · next hport =>
            simp only [Bool.and_eq_true, beq_iff_eq, List.all_eq_true] at hport
            refine ⟨some number, ⟨inner, by simp [hport.1], (Option.some.inj h).symm⟩, ?_⟩
            intro digits hdigits
            exact Option.some.inj hdigits ▸ hport.2
          · cases h
        · intro ⟨port, ⟨inner', heq, hhost⟩, hdigits⟩
          cases port with
          | none => simp at heq
          | some digits =>
            simp only [Prod.mk.injEq, Option.some.injEq, Option.elim_some, List.cons.injEq] at heq
            obtain ⟨rfl, rfl, rfl⟩ := heq
            have hall : number.all isDigit = true := List.all_eq_true.2 (hdigits number rfl)
            simp [hall, hhost]

theorem hostOf?_eq_some_iff_of_plain
    (hbracket : (afterLast '@'.toUInt8 authority).head? ≠ some '['.toUInt8) :
    hostOf? authority = some host ↔
      ∃ port, HostPort (afterLast '@'.toUInt8 authority) host port := by
  unfold hostOf?
  generalize afterLast '@'.toUInt8 authority = hostPort at *
  simp only [hostPort_iff_of_plain hbracket]
  have hopen : (hostPort.head? == some '['.toUInt8) = false := by simpa using hbracket
  rw [hopen, if_neg Bool.false_ne_true]
  constructor
  · intro h
    split at h
    · cases h
    · next hguard =>
      simp only [Bool.or_eq_true, not_or, List.isEmpty_iff, List.any_eq_true, not_exists,
        not_and, Bool.not_eq_true] at hguard
      cases hcut : cutLast? ':'.toUInt8 hostPort with
      | none =>
        rw [hcut] at h
        obtain rfl := Option.some.inj h
        exact ⟨none, hguard.1, hguard.2, rfl, fun _ => rfl, nofun⟩
      | some pieces =>
        obtain ⟨before, number⟩ := pieces
        simp only [hcut] at h
        split at h
        · next hport =>
          obtain rfl := Option.some.inj h
          simp only [Bool.and_eq_true, Bool.not_eq_true', List.isEmpty_eq_false_iff,
            List.all_eq_true] at hport
          refine ⟨some number, hport.1, hguard.2, rfl, nofun, ?_⟩
          intro digits hdigits
          exact Option.some.inj hdigits ▸ hport.2
        · cases h
  · intro ⟨port, hne, hplain, hcut, hnone, hdigits⟩
    have hany : hostPort.any isBracket = false := by simpa using hplain
    have hsome : hostPort.isEmpty = false := by
      cases port with
      | none => simpa [hnone rfl] using hne
      | some number =>
        obtain ⟨htext, -⟩ := cutLast?_eq_some_iff.1 hcut
        simp [htext]
    rw [hany, hsome, hcut]
    cases port with
    | none => simp [hnone rfl]
    | some number =>
      have hall : number.all isDigit = true := List.all_eq_true.2 (hdigits number rfl)
      simp [hall, hne]

/-- The host of an authority is that of the text behind the last `@`. -/
theorem hostOf?_eq_some_iff :
    hostOf? authority = some host ↔
      ∃ port, HostPort (afterLast '@'.toUInt8 authority) host port := by
  by_cases hbracket : (afterLast '@'.toUInt8 authority).head? = some '['.toUInt8
  · exact hostOf?_eq_some_iff_of_bracket hbracket
  · exact hostOf?_eq_some_iff_of_plain hbracket

/-! ## Texts -/

theorem getD_iff_forall_mem {P : Bytes → Prop} (h : P []) (part : Option Bytes) :
    P (part.getD []) ↔ ∀ s ∈ part, P s := by
  cases part with
  | none => simpa using h
  | some s => simp

/-- A part behind a mark holds another mark only if it does so behind its own. -/
theorem not_mem_elim_cons_iff {mark own : UInt8} (h : mark ≠ own) (part : Option Bytes) :
    mark ∉ part.elim [] (own :: ·) ↔ ∀ s ∈ part, mark ∉ s := by
  cases part with
  | none => simp
  | some s => simp [h]

/-- How a text is cut, and what is asked of the pieces. -/
theorem ofText?_eq_some_iff :
    Components.ofText? text = some c ↔ ∃ rest rest' rest'',
      breakOn? "://" text = some (c.scheme, rest) ∧ cut '#'.toUInt8 rest = (rest', c.fragment) ∧
        cut '?'.toUInt8 rest' = (rest'', c.query) ∧
        rest''.takeWhile (· != '/'.toUInt8) = c.authority ∧
        rest''.dropWhile (· != '/'.toUInt8) = c.path ∧ isScheme c.scheme = true ∧
        c.authority ≠ [] ∧ isComponent true c.authority = true ∧ isComponent false c.path = true ∧
        isComponent false (c.query.getD []) = true ∧ isComponent false (c.fragment.getD []) = true ∧
        '#'.toUInt8 ∉ c.fragment.getD [] ∧ hostOf? c.authority = some c.host := by
  simp only [Components.ofText?, Option.bind_eq_bind, Option.bind_eq_some_iff,
    Option.guard_eq_some', Bool.and_eq_true, Bool.not_eq_true', List.isEmpty_eq_false_iff,
    List.contains_eq_mem, decide_eq_false_iff_not]
  constructor
  · intro h
    obtain ⟨⟨scheme, rest⟩, hbreak, _, hscheme, _, ⟨⟨hne, hauthority⟩, hpath⟩, _,
      ⟨hquery, hfragment⟩, _, hmark, host, hhost, hc⟩ := h
    cases hc
    exact ⟨rest, _, _, hbreak, rfl, rfl, rfl, rfl, hscheme, hne, hauthority, hpath, hquery,
      hfragment, hmark, hhost⟩
  · intro h
    obtain ⟨rest, rest', rest'', hbreak, hhash, hquestion, htake, hdrop, hscheme, hne, hauthority,
      hpath, hquery, hfragment, hmark, hhost⟩ := h
    refine ⟨(c.scheme, rest), hbreak, (), hscheme, (), ?_, (), ?_, (), ?_, c.host, ?_, ?_⟩
    all_goals simp only [hhash, hquestion, htake, hdrop]
    · exact ⟨⟨hne, hauthority⟩, hpath⟩
    · exact ⟨hquery, hfragment⟩
    · exact hmark
    · exact hhost
    · rfl

/-- What a text is read as, the grammar finds in it. -/
theorem decomposes_of_ofText? (h : Components.ofText? text = some c) : Decomposes text c := by
  obtain ⟨rest, rest', rest'', hbreak, hhash, hquestion, htake, hdrop, hscheme, hne, hauthority,
    hpath, hquery, hfragment, hmark, hhost⟩ := ofText?_eq_some_iff.1 h
  obtain ⟨hrest, hhash⟩ := cut_eq_iff.1 hhash
  obtain ⟨hrest', hquestion⟩ := cut_eq_iff.1 hquestion
  have hrest'' := List.takeWhile_append_dropWhile (p := (· != '/'.toUInt8)) (l := rest'')
  have htext := eq_append_of_breakOn? hbreak
  rw [htake, hdrop] at hrest''
  rw [hrest, hrest', ← hrest''] at htext
  rw [hrest', ← hrest''] at hhash
  rw [← hrest''] at hquestion
  simp only [List.mem_append, not_or] at hhash hquestion
  obtain ⟨port, hport⟩ := hostOf?_eq_some_iff.1 hhost
  obtain ⟨huser, hat⟩ := afterLast_eq_iff.1 (rfl : afterLast '@'.toUInt8 c.authority = _)
  exact {
    text_eq := by simp [htext, Components.text]
    scheme := isScheme_iff.1 hscheme
    authority_ne_nil := hne
    authority_marks := ⟨htake ▸ not_mem_takeWhile _ _, hquestion.1, hhash.1.1⟩
    path_start := hdrop ▸ dropWhile_eq _ _
    path_marks := ⟨hquestion.2, hhash.1.2⟩
    query_marks := (not_mem_elim_cons_iff (by decide) _).1 hhash.2
    fragment_marks := (getD_iff_forall_mem List.not_mem_nil _).1 hmark
    authority := isComponent_iff.1 hauthority
    path := isComponent_iff.1 hpath
    query := (getD_iff_forall_mem (spelled_nil _) _).1 (isComponent_iff.1 hquery)
    fragment := (getD_iff_forall_mem (spelled_nil _) _).1 (isComponent_iff.1 hfragment)
    host := ⟨_, port, huser, hat, hport⟩ }

/-- What the grammar finds in a text, the text is read as. -/
theorem Decomposes.ofText?_eq (h : Decomposes text c) : Components.ofText? text = some c := by
  have hmarks : (("://" : String) : Bytes) = [':'.toUInt8, '/'.toUInt8, '/'.toUInt8] := rfl
  obtain ⟨hostPort, port, huser, hat, hport⟩ := h.host
  have hbreak := breakOn?_append (colon_not_mem_of_schemeForm h.scheme) ['/'.toUInt8, '/'.toUInt8]
    (c.authority ++ c.path ++ c.query.elim [] ('?'.toUInt8 :: ·)
      ++ c.fragment.elim [] ('#'.toUInt8 :: ·))
  refine ofText?_eq_some_iff.2 ⟨_, c.authority ++ c.path ++ c.query.elim [] ('?'.toUInt8 :: ·),
    c.authority ++ c.path, ?_, cut_eq_iff.2 ⟨rfl, ?_⟩, cut_eq_iff.2 ⟨rfl, ?_⟩,
    takeWhile_append h.authority_marks.1 h.path_start,
    dropWhile_append h.authority_marks.1 h.path_start, isScheme_iff.2 h.scheme,
    h.authority_ne_nil, isComponent_iff.2 h.authority, isComponent_iff.2 h.path, ?_, ?_, ?_, ?_⟩
  · rw [h.text_eq, Components.text, hmarks]
    simpa only [List.append_assoc] using hbreak
  · simp only [List.mem_append, not_or]
    exact ⟨⟨h.authority_marks.2.2, h.path_marks.2⟩,
      (not_mem_elim_cons_iff (by decide) _).2 h.query_marks⟩
  · simp only [List.mem_append, not_or]
    exact ⟨h.authority_marks.2.1, h.path_marks.1⟩
  · exact isComponent_iff.2 ((getD_iff_forall_mem (spelled_nil _) _).2 h.query)
  · exact isComponent_iff.2 ((getD_iff_forall_mem (spelled_nil _) _).2 h.fragment)
  · exact (getD_iff_forall_mem List.not_mem_nil _).2 h.fragment_marks
  · refine hostOf?_eq_some_iff.2 ⟨port, ?_⟩
    rwa [afterLast_eq_iff.2 ⟨huser, hat⟩]

/-- Two decompositions of one text are the same. -/
theorem Decomposes.unique (h : Decomposes text c) (h' : Decomposes text c') : c = c' :=
  Option.some.inj (h.ofText?_eq.symm.trans h'.ofText?_eq)

/-! ## Reading -/

theorem decomposes_of_parse? {u : Uri} (h : parse? text = some u) :
    Decomposes text u.components := by
  rw [← text_of_parse? h]
  exact decomposes_of_ofText? u.ofText?_eq

/-- A text is read as a URI exactly if the grammar decomposes it.  There is one decomposition at
    most, and it is what the URI consists of; the URI keeps the text. -/
theorem parse?_iff_decomposes (text : Bytes) :
    ((∃ u, parse? text = some u) ↔ ∃ c, Decomposes text c) ∧
      (∀ c c', Decomposes text c → Decomposes text c' → c = c') ∧
      ∀ u, parse? text = some u → u.text = text ∧ Decomposes text u.components ∧
        (u.hasQuery = true ↔ ∃ query, u.components.query = some query) := by
  have hread : ∀ u, parse? text = some u → u.text = text ∧ Decomposes text u.components := by
    intro u hu
    exact ⟨text_of_parse? hu, decomposes_of_parse? hu⟩
  refine ⟨⟨?_, ?_⟩, fun c c' => Decomposes.unique, ?_⟩
  · intro ⟨u, hu⟩
    exact ⟨u.components, (hread u hu).2⟩
  · intro ⟨c, hc⟩
    let u : Uri := { text, components := c, ofText?_eq := hc.ofText?_eq }
    exact ⟨u, parse?_text u⟩
  · intro u hu
    exact ⟨(hread u hu).1, (hread u hu).2, Option.isSome_iff_exists⟩

end EndpointRules.Uri
