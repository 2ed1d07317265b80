import PatternDialect.Proofs.Classes
import PatternDialect.Proofs.Sources
import PatternDialect.Proofs.UnitCuts

/-! What a conversion does at a single token of the dialect: where it is read whole, the
outcome is that of the state behind it. -/

namespace PatternDialect.Conversion

open Character Source Syntax

variable {options : Options} {s : State}

/-! ### Classes -/

theorem escaped_copy_two (unescaped : s.escaped = false) {c : Char} {more : Text}
    (rest : s.rest = '\\' :: c :: more) : (s.copy 2).escaped = false := by
  have live : Escape.pending s.before = false := unescaped
  change (s.skip 2).escaped = false
  rw [State.escaped_skip, rest]
  change Escape.pending (c :: '\\' :: s.before) = false
  rw [Escape.pending_cons, Escape.pending_cons, live]
  simp

theorem conclude_bracket (lenient : options.extra = false) {body more : Text}
    (inner : isClassBody body = true) (place : s.place = .outside) (followed : s.Followed)
    (rest : s.rest = '[' :: (body ++ ']' :: more)) :
    conclude options none s = conclude options none
      ((s.copy (body.length + 2)).recordAtom s.out.size) := by
  simp only [isClassBody, Bool.and_eq_true, beq_iff_eq] at inner
  obtain ⟨_, trace⟩ := trace_bracket lenient (Option.some_ne_none _).symm
    (Option.some_ne_none _).symm place followed rest inner.1 inner.2
  exact trace.conclude_eq

/-! ### Layout -/

theorem step_blank (place : s.place = .outside) {joined : Bool}
    (whole : Sealed joined s.out) {c : Char}
    {more : Text} (rest : s.rest = c :: more) (blank : isBlank c = true) :
    s.step options none = .ok (s.skip 1) := by
  have braces : (s.skip 1).inOpenBraces = false := whole.inOpenBraces rfl
  have escapes : more.firstSignificant?.any (s.skip 1).continuesEscape = false := by
    cases more.firstSignificant? with
    | none => rfl
    | some next => exact whole.continuesEscape (s := s.skip 1) rfl next
  rw [State.step, State.next?_plain rest (by simp), Construct.plain?_blank _ _ blank]
  simp [State.read, State.blank, State.inClass_of_place place, State.escaped_of_place place,
    State.dropBlank, rest, braces, escapes]

theorem step_comment (place : s.place = .outside) {more : Text} (rest : s.rest = '#' :: more) :
    s.step options none = .ok (s.skip (State.commentLength s.rest)) := by
  rw [State.step, State.next?_plain rest (by simp), Construct.plain?_comment]
  simp [State.read, State.comment, State.inClass_of_place place, State.escaped_of_place place]

theorem State.commentLength_line {body : Text} {c : Char} (inner : ∀ d ∈ body, isLineEnd d = false)
    (ends : isLineEnd c = true) (more : Text) :
    State.commentLength ('#' :: body ++ c :: more) = body.length + 2 := by
  have line : ∀ d ∈ '#' :: body, (!isLineEnd d) = true := by
    intro d member
    rcases List.mem_cons.mp member with rfl | member
    · decide
    · simp [inner d member]
  have stops : (!isLineEnd c) = false := by simp [ends]
  rw [State.commentLength, Text.takeWhile_before line stops more]
  rfl

theorem conclude_layout {gap more : Text} (layout : Layout gap) (place : s.place = .outside)
    {joined : Bool} (whole : Sealed joined s.out) (rest : s.rest = gap ++ more) :
    conclude options none s = conclude options none (s.skip gap.length) ∧
      (s.skip gap.length).place = .outside := by
  induction layout generalizing s with
  | none =>
      have same : s.skip 0 = s := by simp
      rw [List.length_nil, same]
      exact ⟨rfl, place⟩
  | blank blank layout ih =>
      rename_i c gap
      have unescaped : (s.skip 1).escaped = false := by
        have other : c ≠ '\\' := ne_of_isBlank blank (by decide)
        rw [State.escaped_skip_one rest, beq_eq_false_iff_ne.mpr other, Bool.false_and]
      obtain ⟨through, outside⟩ := ih (s := s.skip 1) (State.place_skip place unescaped) whole
        (by simp [rest])
      rw [State.skip_skip, Nat.add_comm] at through outside
      rw [conclude_ok (by simp [rest]) (step_blank place whole rest blank)]
      exact ⟨through, outside⟩
  | comment inner ends layout ih =>
      rename_i body gap c
      have parts : s.rest = ('#' :: body) ++ c :: (gap ++ more) := by simpa using rest
      have length : State.commentLength s.rest = body.length + 2 := by
        rw [parts]
        exact State.commentLength_line inner ends (gap ++ more)
      have words : s.rest = ('#' :: body ++ [c]) ++ (gap ++ more) := by simp [parts]
      have taken : s.rest.take (body.length + 2) = '#' :: body ++ [c] := by
        rw [words]
        exact List.take_left' (by simp)
      have unescaped : (s.skip (body.length + 2)).escaped = false := by
        apply State.escaped_skip_of_last _ taken
        rintro rfl
        revert ends
        decide
      have left : (s.skip (body.length + 2)).rest = gap ++ more := by
        rw [State.rest_skip, words]
        exact List.drop_left' (by simp)
      obtain ⟨through, outside⟩ := ih (State.place_skip place unescaped) whole left
      have count : body.length + 2 + gap.length = ('#' :: body ++ c :: gap).length := by
        simp
        omega
      rw [State.skip_skip, count] at through outside
      rw [conclude_ok (by simp [parts]) (step_comment place parts), length]
      exact ⟨through, outside⟩

/-! ### Units -/

namespace State

/-- A state outside of everything, and whether its output ends in a reference. -/
structure Pause (s : State) (joined : Bool) : Prop where
  place : s.place = .outside
  followed : s.Followed
  mark : (s.referenceEnd == some s.out.size) = joined
  behind : ∀ a, s.atom = some a → a.stop ≤ s.out.size

/-- A state behind a unit that a quantifier would apply to.  The unit is remembered, or it
is found at the end of the output. -/
structure Unit (s : State) (front unit : Text) (index : Nat) (emulated refers : Bool) : Prop
    extends s.Pause refers where
  out : s.out = front ++ unit
  found : (∃ first, s.atom.filter (·.stop == s.out.size) =
        some ⟨front.size, s.out.size, first, emulated⟩ ∧ s.groups.clamp first = index) ∨
      s.atom.filter (·.stop == s.out.size) = none ∧ emulated = false ∧
        Atom.trailingUnit? s.out = some unit ∧ index = s.groups.size

variable {joined : Bool} {w : Text} {count : Nat}

theorem Pause.outgrown (pause : s.Pause joined) {size : Nat} (grown : s.out.size < size) :
    s.atom.filter (·.stop == size) = none ∧ (s.referenceEnd == some size) = false := by
  constructor
  · rw [Option.filter_eq_none_iff]
    intro a recorded
    have before := pause.behind a recorded
    simp only [beq_iff_eq]
    omega
  · rw [beq_eq_false_iff_ne]
    intro last
    have before := (pause.followed _ last).1
    omega

theorem size_lt_append {out w : Text} (nonempty : w ≠ []) : out.size < (out ++ w).size := by
  have positive := Text.size_pos nonempty
  rw [Text.size_append]
  omega

theorem Pause.written (pause : s.Pause joined) (nonempty : w ≠ [])
    (place : (s.skip count).place = .outside) : ((s.emit w).skip count).Pause false := by
  have grown : s.out.size < (s.out ++ w).size := size_lt_append nonempty
  refine ⟨place, fun stop last => ?_, (pause.outgrown grown).2, fun a recorded => ?_⟩
  · have before := (pause.followed stop last).1
    change stop ≤ (s.out ++ w).size ∧ (_ → stop < (s.out ++ w).size)
    exact ⟨by omega, fun _ => by omega⟩
  · have before := pause.behind a recorded
    change a.stop ≤ (s.out ++ w).size
    omega

theorem Pause.written_unit (pause : s.Pause joined) (front unit : Text) (nonempty : unit ≠ [])
    (place : (s.skip count).place = .outside)
    (trailing : Atom.trailingUnit? (s.out ++ (front ++ unit)) = some unit) :
    ((s.emit (front ++ unit)).skip count).Unit (s.out ++ front) unit s.groups.size false false := by
  have filled : front ++ unit ≠ [] := by simp [nonempty]
  refine ⟨pause.written filled place, (List.append_assoc _ _ _).symm,
    Or.inr ⟨?_, rfl, trailing, rfl⟩⟩
  exact (pause.outgrown (size_lt_append filled)).1

theorem Pause.recorded_unit (pause : s.Pause joined) (nonempty : w ≠ [])
    (place : (s.skip count).place = .outside) :
    (((s.emit w).skip count).recordAtom s.out.size).Unit s.out w s.groups.size false false := by
  have written := pause.written nonempty place
  refine ⟨⟨written.place, written.followed, written.mark, fun a recorded => ?_⟩, rfl,
    Or.inl ⟨s.groups.size, ?_, ?_⟩⟩
  · obtain rfl := Option.some.inj recorded
    exact Nat.le_refl _
  · simp [recordAtom, Option.filter]
  · unfold GroupTable.clamp
    change max 1 (min s.groups.size s.groups.size) = _
    have positive : 1 ≤ s.groups.size := Nat.le_add_left 1 _
    omega

theorem Pause.referred (pause : s.Pause joined) {slot : Nat}
    (place : (s.skip count).place = .outside) :
    ((s.skip count).emitReference slot).Pause true := by
  have nonempty : Backreference.render slot ≠ [] := by simp [Backreference.render]
  have written := pause.written nonempty place
  refine ⟨written.place, fun stop last => ?_, ?_, written.behind⟩
  · obtain rfl := Option.some.inj last
    refine ⟨Nat.le_refl _, fun class_ => ?_⟩
    have outside := inClass_of_place place
    have inside : (s.skip count).inClass = true := class_
    rw [outside] at inside
    contradiction
  · simp [emitReference, markReference]

theorem Pause.referred_unit (pause : s.Pause joined) {slot : Nat}
    (place : (s.skip count).place = .outside)
    (trailing : Atom.trailingUnit? (s.out ++ Backreference.render slot) =
      some (Backreference.render slot)) :
    ((s.skip count).emitReference slot).Unit s.out (Backreference.render slot) s.groups.size
      false true := by
  have nonempty : Backreference.render slot ≠ [] := by simp [Backreference.render]
  exact ⟨pause.referred place, rfl,
    Or.inr ⟨(pause.outgrown (size_lt_append nonempty)).1, rfl, trailing, rfl⟩⟩

end State

/-! ### Leaves -/

structure State.Keeps (s next : State) (more : Text) : Prop where
  rest : next.rest = more
  frames : next.frames = s.frames
  flags : next.flags = s.flags

variable {joined : Bool} {more : Text}

theorem not_head_of_literal {c : Char} (plain : isLiteral c = true) : c ∉ Construct.heads := by
  have other := (isLiteral_spec plain).2
  simp [Construct.heads, other]

theorem step_plain {c : Char} (rest : s.rest = c :: more) (visible : isBlank c = false)
    (other : c ∉ Construct.heads) (mark : (s.referenceEnd == some s.out.size) = joined) :
    s.step options none =
      .ok ((s.emit ((if joined && isDigit c then separator else []) ++ [c])).skip 1) := by
  rw [State.step, State.next?_plain rest (by simp), Construct.plain?_other _ _ visible other,
    State.copyPlain_eq rest, mark, Bool.and_comm]
  cases joined && isDigit c <;> rfl

theorem place_skip_one {c : Char} (place : s.place = .outside) (rest : s.rest = c :: more)
    (other : c ≠ '\\') : (s.skip 1).place = .outside := by
  apply State.place_skip place
  rw [State.escaped_skip_one rest, beq_eq_false_iff_ne.mpr other, Bool.false_and]

theorem conclude_literal {c : Char} (plain : isLiteral c = true) (rest : s.rest = c :: more)
    (pause : s.Pause joined) (whole : Sealed joined s.out) :
    ∃ u, conclude options none s = conclude options none u ∧ s.Keeps u more ∧ u.groups = s.groups ∧
      u.Unit (s.out ++ Leaf.parted joined (.literal c plain)) [c] s.groups.size false false := by
  obtain ⟨visible, other⟩ := isLiteral_spec plain
  obtain ⟨before, parted, apart⟩ := Leaf.sealed_parted whole (.literal c plain) options s.groups
  have trailing := parted.trailingUnit?_char (c := c) (by simp [other]) fun on => by
    simpa [Leaf.source] using apart on
  rw [List.append_assoc] at trailing
  refine ⟨_, conclude_ok (by simp [rest])
    (step_plain rest visible (not_head_of_literal plain) pause.mark),
    ⟨by simp [rest], rfl, rfl⟩, rfl, ?_⟩
  exact pause.written_unit _ _ (by simp)
    (place_skip_one pause.place rest (by simp [other])) trailing

theorem conclude_dot (rest : s.rest = '.' :: more) (pause : s.Pause joined)
    (whole : Sealed joined s.out) :
    ∃ u, conclude options none s = conclude options none u ∧ s.Keeps u more ∧ u.groups = s.groups ∧
      u.Unit s.out (Leaf.source options s.groups .dot) s.groups.size false false := by
  have place := place_skip_one pause.place rest (by decide)
  have read : s.step options none = .ok (s.dot options) := by
    rw [State.step, State.next?_plain rest (by simp), Construct.plain?_dot]
    rfl
  have class_ := State.inClass_of_place pause.place
  have escape := State.escaped_of_place pause.place
  cases single : options.singleLine with
  | true =>
      have step : s.step options none =
          .ok (((s.emit ['[', '^', ']']).skip 1).recordAtom s.out.size) := by
        rw [read]
        simp [State.dot, class_, escape, single]
      refine ⟨_, conclude_ok (by simp [rest]) step,
        ⟨by simp [State.recordAtom, rest], rfl, rfl⟩, rfl, ?_⟩
      simp only [Leaf.source, single, ↓reduceIte]
      exact pause.recorded_unit (by simp) place
  | false =>
      have step : s.step options none = .ok ((s.emit ([] ++ ['.'])).skip 1) := by
        rw [read]
        simp [State.dot, single, s.copy_of_take, rest]
      have trailing : Atom.trailingUnit? (s.out ++ ['.']) = some ['.'] :=
        whole.trailingUnit?_char (by decide) (fun _ => by decide)
      refine ⟨_, conclude_ok (by simp [rest]) step,
        ⟨by simp [rest], rfl, rfl⟩, rfl, ?_⟩
      have unit := pause.written_unit [] ['.'] (by simp) place trailing
      simpa [Leaf.source, single] using unit

theorem conclude_recorded (lenient : options.extra = false) {body : Text}
    (inner : isClassBody body = true) (rest : s.rest = ('[' :: body ++ [']']) ++ more)
    (pause : s.Pause joined) :
    conclude options none s = conclude options none
        (((s.emit ('[' :: body ++ [']'])).skip (body.length + 2)).recordAtom s.out.size) ∧
      (s.skip (body.length + 2)).place = .outside ∧ (s.skip (body.length + 2)).rest = more := by
  have count : ('[' :: body ++ [']']).length = body.length + 2 := by simp
  have taken : s.rest.take (body.length + 2) = '[' :: body ++ [']'] := by
    rw [rest, ← count, List.take_left]
  refine ⟨?_, State.place_skip pause.place (State.escaped_skip_of_last _ taken (by decide)), ?_⟩
  · rw [conclude_bracket lenient inner pause.place pause.followed (by simpa using rest),
      s.copy_of_take taken]
  · change s.rest.drop (body.length + 2) = more
    rw [rest, ← count, List.drop_left]

theorem conclude_class (lenient : options.extra = false) {body : Text}
    (inner : isClassBody body = true) (rest : s.rest = '[' :: (body ++ ']' :: more))
    (pause : s.Pause joined) :
    ∃ u, conclude options none s = conclude options none u ∧ s.Keeps u more ∧ u.groups = s.groups ∧
      u.Unit s.out ('[' :: body ++ [']']) s.groups.size false false := by
  have words : s.rest = ('[' :: body ++ [']']) ++ more := by simp [rest]
  obtain ⟨outcome, place, behind⟩ := conclude_recorded lenient inner words pause
  exact ⟨_, outcome, ⟨behind, rfl, rfl⟩, rfl, pause.recorded_unit (by simp) place⟩

theorem conclude_plain {word : Text} (plain : ∀ c ∈ word, isBlank c = false ∧ c ∉ Construct.heads)
    (pause : s.Pause false) (rest : s.rest = word ++ more) :
    conclude options none s = conclude options none (s.copy word.length) ∧
      (s.copy word.length).Pause false := by
  induction word generalizing s with
  | nil =>
      have same : s.copy 0 = s := by simp
      rw [List.length_nil, same]
      exact ⟨rfl, pause⟩
  | cons c word ih =>
      obtain ⟨visible, other⟩ := plain c (by simp)
      have step : s.step options none = _ := step_plain rest visible other pause.mark
      have copied : s.copy 1 = (s.emit ([] ++ [c])).skip 1 := by
        exact s.copy_of_take (by simp [rest])
      have slash : c ≠ '\\' := by
        rintro rfl
        exact other (by decide)
      have paused : (s.copy 1).Pause false := by
        rw [copied]
        exact pause.written (by simp) (place_skip_one pause.place rest slash)
      have through := ih (fun d member => plain d (by simp [member])) paused
        (by simp [rest])
      rw [State.copy_copy, Nat.add_comm] at through
      rw [conclude_ok (by simp [rest]) step, Bool.false_and, if_neg (by decide), ← copied]
      exact through

theorem isLetter_of_isKnownEscape {c : Char} (known : State.isKnownEscape c = true) :
    isLetter c = true := by
  have letters : ∀ d ∈ ['d', 'D', 'w', 'W', 's', 'S', 't', 'r', 'n', 'v', 'f', 'b', 'B'],
      isLetter d = true := List.all_eq_true.mp (by decide)
  exact letters c (List.contains_iff_mem.mp known)

theorem utf8Size_of_isHexDigit {c : Char} (hex : isHexDigit c = true) : c.utf8Size = 1 := by
  apply Char.utf8Size_eq_one_iff.mpr
  simp only [isHexDigit, isDigit, Bool.or_eq_true, Bool.and_eq_true, decide_eq_true_eq] at hex
  rcases hex with (digit | lower) | upper
  · exact UInt32.le_trans digit.2 (by decide)
  · exact UInt32.le_trans lower.2 (by decide)
  · exact UInt32.le_trans upper.2 (by decide)

theorem trailingUnit?_complete {out body : Text} (unescaped : Escape.pending out.reverse = false)
    (complete : isComplete body = true) :
    Atom.trailingUnit? (out ++ '\\' :: body) = some ('\\' :: body) := by
  have slash : '\\'.utf8Size = 1 := by decide
  refine trailingUnit?_escape unescaped ?_ ?_ (isComplete_backslash complete)
  · rcases isComplete_spec complete with ⟨c, rfl, _⟩ | ⟨c, d, rfl, first, second⟩ |
        ⟨c, d, e, f, rfl, first, second, third, fourth⟩
    · rfl
    · simp [Atom.isEscapeBody, first, second]
    · have brace : c ≠ '{' := by
        rintro rfl
        revert first
        decide
      simp [Atom.isEscapeBody, brace, first, second, third, fourth]
  · rcases isComplete_spec complete with ⟨c, rfl, _⟩ | ⟨c, d, rfl, first, second⟩ |
        ⟨c, d, e, f, rfl, first, second, third, fourth⟩
    · have bound := c.utf8Size_le_four
      simp only [Text.size_cons, Text.size_nil, slash, Atom.searchWidth]
      omega
    · have letter : 'x'.utf8Size = 1 := by decide
      simp [Text.size_cons, slash, letter, utf8Size_of_isHexDigit, first, second, Atom.searchWidth]
    · have letter : 'u'.utf8Size = 1 := by decide
      simp [Text.size_cons, slash, letter, utf8Size_of_isHexDigit, first, second, third, fourth,
        Atom.searchWidth]

theorem State.Pause.copy_two (pause : s.Pause joined) {c : Char} {left : Text}
    (rest : s.rest = '\\' :: c :: left) : (s.copy 2).Pause false := by
  have taken : s.rest.take 2 = ['\\', c] := by simp [rest]
  rw [s.copy_of_take taken]
  refine pause.written (by simp) (State.place_skip pause.place ?_)
  exact escaped_copy_two (State.escaped_of_place pause.place) rest

theorem isWord_spec {c : Char} (word : isWord c = true) :
    isBlank c = false ∧ c ∉ Construct.heads := by
  have ascii : ∀ n < 123, isWord (Char.ofNat n) = true →
      isBlank (Char.ofNat n) = false ∧ Char.ofNat n ∉ Construct.heads := by decide +kernel
  have bound : c.toNat < 123 := by
    simp only [isWord, isLetter, isDigit, Bool.or_eq_true, Bool.and_eq_true, decide_eq_true_eq,
      Char.le_def, UInt32.le_iff_toNat_le, beq_iff_eq] at word
    rcases word with (letter | digit) | rfl
    · simp at letter
      omega
    · simp at digit
      omega
    · decide
  have spec := ascii c.toNat bound
  rw [Char.ofNat_toNat] at spec
  exact spec word

theorem isWord_of_isHexDigit {c : Char} (hex : isHexDigit c = true) : isWord c = true := by
  rcases State.isLetter_or_isDigit_of_isHexDigit hex with letter | digit
  · simp [isWord, letter]
  · simp [isWord, digit]

theorem isLetter_of_isBlank {c : Char} (blank : isBlank c = true) : isLetter c = false := by
  rw [Bool.eq_false_iff]
  intro letter
  have word : isWord c = true := by simp [isWord, letter]
  have visible := (isWord_spec word).1
  rw [blank] at visible
  contradiction

theorem isLetterEscape_spec {body : Text} (known : isLetterEscape body = true) :
    ∃ letter digits, body = letter :: digits ∧ isLetter letter = true ∧ letter ≠ 'k' ∧
      (letter = 'u' → digits ≠ []) ∧ ∀ d ∈ digits, isHexDigit d = true := by
  unfold isLetterEscape at known
  split at known
  · rename_i letter
    refine ⟨letter, [], rfl, isLetter_of_isKnownEscape known, ?_, ?_, by simp⟩
    · rintro rfl
      revert known
      decide
    · rintro rfl
      revert known
      decide
  · refine ⟨'x', _, rfl, by decide, by decide, by simp, ?_⟩
    simpa using known
  · refine ⟨'u', _, rfl, by decide, by decide, by simp, ?_⟩
    simpa [and_assoc] using known
  · contradiction

theorem bracedLength_of_hex {c : Char} (hex : isHexDigit c = true) (left : Text) :
    State.bracedLength (c :: left) = 0 := by
  have other : c ≠ '{' := by
    rintro rfl
    revert hex
    decide
  simp [State.bracedLength, State.bracedHex?, other]

theorem conclude_letter (lenient : options.extra = false) {body : Text}
    (known : isLetterEscape body = true) (rest : s.rest = '\\' :: (body ++ more))
    (pause : s.Pause joined) (whole : Sealed joined s.out) :
    ∃ u, conclude options none s = conclude options none u ∧ s.Keeps u more ∧ u.groups = s.groups ∧
      u.Unit s.out ('\\' :: body) s.groups.size false false := by
  obtain ⟨letter, digits, rfl, isLetter_, other, braced, hex⟩ := isLetterEscape_spec known
  have escape := State.escaped_of_place pause.place
  have rest' : s.rest = '\\' :: letter :: (digits ++ more) := rest
  have visible := isDigit_of_isLetter isLetter_
  have found :
      Construct.afterBackslash? (letter :: (digits ++ more)) = some (.escapedLetter letter) := by
    simp [Construct.afterBackslash?, other, visible, isLetter_]
  have length : (2 + if letter == 'u' && options.unicode then
      State.bracedLength (s.rest.drop 2) else 0) = 2 := by
    split
    · rename_i unicode
      simp only [Bool.and_eq_true, beq_iff_eq] at unicode
      obtain ⟨d, left, rfl⟩ := List.exists_cons_of_ne_nil (braced unicode.1)
      rw [rest']
      exact congrArg (2 + ·) (bracedLength_of_hex (hex d (by simp)) _)
    · rfl
  have step : s.step options none = .ok (s.copy 2) := by
    rw [State.step, next?_backslash escape rest (by decide), List.cons_append, found]
    have taken := State.escapedLetter_admitted
      (by simp [State.admits, lenient] : State.admits options letter (s.rest.drop 2) = true)
    rw [length] at taken
    exact taken
  have left : (s.copy 2).rest = digits ++ more := by simp [rest]
  have words : s.rest = ('\\' :: letter :: digits) ++ more := rest
  have taken : s.rest.take (2 + digits.length) = [] ++ '\\' :: letter :: digits := by
    rw [words]
    exact List.take_left' (by simp; omega)
  obtain ⟨through, paused⟩ : conclude options none (s.copy 2) = _ ∧ _ :=
    conclude_plain (fun d member => isWord_spec (isWord_of_isHexDigit (hex d member)))
      (pause.copy_two rest') left
  rw [State.copy_copy] at through paused
  refine ⟨s.copy (2 + digits.length), ?_, ⟨?_, rfl, rfl⟩, rfl, ?_⟩
  · rw [conclude_ok (by simp [rest]) step, through]
  · change s.rest.drop (2 + digits.length) = more
    rw [words]
    exact List.drop_left' (by simp; omega)
  · have trailing := trailingUnit?_complete whole.unescaped (isComplete_of_letter known)
    rw [s.copy_of_take taken]
    simpa using pause.written_unit [] _ (by simp) paused.place trailing

theorem conclude_pair {delimiter : Option Char} {c : Char} (other : delimiter ≠ some '\\')
    (unescaped : s.escaped = false) (found : Construct.afterBackslash? (c :: more) = none)
    (rest : s.rest = '\\' :: c :: more) :
    conclude options delimiter s = conclude options delimiter ((s.copy 1).passed delimiter c) := by
  have step : s.step options delimiter = .ok (s.copy 1) := by
    rw [State.step, next?_backslash unescaped rest other, found]
    exact congrArg Except.ok (State.copyPlain_of_not_digit rest (by decide))
  have rest' : (s.copy 1).rest = c :: more := by simp [rest]
  have escape : (s.copy 1).escaped = true := by
    change (s.skip 1).escaped = true
    rw [State.escaped_skip_one rest, unescaped]
    rfl
  rw [conclude_ok (by simp [rest]) step,
    conclude_ok (by simp [rest]) (State.step_escaped escape rest')]

theorem kept_spec {c : Char} (kept : (isPunctuation c || isBlank c) = true) :
    isDigit c = false ∧ isLetter c = false := by
  rcases Bool.or_eq_true _ _ ▸ kept with punctuation | blank
  · exact isPunctuation_spec punctuation
  · exact ⟨isDigit_of_isBlank blank, isLetter_of_isBlank blank⟩

theorem afterBackslash?_kept {c : Char}
    (kept : (isPunctuation c || isBlank c) = true) (more : Text) :
    Construct.afterBackslash? (c :: more) = none := by
  obtain ⟨digit, letter⟩ := kept_spec kept
  have other : c ≠ 'k' := by
    rintro rfl
    revert letter
    decide
  simp [Construct.afterBackslash?, other, digit, letter]

/-- A backslash before punctuation or a blank.  It is dropped where it only kept layout from
being dropped. -/
theorem conclude_escaped {c : Char} (kept : (isPunctuation c || isBlank c) = true)
    (rest : s.rest = '\\' :: c :: more) (pause : s.Pause joined) (whole : Sealed joined s.out) :
    ∃ u, conclude options none s = conclude options none u ∧ s.Keeps u more ∧ u.groups = s.groups ∧
      u.Unit s.out (Leaf.source options s.groups (.escaped c kept)) s.groups.size false false := by
  have unescaped := State.escaped_of_place pause.place
  have class_ := State.inClass_of_place pause.place
  have digit := (kept_spec kept).1
  have found := afterBackslash?_kept kept more
  have rest' : (s.copy 1).rest = c :: more := by simp [rest]
  have class' : (s.copy 1).inClass = false := class_
  have behind : (s.skip 2).rest = more := by simp [rest]
  have place : (s.skip 2).place = .outside :=
    State.place_skip pause.place (escaped_copy_two unescaped rest)
  cases layout : isBlank c || c == '#' with
  | true =>
      have dropped : (s.copy 1).passed none c = (s.emit ([] ++ [c])).skip 2 := by
        rw [State.passed, if_neg (by simp), layout, class', if_pos (by decide)]
        simp [State.dropEscape, State.copy, State.skip, State.emit, rest]
      have plain : ∀ d, isBlank d = false → d ≠ '#' → c ≠ d := by
        rintro d visible mark rfl
        simp [visible, mark] at layout
      have trailing : Atom.trailingUnit? (s.out ++ [c]) = some [c] :=
        whole.trailingUnit?_char
          ⟨plain _ (by decide) (by decide), plain _ (by decide) (by decide),
            plain _ (by decide) (by decide), plain _ (by decide) (by decide)⟩ (fun _ => digit)
      have unit := pause.written_unit [] [c] (by simp) place trailing
      refine ⟨(s.emit ([] ++ [c])).skip 2, ?_, ⟨behind, rfl, rfl⟩,
        rfl, by simpa [Leaf.source, layout] using unit⟩
      rw [conclude_pair (by decide) unescaped found rest, dropped]
  | false =>
      have copied : (s.copy 1).passed none c = (s.emit ([] ++ ['\\', c])).skip 2 := by
        simp [State.passed, layout, State.copyPlain_of_not_digit rest' digit, State.copy_copy]
        exact s.copy_of_take (by simp [rest])
      have complete : isComplete [c] = true := by
        have blank := (Bool.or_eq_false_iff.mp layout).1
        rw [blank, Bool.or_false] at kept
        simp [isComplete, kept]
      have trailing := trailingUnit?_complete whole.unescaped complete
      have unit := pause.written_unit [] ['\\', c] (by simp) place trailing
      refine ⟨(s.emit ([] ++ ['\\', c])).skip 2, ?_, ⟨behind, rfl, rfl⟩, rfl,
        by simpa [Leaf.source, layout] using unit⟩
      rw [conclude_pair (by decide) unescaped found rest, copied]

theorem trailingUnit?_render {out : Text}
    (unescaped : Escape.pending out.reverse = false) {index : Nat}
    (small : index < Atom.searchReach) :
    Atom.trailingUnit? (out ++ Backreference.render index) = some (Backreference.render index) := by
  have digits : ∀ c ∈ Decimal.write index, isDigit c = true := fun _ => Decimal.isDigit_of_mem_write
  refine trailingUnit?_escape unescaped
    (Atom.isEscapeBody_digits (Decimal.write_ne_nil _) digits) ?_ ?_
  · have slash : '\\'.utf8Size = 1 := by decide
    have short := Decimal.length_write_le (by decide : 0 < 15) small
    rw [Text.size_cons, slash, Text.size_digits digits]
    unfold Atom.searchWidth
    omega
  · intro backslash
    exact absurd (digits _ backslash) (by decide)

theorem resolveDigits_of_known {angled : Bool} {n : Nat}
    (known : (Target.number angled n).Known s.groups.declared)
    (small : s.groups.size < Atom.searchReach) :
    s.resolveDigits (Decimal.write n) = .ok ((Target.number angled n).index s.groups) := by
  obtain ⟨positive, bound⟩ := known
  obtain ⟨index, slot, found, resolved, _⟩ := GroupTable.resolveNumber_of_le positive bound
  have indexed : (Target.number angled n).index ⟨s.groups.declared⟩ = index + 1 :=
    Target.index_of_find positive found
  have count : s.groups.declared.countP Slot.isVisible ≤ s.groups.declared.length :=
    List.countP_le_length
  have limit : n < Decimal.limit := by
    have reach : Atom.searchReach < Decimal.limit := by decide
    unfold GroupTable.size at small
    omega
  rw [State.resolveDigits, Decimal.read?_write limit, indexed]
  exact resolved

theorem resolveName_of_known {word : Text} {identifier : isIdentifier word = true}
    (known : (Target.name word identifier).Known s.groups.declared) :
    s.groups.resolveName word = .ok ((Target.name word identifier).index s.groups) := by
  have declared : word ∈ s.groups.names := (GroupTable.name_mem_iff _ _).mpr known
  obtain ⟨index, found, resolved, _⟩ := GroupTable.resolveName_of_mem declared
  have indexed : (Target.name word identifier).index ⟨s.groups.declared⟩ = index + 1 :=
    Target.index_of_find trivial found
  rw [indexed, resolved]

theorem step_angled {word : Text} (nonempty : word ≠ []) (all : ∀ c ∈ word, isWord c = true)
    (rest : s.rest = '$' :: '<' :: word ++ '>' :: more) (place : s.place = .outside) {index : Nat}
    (resolved : (if word.all isDigit then s.resolveDigits word else s.groups.resolveName word) =
      .ok index) :
    s.step options none = .ok ((s.skip (2 + word.length + 1)).emitReference index) := by
  have name : Text.name? (s.rest.drop 2) = some word := by
    rw [rest]
    exact (Text.finds_name _ _).mpr ⟨⟨nonempty, all⟩, more, by simp⟩
  have read : s.step options none = s.nameReference .dollar := by
    rw [State.step, State.next?_plain rest (by simp), Construct.plain?_dollar]
    rfl
  rw [read, State.nameReference, State.escaped_of_place place, State.inClass_of_place place]
  simp only [NameReference.opener, List.length_cons, List.length_nil, name]
  split at resolved
  · rename_i number
    rw [if_pos number, resolved]
    rfl
  · rename_i number
    rw [if_neg number, resolved]
    rfl

theorem step_bare {n : Nat} (rest : s.rest = '$' :: Decimal.write n ++ more)
    (ends : more.head?.all (!isDigit ·) = true) (place : s.place = .outside) {index : Nat}
    (resolved : s.resolveDigits (Decimal.write n) = .ok index) :
    s.step options none = .ok ((s.skip (1 + (Decimal.write n).length)).emitReference index) := by
  have digits : Text.digits (s.rest.drop 1) = Decimal.write n := by
    rw [rest]
    exact Text.digits_before (fun _ => Decimal.isDigit_of_mem_write) ends
  have read : s.step options none = s.numberReference := by
    obtain ⟨d, left, written⟩ := List.exists_cons_of_ne_nil (Decimal.write_ne_nil n)
    have digit : isDigit d = true := Decimal.isDigit_of_mem_write (n := n) (by simp [written])
    have other : d ≠ '<' := by
      rintro rfl
      revert digit
      decide
    have found : Construct.afterDollar? (Decimal.write n ++ more) = some .numberReference := by
      rw [written, List.cons_append, Construct.afterDollar?, if_pos digit]
      exact other
    have next : s.next? none = some .numberReference := by
      rw [State.next?_plain rest (by simp), Construct.plain?_dollar]
      exact found
    rw [State.step, next]
    rfl
  rw [read, State.numberReference, State.escaped_of_place place, State.inClass_of_place place]
  simp only [digits, resolved]
  rfl

theorem conclude_reference {target : Target} (known : target.Known s.groups.declared)
    (small : s.groups.size < Atom.searchReach) (rest : s.rest = target.text ++ more)
    (ends : Leaf.Ends (.reference target) more) (pause : s.Pause joined)
    (whole : Sealed joined s.out) :
    ∃ u, conclude options none s = conclude options none u ∧ s.Keeps u more ∧ u.groups = s.groups ∧
      u.Unit s.out (Backreference.render (target.index s.groups)) s.groups.size false true := by
  have bounds := known.index_bounds
  have trailing := trailingUnit?_render whole.unescaped
    (Nat.lt_of_le_of_lt (Nat.le_succ_of_le bounds.2) small)
  -- each form is read whole and holds no backslash
  have angled : ∀ {word : Text}, word ≠ [] → (∀ c ∈ word, isWord c = true) →
      target.text = '$' :: '<' :: word ++ ['>'] →
        (if word.all isDigit then s.resolveDigits word else s.groups.resolveName word) =
          .ok (target.index s.groups) →
            s.step options none =
                .ok ((s.skip target.text.length).emitReference (target.index s.groups)) ∧
              ∀ c ∈ target.text, c ≠ '\\' := by
    intro word nonempty words text resolved
    have parts : s.rest = '$' :: '<' :: word ++ '>' :: more := by simp [rest, text]
    have length : target.text.length = 2 + word.length + 1 := by
      simp [text]
      omega
    rw [length]
    refine ⟨step_angled nonempty words parts pause.place resolved, fun c member => ?_⟩
    rintro rfl
    have inside : '\\' ∈ word := by simpa [text] using member
    exact absurd (words _ inside) (by decide)
  have through : s.step options none =
        .ok ((s.skip target.text.length).emitReference (target.index s.groups)) ∧
      ∀ c ∈ target.text, c ≠ '\\' := by
    cases target with
    | number marked n =>
        have resolved := resolveDigits_of_known known small
        have digits :
            ∀ c ∈ Decimal.write n, isDigit c = true := fun _ => Decimal.isDigit_of_mem_write
        cases marked with
        | true =>
            have words : ∀ c ∈ Decimal.write n, isWord c = true := by
              intro c member
              simp [isWord, digits c member]
            exact angled (Decimal.write_ne_nil n) words rfl
              (by rw [if_pos (Decimal.all_isDigit_write n), resolved])
        | false =>
            have length : (Target.number false n).text.length = 1 + (Decimal.write n).length := by
              simp [Target.text]
              omega
            rw [length]
            refine ⟨step_bare rest ends pause.place resolved, fun c member => ?_⟩
            rintro rfl
            have inside : '\\' ∈ Decimal.write n := by simpa [Target.text] using member
            exact absurd (digits _ inside) (by decide)
    | name word identifier =>
        obtain ⟨c, left, parts, digit, words⟩ := isIdentifier_spec identifier
        have number : word.all isDigit = false := by simp [parts, digit]
        exact angled (by simp [parts]) words rfl
          (by rw [number, if_neg (by decide), resolveName_of_known known])
  have place : (s.skip target.text.length).place = .outside := by
    apply State.place_skip pause.place
    apply State.escaped_skip_of_plain (State.escaped_of_place pause.place)
    rw [rest, List.take_left]
    exact through.2
  refine ⟨_, conclude_ok ?_ through.1, ⟨?_, rfl, rfl⟩, rfl, pause.referred_unit place trailing⟩
  · rw [rest]
    rcases target with (_ | _) | _ <;> simp [Target.text]
  · change s.rest.drop target.text.length = more
    rw [rest, List.drop_left]

theorem conclude_leaf (lenient : options.extra = false) {leaf : Leaf}
    (known : leaf.Known s.groups.declared)
    (small : leaf.refers = true → s.groups.size < Atom.searchReach)
    (rest : s.rest = leaf.text ++ more)
    (ends : leaf.Ends more) (pause : s.Pause joined) (whole : Sealed joined s.out) :
    ∃ u, conclude options none s = conclude options none u ∧ s.Keeps u more ∧ u.groups = s.groups ∧
      u.Unit (s.out ++ leaf.parted joined) (leaf.source options s.groups) s.groups.size false
        leaf.refers := by
  cases leaf with
  | literal c plain => exact conclude_literal plain rest pause whole
  | dot =>
      simp only [Leaf.parted, List.append_nil]
      exact conclude_dot rest pause whole
  | bracket body inner =>
      simp only [Leaf.parted, List.append_nil]
      exact conclude_class lenient inner (by simpa [Leaf.text] using rest) pause
  | letter body spelled =>
      simp only [Leaf.parted, List.append_nil]
      exact conclude_letter lenient spelled rest pause whole
  | escaped c kept =>
      simp only [Leaf.parted, List.append_nil]
      exact conclude_escaped kept rest pause whole
  | reference target =>
      simp only [Leaf.parted, List.append_nil]
      exact conclude_reference known (small rfl) rest ends pause whole

end PatternDialect.Conversion
