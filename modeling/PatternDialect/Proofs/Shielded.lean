import PatternDialect.Proofs.Quiet

/-! Steps that read what is shielded: a character behind a backslash, or one in a class.

Behind a backslash a single character is read, whatever construct it may start.  In a class
every construct is copied, but for the bracket that closes the class. -/

namespace PatternDialect

open Character Source

theorem Quantifier.isAmount_of_mem_text {q : Quantifier} (legible : q.amount.Legible) {c : Char}
    (member : c ∈ q.text) : Repeat.isAmount c = true := by
  simp only [Quantifier.text, List.mem_append] at member
  rcases member with (member | member) | member
  · exact legible.all c member
  · cases q.lazy <;> simp_all [Repeat.isAmount]
  · cases q.possessive <;> simp_all [Repeat.isAmount]

theorem Repeat.ne_of_isAmount {c : Char} (amount : Repeat.isAmount c = true) :
    c ≠ '\\' ∧ c ≠ '[' ∧ c ≠ ']' ∧ c ≠ '(' := by
  refine ⟨?_, ?_, ?_, ?_⟩ <;> rintro rfl <;> revert amount <;> decide

namespace Conversion

namespace State

theorem inClass_of_place {s : State} (place : s.place = .outside) : s.inClass = false := by
  rw [← inside_place, place]
  rfl

theorem escaped_of_place {s : State} (place : s.place = .outside) : s.escaped = false := by
  rw [← isEscape_place, place]
  rfl

theorem place_skip {s : State} (place : s.place = .outside) {count : Nat}
    (unescaped : (s.skip count).escaped = false) : (s.skip count).place = .outside := by
  have class_ : (s.skip count).inClass = false := inClass_of_place (s := s) place
  exact place_eq_outside class_ unescaped

theorem escaped_skip_of_last {s : State} {count : Nat} (text : Text) {c : Char}
    (taken : s.rest.take count = text ++ [c]) (other : c ≠ '\\') :
    (s.skip count).escaped = false := by
  rw [escaped_skip, taken, List.reverse_append, List.reverse_singleton, List.singleton_append,
    List.cons_append, Escape.pending_cons, beq_eq_false_iff_ne.mpr other, Bool.false_and]

theorem escaped_skip_of_plain {s : State} (unescaped : s.escaped = false) {count : Nat}
    (plain : ∀ c ∈ s.rest.take count, c ≠ '\\') : (s.skip count).escaped = false := by
  cases taken : s.rest.take count using List.reverseRecOn with
  | nil =>
      rw [escaped_skip, taken]
      exact unescaped
  | append_singleton text c =>
      apply escaped_skip_of_last _ taken
      apply plain
      rw [taken]
      simp

theorem bracedHex?_spec {text digits : Text} (found : bracedHex? text = some digits) :
    (∃ after, text = '{' :: digits ++ '}' :: after) ∧ ∀ c ∈ digits, isHexDigit c = true := by
  unfold bracedHex? at found
  split at found
  · rename_i rest
    dsimp only at found
    split at found
    · rename_i condition
      simp only [Bool.and_eq_true, decide_eq_true_eq, List.all_eq_true] at condition
      obtain ⟨shorter, hex⟩ := condition
      cases found
      refine ⟨?_, hex⟩
      have parts : rest.takeWhile (· != '}') ++ rest.dropWhile (· != '}') = rest :=
        List.takeWhile_append_dropWhile
      cases dropped : rest.dropWhile (· != '}') with
      | nil =>
          rw [dropped, List.append_nil] at parts
          rw [parts] at shorter
          omega
      | cons d after =>
          have closing : d = '}' := by
            have first := List.head_dropWhile_not (fun x => x != '}') (l := rest)
              (by rw [dropped]; simp)
            simpa [dropped] using first
          rw [dropped, closing] at parts
          refine ⟨after, ?_⟩
          rw [List.cons_append, parts]
    · contradiction
  · contradiction

theorem bracedLength_le (text : Text) : bracedLength text ≤ text.length := by
  unfold bracedLength
  split
  · exact Nat.zero_le _
  · exact Nat.zero_le _
  · rename_i digits _ found
    obtain ⟨⟨after, rfl⟩, _⟩ := bracedHex?_spec found
    simp only [List.length_append, List.length_cons]
    omega

theorem mem_take_bracedLength {text : Text} {c : Char}
    (member : c ∈ text.take (bracedLength text)) : c = '{' ∨ c = '}' ∨ isHexDigit c = true := by
  unfold bracedLength at member
  split at member
  · simp at member
  · simp at member
  · rename_i digits _ found
    obtain ⟨⟨after, equality⟩, hex⟩ := bracedHex?_spec found
    have taken : text.take (digits.length + 2) = '{' :: digits ++ ['}'] := by
      have reordered : text = ('{' :: digits ++ ['}']) ++ after := by simp [equality]
      rw [reordered]
      exact List.take_left' (by simp)
    rw [taken] at member
    simp only [List.cons_append, List.mem_cons, List.mem_append, List.not_mem_nil,
      or_false] at member
    rcases member with rfl | member | rfl
    · exact Or.inl rfl
    · exact Or.inr (Or.inr (hex c member))
    · exact Or.inr (Or.inl rfl)

theorem ne_of_isHexDigit {c : Char} (hex : isHexDigit c = true) :
    c ≠ '\\' ∧ c ≠ '[' ∧ c ≠ ']' ∧ c ≠ '(' := by
  refine ⟨?_, ?_, ?_, ?_⟩ <;> rintro rfl <;> revert hex <;> decide

theorem ne_of_mem_take_bracedLength {text : Text} {c : Char}
    (member : c ∈ text.take (bracedLength text)) :
    c ≠ '\\' ∧ c ≠ '[' ∧ c ≠ ']' ∧ c ≠ '(' := by
  rcases mem_take_bracedLength member with rfl | rfl | hex
  · decide
  · decide
  · exact ne_of_isHexDigit hex

theorem emit_emit (s : State) (first second : Text) :
    (s.emit first).emit second = s.emit (first ++ second) := by
  simp [emit]

theorem escapedLetter_copy {s next : State} {options : Options} {letter : Char}
    (ok : s.escapedLetter options letter = .ok next) :
    next = s.copy (2 + if letter == 'u' && options.unicode then bracedLength
      (s.rest.drop 2) else 0) := by
  unfold escapedLetter at ok
  cases extra : options.extra with
  | false =>
      simp only [extra, Bool.false_eq_true, ↓reduceIte] at ok
      exact (Except.ok.inj ok).symm
  | true =>
      simp only [extra, ↓reduceIte] at ok
      cases check : checkEscape options.unicode letter (s.rest.drop 2) with
      | error fault =>
          rw [check] at ok
          contradiction
      | ok _ =>
          rw [check] at ok
          exact (Except.ok.inj ok).symm

theorem escapedLetter_eq {s next : State} {options : Options} {letter : Char}
    (ok : s.escapedLetter options letter = .ok next) :
    ∃ count, (count = 0 ∨ count = bracedLength (s.rest.drop 2)) ∧ next = s.copy (2 + count) := by
  rw [escapedLetter_copy ok]
  split
  · exact ⟨_, Or.inr rfl, rfl⟩
  · exact ⟨_, Or.inl rfl, rfl⟩

theorem ne_of_mem_taken {text : Text} {count : Nat}
    (taken : count = 0 ∨ count = bracedLength text) {c : Char} (member : c ∈ text.take count) :
    c ≠ '\\' ∧ c ≠ '[' ∧ c ≠ ']' ∧ c ≠ '(' := by
  rcases taken with rfl | rfl
  · simp at member
  · exact ne_of_mem_take_bracedLength member

variable {options : Options} {delimiter : Option Char} {s next : State}

theorem place_of_inClass (class_ : s.inClass = true) (unescaped : s.escaped = false) :
    s.place = .inClass := by
  simp [place, class_, unescaped]

theorem copyPlain_eq {c : Char} {more : Text} (rest : s.rest = c :: more) :
    s.copyPlain =
      (s.emit (if isDigit c && s.referenceEnd == some s.out.size then separator ++ [c]
        else [c])).skip 1 := by
  have one : s.rest.take 1 = [c] := by simp [rest]
  unfold copyPlain
  rw [rest]
  dsimp only
  split
  · have same : (s.emit separator).rest.take 1 = [c] := one
    rw [copy_of_take _ same, emit_emit]
  · exact copy_of_take _ one

theorem next?_delimiter {c : Char} {more : Text} (rest : s.rest = c :: more)
    (same : delimiter = some c) : s.next? delimiter = some (.flagsDelimiter c) := by
  rw [next?, rest]
  exact if_pos same

theorem next?_plain {c : Char} {more : Text} (rest : s.rest = c :: more)
    (other : delimiter ≠ some c) : s.next? delimiter = Construct.plain? s.before (c :: more) := by
  rw [next?, rest]
  exact if_neg other

theorem copyPlain_of_not_digit {c : Char} {more : Text} (rest : s.rest = c :: more)
    (other : isDigit c = false) : s.copyPlain = s.copy 1 := by
  rw [copyPlain_eq rest, other, Bool.false_and, if_neg (by decide)]
  exact (s.copy_of_take (by simp [rest])).symm

def passed (s : State) (delimiter : Option Char) (c : Char) : State :=
  if delimiter = some c then s.copy 1
  else if (isBlank c || c == '#') && !s.inClass then s.dropEscape.copy 1
  else s.copyPlain

theorem read_escaped (escape : s.escaped = true) {construct : Construct}
    (visible : ∀ c, construct ≠ .blank c) (other : construct ≠ .comment)
    (noDigit : ∀ d, construct ≠ .escapedDigit d) (noLetter : ∀ l, construct ≠ .escapedLetter l) :
    s.read options construct = .ok (s.copy 1) := by
  cases construct with
  | blank c => exact absurd rfl (visible c)
  | comment => exact absurd rfl other
  | escapedDigit d => exact absurd rfl (noDigit d)
  | escapedLetter l => exact absurd rfl (noLetter l)
  | closeClass =>
      simp only [read, State.closeClass, escape, ↓reduceIte]
      cases s.classStart <;> rfl
  | openClass => simp [read, State.openClass, escape]
  | dot => simp [read, State.dot, escape]
  | quantifier q => simp [read, State.quantifier, escape]
  | numberReference => simp [read, State.numberReference, escape]
  | nameReference form => simp [read, State.nameReference, escape]
  | openGroup form => simp [read, State.openGroup, escape]
  | closeGroup => simp [read, State.closeGroup, escape]
  | flagsDelimiter c => simp [read, State.flagsDelimiter, escape]

theorem blank_escaped (escape : s.escaped = true) :
    s.blank = if s.inClass then s.copy 1 else s.dropEscape.copy 1 := by
  simp [State.blank, escape]

theorem comment_escaped (escape : s.escaped = true) :
    s.comment = if s.inClass then s.copy 1 else s.dropEscape.copy 1 := by
  simp [State.comment, escape]

theorem step_escaped (escape : s.escaped = true) {c : Char} {more : Text}
    (rest : s.rest = c :: more) :
    s.step options delimiter = .ok (s.passed delimiter c) := by
  unfold step passed
  by_cases same : delimiter = some c
  · rw [next?_delimiter rest same, if_pos same]
    exact read_escaped escape (by simp) (by simp) (by simp) (by simp)
  rw [next?_plain rest same, if_neg same]
  have pending : Escape.pending s.before = true := escape
  cases found : Construct.plain? s.before (c :: more) with
  | none =>
      have visible : (isBlank c || c == '#') = false := by
        by_contra hidden
        rw [Bool.not_eq_false, Bool.or_eq_true, beq_iff_eq] at hidden
        rcases hidden with blank | rfl
        · rw [Construct.plain?_blank _ _ blank] at found
          contradiction
        · contradiction
      rw [visible, Bool.false_and, if_neg (by decide)]
  | some construct =>
      have plain := copyPlain_of_not_digit rest (Construct.isDigit_head _ _ found)
      have stands := Construct.stands_of_plain? found (Or.inr rfl : _ ∨ (none : Option Char) = none)
      have dropped : (if (true && !s.inClass) = true then s.dropEscape.copy 1 else s.copyPlain) =
          if s.inClass then s.copy 1 else s.dropEscape.copy 1 := by
        rw [plain]
        cases s.inClass <;> rfl
      by_cases blank : isBlank c = true
      · rw [Construct.plain?_blank _ _ blank] at found
        cases found
        rw [blank, Bool.true_or, dropped, ← blank_escaped escape]
        rfl
      by_cases hash : c = '#'
      · subst hash
        cases found
        rw [beq_self_eq_true, Bool.or_true, dropped, ← comment_escaped escape]
        rfl
      · rw [Bool.eq_false_iff.mpr blank, beq_eq_false_iff_ne.mpr hash, Bool.or_self, Bool.false_and,
          if_neg (by decide), plain]
        apply read_escaped escape
        · rintro d rfl
          obtain ⟨isBlank, _, equality⟩ := stands
          cases equality
          exact blank isBlank
        · rintro rfl
          obtain ⟨_, equality⟩ := stands
          cases equality
          exact hash rfl
        · rintro d rfl
          rw [stands.1] at pending
          contradiction
        · rintro l rfl
          rw [stands.1] at pending
          contradiction

/-- A word that a class may hold: nothing in it closes the class, and it escapes nothing
unless it begins with an escape. -/
def Unclosing (word : Text) : Prop :=
  ∃ front tail, word = front ++ tail ∧ (front = [] ∨ ∃ d, front = ['\\', d]) ∧
    ∀ c ∈ tail, c ≠ '\\' ∧ c ≠ ']'

theorem unclosing_of_plain {word : Text} (plain : ∀ c ∈ word, c ≠ '\\' ∧ c ≠ ']') :
    Unclosing word := ⟨[], word, rfl, Or.inl rfl, plain⟩

theorem unclosing_of_escape (d : Char) {tail : Text} (plain : ∀ c ∈ tail, c ≠ '\\' ∧ c ≠ ']') :
    Unclosing ('\\' :: d :: tail) := ⟨['\\', d], tail, rfl, Or.inr ⟨d, rfl⟩, plain⟩

theorem Unclosing.within {word : Text} (unclosing : Unclosing word) :
    Place.inClass.within word = true := by
  obtain ⟨front, tail, rfl, rfl | ⟨d, rfl⟩, plain⟩ := unclosing
  · exact Place.within_of_plain plain
  · simpa [Place.within, Place.inside, Place.next] using Place.within_of_plain plain

theorem Unclosing.plain {c : Char} {word : Text} (unclosing : Unclosing (c :: word))
    (other : c ≠ '\\') : ∀ d ∈ c :: word, d ≠ '\\' ∧ d ≠ ']' := by
  obtain ⟨front, tail, parts, rfl | ⟨d, rfl⟩, plain⟩ := unclosing
  · rw [parts]
    exact plain
  · exact absurd (List.cons.inj parts).1 other

theorem read_inClass (class_ : s.inClass = true) (unescaped : s.escaped = false)
    {construct : Construct} (stands : construct.Stands delimiter s.before s.rest)
    (open_ : construct ≠ .closeClass) (noLetter : ∀ l, construct ≠ .escapedLetter l)
    (noDelimiter : ∀ c, construct ≠ .flagsDelimiter c) :
    ∃ word left, s.rest = word ++ left ∧ word ≠ [] ∧ Unclosing word ∧
      s.read options construct = .ok (s.copy word.length) := by
  have single : ∀ {c : Char} {more : Text}, s.rest = c :: more → c ≠ '\\' ∧ c ≠ ']' →
      s.read options construct = .ok (s.copy 1) → ∃ word left, s.rest = word ++ left ∧ word ≠ [] ∧
        Unclosing word ∧ s.read options construct = .ok (s.copy word.length) :=
    fun rest plain copied => ⟨[_], _, rest, by simp,
      unclosing_of_plain (by simpa using plain), copied⟩
  cases construct with
  | closeClass => exact absurd rfl open_
  | escapedLetter l => exact absurd rfl (noLetter l)
  | flagsDelimiter c => exact absurd rfl (noDelimiter c)
  | blank c =>
      obtain ⟨blank, more, rest⟩ := stands
      refine single rest ⟨?_, ?_⟩ (by simp [read, State.blank, class_]) <;> rintro rfl <;>
        exact absurd blank (by decide)
  | openClass =>
      obtain ⟨more, rest⟩ := stands
      exact single rest (by decide) (by simp [read, State.openClass, class_])
  | dot =>
      obtain ⟨more, rest⟩ := stands
      exact single rest (by decide) (by simp [read, State.dot, class_])
  | numberReference =>
      obtain ⟨d, more, rest, _⟩ := stands
      exact single rest (by decide) (by simp [read, State.numberReference, class_])
  | closeGroup =>
      obtain ⟨more, rest⟩ := stands
      exact single rest (by decide) (by simp [read, State.closeGroup, class_])
  | comment =>
      obtain ⟨more, rest⟩ := stands
      exact single rest (by decide) (by simp [read, State.comment, class_])
  | quantifier q =>
      obtain ⟨legible, left, rest⟩ := stands
      obtain ⟨c, tail, amount, _⟩ := legible.head
      refine ⟨q.text, left, rest, by simp [Quantifier.text, amount], unclosing_of_plain ?_, ?_⟩
      · intro d member
        have other := Repeat.ne_of_isAmount (Quantifier.isAmount_of_mem_text legible member)
        exact ⟨other.1, other.2.2.1⟩
      · simp [read, State.quantifier, class_, unescaped]
  | nameReference form =>
      obtain ⟨_, left, rest⟩ := stands
      refine ⟨form.opener, left, rest, by cases form <;> decide, ?_, ?_⟩
      · cases form with
        | dollar => exact unclosing_of_plain (by simp [NameReference.opener])
        | escape => exact unclosing_of_escape 'k' (by simp)
      · simp [read, State.nameReference, class_, unescaped]
  | openGroup form =>
      obtain ⟨more, rest, opener⟩ := stands
      have taken : ('(' :: more).take form.length = form.text := by
        rw [opener]
        exact Opener.take_length more
      refine ⟨form.text, ('(' :: more).drop form.length, ?_, by cases form <;> simp [Opener.text],
        unclosing_of_plain fun d member => Opener.ne_of_mem_text member, ?_⟩
      · rw [rest, ← taken, List.take_append_drop]
      · simp [read, State.openGroup, class_, unescaped]
  | escapedDigit d =>
      obtain ⟨_, _, more, rest⟩ := stands
      refine ⟨['\\', d], more, rest, by simp, unclosing_of_escape d (by simp), ?_⟩
      simp [read, State.escapedDigit, class_]

theorem letter_inClass {letter : Char}
    (stands : (Construct.escapedLetter letter).Stands delimiter s.before s.rest)
    (ok : s.escapedLetter options letter = .ok next) :
    ∃ word left, s.rest = word ++ left ∧ word ≠ [] ∧ Unclosing word ∧
      next = s.copy word.length := by
  obtain ⟨_, _, more, rest⟩ := stands
  obtain ⟨count, taken, rfl⟩ := escapedLetter_eq ok
  have behind : s.rest.drop 2 = more := by simp [rest]
  rw [behind] at taken
  have short : count ≤ more.length := by
    have bound := bracedLength_le more
    omega
  have length : ('\\' :: letter :: more.take count).length = 2 + count := by
    simp only [List.length_cons, List.length_take_of_le short]
    omega
  refine ⟨'\\' :: letter :: more.take count, more.drop count, by simp [rest], by simp,
    unclosing_of_escape letter fun c member => ?_, by rw [length]⟩
  have other := ne_of_mem_taken taken member
  exact ⟨other.1, other.2.2.1⟩

end State

end Conversion

end PatternDialect
