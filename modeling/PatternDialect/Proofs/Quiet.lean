import PatternDialect.Conversion
import PatternDialect.Proofs.Captures
import PatternDialect.Proofs.Constructs

/-! What a state knows of the output, and the texts that may be emitted without
a reader of the output meeting a class, a reference or a capture in them. -/

namespace PatternDialect

open Character Source

namespace Source.Place

def inside : Place → Bool
  | inClass | classEscape => true
  | outside | escape => false

theorem eq_of_inside {p q : Place} (class_ : p.inside = q.inside)
    (escape_ : p.isEscape = q.isEscape) : p = q := by
  cases p <;> cases q <;> simp_all [inside, isEscape]

theorem isEscape_after_of {p : Place} {before : Text}
    (same : p.isEscape = Escape.pending before) (text : Text) :
    (p.after text).isEscape = Escape.pending (text.reverse ++ before) := by
  induction text generalizing p before with
  | nil => exact same
  | cons c rest ih =>
      rw [after_cons, List.reverse_cons, List.append_assoc]
      apply ih
      rw [isEscape_next, same, List.singleton_append, Escape.pending_cons]

def within (p : Place) : Text → Bool
  | [] => p.inside
  | c :: rest => p.inside && within (p.next c) rest

theorem inside_of_within {p : Place} {text : Text} (stays : p.within text = true) :
    p.inside = true := by
  cases text with
  | nil => exact stays
  | cons c rest =>
      simp only [within, Bool.and_eq_true] at stays
      exact stays.1

theorem inside_after_of_within {p : Place} {text : Text} (stays : p.within text = true) :
    (p.after text).inside = true := by
  induction text generalizing p with
  | nil => exact stays
  | cons c rest ih =>
      simp only [within, Bool.and_eq_true] at stays
      exact ih stays.2

theorem ne_outside_of_inside {p : Place} (class_ : p.inside = true) : p ≠ .outside := by
  rintro rfl
  contradiction

theorem reads_of_within {p : Place} {text : Text} (stays : p.within text = true) :
    Reader.passed ⟨p, []⟩ text = [] ∧ (Reader.after ⟨p, []⟩ text).digits = [] := by
  induction text generalizing p with
  | nil => exact ⟨rfl, rfl⟩
  | cons c rest ih =>
      simp only [within, Bool.and_eq_true] at stays
      have notEscape : p ≠ .escape := by
        rintro rfl
        exact absurd stays.1 (by decide)
      have notTaken : Reader.takes ⟨p, []⟩ c = false := by
        simp [Reader.takes, notEscape]
      have next : Reader.next ⟨p, []⟩ c = ⟨p.next c, []⟩ := by
        simp [Reader.next, notTaken]
      obtain ⟨passed, after⟩ := ih stays.2
      rw [Reader.passed_cons, Reader.after_cons, next, passed]
      exact ⟨by simp [notTaken, Reader.held], after⟩

theorem captures_of_within {p : Place} {text : Text} (stays : p.within text = true)
    (before : Text) : capturesFrom before p text = [] := by
  induction text generalizing p before with
  | nil => rfl
  | cons c rest ih =>
      simp only [within, Bool.and_eq_true] at stays
      have inside : (p == .outside) = false :=
        beq_eq_false_iff_ne.mpr (ne_outside_of_inside stays.1)
      rw [capturesFrom_cons, inside, ih stays.2]
      rfl

theorem within_split {p : Place} {before : Text} {c : Char} {after : Text}
    (stays : p.within (before ++ c :: after) = true) : (p.after before).inside = true := by
  induction before generalizing p with
  | nil => exact inside_of_within stays
  | cons d rest ih =>
      simp only [List.cons_append, within, Bool.and_eq_true] at stays
      exact ih stays.2

theorem within_of_plain {text : Text} (plain : ∀ c ∈ text, c ≠ '\\' ∧ c ≠ ']') :
    inClass.within text = true := by
  induction text with
  | nil => rfl
  | cons c rest ih =>
      obtain ⟨backslash, bracket⟩ := plain c (by simp)
      have stays : inClass.next c = .inClass := by simp [next, backslash, bracket]
      rw [within, stays, ih fun d member => plain d (by simp [member])]
      rfl

end Source.Place

namespace Conversion

namespace State

/-- Where a reader of the output stands, as far as the input tells. -/
def place (s : State) : Place :=
  if s.inClass then (if s.escaped then .classEscape else .inClass)
  else if s.escaped then .escape else .outside

@[simp] theorem inside_place (s : State) : s.place.inside = s.inClass := by
  unfold place
  cases s.inClass <;> cases s.escaped <;> rfl

@[simp] theorem isEscape_place (s : State) : s.place.isEscape = s.escaped := by
  unfold place
  cases s.inClass <;> cases s.escaped <;> rfl

theorem place_eq_outside {s : State} (class_ : s.inClass = false) (escape : s.escaped = false) :
    s.place = .outside := by
  simp [place, class_, escape]

theorem place_eq_escape {s : State} (class_ : s.inClass = false) (escape : s.escaped = true) :
    s.place = .escape := by
  simp [place, class_, escape]

@[simp] theorem inClass_skip (s : State) (count : Nat) : (s.skip count).inClass = s.inClass := rfl

@[simp] theorem inClass_emit (s : State) (text : Text) : (s.emit text).inClass = s.inClass := rfl

@[simp] theorem escaped_emit (s : State) (text : Text) : (s.emit text).escaped = s.escaped := rfl

theorem escaped_skip (s : State) (count : Nat) :
    (s.skip count).escaped = Escape.pending ((s.rest.take count).reverse ++ s.before) := rfl

theorem escaped_skip_one {s : State} {c : Char} {more : Text} (rest : s.rest = c :: more) :
    (s.skip 1).escaped = (c == '\\' && !s.escaped) := by
  rw [escaped_skip, rest]
  exact Escape.pending_cons c s.before

/-- A backslash outside classes that is left to itself stands before no digit. -/
def Ready (s : State) : Prop :=
  s.escaped = true → s.inClass = false → s.rest.head?.all (!isDigit ·) = true

theorem ready_of_unescaped {s : State} (unescaped : s.escaped = false) : s.Ready := by
  intro escaped
  rw [unescaped] at escaped
  contradiction

theorem ready_of_inClass {s : State} (class_ : s.inClass = true) : s.Ready := by
  intro _ outside
  rw [class_] at outside
  contradiction

/-- A text that may be emitted while so many characters are read: a reader of the
output goes along with the reader of the input and meets nothing. -/
structure Quiet (s : State) (count : Nat) (text : Text) : Prop where
  place : (s.skip count).rest ≠ [] → s.place.after text = (s.skip count).place
  ready : (s.skip count).Ready
  grows : (s.skip count).rest ≠ [] → (s.skip count).escaped = true → text ≠ []
  silent : Reader.passed ⟨s.place, []⟩ text = [] ∧
    (Reader.after ⟨s.place, []⟩ text).digits = []
  apart : s.referenceEnd = some s.out.size → s.place = .outside →
    text.head?.all (!isDigit ·) = true
  bare : capturesFrom [] s.place text = []
  head : s.place = .outside → text.head? ≠ some '?'
  closed : ∀ before after, text = before ++ '(' :: after → s.place.after before = .outside →
    3 ≤ after.length

theorem Quiet.of_within {s : State} {count : Nat} {text : Text} (nonempty : text ≠ [])
    (stays : s.place.within text = true)
    (copied : (s.place.after text).isEscape = (s.skip count).escaped) : s.Quiet count text := by
  have class_ : s.inClass = true := by
    have inside := Place.inside_of_within stays
    rwa [inside_place] at inside
  have other : s.place ≠ .outside := Place.ne_outside_of_inside (Place.inside_of_within stays)
  constructor
  · intro _
    apply Place.eq_of_inside
    · rw [Place.inside_after_of_within stays, inside_place, inClass_skip, class_]
    · rw [copied, isEscape_place]
  · exact ready_of_inClass class_
  · exact fun _ _ => nonempty
  · exact Place.reads_of_within stays
  · exact fun _ outside => absurd outside other
  · exact Place.captures_of_within stays []
  · exact fun outside => absurd outside other
  · intro before after equality outside
    rw [equality] at stays
    exact absurd outside (Place.ne_outside_of_inside (Place.within_split stays))

theorem isEscape_after_copy (s : State) (count : Nat) :
    (s.place.after (s.rest.take count)).isEscape = (s.skip count).escaped := by
  rw [Place.isEscape_after_of (isEscape_place s), escaped_skip]

theorem Quiet.copy_of_within {s : State} {count : Nat} (nonempty : s.rest.take count ≠ [])
    (stays : s.place.within (s.rest.take count) = true) : s.Quiet count (s.rest.take count) :=
  Quiet.of_within nonempty stays (isEscape_after_copy s count)

theorem Quiet.copy_inClass {s : State} (class_ : s.inClass = true) {c : Char} {more : Text}
    (rest : s.rest = c :: more) (other : c ≠ ']' ∨ s.escaped = true) :
    s.Quiet 1 (s.rest.take 1) := by
  apply Quiet.copy_of_within
  · simp [rest]
  · have one : s.rest.take 1 = [c] := by simp [rest]
    rw [one]
    unfold State.place
    rw [if_pos class_]
    cases escape : s.escaped with
    | true => simp [Place.within, Place.inside, Place.next]
    | false =>
        have open_ : c ≠ ']' := by simpa [escape] using other
        by_cases backslash : c = '\\'
        · simp [Place.within, Place.inside, Place.next, backslash]
        · simp [Place.within, Place.inside, Place.next, backslash, open_]

theorem Quiet.copy_escaped {s : State} (ready : s.Ready) (class_ : s.inClass = false)
    (escape : s.escaped = true) {c : Char} {more : Text} (rest : s.rest = c :: more) :
    s.Quiet 1 (s.rest.take 1) := by
  have place := place_eq_escape class_ escape
  have noDigit : isDigit c = false := by simpa [rest] using ready escape class_
  have one : s.rest.take 1 = [c] := by simp [rest]
  have unescaped : (s.skip 1).escaped = false := by
    rw [escaped_skip_one rest, escape]
    simp
  rw [one]
  constructor
  · intro _
    have outside : (s.skip 1).place = .outside := place_eq_outside class_ unescaped
    rw [place, outside]
    rfl
  · exact ready_of_unescaped unescaped
  · exact fun _ _ => by simp
  · rw [place]
    simp [Reader.passed_cons, Reader.next, Reader.takes, noDigit, Reader.held]
  · intro _ outside
    rw [place] at outside
    contradiction
  · rw [place]
    rfl
  · intro outside
    rw [place] at outside
    contradiction
  · intro before after equality outside
    rw [place] at outside
    cases before with
    | nil => contradiction
    | cons d tail =>
        have lengths := congrArg List.length equality
        simp at lengths

theorem Quiet.copy_outside {s : State} (place : s.place = .outside) {c : Char} {more : Text}
    (rest : s.rest = c :: more) (bracket : c ≠ '[') (parenthesis : c ≠ '(') (mark : c ≠ '?')
    (alone : c = '\\' → more.head?.all (!isDigit ·) = true)
    (apart : s.referenceEnd = some s.out.size → isDigit c = false) :
    s.Quiet 1 (s.rest.take 1) := by
  have copied := isEscape_after_copy s 1
  have one : s.rest.take 1 = [c] := by simp [rest]
  have class_ : s.inClass = false := by
    rw [← inside_place, place]
    rfl
  rw [one] at copied ⊢
  constructor
  · intro _
    apply Place.eq_of_inside
    · rw [inside_place, inClass_skip, class_, place]
      by_cases backslash : c = '\\' <;>
        simp [Place.after, Place.next, Place.inside, backslash, bracket]
    · rw [copied, isEscape_place]
  · intro escaped _
    have backslash : c = '\\' := by
      rw [escaped_skip_one rest] at escaped
      simp only [Bool.and_eq_true, beq_iff_eq] at escaped
      exact escaped.1
    have behind : (s.skip 1).rest = more := by simp [rest]
    rw [behind]
    exact alone backslash
  · exact fun _ _ => by simp
  · rw [place]
    simp [Reader.passed_cons, Reader.next, Reader.takes, Reader.held]
  · intro reference _
    simp [apart reference]
  · rw [place, capturesFrom_cons_of_ne _ _ parenthesis]
    rfl
  · intro _
    simpa using mark
  · intro before after equality _
    cases before with
    | nil =>
        simp only [List.nil_append, List.cons.injEq] at equality
        exact absurd equality.1 parenthesis
    | cons d tail =>
        have lengths := congrArg List.length equality
        simp at lengths

theorem separator_closed {before after : Text} (equality : separator = before ++ '(' :: after) :
    3 ≤ after.length := by
  cases before with
  | nil =>
      simp only [separator, List.nil_append, List.cons.injEq, true_and] at equality
      rw [← equality]
      decide
  | cons c tail =>
      have member : '(' ∈ ['?', ':', ')'] := by
        simp only [separator, List.cons_append, List.cons.injEq] at equality
        rw [equality.2]
        simp
      exact absurd member (by decide)

theorem Quiet.of_dropped {s : State} {count : Nat} (place : s.place = .outside)
    (unescaped : (s.skip count).rest ≠ [] → (s.skip count).escaped = false) {text : Text}
    (dropped : text = [] ∨ text = separator) : s.Quiet count text := by
  have class_ : s.inClass = false := by
    rw [← inside_place, place]
    rfl
  have stays : Place.outside.after text = .outside := by
    rcases dropped with rfl | rfl <;> rfl
  constructor
  · intro nonempty
    have outside : (s.skip count).place = .outside :=
      place_eq_outside class_ (unescaped nonempty)
    rw [place, outside, stays]
  · intro escaped _
    cases rest : (s.skip count).rest with
    | nil => rfl
    | cons c more =>
        rw [unescaped (by rw [rest]; simp)] at escaped
        contradiction
  · intro nonempty escaped
    rw [unescaped nonempty] at escaped
    contradiction
  · rw [place]
    rcases dropped with rfl | rfl <;> decide
  · intro _ _
    rcases dropped with rfl | rfl <;> decide
  · rw [place]
    rcases dropped with rfl | rfl <;> decide
  · intro _
    rcases dropped with rfl | rfl <;> decide
  · intro before after equality outside
    rcases dropped with rfl | rfl
    · simp at equality
    · exact separator_closed equality

theorem Quiet.of_parted {s : State} (class_ : s.inClass = true ∨ s.place = .outside) {d : Char}
    {more : Text} (rest : s.rest = d :: more) (digit : isDigit d = true) :
    s.Quiet 1 (separator ++ [d]) := by
  have notSlash : d ≠ '\\' := Reader.isDigit_ne_backslash digit
  have unescaped : (s.skip 1).escaped = false := by
    rw [escaped_skip_one rest, beq_eq_false_iff_ne.mpr notSlash, Bool.false_and]
  rcases class_ with class_ | place
  · apply Quiet.of_within (by simp)
    · have notBracket : d ≠ ']' := by
        rintro rfl
        exact absurd digit (by decide)
      unfold State.place
      rw [if_pos class_]
      cases s.escaped <;>
        simp [separator, Place.within, Place.inside, Place.next, notSlash, notBracket]
    · rw [Place.after_append, unescaped]
      unfold State.place
      rw [if_pos class_]
      cases s.escaped <;> simp [separator, Place.isEscape_next, notSlash]
  · have notBracket : d ≠ '[' := Reader.isDigit_ne_bracket digit
    have notOpen : d ≠ '(' := by
      rintro rfl
      exact absurd digit (by decide)
    have class_ : s.inClass = false := by
      rw [← inside_place, place]
      rfl
    have stays : Place.outside.next d = .outside := by simp [Place.next, notSlash, notBracket]
    have next : Reader.next ⟨.outside, []⟩ d = ⟨.outside, []⟩ := by
      simp [Reader.next, Reader.takes, stays]
    have after : Reader.after ⟨.outside, []⟩ separator = ⟨.outside, []⟩ := by decide
    constructor
    · intro _
      have outside : (s.skip 1).place = .outside := place_eq_outside class_ unescaped
      rw [place, outside, Place.after_append]
      exact stays
    · exact ready_of_unescaped unescaped
    · exact fun _ _ => by simp
    · rw [place, Reader.passed_append, Reader.after_append, after, Reader.passed_cons,
        Reader.after_cons, next]
      have silent : Reader.passed ⟨.outside, []⟩ separator = [] := by decide
      rw [silent]
      exact ⟨by simp [Reader.held], rfl⟩
    · exact fun _ _ => rfl
    · rw [place]
      simp only [separator, List.cons_append, List.nil_append, capturesFrom_cons]
      simp [opensCapture, notOpen]
    · exact fun _ => by simp [separator]
    · intro before after equality _
      rcases List.append_eq_append_iff.mp equality with ⟨middle, _, tail⟩ | ⟨middle, front, tail⟩
      · cases middle with
        | nil => exact absurd (List.cons.inj tail).1 notOpen
        | cons c middle =>
            have lengths := congrArg List.length tail
            simp at lengths
      · cases middle with
        | nil => exact absurd (List.cons.inj tail).1.symm notOpen
        | cons c middle =>
            rw [List.cons_append, List.cons.injEq] at tail
            obtain ⟨rfl, rfl⟩ := tail
            have bound := separator_closed front
            rw [List.length_append]
            omega

theorem Quiet.of_escape {s : State} {count : Nat} (place : s.place = .outside)
    (unescaped : (s.skip count).escaped = false) {d : Char}
    (noReference : isDigit d = false ∨ d = '0')
    {tail : Text} (harmless : Place.isFlat tail = true ∨ tail = separator) :
    s.Quiet count ('\\' :: d :: tail) := by
  have class_ : s.inClass = false := by
    rw [← inside_place, place]
    rfl
  have slash : Reader.next ⟨.outside, []⟩ '\\' = ⟨.escape, []⟩ := by decide
  have notTaken : Reader.takes ⟨.escape, []⟩ d = false := by
    rcases noReference with other | rfl
    · simp [Reader.takes, other]
    · decide
  have letter : Reader.next ⟨.escape, []⟩ d = ⟨.outside, []⟩ := by
    simp [Reader.next, notTaken, Place.next]
  have reads : Reader.after ⟨.outside, []⟩ tail = ⟨.outside, []⟩ ∧
      Reader.passed ⟨.outside, []⟩ tail = [] ∧ capturesFrom ['\\', d] .outside tail = [] := by
    rcases harmless with flat | rfl
    · exact Place.reads_of_flat flat _
    · exact ⟨by decide, by decide, rfl⟩
  obtain ⟨after, passed, captures⟩ := reads
  have whole : Reader.after ⟨.outside, []⟩ ('\\' :: d :: tail) = ⟨.outside, []⟩ := by
    rw [Reader.after_cons, slash, Reader.after_cons, letter, after]
  constructor
  · intro _
    have outside : (s.skip count).place = .outside := place_eq_outside class_ unescaped
    rw [place, outside, ← Reader.place_after (Reader.Proper.of_place .outside), whole]
  · exact ready_of_unescaped unescaped
  · exact fun _ _ => by simp
  · rw [place, whole]
    refine ⟨?_, rfl⟩
    rw [Reader.passed_cons, slash, Reader.passed_cons, letter, passed, notTaken]
    rfl
  · exact fun _ _ => rfl
  · rw [place, capturesFrom_cons_of_ne _ _ (by decide), capturesFrom_cons]
    exact captures
  · exact fun _ => by simp
  · intro before more equality outside
    rw [place] at outside
    cases before with
    | nil => simp at equality
    | cons c before =>
        cases before with
        | nil =>
            obtain ⟨rfl, _⟩ := List.cons.inj equality
            contradiction
        | cons e before =>
            simp only [List.cons_append, List.cons.injEq] at equality
            obtain ⟨rfl, rfl, tails⟩ := equality
            rcases harmless with flat | rfl
            · have member : '(' ∈ tail := by simp [tails]
              simp only [Place.isFlat, List.all_eq_true] at flat
              exact absurd (flat '(' member) (by decide)
            · exact separator_closed tails

end State

end Conversion

end PatternDialect
