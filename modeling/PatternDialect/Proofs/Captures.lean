import PatternDialect.Proofs.Renumbering

/-! The captures of native source, as an engine counts them. -/

namespace PatternDialect.Source

open Character Backreference

/-- Whether an opening parenthesis opens a capture, from what follows it. -/
def opensCapture : Text → Bool
  | '?' :: '<' :: '=' :: _ => false
  | '?' :: '<' :: '!' :: _ => false
  | '?' :: '<' :: _ => true
  | '?' :: _ => false
  | _ => true

def capturesFrom (before : Text) (place : Place) : Text → List Text
  | [] => []
  | c :: rest =>
      (if place == .outside && c == '(' && opensCapture rest then [before] else []) ++
        capturesFrom (before ++ [c]) (place.next c) rest

/-- The captures of a source in their order, each given by the source before its
parenthesis: the parentheses outside classes that are not escaped, with nothing
behind them that makes them another group. -/
def captures (source : Text) : List Text := capturesFrom [] .outside source

theorem opensCapture_of_head {text : Text} (head : text.head? ≠ some '?') :
    opensCapture text = true := by
  unfold opensCapture
  split <;> simp_all

@[simp] theorem capturesFrom_nil (before : Text) (place : Place) :
    capturesFrom before place [] = [] := rfl

theorem capturesFrom_cons (before : Text) (place : Place) (c : Char) (rest : Text) :
    capturesFrom before place (c :: rest) =
      (if place == .outside && c == '(' && opensCapture rest then [before] else []) ++
        capturesFrom (before ++ [c]) (place.next c) rest := rfl

theorem capturesFrom_cons_of_ne (before : Text) (place : Place) {c : Char} (other : c ≠ '(')
    (rest : Text) :
    capturesFrom before place (c :: rest) =
      capturesFrom (before ++ [c]) (place.next c) rest := by
  simp [capturesFrom_cons, other]

theorem capturesFrom_eq_map (before : Text) (place : Place) (text : Text) :
    capturesFrom before place text = (capturesFrom [] place text).map (before ++ ·) := by
  induction text generalizing before place with
  | nil => rfl
  | cons c rest ih =>
      rw [capturesFrom_cons, capturesFrom_cons, ih (before ++ [c]), ih ([] ++ [c]),
        List.map_append, List.map_map]
      congr 1
      · split <;> simp
      · apply List.map_congr_left
        intro found _
        simp

def Steady (place : Place) (text more : Text) : Prop :=
  ∀ before after, text = before ++ '(' :: after → place.after before = .outside →
    opensCapture (after ++ more) = opensCapture after

theorem Steady.tail {place : Place} {c : Char} {rest more : Text}
    (steady : Steady place (c :: rest) more) : Steady (place.next c) rest more := by
  intro before after equality outside
  exact steady (c :: before) after (by simp [equality]) outside

theorem capturesFrom_append {place : Place} {first second : Text}
    (steady : Steady place first second) (before : Text) :
    capturesFrom before place (first ++ second) =
      capturesFrom before place first ++
        capturesFrom (before ++ first) (place.after first) second := by
  induction first generalizing before place with
  | nil => simp
  | cons c rest ih =>
      rw [List.cons_append, capturesFrom_cons, capturesFrom_cons, ih steady.tail,
        List.append_assoc, Place.after_cons]
      have same : (place == .outside && c == '(' && opensCapture (rest ++ second)) =
          (place == .outside && c == '(' && opensCapture rest) := by
        by_cases opening : place = .outside ∧ c = '('
        · obtain ⟨rfl, rfl⟩ := opening
          rw [steady [] rest rfl rfl]
        · by_cases outside : place = .outside
          · have other : (c == '(') = false :=
              beq_eq_false_iff_ne.mpr fun equality => opening ⟨outside, equality⟩
            rw [other, Bool.and_false, Bool.false_and, Bool.false_and]
          · have inside : (place == .outside) = false := beq_eq_false_iff_ne.mpr outside
            rw [inside, Bool.false_and, Bool.false_and, Bool.false_and]
      rw [same]
      simp

theorem captures_append {first second : Text} (steady : Steady .outside first second) :
    captures (first ++ second) =
      captures first ++ (capturesFrom [] (Place.outside.after first) second).map (first ++ ·) := by
  unfold captures
  rw [capturesFrom_append steady, List.nil_append, capturesFrom_eq_map first]

/-- A text whose last parenthesis shows what it opens, if it shows anything. -/
def Whole (text : Text) : Prop :=
  ∀ before after, text = before ++ '(' :: after → Place.outside.after before = .outside →
    after ≠ ['?'] ∧ after ≠ ['?', '<']

def Shut (text : Text) : Prop :=
  ∀ before, text = before ++ ['('] → Place.outside.after before ≠ .outside

theorem shut_of_place {text : Text} (other : Place.outside.after text ≠ .outside) : Shut text := by
  rintro before rfl outside
  rw [Place.after_append, outside] at other
  exact other rfl

theorem shut_of_last {text : Text} {c : Char} (other : c ≠ '(') : Shut (text ++ [c]) := by
  intro before equality
  have last := congrArg List.getLast? equality
  simp at last
  exact absurd last other

theorem whole_of_last {text : Text} {c : Char} (mark : c ≠ '?') (angle : c ≠ '<') :
    Whole (text ++ [c]) := by
  intro before after equality _
  have last := congrArg List.getLast? equality
  constructor
  · rintro rfl
    simp at last
    exact mark last
  · rintro rfl
    simp at last
    exact angle last

theorem opensCapture_append {after : Text} (nonempty : after ≠ []) (mark : after ≠ ['?'])
    (angle : after ≠ ['?', '<']) (more : Text) :
    opensCapture (after ++ more) = opensCapture after := by
  match after with
  | [] => exact absurd rfl nonempty
  | c :: rest =>
      by_cases question : c = '?'
      · subst question
        match rest with
        | [] => exact absurd rfl mark
        | d :: rest =>
            by_cases left : d = '<'
            · subst left
              match rest with
              | [] => exact absurd rfl angle
              | e :: rest =>
                  simp only [List.cons_append]
                  by_cases equals : e = '='
                  · subst equals; rfl
                  · by_cases bang : e = '!'
                    · subst bang; rfl
                    · simp [opensCapture, equals, bang]
            · simp [opensCapture, left]
      · rw [opensCapture_of_head (by simpa using question),
          opensCapture_of_head (by simpa using question)]

def Admits (text : Text) (c : Char) : Prop :=
  ∀ rest, Steady .outside text (c :: rest)

def isInert (c : Char) : Bool := c != '?' && c != '<' && c != '=' && c != '!'

theorem opensCapture_inert {c : Char} (inert : isInert c = true) (after rest : Text) :
    opensCapture (after ++ c :: rest) = opensCapture after := by
  simp only [isInert, Bool.and_eq_true, bne_iff_ne] at inert
  obtain ⟨⟨⟨mark, angle⟩, equals⟩, bang⟩ := inert
  by_cases empty : after = []
  · subst empty
    exact opensCapture_of_head (by simpa using mark)
  · by_cases single : after = ['?']
    · subst single
      simp [opensCapture, angle]
    · by_cases double : after = ['?', '<']
      · subst double
        simp [opensCapture, equals, bang]
      · exact opensCapture_append empty single double (c :: rest)

theorem admits_of_inert {c : Char} (inert : isInert c = true) (text : Text) : Admits text c :=
  fun rest _ after _ _ => opensCapture_inert inert after rest

theorem Whole.steady {text : Text} (whole : Whole text) {more : Text}
    (next : Shut text ∨ opensCapture more = true) : Steady .outside text more := by
  intro before after equality outside
  obtain ⟨mark, angle⟩ := whole before after equality outside
  by_cases empty : after = []
  · subst empty
    rcases next with shut | opens
    · exact absurd outside (shut before equality)
    · simpa [opensCapture] using opens
  · exact opensCapture_append empty mark angle more

theorem whole_append {text more : Text} (whole : Whole text) (nonempty : more ≠ [])
    (head : Place.outside.after text = .outside → Shut text ∨ more.head? ≠ some '?')
    (closed : ∀ before after, more = before ++ '(' :: after →
      (Place.outside.after text).after before = .outside → 3 ≤ after.length) :
    Whole (text ++ more) ∧ Shut (text ++ more) := by
  -- a parenthesis of the text has all of the addition behind it
  have place : ∀ before after, text ++ more = before ++ '(' :: after →
      Place.outside.after before = .outside → 3 ≤ after.length ∨
        ∃ inner, text = before ++ '(' :: inner ∧ after = inner ++ more := by
    intro before after equality outside
    rcases List.append_eq_append_iff.mp equality with ⟨middle, rfl, parts⟩ | ⟨middle, parts, rest⟩
    · left
      apply closed middle after parts
      rw [← Place.after_append]
      exact outside
    · cases middle with
      | nil =>
          left
          apply closed [] after rest.symm
          rw [parts, List.append_nil]
          exact outside
      | cons c inner =>
          rw [List.cons_append, List.cons.injEq] at rest
          obtain ⟨rfl, rest⟩ := rest
          exact Or.inr ⟨inner, parts, rest⟩
  have first : ∀ before, text = before ++ ['('] → Place.outside.after before = .outside →
      more.head? ≠ some '?' := by
    intro before parts outside
    have here : Place.outside.after text = .outside := by
      rw [parts, Place.after_append, outside]
      rfl
    rcases head here with shut | other
    · exact absurd outside (shut before parts)
    · exact other
  constructor
  · intro before after equality outside
    rcases place before after equality outside with long | ⟨inner, parts, rfl⟩
    · constructor
      · rintro rfl
        contradiction
      · rintro rfl
        contradiction
    · obtain ⟨mark, angle⟩ := whole before inner parts outside
      cases inner with
      | nil =>
          have other := first before parts outside
          constructor
          · intro equal
            exact other (by rw [List.nil_append] at equal; rw [equal]; rfl)
          · intro equal
            exact other (by rw [List.nil_append] at equal; rw [equal]; rfl)
      | cons c rest =>
          constructor
          · intro equal
            simp only [List.cons_append, List.cons.injEq, List.append_eq_nil_iff] at equal
            exact nonempty equal.2.2
          · intro equal
            simp only [List.cons_append, List.cons.injEq] at equal
            cases rest with
            | nil => exact mark (by rw [equal.1])
            | cons d more' =>
                simp only [List.cons_append, List.cons.injEq, List.append_eq_nil_iff] at equal
                exact nonempty equal.2.2.2
  · intro before equality outside
    rcases place before [] equality outside with long | ⟨inner, _, empty⟩
    · contradiction
    · exact nonempty (List.append_eq_nil_iff.mp empty.symm).2

namespace Place

def isFlat (text : Text) : Bool := text.all fun c => c != '\\' && c != '[' && c != '('

theorem isFlat_cons {c : Char} {rest : Text} (flat : isFlat (c :: rest) = true) :
    (c ≠ '\\' ∧ c ≠ '[' ∧ c ≠ '(') ∧ isFlat rest = true := by
  simp only [isFlat, List.all_cons, Bool.and_eq_true, bne_iff_ne] at flat
  exact ⟨⟨flat.1.1.1, flat.1.1.2, flat.1.2⟩, flat.2⟩

theorem reads_of_flat {text : Text} (flat : isFlat text = true) (before : Text) :
    Reader.after ⟨outside, []⟩ text = ⟨outside, []⟩ ∧ Reader.passed ⟨outside, []⟩ text = [] ∧
      capturesFrom before outside text = [] := by
  induction text generalizing before with
  | nil => exact ⟨rfl, rfl, rfl⟩
  | cons c rest ih =>
      obtain ⟨⟨backslash, bracket, parenthesis⟩, flat⟩ := isFlat_cons flat
      have stays : outside.next c = .outside := by simp [next, backslash, bracket]
      have next : Reader.next ⟨outside, []⟩ c = ⟨outside, []⟩ := by
        simp [Reader.next, Reader.takes, stays]
      obtain ⟨after, passed, captures⟩ := ih flat (before ++ [c])
      rw [Reader.after_cons, Reader.passed_cons, capturesFrom_cons_of_ne _ _ parenthesis, next,
        stays, passed]
      exact ⟨after, by simp [Reader.held, Reader.takes], captures⟩

end Place

/-! Renumbering leaves the parentheses where they are. -/

theorem isDigit_of_mem_shift {first amount : Nat} {digits : Text}
    (all : ∀ d ∈ digits, isDigit d = true) {c : Char} (member : c ∈ shift first amount digits) :
    isDigit c = true := by
  unfold shift at member
  split at member
  · split at member
    · exact Decimal.isDigit_of_mem_write member
    · exact all c member
  · exact all c member

theorem shift_ne_nil (first amount : Nat) {digits : Text} (nonempty : digits ≠ []) :
    shift first amount digits ≠ [] := by
  unfold shift
  split
  · split
    · exact Decimal.write_ne_nil _
    · exact nonempty
  · exact nonempty

theorem reads_of_digits {digits : Text} (all : ∀ d ∈ digits, isDigit d = true)
    (before : Text) {place : Place} (here : place = .outside ∨ place = .escape ∧ digits ≠ []) :
    place.after digits = .outside ∧ capturesFrom before place digits = [] := by
  induction digits generalizing before place with
  | nil =>
      rcases here with rfl | ⟨_, filled⟩
      · exact ⟨rfl, rfl⟩
      · exact absurd rfl filled
  | cons d rest ih =>
      have digit := all d (by simp)
      have backslash := Reader.isDigit_ne_backslash digit
      have bracket := Reader.isDigit_ne_bracket digit
      have parenthesis : d ≠ '(' := by
        rintro rfl
        exact absurd digit (by decide)
      have next : place.next d = .outside := by
        rcases here with rfl | ⟨rfl, _⟩
        · simp [Place.next, backslash, bracket]
        · rfl
      rw [Place.after_cons, capturesFrom_cons_of_ne _ _ parenthesis, next]
      exact ih (fun e member => all e (by simp [member])) _ (Or.inl rfl)

theorem opensCapture_renumber (first amount : Nat) (text : Text) :
    opensCapture (renumberFrom first amount .outside [] text) = opensCapture text := by
  match text with
  | [] => rfl
  | c :: rest =>
      rw [renumberFrom_copied first amount (by decide)]
      by_cases question : c = '?'
      · subst question
        match rest with
        | [] => rfl
        | d :: rest =>
            rw [renumberFrom_copied first amount (by decide)]
            by_cases left : d = '<'
            · subst left
              match rest with
              | [] => rfl
              | e :: rest =>
                  rw [renumberFrom_copied first amount (by decide)]
                  by_cases equals : e = '='
                  · subst equals; rfl
                  · by_cases bang : e = '!'
                    · subst bang; rfl
                    · simp [opensCapture, equals, bang]
            · simp [opensCapture, left]
      · rw [opensCapture_of_head (by simpa using question),
          opensCapture_of_head (by simpa using question)]

theorem reads_held (first amount : Nat) {r : Reader} (proper : r.Proper) :
    (restart r).place.after (shift first amount r.digits.reverse) = r.place ∧
      capturesFrom [] (restart r).place (shift first amount r.digits.reverse) = [] ∧
        ∀ c ∈ shift first amount r.digits.reverse, c ≠ '(' := by
  have all : ∀ d ∈ shift first amount r.digits.reverse, isDigit d = true := fun d member =>
    isDigit_of_mem_shift (fun e inside => proper.digits e (List.mem_reverse.mp inside)) member
  have closed : ∀ c ∈ shift first amount r.digits.reverse, c ≠ '(' := by
    rintro c member rfl
    exact absurd (all _ member) (by decide)
  cases digits : r.digits with
  | nil => simp [restart, digits]
  | cons d rest =>
      have filled := shift_ne_nil first amount (by simp : (d :: rest).reverse ≠ [])
      rw [← digits] at filled ⊢
      obtain ⟨after, nothing⟩ := reads_of_digits all [] (Or.inr ⟨rfl, filled⟩)
      have again : restart r = ⟨.escape, []⟩ := by simp [restart, digits]
      rw [again, proper.outside (by simp [digits])]
      exact ⟨after, nothing, closed⟩

/-- The captures of a renumbered text are the captures of the text, renumbered. -/
theorem captures_renumberFrom (first amount : Nat) {r : Reader} (proper : r.Proper) (text : Text) :
    (restart r).place.after (renumberFrom first amount r.place r.digits text) =
        r.place.after text ∧
      capturesFrom [] (restart r).place (renumberFrom first amount r.place r.digits text) =
        (capturesFrom [] r.place text).map (renumberFrom first amount r.place r.digits) := by
  induction text generalizing r with
  | nil =>
      obtain ⟨after, nothing, _⟩ := reads_held first amount proper
      simp only [renumberFrom, Place.after_nil, capturesFrom_nil, List.map_nil]
      exact ⟨after, nothing⟩
  | cons c rest ih =>
      obtain ⟨place, captures⟩ := ih (proper.next c)
      cases taken : r.takes c with
      | true =>
          have parenthesis : c ≠ '(' := by
            rintro rfl
            simp [Reader.takes] at taken
            exact absurd taken.1 (by decide)
          have written : ∀ text, renumberFrom first amount r.place r.digits (c :: text) =
              renumberFrom first amount (r.next c).place (r.next c).digits text :=
            renumberFrom_taken first amount taken
          rw [restart_next taken] at place captures
          rw [written, place, captures, Place.after_cons, ← Reader.place_next proper,
            capturesFrom_cons_of_ne _ _ parenthesis, List.nil_append,
            capturesFrom_eq_map [c], ← Reader.place_next proper, List.map_map]
          refine ⟨rfl, List.map_congr_left fun b _ => ?_⟩
          exact (written b).symm
      | false =>
          obtain ⟨after, nothing, closed⟩ := reads_held first amount proper
          have next : r.next c = ⟨r.place.next c, []⟩ := by simp [Reader.next, taken]
          have written : ∀ text, renumberFrom first amount r.place r.digits (c :: text) =
              shift first amount r.digits.reverse ++
                c :: renumberFrom first amount (r.place.next c) [] text := by
            intro text
            rw [renumberFrom_other first amount taken, next]
          rw [next] at place captures
          change (r.place.next c).after (renumberFrom first amount (r.place.next c) [] rest) = _
            at place
          change capturesFrom [] (r.place.next c)
            (renumberFrom first amount (r.place.next c) [] rest) = _ at captures
          have steady : ∀ more,
              Steady (restart r).place (shift first amount r.digits.reverse) more := by
            intro more before behind equality
            exact absurd rfl (closed '(' (by rw [equality]; simp))
          have meaning : (r.place == .outside && c == '(' &&
                opensCapture (renumberFrom first amount (r.place.next c) [] rest)) =
              (r.place == .outside && c == '(' && opensCapture rest) := by
            cases opening : (r.place == .outside && c == '(') with
            | false => simp
            | true =>
                simp only [Bool.and_eq_true, beq_iff_eq] at opening
                rw [opening.1, opening.2]
                exact opensCapture_renumber first amount rest
          rw [written, Place.after_append, after, Place.after_cons, place, Place.after_cons,
            capturesFrom_append (steady _), nothing, after, capturesFrom_cons, meaning,
            capturesFrom_eq_map, captures, capturesFrom_cons, capturesFrom_eq_map ([] ++ [c])]
          refine ⟨rfl, ?_⟩
          simp only [List.map_append, List.map_map, List.nil_append]
          congr 1
          · split <;> simp [renumberFrom]
          · apply List.map_congr_left
            intro b _
            simp [written]

theorem Place.next_ne_escape (place : Place) {c : Char} (other : c ≠ '\\') :
    place.next c ≠ .escape := by
  intro escape
  have pending := congrArg Place.isEscape escape
  rw [Place.isEscape_next] at pending
  simp [other, Place.isEscape] at pending

theorem renumberFrom_plain (first amount : Nat) {place : Place} (unescaped : place ≠ .escape)
    {text : Text} (plain : ∀ c ∈ text, c ≠ '\\') :
    renumberFrom first amount place [] text = text := by
  induction text generalizing place with
  | nil => rfl
  | cons c rest ih =>
      rw [renumberFrom_copied first amount unescaped,
        ih (place.next_ne_escape (plain c (by simp))) fun d member => plain d (by simp [member])]

theorem renumberFrom_append (first amount : Nat) (r : Reader) (text : Text) {w : Text}
    (plain : ∀ c ∈ w, c ≠ '\\') (head : w.head?.all (!isDigit ·) = true) :
    renumberFrom first amount r.place r.digits (text ++ w) =
      renumberFrom first amount r.place r.digits text ++ w := by
  induction text generalizing r with
  | nil =>
      rw [List.nil_append]
      cases w with
      | nil => simp
      | cons c rest =>
          have noDigit : isDigit c = false := by simpa using head
          have other : r.takes c = false := by simp [Reader.takes, noDigit]
          have next : r.next c = ⟨r.place.next c, []⟩ := by simp [Reader.next, other]
          rw [renumberFrom_other first amount other, next,
            renumberFrom_plain first amount (r.place.next_ne_escape (plain c (by simp)))
              fun d member => plain d (by simp [member])]
          rfl
  | cons c rest ih =>
      cases taken : r.takes c with
      | true =>
          rw [List.cons_append, renumberFrom_taken first amount taken,
            renumberFrom_taken first amount taken, ih]
      | false =>
          rw [List.cons_append, renumberFrom_other first amount taken,
            renumberFrom_other first amount taken, ih]
          simp

theorem renumber_append (first amount : Nat) (text : Text) {w : Text} (plain : ∀ c ∈ w, c ≠ '\\')
    (head : w.head?.all (!isDigit ·) = true) :
    renumber first amount (text ++ w) = renumber first amount text ++ w :=
  renumberFrom_append first amount Reader.start text plain head

theorem captures_renumber (first amount : Nat) (text : Text) :
    Place.outside.after (renumber first amount text) = Place.outside.after text ∧
      captures (renumber first amount text) = (captures text).map (renumber first amount) :=
  captures_renumberFrom first amount Reader.Proper.start text

end PatternDialect.Source
