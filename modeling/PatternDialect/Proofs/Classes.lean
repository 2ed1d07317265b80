import PatternDialect.Proofs.Delimiters
import PatternDialect.Proofs.Progress

/-! Classes of the dialect.

Main statement: a class is copied as it stands, up to the first unescaped bracket
that closes it, and a class that no bracket closes ends the conversion. -/

namespace PatternDialect

open Character Source

theorem Source.Place.within_append (p : Place) (first second : Text) :
    p.within (first ++ second) = (p.within first && (p.after first).within second) := by
  induction first generalizing p with
  | nil =>
      cases stays : p.within second with
      | false => simp [stays]
      | true => simp [stays, within, inside_of_within stays]
  | cons c rest ih => simp only [List.cons_append, within, ih, after_cons, Bool.and_assoc]

theorem Source.Place.inside_next {p : Place} {c : Char} {rest : Text}
    (stays : p.within (c :: rest) = true) : (p.next c).inside = true := by
  simp only [within, Bool.and_eq_true] at stays
  exact inside_of_within stays.2

theorem Source.Place.within_eq {p : Place} {before : Text} (inside : p.inside = true)
    (same : p.isEscape = Escape.pending before) (text : Text) :
    p.within text = !Escape.occursUnescaped ']' before text := by
  induction text generalizing p before with
  | nil => simpa [within, Escape.occursUnescaped] using inside
  | cons c rest ih =>
      rw [within, inside, Bool.true_and, Escape.occursUnescaped, ← same]
      by_cases closes : c = ']' ∧ p.isEscape = false
      · obtain ⟨rfl, unescaped⟩ := closes
        have next : p.next ']' = .outside := by cases p <;> simp_all [Place.inside, isEscape, next]
        have left : outside.within rest = false := by
          cases h : outside.within rest with
          | false => rfl
          | true => exact absurd (inside_of_within h) (by decide)
        rw [next, left, unescaped]
        rfl
      · have stays : (p.next c).inside = true := by
          cases p with
          | outside => contradiction
          | escape => contradiction
          | classEscape => rfl
          | inClass =>
              have open_ : c ≠ ']' := fun equality => closes ⟨equality, rfl⟩
              by_cases backslash : c = '\\' <;> simp [next, Place.inside, backslash, open_]
        have escape : (p.next c).isEscape = Escape.pending (c :: before) := by
          rw [isEscape_next, Escape.pending_cons, same]
        have apart : (c == ']' && !p.isEscape) = false := by
          rw [Bool.and_eq_false_iff, beq_eq_false_iff_ne, Bool.not_eq_false']
          by_cases bracket : c = ']'
          · exact Or.inr (by simpa using fun unescaped => closes ⟨bracket, unescaped⟩)
          · exact Or.inl bracket
        rw [ih stays escape, apart, Bool.false_or]

namespace Conversion

variable {options : Options} {delimiter : Option Char} {s : State}

theorem afterBackslash?_cases {c : Char} {more : Text} {construct : Construct}
    (found : Construct.afterBackslash? (c :: more) = some construct) :
    (construct = .nameReference .escape ∧ c = 'k' ∧ ∃ left, more = '<' :: left) ∨
      (construct = .escapedDigit c ∧ isDigit c = true) ∨
        (construct = .escapedLetter c ∧ isLetter c = true) := by
  unfold Construct.afterBackslash? at found
  split at found
  · rename_i left equality
    cases equality
    cases found
    exact Or.inl ⟨rfl, rfl, left, rfl⟩
  · rename_i d left _ equality
    cases equality
    split at found
    · rename_i digit
      cases found
      exact Or.inr (Or.inl ⟨rfl, digit⟩)
    · split at found
      · rename_i letter
        cases found
        exact Or.inr (Or.inr ⟨rfl, letter⟩)
      · contradiction
  · contradiction

theorem next?_backslash (unescaped : s.escaped = false) {more : Text} (rest : s.rest = '\\' :: more)
    (other : delimiter ≠ some '\\') : s.next? delimiter = Construct.afterBackslash? more := by
  have live : Escape.pending s.before = false := unescaped
  rw [State.next?_plain rest other, Construct.plain?_backslash, live, if_neg (by decide)]

theorem step_digits (place : s.place = .outside) {digits back : Text}
    (rest : s.rest = '\\' :: (digits ++ back)) (filled : digits ≠ [])
    (all : ∀ d ∈ digits, isDigit d = true) (ends : back.head?.all (!isDigit ·) = true)
    (other : delimiter ≠ some '\\') :
    s.step options delimiter = match s.splice.filter (·.stop == s.out.size) with
      | some splice =>
          .ok { ({ s with groups := s.groups.suppress splice.slot }.skip
            (digits.length + 1)).emitReference splice.slot with splice := none }
      | none => if digits = ['0'] then .ok s.nul else .error (.octalEscape ('\\' :: digits)) := by
  obtain ⟨d, tail, rfl⟩ := List.exists_cons_of_ne_nil filled
  have digit := all d (by simp)
  have named : d ≠ 'k' := by
    rintro rfl
    contradiction
  have found : Construct.afterBackslash? (d :: tail ++ back) = some (.escapedDigit d) := by
    simp [Construct.afterBackslash?, named, digit]
  have digits : Text.digits (s.rest.drop 1) = d :: tail := by
    rw [rest]
    exact Text.digits_before all ends
  rw [State.step, next?_backslash (State.escaped_of_place place) rest other, found]
  simp only [State.read, State.escapedDigit, State.inClass_of_place place, digits,
    Bool.false_eq_true, ↓reduceIte, Nat.add_comm 1]
  cases s.splice.filter (·.stop == s.out.size) with
  | some splice => rfl
  | none => simp

/-- The letter that comes next, if one is escaped, may be. -/
def State.Admitted (s : State) (options : Options) (delimiter : Option Char) : Prop :=
  ∀ letter, s.next? delimiter = some (.escapedLetter letter) →
    State.admits options letter (s.rest.drop 2) = true

theorem admitted_of_lenient (lenient : options.extra = false) : s.Admitted options delimiter := by
  intro letter _
  simp [State.admits, lenient]

theorem admitted_of_step {next : State} (ok : s.step options delimiter = .ok next) :
    s.Admitted options delimiter := by
  intro letter found
  cases admitted : State.admits options letter (s.rest.drop 2) with
  | true => rfl
  | false =>
      obtain ⟨fault, failed⟩ := State.escapedLetter_refused admitted
      rw [State.step, found] at ok
      exact absurd (failed.symm.trans ok) (by simp)

theorem step_copies (admitted : s.Admitted options delimiter) (class_ : s.inClass = true)
    (followed : s.Followed) {c : Char} {more : Text} (rest : s.rest = c :: more)
    (open_ : c = ']' → s.escaped = true ∨ delimiter = some ']') :
    ∃ word left, s.rest = word ++ left ∧ word ≠ [] ∧
      (delimiter ≠ some ']' → s.place.within word = true) ∧
        s.step options delimiter = .ok (s.copy word.length) := by
  cases escape : s.escaped with
  | true =>
      have place : s.place = .classEscape := by simp [State.place, class_, escape]
      refine ⟨[c], more, rest, by simp, fun _ => by rw [place]; rfl, ?_⟩
      rw [State.step_escaped escape rest, State.passed, class_, Bool.not_true, Bool.and_false,
        if_neg Bool.false_ne_true, State.copyPlain_inClass class_ followed rest, ite_self]
      rfl
  | false =>
      have place := State.place_of_inClass class_ escape
      rw [place]
      by_cases same : delimiter = some c
      · refine ⟨[c], more, rest, by simp, ?_, ?_⟩
        · intro other
          have bracket : c ≠ ']' := by
            rintro rfl
            exact other same
          by_cases backslash : c = '\\' <;>
            simp [Place.within, Place.inside, Place.next, backslash, bracket]
        · rw [State.step, State.next?_delimiter rest same]
          simp [State.read, State.flagsDelimiter, class_]
      · have bracket : c ≠ ']' := by
          intro closing
          rcases open_ closing with escaped | delimits
          · rw [escape] at escaped
            contradiction
          · exact same (closing ▸ delimits)
        unfold State.step
        cases found : s.next? delimiter with
        | none =>
            refine ⟨[c], more, rest, by simp, fun _ => ?_,
              congrArg Except.ok (State.copyPlain_inClass class_ followed rest)⟩
            by_cases backslash : c = '\\' <;>
              simp [Place.within, Place.inside, Place.next, backslash, bracket]
        | some construct =>
            have stands := Construct.stands_of_at? found
            have noDelimiter : ∀ d, construct ≠ .flagsDelimiter d := by
              rintro d rfl
              obtain ⟨delimits, _, parts⟩ := stands
              exact same ((List.cons.inj (rest.symm.trans parts)).1 ▸ delimits)
            have closes : construct ≠ .closeClass := by
              rintro rfl
              obtain ⟨_, _, parts⟩ := stands
              exact bracket (List.cons.inj (rest.symm.trans parts)).1
            obtain ⟨word, left, parts, filled, unclosing, read⟩ :
                ∃ word left, s.rest = word ++ left ∧
                word ≠ [] ∧ State.Unclosing word ∧
                  s.read options construct = .ok (s.copy word.length) := by
              by_cases letter : ∃ l, construct = .escapedLetter l
              · obtain ⟨l, rfl⟩ := letter
                have read := State.escapedLetter_admitted (admitted l found)
                obtain ⟨word, left, parts, filled, unclosing, copied⟩ :=
                  State.letter_inClass stands read
                exact ⟨word, left, parts, filled, unclosing, read.trans (congrArg _ copied)⟩
              · exact State.read_inClass class_ escape stands closes
                  (fun l same => letter ⟨l, same⟩) noDelimiter
            exact ⟨word, left, parts, filled, fun _ => unclosing.within, read⟩

theorem place_copy {word left : Text} (rest : s.rest = word ++ left)
    (stays : s.place.within word = true) :
    (s.copy word.length).inClass = true ∧ (s.copy word.length).place = s.place.after word := by
  have class_ : (s.copy word.length).inClass = true := by
    have inside := Place.inside_of_within stays
    rwa [State.inside_place] at inside
  refine ⟨class_, (Place.eq_of_inside ?_ ?_).symm⟩
  · rw [Place.inside_after_of_within stays, State.inside_place, class_]
  · have copied := State.isEscape_after_copy s word.length
    rw [rest, List.take_left] at copied
    rw [copied, State.isEscape_place]
    rfl

theorem trace_within (lenient : options.extra = false) (other : delimiter ≠ some ']')
    (followed : s.Followed) {body more : Text} (rest : s.rest = body ++ more)
    (stays : s.place.within body = true)
    (stop : more = [] ∨ s.place.after body = .inClass ∧ more.head? = some ']') :
    ∃ states, Trace options delimiter s states (s.copy body.length) := by
  induction length : body.length using Nat.strongRecOn generalizing s body with
  | ind n ih =>
      subst length
      cases body with
      | nil =>
          have same : s.copy 0 = s := by simp
          refine ⟨[], ?_⟩
          rw [List.length_nil, same]
          exact Trace.done s
      | cons c tail =>
          have class_ : s.inClass = true := by
            rw [← State.inside_place]
            exact Place.inside_of_within stays
          have open_ : c = ']' → s.escaped = true ∨ delimiter = some ']' := by
            rintro rfl
            cases escape : s.escaped with
            | true => exact Or.inl rfl
            | false =>
                rw [State.place_of_inClass class_ escape] at stays
                exact absurd (Place.inside_next stays) (by decide)
          obtain ⟨word, left, parts, filled, inner, step⟩ :=
            step_copies (admitted_of_lenient lenient) class_ followed rest open_
          have within := inner other
          -- the step does not read the bracket behind the body
          obtain ⟨further, begins⟩ : word <+: c :: tail := by
            rcases List.prefix_or_prefix_of_prefix (⟨left, parts.symm⟩ : word <+: s.rest)
              (⟨more, rest.symm⟩ : c :: tail <+: s.rest) with shorter | ⟨extra, longer⟩
            · exact shorter
            · cases extra with
              | nil => exact ⟨[], by simpa using longer.symm⟩
              | cons d extra =>
                  have behind : more = d :: extra ++ left := by
                    have same : c :: tail ++ more = c :: tail ++ (d :: extra ++ left) := by
                      rw [← List.append_assoc, longer, ← parts, rest]
                    exact List.append_cancel_left same
                  rcases stop with rfl | ⟨ends, closing⟩
                  · contradiction
                  · rw [behind] at closing
                    obtain rfl : d = ']' := by simpa using closing
                    rw [← longer, Place.within_append, ends, Bool.and_eq_true] at within
                    exact absurd (Place.inside_next within.2) (by decide)
          have onward : s.rest = word ++ (further ++ more) := by
            rw [rest, ← begins, List.append_assoc]
          rw [← begins, Place.within_append, Bool.and_eq_true] at stays
          obtain ⟨_, place⟩ := place_copy onward stays.1
          have shorter : further.length < (c :: tail).length := by
            have positive := List.length_pos_iff.mpr filled
            rw [← begins, List.length_append]
            omega
          have stop' : more = [] ∨
              (s.copy word.length).place.after further = .inClass ∧ more.head? = some ']' := by
            rw [place, ← Place.after_append, begins]
            exact stop
          obtain ⟨states, trace⟩ := ih further.length shorter (followed.copy _)
            (State.rest_copied onward) (by rw [place]; exact stays.2) stop' rfl
          rw [State.copy_copy, ← List.length_append, begins] at trace
          exact ⟨s :: states, Trace.step (by simp [rest]) step trace⟩

def entered (s : State) : State := { s with classStart := some s.out.size }.copy 1

theorem step_bracket (place : s.place = .outside) (opens : delimiter ≠ some '[') {more : Text}
    (rest : s.rest = '[' :: more) : s.step options delimiter = .ok (entered s) := by
  rw [State.step, State.next?_plain rest opens, Construct.plain?_openClass]
  simp [State.read, State.openClass, State.inClass_of_place place, State.escaped_of_place place,
    entered]

theorem entered_spec (followed : s.Followed) {more : Text} (rest : s.rest = '[' :: more) :
    (entered s).place = .inClass ∧ (entered s).rest = more ∧ (entered s).Followed := by
  have unescaped : (entered s).escaped = false := by
    change (s.skip 1).escaped = false
    rw [State.escaped_skip_one rest]
    rfl
  refine ⟨State.place_of_inClass rfl unescaped,
    by simp [entered, rest], ?_⟩
  intro stop last
  have before := (followed stop last).1
  have grown : (entered s).out.size = s.out.size + 1 := by
    rw [entered, State.out_copy, Text.size_append, rest]
    rfl
  exact ⟨by omega, fun _ => by omega⟩

theorem step_closing (other : delimiter ≠ some ']') {start : Nat}
    (class_ : s.classStart = some start)
    (unescaped : s.escaped = false) {more : Text} (rest : s.rest = ']' :: more) :
    s.step options delimiter = .ok ({ s.copy 1 with classStart := none }.recordAtom start) := by
  rw [State.step, State.next?_plain rest other, Construct.plain?_closeClass]
  simp [State.read, State.closeClass, class_, unescaped]

theorem trace_bracket (lenient : options.extra = false) (other : delimiter ≠ some ']')
    (opens : delimiter ≠ some '[') (place : s.place = .outside) (followed : s.Followed)
    {body more : Text} (rest : s.rest = '[' :: (body ++ ']' :: more))
    (stays : Place.inClass.within body = true) (ends : Place.inClass.after body = .inClass) :
    ∃ states, Trace options delimiter s states
      ((s.copy (body.length + 2)).recordAtom s.out.size) := by
  obtain ⟨inside, left, behind⟩ := entered_spec followed rest
  rw [← inside] at stays ends
  have closing : (entered s).place.after body = .inClass ∧ (']' :: more).head? = some ']' :=
    ⟨ends.trans inside, rfl⟩
  obtain ⟨states, trace⟩ := trace_within lenient other behind left stays (Or.inr closing)
  obtain ⟨_, place'⟩ := place_copy left stays
  have unescaped : ((entered s).copy body.length).escaped = false := by
    rw [← State.isEscape_place, place', closing.1]
    rfl
  have last : ((entered s).copy body.length).rest = ']' :: more := State.rest_copied left
  have start : ((entered s).copy body.length).classStart = some s.out.size := rfl
  have none_ : s.classStart = none := by
    simpa [State.inClass] using State.inClass_of_place place
  have count : 1 + (body.length + 1) = body.length + 2 := by omega
  have same :
      ({ ((entered s).copy body.length).copy 1 with classStart := none }.recordAtom s.out.size) =
      (s.copy (body.length + 2)).recordAtom s.out.size := by
    rw [State.copy_copy, entered, State.copy_copy, count]
    simp only [State.copy, State.emit, State.skip, State.recordAtom, ← none_]
  have closes : ((entered s).copy body.length).step options delimiter =
      .ok ((s.copy (body.length + 2)).recordAtom s.out.size) := by
    rw [← same]
    exact step_closing other start unescaped last
  exact ⟨_, (Trace.step (by simp [rest]) (step_bracket place opens rest) trace).append
    (Trace.step (by simp [left]) closes (Trace.done _))⟩

theorem conclude_inClass (lenient : options.extra = false) (class_ : s.inClass = true)
    (followed : s.Followed) (never : delimiter = some ']' ∨ s.place.within s.rest = true) :
    conclude options delimiter s = .error (.native .unbalancedBracket) := by
  induction length : s.rest.length using Nat.strongRecOn generalizing s with
  | ind n ih =>
      subst length
      cases rest : s.rest with
      | nil =>
          rw [conclude_nil rest, finish, class_]
          rfl
      | cons c more =>
          have open_ : c = ']' → s.escaped = true ∨ delimiter = some ']' := by
            rintro rfl
            rcases never with delimits | stays
            · exact Or.inr delimits
            · cases escape : s.escaped with
              | true => exact Or.inl rfl
              | false =>
                  rw [State.place_of_inClass class_ escape, rest] at stays
                  exact absurd (Place.inside_next stays) (by decide)
          obtain ⟨word, left, parts, filled, inner, step⟩ :=
            step_copies (admitted_of_lenient lenient) class_ followed rest open_
          have shorter : (s.copy word.length).rest.length < s.rest.length := by
            have positive := List.length_pos_iff.mpr filled
            rw [State.rest_copied parts, parts, List.length_append]
            omega
          rw [conclude_ok (by simp [rest]) step]
          refine ih _ shorter class_ (followed.copy _) ?_ rfl
          by_cases delimits : delimiter = some ']'
          · exact Or.inl delimits
          · have stays := never.resolve_left delimits
            rw [parts, Place.within_append, Bool.and_eq_true] at stays
            rw [(place_copy parts stays.1).2, State.rest_copied parts]
            exact Or.inr stays.2

/-- A class is copied as it stands up to its first unescaped closing bracket, and is then
the atom at the end of the output; nothing else changes.  Where no such bracket comes, or
the delimiter takes its place, the conversion fails with the fault of the engine. -/
theorem trace_class {text more : Text} {states : List State} (lenient : options.extra = false)
    (reached : Trace options delimiter (.start text) states s) (outside : s.inClass = false)
    (unescaped : s.escaped = false) (rest : s.rest = '[' :: more) (opens : delimiter ≠ some '[') :
    (∀ body tail, more = body ++ ']' :: tail → delimiter ≠ some ']' →
        Escape.occursUnescaped ']' ('[' :: s.before) body = false →
          Escape.pending (body.reverse ++ '[' :: s.before) = false →
            ∃ later, Trace options delimiter s later
              { s with
                before := ('[' :: body ++ [']']).reverse ++ s.before
                rest := tail
                out := s.out ++ ('[' :: body ++ [']'])
                atom := some
                  { start := s.out.size
                    stop := (s.out ++ ('[' :: body ++ [']'])).size
                    firstGroup := s.groups.size
                    emulated := false } }) ∧
      (delimiter = some ']' ∨ Escape.occursUnescaped ']' ('[' :: s.before) more = false →
        convert options delimiter text = .error (.native .unbalancedBracket)) := by
  have place := State.place_eq_outside outside unescaped
  have followed : s.Followed := reached.holds State.Followed
    (fun move _ _ followed => move.followed followed) outside (fun _ _ => trivial)
    (ready_start text) (followed_start text)
  obtain ⟨inside, left, behind⟩ := entered_spec followed rest
  have escape : Place.inClass.isEscape = Escape.pending ('[' :: s.before) := by
    rw [Escape.pending_cons]
    rfl
  constructor
  · intro body tail parts other open_ ends
    have stays : Place.inClass.within body = true := by
      rw [Place.within_eq rfl escape, open_]
      rfl
    have stops : Place.inClass.after body = .inClass := by
      apply Place.eq_of_inside (Place.inside_after_of_within stays)
      rw [Place.isEscape_after_of escape, ends]
      rfl
    rw [parts] at rest
    obtain ⟨later, trace⟩ := trace_bracket lenient other opens place followed rest stays stops
    refine ⟨later, ?_⟩
    have word : s.rest = ('[' :: body ++ [']']) ++ tail := by simp [rest]
    have count : body.length + 2 = ('[' :: body ++ [']']).length := by simp
    rw [count, State.copy, State.skip, State.emit, State.recordAtom] at trace
    simpa only [word, List.take_left, List.drop_left] using trace
  · intro never
    rw [convert_eq_conclude, reached.conclude_eq,
      conclude_ok (by simp [rest]) (step_bracket place opens rest)]
    apply conclude_inClass lenient rfl behind
    rw [inside, left, Place.within_eq rfl escape]
    exact never.imp id fun open_ => by rw [open_]; rfl

theorem trace_class_escaped :
    (∃ later, Trace {} (some '/') ((State.start "x[(\\]+#]y".toList).copy 1) later
        { State.start [] with
          before := "x[(\\]+#]".toList.reverse
          rest := ['y']
          out := "x[(\\]+#]".toList
          atom := some ⟨1, 8, 1, false⟩ }) ∧
      convert {} (some '/') "x[(\\]+#".toList = .error (.native .unbalancedBracket) := by
  have closed : Trace {} (some '/') (.start "x[(\\]+#]y".toList) [.start "x[(\\]+#]y".toList]
      ((State.start "x[(\\]+#]y".toList).copy 1) :=
    Trace.step (by decide) rfl (Trace.done _)
  have open_ : Trace {} (some '/') (.start "x[(\\]+#".toList) [.start "x[(\\]+#".toList]
      ((State.start "x[(\\]+#".toList).copy 1) :=
    Trace.step (by decide) rfl (Trace.done _)
  constructor
  · exact (trace_class rfl closed rfl rfl rfl (by decide)).1 "(\\]+#".toList ['y'] rfl
      (by decide) rfl rfl
  · exact (trace_class rfl open_ rfl rfl rfl (by decide)).2 (Or.inr rfl)

end Conversion

end PatternDialect
