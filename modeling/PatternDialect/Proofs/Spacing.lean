import PatternDialect.Proofs.Gaps
import PatternDialect.Proofs.Progress
import PatternDialect.Proofs.Tokens

/-! Blanks and comments.

It does not matter how many blanks stand in a gap or which ones they are.  A comment
counts as the blank that ends it, unless a rule for blanks looks across it. -/

namespace PatternDialect

open Character

theorem Text.firstSignificant?_blanks {gap : Text} (blanks : ∀ c ∈ gap, isBlank c = true)
    (front back : Text) :
    Text.firstSignificant? (front ++ (gap ++ back)) = Text.firstSignificant? (front ++ back) := by
  have skipped : gap.find? (!isBlank ·) = none := by simpa using blanks
  simp only [Text.firstSignificant?, List.find?_append, skipped, Option.none_or]

theorem Text.firstSignificant?_cases (front : Text) :
    (∃ c, front ≠ [] ∧ ∀ back, Text.firstSignificant? (front ++ back) = some c) ∨
      ∀ c ∈ front, isBlank c = true := by
  cases found : Text.firstSignificant? front with
  | none => exact Or.inr (by simpa [Text.firstSignificant?] using found)
  | some c =>
      refine Or.inl ⟨c, ?_, fun back => ?_⟩
      · rintro rfl
        contradiction
      · rw [Text.firstSignificant?, List.find?_append, ← Text.firstSignificant?, found]
        rfl

theorem Escape.pending_blank {c : Char} (blank : isBlank c = true) (before : Text) :
    Escape.pending (c :: before) = false := by
  have other : c ≠ '\\' := by
    rintro rfl
    exact absurd blank (by decide)
  rw [Escape.pending_cons, beq_eq_false_iff_ne.mpr other, Bool.false_and]

theorem Escape.pending_blanks {gap : Text} (nonempty : gap ≠ [])
    (blanks : ∀ c ∈ gap, isBlank c = true) (before : Text) :
    Escape.pending (gap.reverse ++ before) = false := by
  cases last : gap.reverse with
  | nil => exact absurd (List.reverse_eq_nil_iff.mp last) nonempty
  | cons c front =>
      have member : c ∈ gap := List.mem_reverse.mp (by simp [last])
      exact Escape.pending_blank (blanks c member) (front ++ before)

namespace Conversion

variable {options : Options} {s target : State} {states : List State} {tail other gap more : Text}
  {c : Char}

theorem Trace.parallel (gap : Gap options tail other) {first : State}
    (trace : Trace options none first states target) (arrives : target.rest = tail)
    (begins : first = s.extend tail)
    (alike : ∀ (t : State) (later : List State), Trace options none (t.extend tail) later target →
      t.inClass = false → t.escaped = false → ∀ construct, t.next? none = some construct →
        t.LooksAlike tail other construct) :
    ∃ short : State, target = short.extend tail ∧ short.rest = [] ∧
      conclude options none (s.extend other) = conclude options none (short.extend other) := by
  induction trace generalizing s with
  | done first =>
      have whole : s.rest ++ tail = tail := by
        rw [begins] at arrives
        exact arrives
      exact ⟨s, begins, by simpa using whole, rfl⟩
  | step nonempty ok rest ih =>
      subst begins
      have far := rest.length_le
      rw [arrives] at far
      have filled : s.rest ≠ [] := by
        intro empty
        have shorter := State.length_rest_step nonempty ok
        simp only [State.rest_extend, empty, List.nil_append] at shorter
        omega
      obtain ⟨t, here, there⟩ := State.step_parallel gap filled
        (fun class_ escape => alike s _ (.step nonempty ok rest) class_ escape) ok far
      obtain rfl := Except.ok.inj (ok.symm.trans here)
      obtain ⟨short, reached, empty, same⟩ := ih arrives rfl alike
      exact ⟨short, reached, empty, (conclude_ok (by simp [filled]) there).trans same⟩

namespace State

theorem escaped_skip_blank (rest : s.rest = c :: more) (blank : isBlank c = true) :
    (s.skip 1).escaped = false := by
  rw [escaped_skip, rest]
  exact Escape.pending_blank blank s.before

theorem step_outer_blank (outside : s.inClass = false) (unescaped : s.escaped = false)
    (rest : s.rest = c :: more) (blank : isBlank c = true) :
    s.step options none =
      .ok (if s.parts more then (s.skip 1).emit separator else s.skip 1) := by
  rw [step, next?_plain rest (by simp), Construct.plain?_blank _ _ blank]
  have behind : (s.skip 1).rest = more := by simp [rest]
  simp only [read, State.blank, outside, unescaped, Bool.false_eq_true, ↓reduceIte,
    dropBlank, behind]
  rfl

theorem parts_blanks (blanks : ∀ c ∈ gap, isBlank c = true) (more : Text) :
    s.parts (gap ++ more) = s.parts more := by
  have across := Text.firstSignificant?_blanks blanks [] more
  simp only [List.nil_append] at across
  rw [parts, across, parts]

theorem continuesBody_separator (next : Char) (body : Text) :
    continuesBody next (body ++ separator) = false := by
  have closed : ∀ rest : Text, (rest ++ separator).all isHexDigit = false := by
    intro rest
    simp [separator, show isHexDigit '(' = false by decide]
  cases body with
  | nil => rfl
  | cons k rest =>
      rw [List.cons_append]
      unfold continuesBody
      split
      · rename_i equality
        rw [← (List.cons.inj equality).2]
        simp [separator]
      · rename_i equality
        rw [← (List.cons.inj equality).2, closed]
        simp
      · rename_i equality
        cases rest with
        | nil => exact absurd (List.cons.inj equality).2 (by simp [separator])
        | cons d rest =>
            rw [← (List.cons.inj (List.cons.inj equality).2).2]
            exact Bool.and_eq_false_imp.mpr fun all =>
              absurd (all.symm.trans (closed rest)) (by decide)
      · rename_i equality
        rw [← (List.cons.inj equality).2, closed]
        simp
      · rfl

theorem parts_separator (s : State) (after : Text) : (s.emit separator).parts after = false := by
  have last : (s.emit separator).out.reverse = separator.reverse ++ s.out.reverse := by simp
  have braces : (s.emit separator).inOpenBraces = false := by
    rw [inOpenBraces, last]
    rfl
  have escapes : ∀ next, (s.emit separator).continuesEscape next = false := by
    intro next
    have body : ((s.emit separator).out.reverse.takeWhile (· != '\\')).reverse =
        (s.out.reverse.takeWhile (· != '\\')).reverse ++ separator := by
      rw [last, List.takeWhile_append_of_pos (by simp [separator]), List.reverse_append,
        List.reverse_reverse]
    unfold continuesEscape
    split
    · rw [body, continuesBody_separator, Bool.and_false]
    · rfl
  rw [parts, braces, Bool.false_or]
  cases Text.firstSignificant? after with
  | none => rfl
  | some next => exact escapes next

end State

theorem conclude_idle_blanks (blanks : ∀ c ∈ gap, isBlank c = true) (outside : s.inClass = false)
    (unescaped : s.escaped = false) (rest : s.rest = gap ++ more) (idle : s.parts more = false) :
    conclude options none s = conclude options none (s.skip gap.length) := by
  induction gap generalizing s with
  | nil => simp
  | cons c gap ih =>
      obtain ⟨blank, blanks⟩ := List.forall_mem_cons.mp blanks
      have stepped : s.step options none = _ :=
        State.step_outer_blank outside unescaped rest blank
      rw [List.append_eq, State.parts_blanks blanks, idle, if_neg (by decide)] at stepped
      rw [conclude_ok (by simp [rest]) stepped,
        ih (s := s.skip 1) blanks outside (State.escaped_skip_blank rest blank)
          (by simp [rest]) idle, State.skip_skip, Nat.add_comm]
      rfl

theorem conclude_blanks (nonempty : gap ≠ []) (blanks : ∀ c ∈ gap, isBlank c = true)
    (outside : s.inClass = false) (unescaped : s.escaped = false) (rest : s.rest = gap ++ more) :
    conclude options none s = conclude options none
      ((s.emit (if s.parts more then separator else [])).skip gap.length) := by
  cases parted : s.parts more with
  | false =>
      rw [conclude_idle_blanks blanks outside unescaped rest parted]
      simp
  | true =>
      cases gap with
      | nil => exact absurd rfl nonempty
      | cons c gap =>
          obtain ⟨blank, blanks⟩ := List.forall_mem_cons.mp blanks
          have stepped : s.step options none = _ :=
            State.step_outer_blank outside unescaped rest blank
          rw [List.append_eq, State.parts_blanks blanks, parted, if_pos rfl] at stepped
          have behind : ((s.skip 1).emit separator).rest = gap ++ more := by
            simp [rest]
          -- One separator is enough: the blanks behind it keep nothing apart.
          rw [conclude_ok (by simp [rest]) stepped,
            conclude_idle_blanks (s := (s.skip 1).emit separator) blanks outside
              (State.escaped_skip_blank rest blank) behind (State.parts_separator _ _), if_pos rfl,
            List.length_cons, Nat.add_comm, ← State.skip_skip]
          rfl

theorem conclude_behind {first second : Text} (empty : s.rest = [])
    (same : Escape.pending (first.reverse ++ s.before) =
      Escape.pending (second.reverse ++ s.before)) :
    conclude options none ((s.extend (first ++ more)).skip first.length) =
      conclude options none ((s.extend (second ++ more)).skip second.length) := by
  have behind (gap : Text) : (s.extend (gap ++ more)).skip gap.length =
      { s with before := gap.reverse ++ s.before, rest := more } := by
    simp [State.extend, State.skip, empty]
  rw [behind, behind]
  exact conclude_level (.mk _ same)

theorem conclude_respaced {first second : Text} (filled : first ≠ []) (filled' : second ≠ [])
    (blanks : ∀ c ∈ first, isBlank c = true) (blanks' : ∀ c ∈ second, isBlank c = true)
    (outside : s.inClass = false) (unescaped : s.escaped = false) (empty : s.rest = []) :
    conclude options none (s.extend (first ++ more)) =
      conclude options none (s.extend (second ++ more)) := by
  have same : Escape.pending (first.reverse ++ s.before) =
      Escape.pending (second.reverse ++ s.before) := by
    rw [Escape.pending_blanks filled blanks, Escape.pending_blanks filled' blanks']
  have rest (gap : Text) : (s.extend (gap ++ more)).rest = gap ++ more := by simp [empty]
  rw [conclude_blanks (s := s.extend _) filled blanks outside unescaped (rest first),
    conclude_blanks (s := s.extend _) filled' blanks' outside unescaped (rest second)]
  exact conclude_behind (s := s.emit (if s.parts more then separator else [])) empty same

theorem gap_of_blanks {first second : Text} (filled : first ≠ []) (filled' : second ≠ [])
    (blanks : ∀ c ∈ first, isBlank c = true) (blanks' : ∀ c ∈ second, isBlank c = true) :
    Gap options (first ++ more) (second ++ more) := by
  have head : ∀ gap : Text, gap ≠ [] → (∀ c ∈ gap, isBlank c = true) →
      (gap ++ more).head?.any isBreak = true := by
    intro gap filled blanks
    cases gap with
    | nil => exact absurd rfl filled
    | cons c rest => simp [isBreak, blanks c (by simp)]
  have brace : ∀ gap : Text, (∀ c ∈ gap, isBlank c = true) → ('}' ∈ gap ++ more ↔ '}' ∈ more) := by
    intro gap blanks
    have other : '}' ∉ gap := fun member => absurd (blanks _ member) (by decide)
    simp [other]
  exact ⟨head first filled blanks, head second filled' blanks',
    fun _ => (brace first blanks).trans (brace second blanks').symm⟩

theorem convert_respaced {u v gap : Text} {w : Char} (blank : isBlank w = true)
    (nonempty : gap ≠ []) (blanks : ∀ c ∈ gap, isBlank c = true) {s : State}
    (reached : s ∈ visited options none (u ++ w :: v).length (.start (u ++ w :: v)))
    (position : s.position = u.size) (outside : s.inClass = false) (unescaped : s.escaped = false) :
    convert options none (u ++ w :: v) = convert options none (u ++ (gap ++ v)) := by
  obtain ⟨_, rest⟩ := rest_of_visited reached position
  obtain ⟨⟨states, trace⟩, _⟩ := trace_of_visited reached
  have single : ∀ c ∈ [w], isBlank c = true := by simpa using blank
  have breaks : Gap options (w :: v) (gap ++ v) := gap_of_blanks (by simp) nonempty single blanks
  have first (front : Text) : Text.firstSignificant? (front ++ w :: v) =
      Text.firstSignificant? (front ++ (gap ++ v)) :=
    (Text.firstSignificant?_blanks single front v).trans
      (Text.firstSignificant?_blanks blanks front v).symm
  have head (front : Text) : (front ++ w :: v).head?.any isBlank =
      (front ++ (gap ++ v)).head?.any isBlank := by
    cases front with
    | cons c front => rfl
    | nil =>
        cases gap with
        | nil => exact absurd rfl nonempty
        | cons c gap => simp [blank, blanks c (by simp)]
  obtain ⟨short, rfl, empty, same⟩ := trace.parallel (s := .start u) breaks rest rfl
    fun t later _ _ _ construct _ => by
      cases construct with
      | blank c =>
          unfold State.LooksAlike
          rw [State.parts, State.parts, first]
      | openGroup form =>
          cases form with
          | capture =>
              unfold State.LooksAlike
              rw [first]
          | _ => trivial
      | escapedDigit digit =>
          intro _
          rw [State.joins, State.joins, head, first]
      | _ => trivial
  calc convert options none (u ++ w :: v)
    _ = conclude options none (short.extend ([w] ++ v)) := trace.conclude_eq
    _ = conclude options none (short.extend (gap ++ v)) :=
        conclude_respaced (by simp) nonempty single blanks outside unescaped empty
    _ = convert options none (u ++ (gap ++ v)) := same.symm

theorem convert_respaced_escape :
    convert {} none "\\x4 1".toList = convert {} none "\\x4\n\t1".toList ∧
      convert {} none "\\x4 1".toList = .ok ⟨"\\x4(?:)1".toList, {}, none⟩ := by
  refine ⟨?_, by decide +kernel⟩
  exact @convert_respaced {} "\\x4".toList "1".toList "\n\t".toList ' ' (by decide) (by decide)
    (List.all_eq_true.mp (by decide))
    { before := "4x\\".toList, rest := " 1".toList, out := "\\x4".toList }
    (by decide +kernel) (by decide) rfl (by decide)

/-! ### Comments -/

/-- Whether a text ends in a construct that looks past blanks for the next character. -/
def looksFor (text : Text) (next : Char) : Bool :=
  match text.reverse.dropWhile isBlank with
  | '(' :: before => next == '?' && !Escape.pending before
  | '0' :: '\\' :: before => isDigit next && !Escape.pending before
  | _ => false

theorem Trace.out_blanks {first : State} (trace : Trace options none first states target)
    (arrives : target.rest = tail) (begins : first = s.extend tail)
    (blanks : ∀ c ∈ s.rest, isBlank c = true) (outside : s.inClass = false)
    (unescaped : s.escaped = false) (idle : s.parts tail = false) : target.out = s.out := by
  induction trace generalizing s with
  | done first =>
      rw [begins]
      rfl
  | step nonempty ok rest ih =>
      subst begins
      cases left : s.rest with
      | nil =>
          have shorter := State.length_rest_step nonempty ok
          have far := rest.length_le
          rw [State.rest_extend, left, List.nil_append] at shorter
          rw [arrives] at far
          omega
      | cons c more =>
          rw [left] at blanks
          obtain ⟨blank, blanks⟩ := List.forall_mem_cons.mp blanks
          have longer : (s.extend tail).rest = c :: (more ++ tail) := by simp [left]
          have stepped : (s.extend tail).step options none = _ :=
            State.step_outer_blank (s := s.extend tail) outside unescaped longer blank
          have quiet : (s.extend tail).parts (more ++ tail) = false :=
            (State.parts_blanks blanks tail).trans idle
          rw [quiet, if_neg (by decide), State.skip_extend _ _ (by simp [left])] at stepped
          obtain rfl := Except.ok.inj (ok.symm.trans stepped)
          exact ih (s := s.skip 1) arrives rfl (by simpa [left] using blanks) outside
            (State.escaped_skip_blank left blank) idle

theorem looksFor_parenthesis {before front : Text} (blanks : ∀ c ∈ front, isBlank c = true)
    (unescaped : Escape.pending before = false) (next : Char) :
    looksFor (before.reverse ++ '(' :: front) next = (next == '?') := by
  have parts : (before.reverse ++ '(' :: front).reverse = front.reverse ++ '(' :: before := by simp
  rw [looksFor, parts, List.dropWhile_append_of_pos (by simpa using blanks)]
  simp [unescaped, show isBlank '(' = false by decide]

theorem looksFor_zero {before front : Text} (blanks : ∀ c ∈ front, isBlank c = true)
    (unescaped : Escape.pending before = false) (next : Char) :
    looksFor (before.reverse ++ '\\' :: '0' :: front) next = isDigit next := by
  have parts : (before.reverse ++ '\\' :: '0' :: front).reverse =
      front.reverse ++ '0' :: '\\' :: before := by simp
  rw [looksFor, parts, List.dropWhile_append_of_pos (by simpa using blanks)]
  simp [unescaped, show isBlank '0' = false by decide]

namespace State

theorem parts_of_out {t : State} (same : s.out = t.out) (after : Text) :
    s.parts after = t.parts after := by
  have escapes : s.continuesEscape = t.continuesEscape := by
    funext next
    rw [continuesEscape, same, continuesEscape]
  rw [parts, inOpenBraces, same, escapes, parts, inOpenBraces]

theorem continuesEscape_comment (s : State) : s.continuesEscape '#' = false := by
  unfold continuesEscape
  split
  · have stops : ∀ body, continuesBody '#' body = false := by
      intro body
      unfold continuesBody
      split <;> simp [show isLetter '#' = false by decide, show isHexDigit '#' = false by decide]
    rw [stops, Bool.and_false]
  · rfl

theorem parts_comment (s : State) (more : Text) : s.parts ('#' :: more) = s.inOpenBraces := by
  have first : Text.firstSignificant? ('#' :: more) = some '#' := rfl
  rw [parts, first, Option.any_some, continuesEscape_comment, Bool.or_false]

theorem looksAlike_comment {construct : Construct} {body v : Text} {e : Char}
    (ends : isBlank e = true) (unescaped : s.escaped = false)
    (found : s.next? none = some construct)
    (apart : (∀ c ∈ s.rest, isBlank c = true) → s.inOpenBraces = false → s.parts v = false)
    (closed : (Text.firstSignificant? v).any (looksFor (s.before.reverse ++ s.rest)) = false) :
    s.LooksAlike ('#' :: body ++ e :: v) (e :: v) construct := by
  have stands := Construct.stands_of_at? found
  have single : ∀ c ∈ [e], isBlank c = true := by simpa using ends
  have beyond {front : Text} (blanks : ∀ c ∈ front, isBlank c = true) (more : Text) :
      Text.firstSignificant? (front ++ more) = Text.firstSignificant? more :=
    Text.firstSignificant?_blanks blanks [] more
  have line : Text.firstSignificant? (e :: v) = Text.firstSignificant? v := beyond single v
  cases construct with
  | blank c =>
      obtain ⟨blank, more, rest⟩ := stands
      unfold LooksAlike
      rw [rest, List.drop_succ_cons, List.drop_zero]
      rcases Text.firstSignificant?_cases more with ⟨d, _, first⟩ | blanks
      · rw [parts, parts, first, first]
      · rw [parts_blanks blanks, parts_blanks blanks, List.cons_append, parts_comment, parts, line]
        cases braces : s.inOpenBraces with
        | true => rfl
        | false =>
            have quiet := apart (by rw [rest]; exact List.forall_mem_cons.mpr ⟨blank, blanks⟩)
                braces
            rw [parts, braces] at quiet
            exact quiet.symm
  | openGroup form =>
      cases form with
      | capture =>
          obtain ⟨more, rest, _⟩ := stands
          unfold LooksAlike
          rw [rest, List.drop_succ_cons, List.drop_zero]
          rcases Text.firstSignificant?_cases more with ⟨d, _, first⟩ | blanks
          · rw [first, first]
          · rw [beyond blanks, beyond blanks, line]
            refine ⟨fun mark => absurd (Option.some.inj (mark : some '#' = some '?')) (by decide),
              fun mark => ?_⟩
            rw [mark, rest, Option.any_some, looksFor_parenthesis blanks unescaped] at closed
            contradiction
      | _ => trivial
  | escapedDigit digit =>
      rintro rfl
      obtain ⟨_, _, more, rest⟩ := stands
      rw [rest, List.drop_succ_cons, List.drop_succ_cons, List.drop_zero, joins, joins]
      rcases Text.firstSignificant?_cases more with ⟨d, filled, first⟩ | blanks
      · cases more with
        | nil => exact absurd rfl filled
        | cons c more =>
            rw [first, first]
            rfl
      · have quiet : (Text.firstSignificant? v).any isDigit = false := by
          cases next : Text.firstSignificant? v with
          | none => rfl
          | some d =>
              rw [next, rest, Option.any_some, looksFor_zero blanks unescaped] at closed
              exact closed
        rw [beyond blanks, beyond blanks, line, quiet, Bool.and_false]
        exact Bool.and_false _
  | _ => trivial

end State

theorem isBlank_of_isLineEnd {c : Char} (ends : isLineEnd c = true) : isBlank c = true := by
  simp only [isLineEnd, Bool.or_eq_true, beq_iff_eq] at ends
  rcases ends with ((rfl | rfl) | rfl) | rfl <;> decide

theorem conclude_commented {body : Text} {e : Char} (inner : ∀ c ∈ body, isLineEnd c = false)
    (ends : isLineEnd e = true) (outside : s.inClass = false) (unescaped : s.escaped = false)
    (empty : s.rest = []) (idle : s.parts more = false) :
    conclude options none (s.extend ('#' :: body ++ e :: more)) =
      conclude options none (s.extend (e :: more)) := by
  have blank := isBlank_of_isLineEnd ends
  have outer : (s.extend ('#' :: body ++ e :: more)).place = .outside :=
    State.place_eq_outside outside unescaped
  have line : (s.extend ('#' :: body ++ e :: more)).rest = '#' :: (body ++ e :: more) := by
    simp [empty]
  have length : State.commentLength ('#' :: (body ++ e :: more)) = body.length + 2 :=
    State.commentLength_line inner ends more
  have stepped : (s.extend ('#' :: body ++ e :: more)).step options none =
      .ok ((s.extend ('#' :: body ++ e :: more)).skip (body.length + 2)) := by
    rw [step_comment outer line, line, length]
  have parts : '#' :: body ++ e :: more = ('#' :: body ++ [e]) ++ more := by simp
  have count : body.length + 2 = ('#' :: body ++ [e]).length := by simp
  have same : Escape.pending (('#' :: body ++ [e]).reverse ++ s.before) =
      Escape.pending ([e].reverse ++ s.before) := by
    rw [List.reverse_append]
    exact (Escape.pending_blank blank _).trans (Escape.pending_blank blank _).symm
  have single : ∀ c ∈ [e], isBlank c = true := by simpa using blank
  have rest : (s.extend (e :: more)).rest = [e] ++ more := by simp [empty]
  rw [conclude_ok (by simp) stepped, parts, count, conclude_behind empty same,
    conclude_idle_blanks (s := s.extend (e :: more)) single outside unescaped rest idle]
  rfl

/-- A comment counts as the line end behind it where that line end keeps nothing apart, what
stands before does not look past it for what follows, and a closing brace in the comment is
not the last one of the text. -/
theorem convert_commented {u body v : Text} {e : Char} (inner : ∀ c ∈ body, isLineEnd c = false)
    (ends : isLineEnd e = true) {s : State}
    (reached : s ∈ visited options none (u ++ ('#' :: body ++ e :: v)).length
      (.start (u ++ ('#' :: body ++ e :: v))))
    (position : s.position = u.size) (outside : s.inClass = false) (unescaped : s.escaped = false)
    (apart : s.parts v = false) (closed : (Text.firstSignificant? v).any (looksFor u) = false)
    (braces : options.extra = true → '}' ∈ body → '}' ∈ v) :
    convert options none (u ++ ('#' :: body ++ e :: v)) = convert options none (u ++ e :: v) := by
  have blank := isBlank_of_isLineEnd ends
  obtain ⟨before, rest⟩ := rest_of_visited reached position
  obtain ⟨⟨states, trace⟩, _⟩ := trace_of_visited reached
  have breaks : Gap options ('#' :: body ++ e :: v) (e :: v) := by
    refine ⟨by simp [isBreak], by simp [isBreak, blank], fun extra => ?_⟩
    have inside := braces extra
    have other : '}' ≠ '#' := by decide
    simp only [List.cons_append, List.mem_cons, List.mem_append, other, false_or]
    exact ⟨fun member => member.elim (fun held => Or.inr (inside held)) id, Or.inr⟩
  obtain ⟨short, rfl, empty, same⟩ := trace.parallel (s := .start u) breaks rest rfl
    fun t later onward class_ escape construct found => by
      have whole : u = t.before.reverse ++ t.rest := by
        have text : s.before.reverse ++ s.rest = t.before.reverse ++ (t.rest ++ _) := onward.text_eq
        rw [before, rest, List.reverse_reverse, ← List.append_assoc t.before.reverse] at text
        exact List.append_cancel_right text
      refine State.looksAlike_comment blank escape found (fun blanks open_ => ?_) (whole ▸ closed)
      -- Only blanks are left of the first part, so nothing is emitted before the comment.
      have out : s.out = t.out := onward.out_blanks rest rfl blanks class_ escape
        (by rw [List.cons_append, State.parts_comment, open_])
      rw [← State.parts_of_out out, apart]
  calc convert options none (u ++ ('#' :: body ++ e :: v))
    _ = conclude options none (short.extend ('#' :: body ++ e :: v)) := trace.conclude_eq
    _ = conclude options none (short.extend (e :: v)) :=
        conclude_commented inner ends outside unescaped empty apart
    _ = convert options none (u ++ e :: v) := same.symm

theorem convert_commented_group :
    convert {} none "(a#b\n\x7d)".toList = convert {} none "(a\n\x7d)".toList ∧
      convert {} none "(a\n\x7d)".toList = .ok ⟨"(a\x7d)".toList, ⟨[.anonymous]⟩, none⟩ := by
  refine ⟨?_, by decide +kernel⟩
  exact @convert_commented {} "(a".toList "b".toList "\x7d)".toList '\n'
    (List.forall_mem_singleton.mpr rfl) (by decide)
    { before := "a(".toList, rest := "#b\n\x7d)".toList, out := "(a".toList,
      groups := ⟨[.anonymous]⟩, frames := [⟨.capture 1, 0, 1⟩] }
    (by decide +kernel) (by decide) rfl (by decide) (by decide) (by decide) (by decide)

-- Behind an unfinished escape sequence a comment lets the next character join.
example : convert {} none "\\x4#c\n1".toList = .ok ⟨"\\x41".toList, {}, none⟩ ∧
    convert {} none "\\x4\n1".toList = .ok ⟨"\\x4(?:)1".toList, {}, none⟩ := by
  decide +kernel

end Conversion

end PatternDialect
