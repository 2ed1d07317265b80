import PatternDialect.Construct.Reader
import PatternDialect.Proofs.Text

/-! What is known of a text at which a construct is found. -/

namespace PatternDialect

open Character

def Repeat.isAmount (c : Char) : Bool :=
  c == '*' || c == '+' || c == '?' || c == '{' || c == '}' || c == ',' || isDigit c

namespace Quantifier

def text (q : Quantifier) : Text :=
  q.amount.text ++ (if q.lazy then ['?'] else []) ++ (if q.possessive then ['+'] else [])

@[simp] theorem length_text (q : Quantifier) : q.text.length = q.length := by
  unfold text length
  cases q.lazy <;> cases q.possessive <;> simp

end Quantifier

/-- An amount that can be read: not empty, begun by no digit, and made of the
characters of amounts. -/
structure Repeat.Legible (amount : Repeat) : Prop where
  head : ∃ c rest, amount.text = c :: rest ∧ isDigit c = false
  mark : amount.text.head? = some '?' → amount = .optional
  all : ∀ c ∈ amount.text, Repeat.isAmount c = true

theorem Repeat.takeWhile_isAmount (text : Text) :
    ∀ c ∈ text.takeWhile isDigit, Repeat.isAmount c = true := by
  intro c member
  have digit : isDigit c = true := List.all_eq_true.mp List.all_takeWhile c member
  simp [Repeat.isAmount, digit]

theorem Repeat.braces?_spec {text braces : Text} (found : Repeat.braces? text = some braces) :
    (∃ rest, '{' :: text = braces ++ rest) ∧ Legible (.counted braces) := by
  unfold Repeat.braces? at found
  have whole : text.takeWhile isDigit ++ text.dropWhile isDigit = text :=
    List.takeWhile_append_dropWhile
  have low := Repeat.takeWhile_isAmount text
  by_cases empty : (text.takeWhile isDigit).isEmpty = true
  · simp [empty] at found
  simp only [empty, Bool.false_eq_true, ↓reduceIte] at found
  split at found
  · rename_i rest dropped
    simp only [Option.some.injEq] at found
    subst found
    refine ⟨⟨rest, ?_⟩, ⟨'{', _, rfl, by decide⟩,
      fun mark => absurd mark (by simp [Repeat.text]), ?_⟩
    · rw [dropped] at whole
      calc '{' :: text = '{' :: (text.takeWhile isDigit ++ '}' :: rest) := by rw [whole]
        _ = _ := by simp
    · intro c member
      simp only [Repeat.text, List.cons_append, List.mem_cons, List.mem_append,
        List.not_mem_nil, or_false] at member
      rcases member with rfl | member | rfl
      · decide
      · exact low c member
      · decide
  · rename_i rest dropped
    split at found
    · rename_i more droppedHigh
      simp only [Option.some.injEq] at found
      subst found
      have wholeHigh : rest.takeWhile isDigit ++ rest.dropWhile isDigit = rest :=
        List.takeWhile_append_dropWhile
      have high := Repeat.takeWhile_isAmount rest
      refine ⟨⟨more, ?_⟩, ⟨'{', _, rfl, by decide⟩,
      fun mark => absurd mark (by simp [Repeat.text]), ?_⟩
      · rw [droppedHigh] at wholeHigh
        rw [dropped] at whole
        calc '{' :: text = '{' :: (text.takeWhile isDigit ++ ',' :: rest) := by rw [whole]
          _ = '{' :: (text.takeWhile isDigit ++
                ',' :: (rest.takeWhile isDigit ++ '}' :: more)) := by rw [wholeHigh]
          _ = _ := by simp
      · intro c member
        simp only [Repeat.text, List.cons_append, List.mem_cons, List.mem_append,
          List.append_assoc, List.not_mem_nil, or_false] at member
        rcases member with rfl | member | rfl | member | rfl
        · decide
        · exact low c member
        · decide
        · exact high c member
        · decide
    · contradiction
  · contradiction

theorem Quantifier.withMarks_spec (amount : Repeat) (more : Text) :
    (Quantifier.withMarks amount more).amount = amount ∧
      ∃ rest, amount.text ++ more = (Quantifier.withMarks amount more).text ++ rest := by
  unfold Quantifier.withMarks
  split
  · rename_i rest
    exact ⟨rfl, rest, by simp [Quantifier.text]⟩
  · rename_i rest
    exact ⟨rfl, rest, by simp [Quantifier.text]⟩
  · exact ⟨rfl, more, by simp [Quantifier.text]⟩

def Opener.text : Opener → Text
  | capture => ['(']
  | plain => ['(', '?', ':']
  | lookahead negative => ['(', '?', if negative then '!' else '=']
  | lookbehind negative => ['(', '?', '<', if negative then '!' else '=']
  | named => ['(', '?', '<']
  | atomic => ['(', '?', '>']
  | unknown => ['(', '?']

@[simp] theorem Opener.length_text (form : Opener) : form.text.length = form.length := by
  cases form <;> rfl

theorem Opener.take_length (more : Text) :
    ('(' :: more).take (Opener.read more).length = (Opener.read more).text := by
  unfold Opener.read
  split <;> rfl

theorem Opener.ne_of_mem_text {form : Opener} {c : Char} (member : c ∈ form.text) :
    c ≠ '\\' ∧ c ≠ ']' := by
  have plain : form.text.all (fun d => d != '\\' && d != ']') = true := by
    cases form with
    | lookahead negative => cases negative <;> decide
    | lookbehind negative => cases negative <;> decide
    | _ => decide
  simpa using List.all_eq_true.mp plain c member

namespace Construct

def Stands (delimiter : Option Char) (before text : Text) : Construct → Prop
  | .blank c => isBlank c = true ∧ ∃ more, text = c :: more
  | .openClass => ∃ more, text = '[' :: more
  | .closeClass => delimiter ≠ some ']' ∧ ∃ more, text = ']' :: more
  | .dot => ∃ more, text = '.' :: more
  | .quantifier q => q.amount.Legible ∧ ∃ more, text = q.text ++ more
  | .numberReference => ∃ d more, text = '$' :: d :: more ∧ isDigit d = true
  | .nameReference form =>
      (form = .escape → Escape.pending before = false) ∧ ∃ more, text = form.opener ++ more
  | .openGroup form => ∃ more, text = '(' :: more ∧ form = Opener.read more
  | .closeGroup => ∃ more, text = ')' :: more
  | .comment => ∃ more, text = '#' :: more
  | .escapedDigit d =>
      Escape.pending before = false ∧ isDigit d = true ∧ ∃ more, text = '\\' :: d :: more
  | .escapedLetter l =>
      Escape.pending before = false ∧ isLetter l = true ∧ ∃ more, text = '\\' :: l :: more
  | .flagsDelimiter c => delimiter = some c ∧ ∃ more, text = c :: more

theorem stands_afterDollar? {delimiter : Option Char} {before more : Text}
    {construct : Construct} (found : afterDollar? more = some construct) :
    Stands delimiter before ('$' :: more) construct := by
  unfold afterDollar? at found
  split at found
  · cases found
    exact ⟨by simp, _, rfl⟩
  · rename_i d rest _
    split at found
    · rename_i digit
      cases found
      exact ⟨d, rest, rfl, digit⟩
    · contradiction
  · contradiction

theorem stands_afterBackslash? {delimiter : Option Char} {before more : Text}
    (unescaped : Escape.pending before = false) {construct : Construct}
    (found : afterBackslash? more = some construct) :
    Stands delimiter before ('\\' :: more) construct := by
  unfold afterBackslash? at found
  split at found
  · cases found
    exact ⟨fun _ => unescaped, _, rfl⟩
  · rename_i c rest _
    split at found
    · rename_i digit
      cases found
      exact ⟨unescaped, digit, rest, rfl⟩
    · split at found
      · rename_i letter
        cases found
        exact ⟨unescaped, letter, rest, rfl⟩
      · contradiction
  · contradiction

theorem stands_quantifier (delimiter : Option Char) (before : Text) {c : Char} {more : Text}
    {amount : Repeat} (legible : amount.Legible) (rest : Text)
    (text : c :: more = amount.text ++ rest) :
    Stands delimiter before (c :: more) (.quantifier (.withMarks amount rest)) := by
  obtain ⟨same, left, written⟩ := Quantifier.withMarks_spec amount rest
  refine ⟨?_, left, ?_⟩
  · rw [same]
    exact legible
  · rw [text, written]

theorem stands_of_plain? {delimiter : Option Char} {before text : Text} {construct : Construct}
    (found : plain? before text = some construct)
    (other : text.head? ≠ delimiter ∨ delimiter = none) :
    Stands delimiter before text construct := by
  unfold plain? at found
  split at found
  · contradiction
  rename_i c more
  split at found
  · rename_i blank
    cases found
    exact ⟨blank, more, rfl⟩
  have simple : ∀ d : Char, isDigit d = false → Repeat.isAmount d = true →
      ∀ amount : Repeat, amount.text = [d] → (d = '?' → amount = .optional) →
        amount.Legible := by
    intro d noDigit isAmount amount text mark
    refine ⟨⟨d, [], text, noDigit⟩, ?_, ?_⟩
    · rw [text]
      exact fun head => mark (by simpa using head)
    intro e member
    rw [text, List.mem_singleton] at member
    rw [member]
    exact isAmount
  split at found
  · cases found
    exact ⟨more, rfl⟩
  · cases found
    refine ⟨?_, more, rfl⟩
    rcases other with other | rfl
    · exact fun equality => other equality.symm
    · simp
  · cases found
    exact ⟨more, rfl⟩
  · cases found
    exact stands_quantifier _ _ (simple '*' (by decide) (by decide) .star rfl (by decide)) more rfl
  · cases found
    exact stands_quantifier _ _ (simple '+' (by decide) (by decide) .plus rfl (by decide)) more rfl
  · cases found
    exact stands_quantifier _ _ (simple '?' (by decide) (by decide) .optional rfl (fun _ => rfl))
      more rfl
  · rw [Option.map_eq_some_iff] at found
    obtain ⟨braces, read, rfl⟩ := found
    obtain ⟨⟨rest, text⟩, legible⟩ := Repeat.braces?_spec read
    have dropped : more.drop (braces.length - 1) = rest := by
      obtain ⟨d, inner, equality, _⟩ := legible.head
      simp only [Repeat.text] at equality
      rw [equality, List.cons_append, List.cons.injEq] at text
      rw [text.2, equality]
      simp
    rw [dropped]
    exact stands_quantifier _ _ legible rest text
  · exact stands_afterDollar? found
  · cases found
    exact ⟨more, rfl, rfl⟩
  · cases found
    exact ⟨more, rfl⟩
  · cases found
    exact ⟨more, rfl⟩
  · split at found
    · contradiction
    · rename_i unescaped
      exact stands_afterBackslash? (by simpa using unescaped) found
  · contradiction

theorem at?_of_ne {delimiter : Option Char} {c : Char} (other : delimiter ≠ some c)
    (before rest : Text) : at? delimiter before (c :: rest) = plain? before (c :: rest) :=
  if_neg other

theorem stands_of_at? {delimiter : Option Char} {before text : Text} {construct : Construct}
    (found : at? delimiter before text = some construct) :
    Stands delimiter before text construct := by
  unfold at? at found
  split at found
  · contradiction
  rename_i c more
  split at found
  · rename_i equality
    cases found
    exact ⟨equality, more, rfl⟩
  · rename_i other
    apply stands_of_plain? found
    left
    intro equality
    exact other (by simpa using equality.symm)

/-- A character that starts no construct. -/
structure Idle (before : Text) (c : Char) (more : Text) : Prop where
  notBlank : isBlank c = false
  other : c ≠ '[' ∧ c ≠ ']' ∧ c ≠ '.' ∧ c ≠ '*' ∧ c ≠ '+' ∧ c ≠ '?' ∧ c ≠ '(' ∧ c ≠ ')' ∧ c ≠ '#'
  backslash : c = '\\' → Escape.pending before = false →
    more.head?.all (fun d => !isDigit d && !isLetter d) = true

theorem idle_of_at? {delimiter : Option Char} {before : Text} {c : Char} {more : Text}
    (nothing : at? delimiter before (c :: more) = none) : Idle before c more := by
  unfold at? at nothing
  simp only at nothing
  split at nothing
  · contradiction
  unfold plain? at nothing
  simp only at nothing
  split at nothing
  · contradiction
  rename_i blank
  have notBlank : isBlank c = false := by simpa using blank
  split at nothing <;> first | contradiction | skip
  · exact ⟨notBlank, by decide, fun equality => absurd equality (by decide)⟩
  · exact ⟨notBlank, by decide, fun equality => absurd equality (by decide)⟩
  · refine ⟨notBlank, by decide, ?_⟩
    intro _ unescaped
    simp only [unescaped, Bool.false_eq_true, ↓reduceIte] at nothing
    unfold afterBackslash? at nothing
    split at nothing
    · contradiction
    · rename_i d rest _
      split at nothing
      · contradiction
      · rename_i digit
        split at nothing
        · contradiction
        · rename_i letter
          simp [digit, letter]
    · rfl
  · rename_i h1 h2 h3 h4 h5 h6 h7 h8 h9 h10 h11 h12
    exact ⟨notBlank, ⟨h1, h2, h3, h4, h5, h6, h9, h10, h11⟩, fun equality => absurd equality h12⟩

def afterBrace? (text : Text) : Option Construct :=
  (Repeat.braces? text).map fun braces =>
    .quantifier (.withMarks (.counted braces) (text.drop (braces.length - 1)))

section Heads

variable (before rest : Text)

theorem plain?_blank {c : Char} (blank : isBlank c = true) :
    plain? before (c :: rest) = some (.blank c) := by
  unfold plain?
  exact if_pos blank

theorem plain?_openClass : plain? before ('[' :: rest) = some .openClass := rfl

theorem plain?_closeClass : plain? before (']' :: rest) = some .closeClass := rfl

theorem plain?_dot : plain? before ('.' :: rest) = some .dot := rfl

theorem plain?_brace : plain? before ('{' :: rest) = afterBrace? rest := rfl

theorem plain?_dollar : plain? before ('$' :: rest) = afterDollar? rest := rfl

theorem plain?_openGroup : plain? before ('(' :: rest) = some (.openGroup (.read rest)) := rfl

theorem plain?_closeGroup : plain? before (')' :: rest) = some .closeGroup := rfl

theorem plain?_comment : plain? before ('#' :: rest) = some .comment := rfl

theorem plain?_backslash :
    plain? before ('\\' :: rest) = if Escape.pending before then none else afterBackslash? rest :=
  rfl

def heads : Text := ['[', ']', '.', '*', '+', '?', '{', '$', '(', ')', '#', '\\']

theorem plain?_other {c : Char} (visible : isBlank c = false) (other : c ∉ heads) :
    plain? before (c :: rest) = none := by
  simp only [heads, List.mem_cons, List.not_mem_nil, or_false, not_or] at other
  unfold plain?
  simp only [visible]
  rw [if_neg (by decide)]
  split
  all_goals first | rfl | simp_all

theorem isDigit_head {c : Char} {construct : Construct}
    (found : plain? before (c :: rest) = some construct) : isDigit c = false := by
  cases digit : isDigit c with
  | false => rfl
  | true =>
      have visible : isBlank c = false := by
        cases blank : isBlank c with
        | false => rfl
        | true =>
            rw [isDigit_of_isBlank blank] at digit
            contradiction
      have other : c ∉ heads := by
        intro head
        simp only [heads, List.mem_cons, List.not_mem_nil, or_false] at head
        rcases head with rfl | rfl | rfl | rfl | rfl | rfl | rfl | rfl | rfl | rfl | rfl | rfl <;>
          contradiction
      rw [plain?_other _ _ visible other] at found
      contradiction

end Heads

end Construct

end PatternDialect
