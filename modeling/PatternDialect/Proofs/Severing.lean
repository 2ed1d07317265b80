import PatternDialect.Proofs.Tails

/-! A text cut off before a character that no construct goes on with.

A step that ends before the cut is the same step without what is cut off; before a
slash every step is. -/

namespace PatternDialect.Conversion

open Character

namespace State

variable {options : Options} {delimiter : Option Char} {s next : State}

theorem passed_extend {tail : Text} (filled : 1 ≤ s.rest.length)
    (delimiter : Option Char) (c : Char) :
    (s.extend tail).passed delimiter c = (s.passed delimiter c).extend tail := by
  refine ite_extend Iff.rfl (fun _ => copy_extend _ _ filled) (fun _ => ?_)
  exact ite_extend Iff.rfl (fun _ => dropEscape_copy_extend filled)
    (fun _ => copyPlain_extend filled)

/-- A character that no name of a letter, number or escape goes on with. -/
structure Foreign (d : Char) : Prop where
  visible : isBlank d = false
  notLetter : isLetter d = false
  notDigit : isDigit d = false

theorem isLetter_or_isDigit_of_isHexDigit {c : Char} (hex : isHexDigit c = true) :
    isLetter c = true ∨ isDigit c = true := by
  simp only [isHexDigit, isLetter, Bool.or_eq_true, Bool.and_eq_true, decide_eq_true_eq] at hex ⊢
  rcases hex with (digit | lower) | upper
  · exact Or.inr digit
  · exact Or.inl (Or.inl ⟨lower.1, Char.le_trans lower.2 (by decide)⟩)
  · exact Or.inl (Or.inr ⟨upper.1, Char.le_trans upper.2 (by decide)⟩)

theorem Foreign.notHexDigit {d : Char} (foreign : Foreign d) : isHexDigit d = false := by
  by_contra hex
  rcases isLetter_or_isDigit_of_isHexDigit (Bool.not_eq_false _ ▸ hex) with letter | digit
  · rw [foreign.notLetter] at letter
    contradiction
  · rw [foreign.notDigit] at digit
    contradiction

theorem isSpecial_of_isHexDigit {c : Char} (hex : isHexDigit c = true) : isSpecial c = false := by
  cases special : isSpecial c with
  | false => rfl
  | true =>
      simp only [isSpecial, List.contains_eq_mem, List.mem_cons, List.not_mem_nil, or_false,
        decide_eq_true_eq] at special
      rcases special with rfl | rfl | rfl | rfl | rfl | rfl | rfl | rfl | rfl | rfl | rfl | rfl <;>
        contradiction

theorem continuesBody_foreign {d : Char} (foreign : Foreign d) {body : Text}
    (continues : continuesBody d body = true) :
    ∃ hex, body = 'u' :: '{' :: hex ∧ ∀ c ∈ hex, isHexDigit c = true := by
  unfold continuesBody at continues
  split at continues
  · simp [foreign.notLetter] at continues
  · simp [foreign.notHexDigit] at continues
  · rename_i hex
    rw [Bool.and_eq_true, List.all_eq_true] at continues
    exact ⟨hex, rfl, continues.1⟩
  · simp [foreign.notHexDigit] at continues
  · contradiction

theorem inOpenBraces_of_continuesEscape {d : Char} (foreign : Foreign d)
    (continues : s.continuesEscape d = true) : s.inOpenBraces = true := by
  unfold continuesEscape at continues
  split at continues
  · rename_i before dropped
    rw [Bool.and_eq_true] at continues
    obtain ⟨hex, body, all⟩ := continuesBody_foreign foreign continues.2
    have taken : s.out.reverse.takeWhile (· != '\\') = hex.reverse ++ ['{', 'u'] := by
      rw [← List.reverse_reverse (s.out.reverse.takeWhile _), body]
      simp
    have parts : hex.reverse ++ '{' :: 'u' :: s.out.reverse.dropWhile (· != '\\') =
        s.out.reverse := by
      have whole : s.out.reverse.takeWhile (· != '\\') ++ s.out.reverse.dropWhile (· != '\\') =
        s.out.reverse := List.takeWhile_append_dropWhile
      rw [taken] at whole
      simpa using whole
    have ordinary : ∀ c ∈ hex.reverse, (!isSpecial c) = true := by
      intro c member
      rw [isSpecial_of_isHexDigit (all c (List.mem_reverse.mp member))]
      rfl
    unfold inOpenBraces
    rw [← parts, Text.dropWhile_before ordinary (by decide)]
    simp [Escape.pending_cons]
  · contradiction

section Foreign

variable {d : Char} (foreign : Foreign d) (more : Text)

include foreign

theorem Foreign.any_firstSignificant (text : Text) {p : Char → Bool} (fails : p d = false) :
    (Text.firstSignificant? (text ++ d :: more)).any p = (Text.firstSignificant? text).any p := by
  rw [Text.firstSignificant?_cut foreign.visible]
  cases Text.firstSignificant? text with
  | none => simpa using fails
  | some c => rfl

theorem Foreign.sees_blank (s : State) (options : Options) (c : Char) :
    s.Sees options (d :: more) (.blank c) := by
  cases continues : s.continuesEscape d with
  | true => exact Or.inl (inOpenBraces_of_continuesEscape foreign continues)
  | false => exact Or.inr (foreign.any_firstSignificant more _ continues)

theorem Foreign.sees_numberReference (s : State) (options : Options) :
    s.Sees options (d :: more) .numberReference := Text.digits_cut foreign.notDigit _ more

theorem Foreign.sees_escapedDigit (s : State) (options : Options) (digit : Char) :
    s.Sees options (d :: more) (.escapedDigit digit) := by
  refine ⟨Text.digits_cut foreign.notDigit _ more, ?_⟩
  rw [foreign.any_firstSignificant more _ foreign.notDigit]
  cases s.rest.drop 2 with
  | nil => simp [foreign.visible, Text.firstSignificant?]
  | cons c rest => rfl

end Foreign

theorem startsWithHex_cut {d : Char} (stops : isHexDigit d = false) (more : Text) (count : Nat)
    (text : Text) : startsWithHex count (text ++ d :: more) = startsWithHex count text := by
  unfold State.startsWithHex
  by_cases enough : count ≤ text.length
  · rw [List.take_append_of_le_length enough]
  · obtain ⟨excess, length⟩ : ∃ excess, count - text.length = excess + 1 :=
      ⟨count - text.length - 1, by omega⟩
    have short : (text.take count).length ≠ count := by
      rw [List.length_take]
      omega
    rw [beq_eq_false_iff_ne.mpr short, List.take_append, length]
    simp [stops]

def isWide (letter : Char) (after : Text) : Bool :=
  (letter == 'u' && (bracedHex? after).any fun hex => hex.length == 4 || hex.length == 5) ||
    ((letter == 'p' || letter == 'P') && after.head? == some '{' && after.contains '}')

theorem toBool_checkEscape (unicode : Bool) (letter : Char) (after : Text) :
    (checkEscape unicode letter after).toBool =
      (isKnownEscape letter || (letter == 'c' && after.head?.any isLetter) ||
        (letter == 'x' && startsWithHex 2 after) || (letter == 'u' && startsWithHex 4 after) ||
          (isWide letter after && unicode)) := by
  unfold checkEscape isWide
  generalize isKnownEscape letter = known
  generalize (letter == 'c' && after.head?.any isLetter) = control
  generalize (letter == 'x' && startsWithHex 2 after) = byte
  generalize (letter == 'u' && startsWithHex 4 after) = unit
  generalize ((letter == 'u' && _) || _) = wide
  cases known <;> cases control <;> cases byte <;> cases unit <;> cases wide <;>
    cases unicode <;> rfl

theorem Foreign.admits_cut {d : Char} (foreign : Foreign d) {letter : Char} {after more : Text}
    (wide : options.extra = true → options.unicode = true →
      isWide letter (after ++ d :: more) = isWide letter after) :
    admits options letter (after ++ d :: more) = admits options letter after := by
  have head : (after ++ d :: more).head?.any isLetter = after.head?.any isLetter := by
    cases after with
    | nil => simp [foreign.notLetter]
    | cons c rest => rfl
  unfold admits
  rw [toBool_checkEscape, toBool_checkEscape, head, startsWithHex_cut foreign.notHexDigit,
    startsWithHex_cut foreign.notHexDigit]
  cases extra : options.extra with
  | false => rfl
  | true =>
      cases unicode : options.unicode with
      | false => simp
      | true => rw [wide extra unicode]

def bracedDigits (text : Text) : Text := (bracedHex? text).getD []

theorem bracedLength_eq (text : Text) :
    bracedLength text =
      if bracedDigits text = [] then 0 else (bracedDigits text).length + 2 := by
  unfold bracedLength bracedDigits
  cases bracedHex? text with
  | none => rfl
  | some digits => cases digits <;> rfl

theorem any_bracedHex? (text : Text) :
    ((bracedHex? text).any fun hex => hex.length == 4 || hex.length == 5) =
      ((bracedDigits text).length == 4 || (bracedDigits text).length == 5) := by
  unfold bracedDigits
  cases bracedHex? text <;> rfl

theorem bracedDigits_cut {text tail : Text} (short : bracedLength (text ++ tail) ≤ text.length) :
    bracedDigits (text ++ tail) = bracedDigits text := by
  rw [bracedLength_eq] at short
  unfold bracedDigits at short ⊢
  cases found : bracedHex? (text ++ tail) with
  | none =>
      cases inner : bracedHex? text with
      | none => rfl
      | some digits =>
          rw [finds_bracedHex.append inner] at found
          contradiction
  | some digits =>
      cases digits with
      | cons c digits =>
          rw [found] at short
          rw [finds_bracedHex.cut found (by simp at short ⊢; omega)]
      | nil =>
          cases inner : bracedHex? text with
          | none => rfl
          | some digits =>
              rw [finds_bracedHex.append inner] at found
              cases found
              rfl

theorem bracedLength_cut {text tail : Text} (short : bracedLength (text ++ tail) ≤ text.length) :
    bracedLength (text ++ tail) = bracedLength text := by
  rw [bracedLength_eq, bracedLength_eq, bracedDigits_cut short]

/-- Whether every property is closed before the end, in a text that follows the given
reversed text.  The character behind the end may still open one. -/
def closesProperties (behind : Char) : Text → Text → Bool
  | _, [] => true
  | before, c :: rest =>
      (!(c == '\\' && !Escape.pending before &&
          (rest.head? == some 'p' || rest.head? == some 'P') &&
            (rest.drop 1).head?.getD behind == '{') ||
        rest.contains '}') && closesProperties behind (c :: before) rest

theorem closesProperties_append {behind : Char} {before first second : Text}
    (closes : closesProperties behind before (first ++ second) = true) :
    closesProperties behind (first.reverse ++ before) second = true := by
  induction first generalizing before with
  | nil => exact closes
  | cons c rest ih =>
      rw [List.cons_append, closesProperties, Bool.and_eq_true] at closes
      rw [List.reverse_cons, List.append_assoc]
      exact ih closes.2

theorem contains_of_closesProperties {behind letter : Char} {before after : Text}
    (closes : closesProperties behind before ('\\' :: letter :: after) = true)
    (unescaped : Escape.pending before = false) (property : letter = 'p' ∨ letter = 'P')
    (brace : after.head?.getD behind = '{') : '}' ∈ after := by
  rw [closesProperties, Bool.and_eq_true] at closes
  have closed := closes.1
  rcases property with rfl | rfl <;> simpa [unescaped, brace] using closed

theorem isWide_cut {letter d : Char} {after more : Text}
    (braced : letter = 'u' → bracedLength (after ++ d :: more) ≤ after.length)
    (closed : letter = 'p' ∨ letter = 'P' → after.head?.getD d = '{' → '}' ∈ d :: more →
      '}' ∈ after) :
    isWide letter (after ++ d :: more) = isWide letter after := by
  unfold isWide
  have point : (letter == 'u' &&
        (bracedHex? (after ++ d :: more)).any fun hex => hex.length == 4 || hex.length == 5) =
      (letter == 'u' && (bracedHex? after).any fun hex => hex.length == 4 || hex.length == 5) := by
    by_cases u : letter = 'u'
    · rw [any_bracedHex?, any_bracedHex?, bracedDigits_cut (braced u)]
    · rw [beq_eq_false_iff_ne.mpr u, Bool.false_and, Bool.false_and]
  have property : ((letter == 'p' || letter == 'P') && (after ++ d :: more).head? == some '{' &&
        (after ++ d :: more).contains '}') =
      ((letter == 'p' || letter == 'P') && after.head? == some '{' && after.contains '}') := by
    by_cases p : letter = 'p' ∨ letter = 'P'
    · have holds : (letter == 'p' || letter == 'P') = true := by simpa using p
      rw [holds, Bool.true_and, Bool.true_and, Bool.eq_iff_iff]
      simp only [Bool.and_eq_true, beq_iff_eq, List.contains_iff_mem, List.mem_append]
      have closed := closed p
      cases after with
      | nil =>
          simp only [List.nil_append, List.head?_cons, Option.some.injEq, List.not_mem_nil,
            false_or, and_false, iff_false]
          rintro ⟨rfl, member⟩
          exact absurd (closed rfl member) (by simp)
      | cons c rest =>
          simp only [List.cons_append, List.head?_cons, Option.some.injEq, and_congr_right_iff]
          rintro rfl
          exact ⟨fun member => member.elim id (closed rfl), Or.inl⟩
    · have fails : (letter == 'p' || letter == 'P') = false := by simpa using p
      rw [fails, Bool.false_and, Bool.false_and, Bool.false_and, Bool.false_and]
  rw [point, property]

theorem Alike.of_ok {tail : Text} {outcome : Except Fault State}
    (alike : Alike tail outcome (.ok next)) :
    ∃ short, outcome = .ok short ∧ next = short.extend tail := by
  cases alike with
  | ok short => exact ⟨short, rfl, rfl⟩

section Cut

variable {d : Char} {more : Text}

theorem Reads.le_of_far {count : Nat} (reads : (s.extend (d :: more)).Reads next count)
    (far : (d :: more).length ≤ next.rest.length) : count ≤ s.rest.length := by
  rw [reads.2, rest_skip, List.length_drop, rest_extend, List.length_append] at far
  rw [List.length_cons] at far
  omega

theorem two_before_cut {text rest : Text} {c e : Char} (foreign : Foreign d)
    (nonempty : text ≠ []) (parts : text ++ d :: more = c :: e :: rest)
    (known : isLetter e = true ∨ isDigit e = true) : ∃ after, text = c :: e :: after := by
  match text with
  | [] => exact absurd rfl nonempty
  | [_] =>
      cases parts
      rcases known with letter | digit
      · rw [foreign.notLetter] at letter
        contradiction
      · rw [foreign.notDigit] at digit
        contradiction
  | _ :: _ :: after =>
      cases parts
      exact ⟨after, rfl⟩

theorem fits_quantifier {q : Quantifier} (unescaped : s.escaped = false)
    (ok : (s.extend (d :: more)).quantifier options q = .ok next)
    (far : (d :: more).length ≤ next.rest.length) : q.length ≤ s.rest.length := by
  unfold State.quantifier at ok
  rw [escaped_extend, unescaped, if_neg (by decide)] at ok
  split at ok
  · cases ok
    exact (reads_copy _ _).le_of_far far
  split at ok
  · contradiction
  · exact (reads_quantify ok).le_of_far far

theorem sees_nameReference {form : NameReference} (unescaped : s.escaped = false)
    (ok : (s.extend (d :: more)).nameReference form = .ok next)
    (far : (d :: more).length ≤ next.rest.length) :
    form.opener.length ≤ s.rest.length ∧ s.Sees options (d :: more) (.nameReference form) := by
  unfold State.nameReference at ok
  rw [escaped_extend, unescaped, if_neg (by decide)] at ok
  split at ok
  · rename_i class_
    cases ok
    exact ⟨(reads_copy _ _).le_of_far far, Or.inl class_⟩
  split at ok
  · rename_i name named
    have room : form.opener.length + name.length + 1 ≤ s.rest.length := by
      split at ok
      · obtain ⟨slot, _, equality⟩ := bind_ok ok
        cases equality
        exact Reads.le_of_far ⟨rfl, rfl⟩ far
      · obtain ⟨slot, _, equality⟩ := bind_ok ok
        cases equality
        exact Reads.le_of_far ⟨rfl, rfl⟩ far
    have fits : form.opener.length ≤ s.rest.length := by omega
    rw [rest_extend, List.drop_append_of_le_length fits] at named
    refine ⟨fits, Or.inr ?_⟩
    rw [named, Text.finds_name.cut named (by simp; omega)]
  · contradiction

theorem sees_openGroup {form : Opener} (foreign : Foreign d) (unescaped : s.escaped = false)
    (nonempty : s.rest ≠ []) (ok : (s.extend (d :: more)).openGroup options form = .ok next)
    (far : (d :: more).length ≤ next.rest.length) :
    form.length ≤ s.rest.length ∧ s.Sees options (d :: more) (.openGroup form) := by
  unfold State.openGroup at ok
  rw [escaped_extend, unescaped, if_neg (by decide)] at ok
  split at ok
  · rename_i class_
    cases ok
    exact ⟨(reads_copy _ _).le_of_far far, Or.inl class_⟩
  cases form with
  | capture =>
      have filled : 1 ≤ s.rest.length := List.length_pos_iff.mpr nonempty
      refine ⟨filled, Or.inr ?_⟩
      dsimp only at ok
      unfold openCapture at ok
      rw [rest_extend, List.drop_append_of_le_length filled] at ok
      split at ok
      · contradiction
      · rename_i other
        refine ⟨fun mark => absurd mark other, fun mark => ?_⟩
        rw [Text.firstSignificant?_cut foreign.visible, mark]
        rfl
  | plain =>
      cases ok
      exact ⟨Reads.le_of_far ⟨rfl, rfl⟩ far, Or.inr trivial⟩
  | lookahead negative =>
      cases ok
      exact ⟨Reads.le_of_far ⟨rfl, rfl⟩ far, Or.inr trivial⟩
  | lookbehind negative =>
      cases ok
      exact ⟨Reads.le_of_far ⟨rfl, rfl⟩ far, Or.inr trivial⟩
  | named =>
      obtain ⟨name, named, reads⟩ := reads_openNamed ok
      have room := reads.le_of_far far
      have fits : 3 ≤ s.rest.length := by omega
      rw [rest_extend, List.drop_append_of_le_length fits] at named
      refine ⟨fits, Or.inr ?_⟩
      change Text.name? _ = Text.name? _
      rw [named, Text.finds_name.cut named (by simp; omega)]
  | atomic =>
      cases ok
      exact ⟨Reads.le_of_far ⟨rfl, rfl⟩ far, Or.inr trivial⟩
  | unknown => contradiction

theorem sees_comment (unescaped : s.escaped = false)
    (far : (d :: more).length ≤ (s.extend (d :: more)).comment.rest.length) :
    s.Sees options (d :: more) .comment := by
  cases class_ : s.inClass with
  | true => exact Or.inl class_
  | false =>
      right
      have skipped : (s.extend (d :: more)).comment =
          (s.extend (d :: more)).skip (commentLength (s.rest ++ d :: more)) := by
        simp [State.comment, class_, unescaped]
      rw [skipped] at far
      exact (reads_skip _ _).le_of_far far

theorem sees_flagsDelimiter {c : Char} (unescaped : s.escaped = false)
    (ok : (s.extend (d :: more)).flagsDelimiter c = .ok next)
    (far : (d :: more).length ≤ next.rest.length) : s.inClass = true := by
  unfold State.flagsDelimiter at ok
  split at ok
  · rename_i copied
    simpa [unescaped] using copied
  dsimp only at ok
  split at ok
  · contradiction
  · cases ok
    simp only [rest_skip, rest_extend, List.drop_length, List.length_nil] at far
    exact absurd far (by simp)

theorem sees_escapedLetter {letter : Char} {after : Text} (foreign : Foreign d)
    (unescaped : s.escaped = false) (rest : s.rest = '\\' :: letter :: after)
    (closed : options.extra = true → options.unicode = true → '}' ∈ d :: more →
      closesProperties d s.before s.rest = true)
    (ok : (s.extend (d :: more)).escapedLetter options letter = .ok next)
    (far : (d :: more).length ≤ next.rest.length) :
    s.Sees options (d :: more) (.escapedLetter letter) := by
  have longer : (s.extend (d :: more)).rest.drop 2 = after ++ d :: more := by simp [rest]
  cases passes : admits options letter ((s.extend (d :: more)).rest.drop 2) with
  | false =>
      obtain ⟨fault, failed⟩ := escapedLetter_refused passes
      rw [failed] at ok
      contradiction
  | true =>
      rw [escapedLetter_admitted passes, longer] at ok
      cases ok
      have count := (reads_copy _ _).le_of_far far
      have short : letter = 'u' → options.unicode = true →
          bracedLength (after ++ d :: more) ≤ after.length := by
        rintro rfl unicode
        rw [unicode, if_pos (by decide), rest] at count
        simp only [List.length_cons] at count
        omega
      have dropped : s.rest.drop 2 = after := by simp [rest]
      constructor
      · rw [dropped]
        apply foreign.admits_cut
        intro extra unicode
        apply isWide_cut (fun u => short u unicode)
        intro property brace member
        have closes := closed extra unicode member
        rw [rest] at closes
        exact contains_of_closesProperties closes unescaped property brace
      · intro braced
        rw [Bool.and_eq_true, beq_iff_eq] at braced
        rw [dropped, bracedLength_cut (short braced.1 braced.2)]

theorem sees_of_read {construct : Construct} (foreign : Foreign d) (unescaped : s.escaped = false)
    (nonempty : s.rest ≠ []) (found : (s.extend (d :: more)).next? delimiter = some construct)
    (closed : options.extra = true → options.unicode = true → '}' ∈ d :: more →
      closesProperties d s.before s.rest = true)
    (ok : (s.extend (d :: more)).read options construct = .ok next)
    (far : (d :: more).length ≤ next.rest.length) :
    construct.length ≤ s.rest.length ∧ s.Sees options (d :: more) construct := by
  have filled : 1 ≤ s.rest.length := List.length_pos_iff.mpr nonempty
  have stands := Construct.stands_of_at? found
  cases construct with
  | blank c => exact ⟨filled, foreign.sees_blank more s options c⟩
  | openClass => exact ⟨filled, trivial⟩
  | closeClass => exact ⟨filled, trivial⟩
  | dot => exact ⟨filled, trivial⟩
  | closeGroup => exact ⟨filled, trivial⟩
  | quantifier q => exact ⟨fits_quantifier unescaped ok far, trivial⟩
  | numberReference =>
      obtain ⟨e, rest, parts, digit⟩ := stands
      obtain ⟨after, short⟩ := two_before_cut foreign nonempty parts (Or.inr digit)
      exact ⟨by simp [short, Construct.length], foreign.sees_numberReference more s options⟩
  | nameReference form => exact sees_nameReference unescaped ok far
  | openGroup form => exact sees_openGroup foreign unescaped nonempty ok far
  | comment =>
      cases ok
      exact ⟨filled, sees_comment unescaped far⟩
  | escapedDigit digit =>
      obtain ⟨_, isDigit, rest, parts⟩ := stands
      obtain ⟨after, short⟩ := two_before_cut foreign nonempty parts (Or.inr isDigit)
      exact ⟨by simp [short, Construct.length], foreign.sees_escapedDigit more s options digit⟩
  | escapedLetter letter =>
      obtain ⟨_, isLetter, rest, parts⟩ := stands
      obtain ⟨after, short⟩ := two_before_cut foreign nonempty parts (Or.inl isLetter)
      exact ⟨by simp [short, Construct.length],
        sees_escapedLetter foreign unescaped short closed ok far⟩
  | flagsDelimiter c =>
      exact ⟨filled, sees_flagsDelimiter unescaped ok far⟩

theorem step_cut (foreign : Foreign d) (nonempty : s.rest ≠ [])
    (closed : options.extra = true → options.unicode = true → '}' ∈ d :: more →
      closesProperties d s.before s.rest = true)
    (ok : (s.extend (d :: more)).step options delimiter = .ok next)
    (far : (d :: more).length ≤ next.rest.length) :
    ∃ short, s.step options delimiter = .ok short ∧ next = short.extend (d :: more) := by
  cases escape : s.escaped with
  | true =>
      cases rest : s.rest with
      | nil => exact absurd rest nonempty
      | cons c text =>
          have longer : (s.extend (d :: more)).rest = c :: (text ++ d :: more) := by
            rw [rest_extend, rest]
            rfl
          rw [step_escaped (s := s.extend _) escape longer] at ok
          cases ok
          exact ⟨_, step_escaped escape rest, passed_extend (by simp [rest]) _ _⟩
  | false =>
      have both : ∀ construct, (s.extend (d :: more)).next? delimiter = some construct →
          construct.length ≤ s.rest.length ∧ s.Sees options (d :: more) construct := by
        intro construct found
        unfold step at ok
        rw [found] at ok
        exact sees_of_read foreign escape nonempty found closed ok far
      have alike : Alike (d :: more) (s.step options delimiter) _ :=
        step_extend nonempty (fun construct found => (both construct found).1)
          (fun construct found => (both construct found).2)
      rw [ok] at alike
      exact alike.of_ok

end Cut

section Outer

variable {d : Char} (outer : Construct.isInner d = false)

include outer

theorem name?_outer (text more : Text) : Text.name? (text ++ d :: more) = Text.name? text := by
  apply Text.finds_name.neutral
  rintro word ⟨_, letters⟩ member
  rcases List.mem_append.mp member with inside | last
  · simp [Construct.isInner, letters d inside] at outer
  · rw [List.mem_singleton.mp last] at outer
    exact absurd outer (by decide)

theorem bracedHex?_outer (text more : Text) : bracedHex? (text ++ d :: more) = bracedHex? text := by
  apply finds_bracedHex.neutral
  intro digits hex member
  simp only [List.cons_append, List.mem_cons, List.mem_append, List.not_mem_nil, or_false] at member
  rcases member with rfl | inside | rfl
  · exact absurd outer (by decide)
  · rcases isLetter_or_isDigit_of_isHexDigit (hex d inside) with letter | digit
    · simp [Construct.isInner, isWord, letter] at outer
    · simp [Construct.isInner, isWord, digit] at outer
  · exact absurd outer (by decide)

theorem bracedLength_outer (text more : Text) :
    bracedLength (text ++ d :: more) = bracedLength text := by
  unfold bracedLength
  rw [bracedHex?_outer outer]

end Outer

section Slash

variable {more : Text}

theorem foreign_slash : Foreign '/' := ⟨by decide, by decide, by decide⟩

theorem outer_slash : Construct.isInner '/' = false := by decide

theorem sees_slash {construct : Construct} (closed : '}' ∉ more)
    (found : (s.extend ('/' :: more)).next? (some '/') = some construct) {c : Char} {text : Text}
    (rest : s.rest = c :: text) (other : c ≠ '/') (visible : c ≠ '#') :
    s.Sees options ('/' :: more) construct := by
  have stands := Construct.stands_of_at? found
  rw [rest_extend, rest] at stands
  cases construct with
  | blank c => exact foreign_slash.sees_blank more s options c
  | openClass => trivial
  | closeClass => trivial
  | dot => trivial
  | closeGroup => trivial
  | quantifier q => trivial
  | numberReference => exact foreign_slash.sees_numberReference more s options
  | nameReference form => exact Or.inr (name?_outer outer_slash _ more)
  | openGroup form =>
      right
      cases form with
      | capture =>
          change _ = some '?' ↔ _
          rw [Text.firstSignificant?_cut foreign_slash.visible]
          cases Text.firstSignificant? (s.rest.drop 1) <;> simp
      | named => exact name?_outer outer_slash _ more
      | _ => trivial
  | comment =>
      obtain ⟨_, parts⟩ := stands
      cases parts
      contradiction
  | escapedDigit digit => exact foreign_slash.sees_escapedDigit more s options digit
  | escapedLetter letter =>
      refine ⟨foreign_slash.admits_cut fun _ _ => ?_,
        fun _ => bracedLength_outer outer_slash _ more⟩
      apply isWide_cut
      · intro _
        rw [bracedLength_outer outer_slash]
        exact bracedLength_le _
      · intro _ _ member
        rcases List.mem_cons.mp member with slash | member
        · exact absurd slash (by decide)
        · exact absurd member closed
  | flagsDelimiter c =>
      obtain ⟨same, _, parts⟩ := stands
      cases same
      cases parts
      contradiction

theorem step_slash (closed : '}' ∉ more) {c : Char} {text : Text} (rest : s.rest = c :: text)
    (other : c ≠ '/') (visible : c ≠ '#') :
    Alike ('/' :: more) (s.step options (some '/'))
      ((s.extend ('/' :: more)).step options (some '/')) := by
  apply step_extend (by simp [rest])
  · have longer : (s.extend ('/' :: more)).rest = c :: (text ++ '/' :: more) := by simp [rest]
    rw [next?_plain longer (by simpa using other.symm), rest]
    exact Construct.ends_of_slash
  · exact fun construct found => sees_slash closed found rest other visible

end Slash

end State

end PatternDialect.Conversion
