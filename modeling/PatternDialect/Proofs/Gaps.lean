import PatternDialect.Proofs.Past
import PatternDialect.Proofs.Runs
import PatternDialect.Proofs.Severing

/-! Texts that begin alike and go on behind different gaps.

No construct reaches into a gap.  A step that ends before it is the same step in both
texts, unless it looks across the gap and finds different characters there. -/

namespace PatternDialect.Conversion

open Character

/-- Characters that start a gap: blanks, and the sign of a comment. -/
def isBreak (c : Char) : Bool := isBlank c || c == '#'

theorem isInner_of_isBreak {d : Char} (breaks : isBreak d = true) :
    Construct.isInner d = false := by
  have ascii : ∀ n < 126, isBreak (Char.ofNat n) = true →
      Construct.isInner (Char.ofNat n) = false := by decide +kernel
  rw [Bool.eq_false_iff]
  intro inner
  have bound : d.toNat < 126 := by
    simp only [Construct.isInner, isWord, isLetter, isDigit, Repeat.isAmount, Bool.or_eq_true,
      Bool.and_eq_true, decide_eq_true_eq, Char.le_def, UInt32.le_iff_toNat_le, beq_iff_eq,
      List.contains_eq_mem, List.mem_cons, List.not_mem_nil, or_false] at inner
    rcases inner with (((letter | digit) | rfl) | amount) | mark
    · simp at letter
      omega
    · simp at digit
      omega
    · decide
    · rcases amount with (((((rfl | rfl) | rfl) | rfl) | rfl) | rfl) | digit
      all_goals first | decide | (simp at digit; omega)
    · rcases mark with rfl | rfl | rfl | rfl | rfl <;> decide
  have spec := ascii d.toNat bound
  rw [Char.ofNat_toNat] at spec
  rw [spec breaks] at inner
  contradiction

theorem isWord_of_isBreak {d : Char} (breaks : isBreak d = true) : isWord d = false := by
  have outer := isInner_of_isBreak breaks
  simp only [Construct.isInner, Bool.or_eq_false_iff] at outer
  exact outer.1.1

theorem isDigit_of_isBreak {d : Char} (breaks : isBreak d = true) : isDigit d = false := by
  have other := isWord_of_isBreak breaks
  simp only [isWord, Bool.or_eq_false_iff] at other
  exact other.1.2

theorem isLetter_of_isBreak {d : Char} (breaks : isBreak d = true) : isLetter d = false := by
  have other := isWord_of_isBreak breaks
  simp only [isWord, Bool.or_eq_false_iff] at other
  exact other.1.1

theorem isHexDigit_of_isBreak {d : Char} (breaks : isBreak d = true) : isHexDigit d = false := by
  rw [Bool.eq_false_iff]
  intro hex
  rcases State.isLetter_or_isDigit_of_isHexDigit hex with letter | digit
  · rw [isLetter_of_isBreak breaks] at letter
    contradiction
  · rw [isDigit_of_isBreak breaks] at digit
    contradiction

/-- What follows a text: a gap first, with braces behind it or without. -/
structure Gap (options : Options) (tail other : Text) : Prop where
  first : tail.head?.any isBreak = true
  second : other.head?.any isBreak = true
  closing : options.extra = true → ('}' ∈ tail ↔ '}' ∈ other)

namespace State

variable {options : Options} {s next : State} {tail other : Text}

theorem next?_break (nonempty : s.rest ≠ []) (breaks : tail.head?.any isBreak = true) :
    Construct.Ends s.rest ((s.extend tail).next? none) ∧
      (s.extend tail).next? none = s.next? none := by
  cases tail with
  | nil => contradiction
  | cons d more =>
      have ends : Construct.Ends s.rest ((s.extend (d :: more)).next? none) := by
        cases rest : s.rest with
        | nil => exact absurd rest nonempty
        | cons c text =>
            have longer : (s.extend (d :: more)).rest = c :: (text ++ d :: more) := by simp [rest]
            rw [next?_plain longer (by simp)]
            exact Construct.ends_of_outer (by simp) (isInner_of_isBreak breaks)
      exact ⟨ends, next?_extend nonempty ends⟩

def Parallel (tail other : Text) (first second : Except Fault State) : Prop :=
  ∃ t : State, first = .ok (t.extend tail) ∧ second = .ok (t.extend other)

theorem Parallel.of_alike {outcome first second : Except Fault State}
    (alike : Alike tail outcome first) (alike' : Alike other outcome second)
    (ok : first = .ok next) : Parallel tail other first second := by
  subst ok
  obtain ⟨t, rfl, rfl⟩ := alike.of_ok
  cases alike' with
  | ok => exact ⟨t, rfl, rfl⟩

/-- Whether a blank before the given text is replaced by a separator. -/
def parts (s : State) (after : Text) : Bool :=
  s.inOpenBraces || (Text.firstSignificant? after).any s.continuesEscape

/-- Whether a `\0` before the given text is followed by a separator. -/
def joins (after : Text) : Bool :=
  after.head?.any isBlank && (Text.firstSignificant? after).any isDigit

def LooksAlike (s : State) (tail other : Text) : Construct → Prop
  | .blank _ => s.parts (s.rest.drop 1 ++ tail) = s.parts (s.rest.drop 1 ++ other)
  | .openGroup .capture =>
      Text.firstSignificant? (s.rest.drop 1 ++ tail) = some '?' ↔
        Text.firstSignificant? (s.rest.drop 1 ++ other) = some '?'
  | .escapedDigit digit =>
      digit = '0' → joins (s.rest.drop 2 ++ tail) = joins (s.rest.drop 2 ++ other)
  | _ => True

theorem blank_eq (filled : 1 ≤ s.rest.length) (tail : Text) :
    (s.extend tail).blank =
      (if s.inClass then s.copy 1
        else if s.escaped then s.dropEscape.copy 1
        else if s.parts (s.rest.drop 1 ++ tail) then (s.skip 1).emit separator
        else s.skip 1).extend tail := by
  refine ite_extend Iff.rfl (fun _ => copy_extend _ _ filled) (fun _ => ?_)
  refine ite_extend Iff.rfl (fun _ => dropEscape_copy_extend filled) (fun _ => ?_)
  unfold dropBlank
  simp only [skip_extend _ _ filled]
  exact ite_extend Iff.rfl (fun _ => rfl) (fun _ => rfl)

theorem blank_parallel (filled : 1 ≤ s.rest.length)
    (alike : s.inClass = false → s.escaped = false →
      s.parts (s.rest.drop 1 ++ tail) = s.parts (s.rest.drop 1 ++ other)) :
    Parallel tail other (.ok (s.extend tail).blank) (.ok (s.extend other).blank) := by
  refine ⟨_, congrArg _ (blank_eq filled tail), congrArg _ ?_⟩
  rw [blank_eq filled other]
  cases class_ : s.inClass with
  | true => rfl
  | false =>
      cases escape : s.escaped with
      | true => rfl
      | false => rw [alike class_ escape]

theorem capture_parallel (filled : 1 ≤ s.rest.length)
    (alike : s.LooksAlike tail other (.openGroup .capture))
    (ok : (s.extend tail).openCapture options = .ok next) :
    Parallel tail other ((s.extend tail).openCapture options)
      ((s.extend other).openCapture options) := by
  have rest : ∀ text, (s.extend text).rest.drop 1 = s.rest.drop 1 ++ text :=
    fun text => List.drop_append_of_le_length filled
  have unmarked : Text.firstSignificant? (s.rest.drop 1 ++ tail) ≠ some '?' := by
    intro mark
    rw [openCapture, rest, if_pos mark] at ok
    contradiction
  have short : Text.firstSignificant? (s.rest.drop 1) ≠ some '?' := by
    intro mark
    apply unmarked
    rw [Text.firstSignificant?, List.find?_append, ← Text.firstSignificant?, mark]
    rfl
  have unmarked' : Text.firstSignificant? (s.rest.drop 1 ++ other) ≠ some '?' :=
    mt alike.mpr unmarked
  exact .of_alike
    (openCapture_extend filled ⟨fun mark => absurd mark unmarked, fun mark => absurd mark short⟩)
    (openCapture_extend filled ⟨fun mark => absurd mark unmarked',
      fun mark => absurd mark short⟩) ok

theorem nul_eq (fits : 2 ≤ s.rest.length) (tail : Text) :
    (s.extend tail).nul =
      (if joins (s.rest.drop 2 ++ tail) then (s.copy 2).emit separator else s.copy
        2).extend tail := by
  have rest : (s.extend tail).rest.drop 2 = s.rest.drop 2 ++ tail :=
    List.drop_append_of_le_length fits
  unfold nul
  dsimp only
  rw [rest, copy_extend _ _ fits]
  exact ite_extend Iff.rfl (fun _ => rfl) (fun _ => rfl)

def spliced (s : State) (splice : Splice) : State :=
  { ({ s with groups := s.groups.suppress splice.slot }.skip
      (1 + (Text.digits (s.rest.drop 1)).length)).emitReference splice.slot with splice := none }

theorem escapedDigit_eq {digit : Char} (outside : s.inClass = false) (fits : 2 ≤ s.rest.length)
    (breaks : tail.head?.any isBreak = true) :
    (s.extend tail).escapedDigit digit =
      match s.splice.filter (·.stop == s.out.size) with
      | some splice => .ok ((s.spliced splice).extend tail)
      | none =>
          if digit == '0' && (Text.digits (s.rest.drop 1)).length == 1 then .ok (s.extend tail).nul
          else .error (.octalEscape ('\\' :: Text.digits (s.rest.drop 1))) := by
  have rest : (s.extend tail).rest.drop 1 = s.rest.drop 1 ++ tail :=
    List.drop_append_of_le_length (by omega)
  have digits : Text.digits ((s.extend tail).rest.drop 1) = Text.digits (s.rest.drop 1) := by
    cases tail with
    | nil => contradiction
    | cons d more => rw [rest, Text.digits_cut (isDigit_of_isBreak breaks)]
  have room : 1 + (Text.digits (s.rest.drop 1)).length ≤ s.rest.length := by
    have short := (List.takeWhile_sublist isDigit (l := s.rest.drop 1)).length_le
    rw [List.length_drop] at short
    unfold Text.digits
    omega
  unfold State.escapedDigit
  dsimp only
  rw [digits, inClass_extend, outside, if_neg (by decide)]
  change (match s.splice.filter (·.stop == s.out.size) with | some splice => _ | none => _) = _
  cases s.splice.filter (·.stop == s.out.size) with
  | none => rfl
  | some splice =>
      have skipped := skip_extend { s with groups := s.groups.suppress splice.slot } tail room
      exact congrArg (fun t : State =>
        Except.ok { t.emitReference splice.slot with splice := none })
        skipped

theorem digit_parallel {digit : Char} (gap : Gap options tail other) (outside : s.inClass = false)
    (fits : 2 ≤ s.rest.length) (alike : s.LooksAlike tail other (.escapedDigit digit))
    (ok : (s.extend tail).escapedDigit digit = .ok next) :
    Parallel tail other ((s.extend tail).escapedDigit digit)
      ((s.extend other).escapedDigit digit) := by
  rw [escapedDigit_eq outside fits gap.first] at ok ⊢
  rw [escapedDigit_eq outside fits gap.second]
  cases found : s.splice.filter (·.stop == s.out.size) with
  | some splice => exact ⟨_, rfl, rfl⟩
  | none =>
      rw [found] at ok
      dsimp only at ok ⊢
      split at ok
      · rename_i zero
        have digit : digit = '0' := by
          simp only [Bool.and_eq_true, beq_iff_eq] at zero
          exact zero.1
        rw [if_pos zero, if_pos zero, nul_eq fits, nul_eq fits, alike digit]
        exact ⟨_, rfl, rfl⟩
      · contradiction

theorem admits_break (gap : Gap options tail other) (letter : Char) (after : Text) :
    admits options letter (after ++ tail) = admits options letter (after ++ other) := by
  obtain ⟨first, second, closing⟩ := gap
  cases tail with
  | nil => contradiction
  | cons d more =>
      cases other with
      | nil => contradiction
      | cons e rest =>
          have head : (after ++ d :: more).head?.any isLetter =
              (after ++ e :: rest).head?.any isLetter := by
            cases after with
            | nil =>
                simp [isLetter_of_isBreak first, isLetter_of_isBreak second]
            | cons c _ => rfl
          unfold admits
          cases extra : options.extra with
          | false => rfl
          | true =>
              have braces := closing extra
              have outer : d ≠ '{' ∧ e ≠ '{' := by
                constructor <;> rintro rfl <;> contradiction
              have opens : ((after ++ d :: more).head? == some '{') =
                  ((after ++ e :: rest).head? == some '{') := by
                cases after with
                | nil => simp [outer.1, outer.2]
                | cons c _ => rfl
              have holds :
                  (after ++ d :: more).contains '}' = (after ++ e :: rest).contains '}' := by
                rw [Bool.eq_iff_iff]
                simp only [List.contains_iff_mem, List.mem_append, braces]
              rw [toBool_checkEscape, toBool_checkEscape, head,
                startsWithHex_cut (isHexDigit_of_isBreak first),
                startsWithHex_cut (isHexDigit_of_isBreak first),
                startsWithHex_cut (isHexDigit_of_isBreak second),
                startsWithHex_cut (isHexDigit_of_isBreak second), isWide, isWide,
                bracedHex?_outer (isInner_of_isBreak first),
                bracedHex?_outer (isInner_of_isBreak second), opens, holds]

theorem letter_parallel {letter : Char} (gap : Gap options tail other) (fits : 2 ≤ s.rest.length)
    (ok : (s.extend tail).escapedLetter options letter = .ok next) :
    Parallel tail other ((s.extend tail).escapedLetter options letter)
      ((s.extend other).escapedLetter options letter) := by
  have rest : ∀ text, (s.extend text).rest.drop 2 = s.rest.drop 2 ++ text :=
    fun text => List.drop_append_of_le_length fits
  have braced : ∀ text : Text, text.head?.any isBreak = true →
      bracedLength ((s.extend text).rest.drop 2) = bracedLength (s.rest.drop 2) := by
    intro text breaks
    cases text with
    | nil => contradiction
    | cons d more => rw [rest, bracedLength_outer (isInner_of_isBreak breaks)]
  have short : (2 + if letter == 'u' && options.unicode then bracedLength (s.rest.drop 2) else 0) ≤
      s.rest.length := by
    have room := bracedLength_le (s.rest.drop 2)
    rw [List.length_drop] at room
    split <;> omega
  cases passes : admits options letter ((s.extend tail).rest.drop 2) with
  | false =>
      obtain ⟨fault, failed⟩ := escapedLetter_refused passes
      rw [failed] at ok
      contradiction
  | true =>
      have passes' : admits options letter ((s.extend other).rest.drop 2) = true := by
        rw [rest, ← admits_break gap, ← rest, passes]
      rw [escapedLetter_admitted passes, escapedLetter_admitted passes', braced tail gap.first,
        braced other gap.second, copy_extend _ _ short, copy_extend _ _ short]
      exact ⟨_, rfl, rfl⟩

theorem sees_comment_other (sees : s.Sees options tail .comment) (other : Text) :
    s.Sees options other .comment := by
  rcases sees with class_ | short
  · exact Or.inl class_
  · right
    unfold commentLength at short ⊢
    have ends : (s.rest ++ tail).takeWhile (!isLineEnd ·) = s.rest.takeWhile (!isLineEnd ·) :=
      Text.takeWhile_short (by omega)
    rw [ends] at short
    rw [List.takeWhile_append, if_neg (by omega)]
    exact short

theorem sees_break {construct : Construct} (breaks : tail.head?.any isBreak = true)
    (other : ∀ c, construct ≠ .blank c) (mark : construct ≠ .openGroup .capture)
    (noDigit : ∀ d, construct ≠ .escapedDigit d) (noLetter : ∀ l, construct ≠ .escapedLetter l)
    (noDelimiter : ∀ d, construct ≠ .flagsDelimiter d) (noComment : construct ≠ .comment) :
    s.Sees options tail construct := by
  cases tail with
  | nil => contradiction
  | cons d more =>
      have outer := isInner_of_isBreak breaks
      cases construct with
      | blank c => exact absurd rfl (other c)
      | comment => exact absurd rfl noComment
      | escapedDigit d => exact absurd rfl (noDigit d)
      | escapedLetter l => exact absurd rfl (noLetter l)
      | flagsDelimiter d => exact absurd rfl (noDelimiter d)
      | numberReference => exact Text.digits_cut (isDigit_of_isBreak breaks) _ more
      | nameReference form => exact Or.inr (name?_outer outer _ more)
      | openGroup form =>
          cases form with
          | capture => exact absurd rfl mark
          | named => exact Or.inr (name?_outer outer _ more)
          | _ => exact Or.inr trivial
      | _ => trivial

theorem step_parallel (gap : Gap options tail other) (nonempty : s.rest ≠ [])
    (alike : s.inClass = false → s.escaped = false →
      ∀ construct, s.next? none = some construct → s.LooksAlike tail other construct)
    (ok : (s.extend tail).step options none = .ok next) (far : tail.length ≤ next.rest.length) :
    Parallel tail other ((s.extend tail).step options none)
    ((s.extend other).step options none) := by
  have filled : 1 ≤ s.rest.length := List.length_pos_iff.mpr nonempty
  cases escape : s.escaped with
  | true =>
      cases rest : s.rest with
      | nil => exact absurd rest nonempty
      | cons c text =>
          have longer : ∀ tail, (s.extend tail).rest = c :: (text ++ tail) := by simp [rest]
          rw [step_escaped (s := s.extend tail) escape (longer tail),
            step_escaped (s := s.extend other) escape (longer other),
            passed_extend filled, passed_extend filled]
          exact ⟨_, rfl, rfl⟩
  | false =>
      obtain ⟨ends, same⟩ := next?_break (s := s) nonempty gap.first
      obtain ⟨_, same'⟩ := next?_break (s := s) nonempty gap.second
      unfold step at ok ⊢
      rw [same] at ends ok ⊢
      rw [same']
      cases found : s.next? none with
      | none =>
          dsimp only
          rw [copyPlain_extend filled, copyPlain_extend filled]
          exact ⟨_, rfl, rfl⟩
      | some construct =>
          rw [found] at ok
          dsimp only at ok ⊢
          have fits := ends construct found
          have alike := fun class_ => alike class_ escape construct found
          have general (sees : s.Sees options tail construct)
              (sees' : s.Sees options other construct) :=
            Parallel.of_alike (read_extend filled fits sees) (read_extend filled fits sees') ok
          cases construct with
          | blank c => exact blank_parallel filled fun class_ _ => alike class_
          | openGroup form =>
              cases class_ : s.inClass with
              | true => exact general (Or.inl class_) (Or.inl class_)
              | false =>
                  cases form with
                  | capture =>
                      have opened : ∀ text, (s.extend text).read options (.openGroup .capture) =
                          (s.extend text).openCapture options := by
                        intro text
                        simp [read, State.openGroup, escape, class_]
                      rw [opened] at ok ⊢
                      rw [opened]
                      exact capture_parallel filled (alike class_) ok
                  | _ =>
                      exact general
                        (sees_break gap.first (by simp) (by simp) (by simp) (by simp)
                          (by simp) (by simp))
                        (sees_break gap.second (by simp) (by simp) (by simp) (by simp)
                          (by simp) (by simp))
          | escapedDigit digit =>
              cases class_ : s.inClass with
              | false => exact digit_parallel gap class_ fits (alike class_) ok
              | true =>
                  have copied : ∀ text, (s.extend text).read options (.escapedDigit digit) =
                      .ok ((s.copy 2).extend text) := by
                    intro text
                    have two : (s.extend text).copy 2 = (s.copy 2).extend text :=
                      copy_extend _ _ fits
                    simp [read, State.escapedDigit, class_, two]
                  exact ⟨_, copied tail, copied other⟩
          | escapedLetter letter => exact letter_parallel gap fits ok
          | comment =>
              cases tail with
              | nil => exact absurd gap.first (by simp)
              | cons d more =>
                  cases ok
                  have sees : s.Sees options (d :: more) .comment := sees_comment escape far
                  exact general sees (sees_comment_other sees other)
          | flagsDelimiter c =>
              have stands := Construct.stands_of_at? found
              exact absurd stands.1 (by simp)
          | _ =>
              exact general
                (sees_break gap.first (by simp) (by simp) (by simp) (by simp) (by simp) (by simp))
                (sees_break gap.second (by simp) (by simp) (by simp) (by simp) (by simp) (by simp))

end State

end PatternDialect.Conversion
