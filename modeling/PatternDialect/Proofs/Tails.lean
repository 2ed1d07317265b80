import PatternDialect.Proofs.Locality
import PatternDialect.Proofs.Outcome

/-! What follows a text, and when a step does the same with it and without it.

A handler reads beyond its construct only to see a name, digits, an escape or the
next visible character.  Each lemma asks that this much is seen alike. -/

namespace PatternDialect.Conversion

open Character

namespace State

def extend (s : State) (tail : Text) : State := { s with rest := s.rest ++ tail }

inductive Alike (tail : Text) : Except Fault State → Except Fault State → Prop where
  | ok (s : State) : Alike tail (.ok s) (.ok (s.extend tail))
  | error (fault other : Fault) : Alike tail (.error fault) (.error other)

variable {options : Options} {delimiter : Option Char} {s : State} {tail : Text}

theorem Alike.of_eq {next long : State} (same : long = next.extend tail) :
    Alike tail (.ok next) (.ok long) := same ▸ .ok next

@[simp] theorem inClass_extend (s : State) (tail : Text) : (s.extend tail).inClass = s.inClass :=
  rfl

@[simp] theorem escaped_extend (s : State) (tail : Text) : (s.extend tail).escaped = s.escaped :=
  rfl

@[simp] theorem rest_extend (s : State) (tail : Text) : (s.extend tail).rest = s.rest ++ tail := rfl

theorem skip_extend (s : State) (tail : Text) {count : Nat} (fits : count ≤ s.rest.length) :
    (s.extend tail).skip count = (s.skip count).extend tail := by
  simp only [extend, State.skip, List.take_append_of_le_length fits,
    List.drop_append_of_le_length fits]

theorem copy_extend (s : State) (tail : Text) {count : Nat} (fits : count ≤ s.rest.length) :
    (s.extend tail).copy count = (s.copy count).extend tail := by
  simp only [extend, State.copy, State.skip, emit, List.take_append_of_le_length fits,
    List.drop_append_of_le_length fits]

theorem ite_extend {long short : Prop} [Decidable long] [Decidable short] (same : long ↔ short)
    {a b c d : State} (yes : short → a = c.extend tail) (no : ¬ short → b = d.extend tail) :
    (if long then a else b) = (if short then c else d).extend tail := by
  by_cases holds : short
  · rw [if_pos holds, if_pos (same.mpr holds), yes holds]
  · rw [if_neg holds, if_neg (mt same.mp holds), no holds]

theorem Alike.ite {long short : Prop} [Decidable long] [Decidable short] (same : long ↔ short)
    {a b c d : Except Fault State} (yes : short → Alike tail c a) (no : ¬ short → Alike tail d b) :
    Alike tail (if short then c else d) (if long then a else b) := by
  by_cases holds : short
  · rw [if_pos holds, if_pos (same.mpr holds)]
    exact yes holds
  · rw [if_neg holds, if_neg (mt same.mp holds)]
    exact no holds

theorem Alike.bind {α : Type} (first : Except Fault α) {short long : α → Except Fault State}
    (each : ∀ value, Alike tail (short value) (long value)) :
    Alike tail (first >>= short) (first >>= long) := by
  cases first with
  | error fault => exact .error _ _
  | ok value => exact each value

theorem dropEscape_extend (s : State) (tail : Text) :
    (s.extend tail).dropEscape = s.dropEscape.extend tail :=
  ite_extend Iff.rfl (fun _ => rfl) (fun _ => rfl)

theorem rest_dropEscape (s : State) : s.dropEscape.rest = s.rest := by
  unfold dropEscape
  split <;> rfl

theorem dropEscape_copy_extend (filled : 1 ≤ s.rest.length) :
    (s.extend tail).dropEscape.copy 1 = (s.dropEscape.copy 1).extend tail := by
  rw [dropEscape_extend, copy_extend _ _ (by rwa [rest_dropEscape])]

theorem copyPlain_extend (filled : 1 ≤ s.rest.length) :
    (s.extend tail).copyPlain = s.copyPlain.extend tail := by
  cases rest : s.rest with
  | nil => simp [rest] at filled
  | cons c more =>
      have longer : (s.extend tail).rest = c :: (more ++ tail) := by simp [rest]
      rw [copyPlain_eq rest, copyPlain_eq longer]
      exact skip_extend (s.emit _) _ filled

theorem blank_extend (filled : 1 ≤ s.rest.length)
    (seen : s.inOpenBraces = true ∨
      (Text.firstSignificant? (s.rest.drop 1 ++ tail)).any s.continuesEscape =
        (Text.firstSignificant? (s.rest.drop 1)).any s.continuesEscape) :
    (s.extend tail).blank = s.blank.extend tail := by
  apply ite_extend Iff.rfl (fun _ => copy_extend _ _ filled)
  intro _
  apply ite_extend Iff.rfl (fun _ => dropEscape_copy_extend filled)
  intro _
  unfold dropBlank
  simp only [skip_extend _ _ filled]
  refine ite_extend ?_ (fun _ => rfl) (fun _ => rfl)
  change (s.inOpenBraces || (Text.firstSignificant? (s.rest.drop 1 ++ tail)).any
      s.continuesEscape) =
    true ↔ (s.inOpenBraces || (Text.firstSignificant? (s.rest.drop 1)).any s.continuesEscape) = true
  rcases seen with braces | seen
  · simp [braces]
  · rw [seen]

theorem openClass_extend (filled : 1 ≤ s.rest.length) :
    (s.extend tail).openClass = s.openClass.extend tail :=
  ite_extend Iff.rfl (fun _ => copy_extend _ _ filled)
    (fun _ => copy_extend { s with classStart := some s.out.size } _ filled)

theorem closeClass_extend (filled : 1 ≤ s.rest.length) :
    (s.extend tail).closeClass = s.closeClass.extend tail := by
  cases start : s.classStart with
  | some start_ =>
      have longer : (s.extend tail).classStart = some start_ := start
      unfold State.closeClass
      simp only [start, longer]
      refine ite_extend Iff.rfl (fun _ => copy_extend _ _ filled) (fun _ => ?_)
      rw [copy_extend _ _ filled]
      rfl
  | none =>
      have longer : (s.extend tail).classStart = none := start
      simp only [State.closeClass, start, longer]
      exact copy_extend _ _ filled

theorem dot_extend (filled : 1 ≤ s.rest.length) (options : Options) :
    (s.extend tail).dot options = (s.dot options).extend tail := by
  apply ite_extend Iff.rfl (fun _ => copy_extend _ _ filled)
  intro _
  change (((s.emit ['[', '^', ']']).extend tail).skip 1).recordAtom s.out.size = _
  rw [skip_extend (s.emit ['[', '^', ']']) _ filled]
  rfl

def repeated (s : State) (options : Options) (q : Quantifier) : State :=
  { s with
    out := s.prepared (s.atom.filter (·.stop == s.out.size)) ++ q.render options.ungreedy
    atom := none }.skip q.length

theorem repeated_extend {q : Quantifier} (fits : q.length ≤ s.rest.length) :
    (s.extend tail).repeated options q = (s.repeated options q).extend tail :=
  skip_extend { s with out := _, atom := none } tail fits

theorem possessed_extend {q : Quantifier} (fits : q.length ≤ s.rest.length) (atom : Atom) :
    (s.extend tail).possessed atom q = (s.possessed atom q).extend tail :=
  skip_extend (markReference { s with out := _, groups := _, atom := some _ }) tail fits

theorem quantify_repeated {q : Quantifier} (mark : q.possessive = false) :
    s.quantify options q = .ok (s.repeated options q) := by
  unfold quantify repeated
  rw [s.quantified?_plain mark]
  cases last : s.atom.filter (·.stop == s.out.size) with
  | none => simp only [wrapEmulated, mark, Bool.false_eq_true, ↓reduceIte, prepared, emit]
  | some atom => simp only [wrapEmulated_some, mark, Bool.false_eq_true, ↓reduceIte, prepared, emit]

theorem quantify_possessed {q : Quantifier} (mark : q.possessive = true) {atom : Atom}
    (known : s.quantified? q = some atom) : s.quantify options q = .ok (s.possessed atom q) := by
  unfold quantify possessed
  rw [known]
  simp only [wrapEmulated_some, mark, ↓reduceIte]

theorem quantify_nothing {q : Quantifier} (mark : q.possessive = true)
    (unknown : s.quantified? q = none) :
    s.quantify options q = .error (.nothingToRepeat (s.rest.take q.length)) := by
  unfold quantify
  rw [unknown]
  simp only [wrapEmulated, mark, ↓reduceIte]

theorem quantify_extend {q : Quantifier} (fits : q.length ≤ s.rest.length) :
    Alike tail (s.quantify options q) ((s.extend tail).quantify options q) := by
  cases mark : q.possessive with
  | false =>
      rw [quantify_repeated mark, quantify_repeated mark]
      exact .of_eq (repeated_extend fits)
  | true =>
      cases known : s.quantified? q with
      | none =>
          have longer : (s.extend tail).quantified? q = none := known
          rw [quantify_nothing mark known, quantify_nothing mark longer]
          exact .error _ _
      | some atom =>
          have longer : (s.extend tail).quantified? q = some atom := known
          rw [quantify_possessed mark known, quantify_possessed mark longer]
          exact .of_eq (possessed_extend fits atom)

theorem quantifier_extend {q : Quantifier} (filled : 1 ≤ s.rest.length)
    (fits : q.length ≤ s.rest.length) :
    Alike tail (s.quantifier options q) ((s.extend tail).quantifier options q) := by
  refine Alike.ite Iff.rfl (fun _ => .of_eq (copy_extend _ _ filled)) (fun _ => ?_)
  refine Alike.ite Iff.rfl (fun _ => .of_eq (copy_extend _ _ fits)) (fun _ => ?_)
  have broken : (s.extend tail).brokenCut? q = s.brokenCut? q := rfl
  rw [broken]
  cases s.brokenCut? q with
  | some offset => exact .error _ _
  | none => exact quantify_extend fits

theorem numberReference_extend (filled : 1 ≤ s.rest.length)
    (seen : Text.digits (s.rest.drop 1 ++ tail) = Text.digits (s.rest.drop 1)) :
    Alike tail s.numberReference (s.extend tail).numberReference := by
  have rest : (s.extend tail).rest.drop 1 = s.rest.drop 1 ++ tail :=
    List.drop_append_of_le_length filled
  apply Alike.ite Iff.rfl (fun _ => .of_eq (copy_extend _ _ filled))
  intro _
  rw [rest, seen]
  refine Alike.bind (s.resolveDigits _) fun slot => ?_
  have fits : 1 + (Text.digits (s.rest.drop 1)).length ≤ s.rest.length := by
    have short := (List.takeWhile_sublist isDigit (l := s.rest.drop 1)).length_le
    rw [List.length_drop] at short
    unfold Text.digits
    omega
  apply Alike.of_eq
  rw [skip_extend _ _ fits]
  rfl

theorem nameReference_extend {form : NameReference} (filled : 1 ≤ s.rest.length)
    (fits : form.opener.length ≤ s.rest.length)
    (seen : s.inClass = true ∨ Text.name? (s.rest.drop form.opener.length ++ tail) =
      Text.name? (s.rest.drop form.opener.length)) :
    Alike tail (s.nameReference form) ((s.extend tail).nameReference form) := by
  refine Alike.ite Iff.rfl (fun _ => .of_eq (copy_extend _ _ filled)) (fun _ => ?_)
  refine Alike.ite Iff.rfl (fun _ => .of_eq (copy_extend _ _ fits)) (fun outside => ?_)
  have seen := seen.resolve_left outside
  have rest : (s.extend tail).rest.drop form.opener.length =
      s.rest.drop form.opener.length ++ tail := List.drop_append_of_le_length fits
  rw [rest, seen]
  cases named : Text.name? (s.rest.drop form.opener.length) with
  | none => exact .error _ _
  | some name =>
      obtain ⟨more, parts⟩ := name?_spec named
      have room : form.opener.length + name.length + 1 ≤ s.rest.length := by
        have length := congrArg List.length parts
        simp only [List.length_drop, List.length_append, List.length_cons] at length
        omega
      have skipped : (s.extend tail).skip (form.opener.length + name.length + 1) =
          (s.skip (form.opener.length + name.length + 1)).extend tail := skip_extend _ _ room
      dsimp only
      rw [skipped]
      exact Alike.ite Iff.rfl (fun _ => Alike.bind (s.resolveDigits name) fun slot => .ok _)
        (fun _ => Alike.bind (s.groups.resolveName name) fun slot => .ok _)

theorem openCapture_extend (filled : 1 ≤ s.rest.length)
    (seen : Text.firstSignificant? (s.rest.drop 1 ++ tail) = some '?' ↔
      Text.firstSignificant? (s.rest.drop 1) = some '?') :
    Alike tail (s.openCapture options) ((s.extend tail).openCapture options) := by
  have rest : (s.extend tail).rest.drop 1 = s.rest.drop 1 ++ tail :=
    List.drop_append_of_le_length filled
  refine Alike.ite (by rw [rest, seen]) (fun _ => .error _ _) (fun _ => ?_)
  refine Alike.ite Iff.rfl (fun _ => .of_eq ?_) (fun _ => ?_)
  · have copied := copy_extend { s with groups := s.groups.push .anonymous } tail filled
    exact congrArg (State.openFrame · (.capture s.groups.size) s.out.size s.groups.size) copied
  refine Alike.ite Iff.rfl (fun _ => .of_eq ?_) (fun _ => .of_eq ?_)
  · have copied := copy_extend { s with groups := s.groups.push .suppressed } tail filled
    exact congrArg (State.openFrame · (.capture s.groups.size) s.out.size s.groups.size) copied
  · have skipped := skip_extend (s.emit ['(', '?', ':']) tail filled
    exact congrArg (State.openFrame · .plain s.out.size s.groups.size) skipped

theorem openNamed_extend (fits : 3 ≤ s.rest.length)
    (seen : Text.name? (s.rest.drop 3 ++ tail) = Text.name? (s.rest.drop 3)) :
    Alike tail s.openNamed (s.extend tail).openNamed := by
  have rest : (s.extend tail).rest.drop 3 = s.rest.drop 3 ++ tail :=
    List.drop_append_of_le_length fits
  unfold openNamed
  rw [rest, seen]
  cases named : Text.name? (s.rest.drop 3) with
  | none => exact .error _ _
  | some name =>
      obtain ⟨more, parts⟩ := name?_spec named
      have room : 3 + name.length + 1 ≤ s.rest.length := by
        have length := congrArg List.length parts
        simp only [List.length_drop, List.length_append, List.length_cons] at length
        omega
      refine Alike.bind (s.groups.pushNamed name) fun groups => .of_eq ?_
      have skipped := skip_extend ({ s with groups }.emit ['(']) tail room
      exact congrArg (State.openFrame · (.capture s.groups.size) s.out.size s.groups.size) skipped

theorem openNative_extend {form : Opener} (fits : form.length ≤ s.rest.length) (kind : FrameKind) :
    (s.extend tail).openNative form kind = (s.openNative form kind).extend tail :=
  congrArg (State.openFrame · kind s.out.size s.groups.size) (copy_extend _ _ fits)

theorem openAtomic_extend (fits : 3 ≤ s.rest.length) :
    (s.extend tail).openAtomic = s.openAtomic.extend tail := by
  have skipped := skip_extend
    ({ s with groups := s.groups.push .suppressed }.emit Atom.atomicOpen) tail fits
  exact congrArg (State.openFrame · (.atomic s.groups.size) s.out.size s.groups.size) skipped

def SeesGroup (s : State) (tail : Text) : Opener → Prop
  | .capture => Text.firstSignificant? (s.rest.drop 1 ++ tail) = some '?' ↔
      Text.firstSignificant? (s.rest.drop 1) = some '?'
  | .named => Text.name? (s.rest.drop 3 ++ tail) = Text.name? (s.rest.drop 3)
  | _ => True

theorem openGroup_extend {form : Opener} (filled : 1 ≤ s.rest.length)
    (fits : form.length ≤ s.rest.length) (seen : s.inClass = true ∨ s.SeesGroup tail form) :
    Alike tail (s.openGroup options form) ((s.extend tail).openGroup options form) := by
  refine Alike.ite Iff.rfl (fun _ => .of_eq (copy_extend _ _ filled)) (fun _ => ?_)
  refine Alike.ite Iff.rfl (fun _ => .of_eq (copy_extend _ _ fits)) (fun outside => ?_)
  have seen := seen.resolve_left outside
  cases form with
  | capture => exact openCapture_extend filled seen
  | plain => exact .of_eq (openNative_extend fits .plain)
  | lookbehind negative => exact .of_eq (openNative_extend fits .plain)
  | lookahead negative => exact .of_eq (openNative_extend fits (.lookahead negative))
  | named => exact openNamed_extend fits seen
  | atomic => exact .of_eq (openAtomic_extend fits)
  | unknown => exact .error _ _

theorem emitClose_extend (filled : 1 ≤ s.rest.length) (frame : Frame) :
    (s.extend tail).emitClose frame = (s.emitClose frame).extend tail := by
  unfold emitClose
  split
  · exact congrArg markReference (skip_extend (s.emit _) _ filled)
  · exact copy_extend _ _ filled

theorem closeGroup_extend (filled : 1 ≤ s.rest.length) :
    (s.extend tail).closeGroup = s.closeGroup.extend tail := by
  refine ite_extend Iff.rfl (fun _ => copy_extend _ _ filled) (fun _ => ?_)
  have frames : (s.extend tail).frames = s.frames := rfl
  rw [frames]
  cases s.frames with
  | nil => exact copy_extend _ _ filled
  | cons frame frames =>
      dsimp only
      rw [emitClose_extend filled]
      rfl

theorem comment_extend (filled : 1 ≤ s.rest.length)
    (seen : s.inClass = true ∨ commentLength (s.rest ++ tail) ≤ s.rest.length) :
    (s.extend tail).comment = s.comment.extend tail := by
  refine ite_extend Iff.rfl (fun _ => copy_extend _ _ filled) (fun outside => ?_)
  refine ite_extend Iff.rfl (fun _ => dropEscape_copy_extend filled) (fun _ => ?_)
  have short := seen.resolve_left outside
  have same : commentLength (s.rest ++ tail) = commentLength s.rest := by
    unfold commentLength at short ⊢
    rw [Text.takeWhile_short (by omega)]
  rw [rest_extend, same]
  exact skip_extend _ _ (by omega)

theorem nul_extend (fits : 2 ≤ s.rest.length)
    (seen : ((s.rest.drop 2 ++ tail).head?.any isBlank &&
        (Text.firstSignificant? (s.rest.drop 2 ++ tail)).any isDigit) =
      ((s.rest.drop 2).head?.any isBlank && (Text.firstSignificant? (s.rest.drop 2)).any isDigit)) :
    (s.extend tail).nul = s.nul.extend tail := by
  have rest : (s.extend tail).rest.drop 2 = s.rest.drop 2 ++ tail :=
    List.drop_append_of_le_length fits
  refine ite_extend (by rw [rest, seen]) (fun _ => ?_) (fun _ => copy_extend _ _ fits)
  rw [copy_extend _ _ fits]
  rfl

theorem escapedDigit_extend {digit : Char} (fits : 2 ≤ s.rest.length)
    (digits : Text.digits (s.rest.drop 1 ++ tail) = Text.digits (s.rest.drop 1))
    (seen : ((s.rest.drop 2 ++ tail).head?.any isBlank &&
        (Text.firstSignificant? (s.rest.drop 2 ++ tail)).any isDigit) =
      ((s.rest.drop 2).head?.any isBlank && (Text.firstSignificant? (s.rest.drop 2)).any isDigit)) :
    Alike tail (s.escapedDigit digit) ((s.extend tail).escapedDigit digit) := by
  have rest : (s.extend tail).rest.drop 1 = s.rest.drop 1 ++ tail :=
    List.drop_append_of_le_length (by omega)
  refine Alike.ite Iff.rfl (fun _ => .of_eq (copy_extend _ _ fits)) (fun _ => ?_)
  rw [rest, digits]
  have room : 1 + (Text.digits (s.rest.drop 1)).length ≤ s.rest.length := by
    have short := (List.takeWhile_sublist isDigit (l := s.rest.drop 1)).length_le
    rw [List.length_drop] at short
    unfold Text.digits
    omega
  have splice : (s.extend tail).splice.filter (·.stop == (s.extend tail).out.size) =
      s.splice.filter (·.stop == s.out.size) := rfl
  rw [splice]
  cases s.splice.filter (·.stop == s.out.size) with
  | none =>
      refine Alike.ite Iff.rfl (fun _ => .of_eq (nul_extend fits seen)) (fun _ => .error _ _)
  | some splice =>
      apply Alike.of_eq
      have skipped := skip_extend { s with groups := s.groups.suppress splice.slot } tail room
      exact congrArg (fun t => { State.emitReference t splice.slot with splice := none }) skipped

def admits (options : Options) (letter : Char) (after : Text) : Bool :=
  !options.extra || (checkEscape options.unicode letter after).toBool

theorem escapedLetter_admitted {letter : Char}
    (passes : admits options letter (s.rest.drop 2) = true) :
    s.escapedLetter options letter = .ok (s.copy
      (2 + if letter == 'u' && options.unicode then bracedLength (s.rest.drop 2) else 0)) := by
  unfold escapedLetter
  unfold admits at passes
  cases extra : options.extra with
  | false => rfl
  | true =>
      rw [extra] at passes
      cases checked : checkEscape options.unicode letter (s.rest.drop 2) with
      | ok _ =>
          dsimp only
          rw [checked]
          rfl
      | error fault => simp [checked, Except.toBool] at passes

theorem escapedLetter_refused {letter : Char}
    (fails : admits options letter (s.rest.drop 2) = false) :
    ∃ fault, s.escapedLetter options letter = .error fault := by
  unfold escapedLetter
  unfold admits at fails
  cases extra : options.extra with
  | false => simp [extra] at fails
  | true =>
      rw [extra] at fails
      cases checked : checkEscape options.unicode letter (s.rest.drop 2) with
      | ok _ => simp [checked, Except.toBool] at fails
      | error fault =>
          refine ⟨fault, ?_⟩
          dsimp only
          rw [checked]
          rfl

theorem escapedLetter_extend {letter : Char} (fits : 2 ≤ s.rest.length)
    (checked : admits options letter (s.rest.drop 2 ++ tail) =
      admits options letter (s.rest.drop 2))
    (seen : (letter == 'u' && options.unicode) = true →
      bracedLength (s.rest.drop 2 ++ tail) = bracedLength (s.rest.drop 2)) :
    Alike tail (s.escapedLetter options letter) ((s.extend tail).escapedLetter options letter) := by
  have rest : (s.extend tail).rest.drop 2 = s.rest.drop 2 ++ tail :=
    List.drop_append_of_le_length fits
  cases passes : admits options letter (s.rest.drop 2) with
  | true =>
      rw [escapedLetter_admitted passes, escapedLetter_admitted (by rw [rest, checked, passes])]
      apply Alike.of_eq
      have same : (if letter == 'u' && options.unicode then
            bracedLength ((s.extend tail).rest.drop 2) else 0) =
          if letter == 'u' && options.unicode then bracedLength (s.rest.drop 2) else 0 := by
        split
        · rename_i braced
          rw [rest, seen braced]
        · rfl
      rw [same]
      apply copy_extend
      have room := bracedLength_le (s.rest.drop 2)
      rw [List.length_drop] at room
      split <;> omega
  | false =>
      obtain ⟨fault, failed⟩ := escapedLetter_refused passes
      have longer : admits options letter ((s.extend tail).rest.drop 2) = false := by
        rw [rest, checked, passes]
      obtain ⟨other, failedToo⟩ := escapedLetter_refused longer
      rw [failed, failedToo]
      exact .error _ _

theorem flagsDelimiter_extend (filled : 1 ≤ s.rest.length) (class_ : s.inClass = true) (c : Char) :
    Alike tail (s.flagsDelimiter c) ((s.extend tail).flagsDelimiter c) := by
  refine Alike.ite Iff.rfl (fun _ => .of_eq (copy_extend _ _ filled)) (fun outside => ?_)
  simp [class_] at outside

/-- What a construct needs to see alike. -/
def Sees (s : State) (options : Options) (tail : Text) : Construct → Prop
  | .blank _ => s.inOpenBraces = true ∨
      (Text.firstSignificant? (s.rest.drop 1 ++ tail)).any s.continuesEscape =
        (Text.firstSignificant? (s.rest.drop 1)).any s.continuesEscape
  | .numberReference => Text.digits (s.rest.drop 1 ++ tail) = Text.digits (s.rest.drop 1)
  | .nameReference form => s.inClass = true ∨
      Text.name? (s.rest.drop form.opener.length ++ tail) =
        Text.name? (s.rest.drop form.opener.length)
  | .openGroup form => s.inClass = true ∨ s.SeesGroup tail form
  | .comment => s.inClass = true ∨ commentLength (s.rest ++ tail) ≤ s.rest.length
  | .escapedDigit _ => Text.digits (s.rest.drop 1 ++ tail) = Text.digits (s.rest.drop 1) ∧
      ((s.rest.drop 2 ++ tail).head?.any isBlank &&
          (Text.firstSignificant? (s.rest.drop 2 ++ tail)).any isDigit) =
        ((s.rest.drop 2).head?.any isBlank && (Text.firstSignificant? (s.rest.drop 2)).any isDigit)
  | .escapedLetter letter =>
      admits options letter (s.rest.drop 2 ++ tail) = admits options letter (s.rest.drop 2) ∧
        ((letter == 'u' && options.unicode) = true →
          bracedLength (s.rest.drop 2 ++ tail) = bracedLength (s.rest.drop 2))
  | .flagsDelimiter _ => s.inClass = true
  | .openClass | .closeClass | .dot | .quantifier _ | .closeGroup => True

theorem read_extend {construct : Construct} (filled : 1 ≤ s.rest.length)
    (fits : construct.length ≤ s.rest.length) (sees : s.Sees options tail construct) :
    Alike tail (s.read options construct) ((s.extend tail).read options construct) := by
  cases construct with
  | blank c => exact .of_eq (blank_extend filled sees)
  | openClass => exact .of_eq (openClass_extend filled)
  | closeClass => exact .of_eq (closeClass_extend filled)
  | dot => exact .of_eq (dot_extend filled options)
  | quantifier q => exact quantifier_extend filled fits
  | numberReference => exact numberReference_extend filled sees
  | nameReference form => exact nameReference_extend filled fits sees
  | openGroup form => exact openGroup_extend filled fits sees
  | closeGroup => exact .of_eq (closeGroup_extend filled)
  | comment => exact .of_eq (comment_extend filled sees)
  | escapedDigit digit => exact escapedDigit_extend fits sees.1 sees.2
  | escapedLetter letter => exact escapedLetter_extend fits sees.1 sees.2
  | flagsDelimiter c => exact flagsDelimiter_extend filled sees c

theorem next?_extend (nonempty : s.rest ≠ [])
    (ends : Construct.Ends s.rest ((s.extend tail).next? delimiter)) :
    (s.extend tail).next? delimiter = s.next? delimiter := by
  cases rest : s.rest with
  | nil => exact absurd rest nonempty
  | cons c more =>
      unfold next? at ends ⊢
      rw [rest_extend, rest] at ends ⊢
      by_cases same : delimiter = some c
      · exact (if_pos same).trans (if_pos same).symm
      · rw [List.cons_append] at ends ⊢
        rw [Construct.at?_of_ne same] at ends ⊢
        rw [Construct.at?_of_ne same]
        exact (Construct.plain?_cut (by simp) ends).symm

theorem step_extend (nonempty : s.rest ≠ [])
    (ends : Construct.Ends s.rest ((s.extend tail).next? delimiter))
    (sees : ∀ construct, (s.extend tail).next? delimiter = some construct →
      s.Sees options tail construct) :
    Alike tail (s.step options delimiter) ((s.extend tail).step options delimiter) := by
  have filled : 1 ≤ s.rest.length := List.length_pos_iff.mpr nonempty
  unfold step
  rw [← next?_extend nonempty ends]
  cases found : (s.extend tail).next? delimiter with
  | none => exact .of_eq (copyPlain_extend filled)
  | some construct => exact read_extend filled (ends construct found) (sees construct found)

end State

end PatternDialect.Conversion
