import PatternDialect.Proofs.Groups
import PatternDialect.Proofs.Moves
import PatternDialect.Proofs.Shielded

/-! Every step of a conversion that succeeds is one of the moves. -/

namespace PatternDialect

open Character Source

namespace Conversion

namespace State

variable {options : Options} {delimiter : Option Char} {s next : State}

theorem move_copy {count : Nat} (quiet : s.Quiet count (s.rest.take count)) :
    Move options delimiter s .none (s.copy count) := Move.write count _ quiet

theorem move_within (class_ : s.inClass = true) (unescaped : s.escaped = false) {word left : Text}
    (rest : s.rest = word ++ left) (filled : word ≠ []) (stays : Place.inClass.within word = true) :
    Move options delimiter s .none (s.copy word.length) := by
  have taken : s.rest.take word.length = word := by simp [rest]
  apply move_copy
  apply Quiet.copy_of_within
  · rwa [taken]
  · rwa [taken, place_of_inClass class_ unescaped]

theorem move_copyPlain_inClass (class_ : s.inClass = true) {c : Char} {more : Text}
    (rest : s.rest = c :: more) (open_ : c ≠ ']' ∨ s.escaped = true) :
    Move options delimiter s .none s.copyPlain := by
  rw [copyPlain_eq rest]
  apply Move.write
  split
  · rename_i condition
    simp only [Bool.and_eq_true] at condition
    exact Quiet.of_parted (Or.inl class_) rest condition.1
  · have one : s.rest.take 1 = [c] := by simp [rest]
    rw [← one]
    exact Quiet.copy_inClass class_ rest open_

theorem move_inClass (class_ : s.inClass = true) (other : delimiter ≠ some ']')
    (nonempty : s.rest ≠ []) (ok : s.step options delimiter = .ok next) :
    Move options delimiter s .none next := by
  obtain ⟨c, more, rest⟩ := List.exists_cons_of_ne_nil nonempty
  cases escape : s.escaped with
  | true =>
      rw [step_escaped escape rest, passed, class_] at ok
      simp only [Bool.not_true, Bool.and_false, Bool.false_eq_true, ↓reduceIte] at ok
      split at ok
      · cases ok
        exact move_copy (Quiet.copy_inClass class_ rest (Or.inr escape))
      · cases ok
        exact move_copyPlain_inClass class_ rest (Or.inr escape)
  | false =>
      unfold step at ok
      cases found : s.next? delimiter with
      | none =>
          rw [found] at ok
          cases ok
          rw [next?, rest] at found
          exact move_copyPlain_inClass class_ rest (Or.inl (Construct.idle_of_at? found).other.2.1)
      | some construct =>
          have stands := Construct.stands_of_at? found
          rw [found] at ok
          have copied (open_ : construct ≠ .closeClass) (noLetter : ∀ l,
              construct ≠ .escapedLetter l)
              (noDelimiter : ∀ d, construct ≠ .flagsDelimiter d) :
              Move options delimiter s .none next := by
            obtain ⟨word, left, parts, filled, unclosing, read⟩ :=
              @read_inClass options delimiter s class_ escape construct stands open_
                noLetter noDelimiter
            cases read.symm.trans ok
            exact move_within class_ escape parts filled unclosing.within
          cases construct with
          | closeClass =>
              obtain ⟨_, more, rest⟩ := stands
              obtain ⟨start, opened⟩ := Option.isSome_iff_exists.mp class_
              simp only [read, State.closeClass, opened, escape, Bool.false_eq_true, ↓reduceIte,
                Except.ok.injEq] at ok
              subst ok
              exact Move.closeClass start more rest opened escape
          | escapedLetter l =>
              obtain ⟨word, left, parts, filled, unclosing, rfl⟩ := letter_inClass stands ok
              exact move_within class_ escape parts filled unclosing.within
          | flagsDelimiter d =>
              obtain ⟨same, more, rest⟩ := stands
              simp only [read, State.flagsDelimiter, class_, Bool.true_or, ↓reduceIte,
                Except.ok.injEq] at ok
              subst ok
              have open_ : d ≠ ']' := by
                rintro rfl
                exact other same
              exact move_copy (Quiet.copy_inClass class_ rest (Or.inl open_))
          | _ => exact copied (by simp) (by simp) (by simp)

theorem move_escaped (ready : s.Ready) (class_ : s.inClass = false) (escape : s.escaped = true)
    (nonempty : s.rest ≠ []) (ok : s.step options delimiter = .ok next) :
    Move options delimiter s .none next := by
  obtain ⟨c, more, rest⟩ := List.exists_cons_of_ne_nil nonempty
  have single : Move options delimiter s .none (s.copy 1) :=
    move_copy (Quiet.copy_escaped ready class_ escape rest)
  rw [step_escaped escape rest, passed] at ok
  split at ok
  · cases ok
    exact single
  · split at ok
    · rename_i hidden
      cases ok
      refine Move.restore c more rest (place_eq_escape class_ escape) ?_
      simpa [class_] using hidden
    · cases ok
      have noDigit : isDigit c = false := by simpa [rest] using ready escape class_
      rw [copyPlain_of_not_digit rest noDigit]
      exact single

theorem bind_ok {α β : Type} {first : Except Fault α} {then_ : α → Except Fault β} {result : β}
    (ok : first >>= then_ = .ok result) :
      ∃ value, first = .ok value ∧ then_ value = .ok result := by
  cases first with
  | error fault => contradiction
  | ok value => exact ⟨value, rfl, ok⟩

theorem action_outside (place : s.place = .outside) {construct : Construct}
    (found : s.next? delimiter = some construct) :
    s.action options delimiter = s.actionOf options construct := by
  unfold action
  rw [found, inClass_of_place place, escaped_of_place place]
  rfl

theorem resolveDigits_bounds {digits : Text} {slot : Nat} (ok : s.resolveDigits digits = .ok slot) :
    0 < slot ∧ slot < s.groups.size := by
  unfold resolveDigits at ok
  cases number : Decimal.read? digits with
  | none =>
      rw [number] at ok
      contradiction
  | some n =>
      rw [number] at ok
      exact GroupTable.resolveNumber_bounds ok

theorem resolve_bounds {name : Text} {slot : Nat} (ok : s.resolve name = .ok slot) :
    0 < slot ∧ slot < s.groups.size := by
  unfold resolve at ok
  split at ok
  · exact resolveDigits_bounds ok
  · exact GroupTable.resolveName_bounds ok

theorem move_numberReference (place : s.place = .outside)
    (found : s.next? delimiter = some .numberReference) (ok : s.numberReference = .ok next) :
    Move options delimiter s (s.action options delimiter) next := by
  obtain ⟨d, more, rest, digit⟩ := Construct.stands_of_at? found
  simp only [State.numberReference, inClass_of_place place, escaped_of_place place, Bool.or_self,
    Bool.false_eq_true, ↓reduceIte] at ok
  obtain ⟨slot, resolved, equality⟩ := bind_ok ok
  cases equality
  rw [action_outside place found, actionOf, resolved, referred]
  obtain ⟨positive, bound⟩ := resolveDigits_bounds resolved
  apply Move.refer slot _ positive bound place
  apply place_skip place
  apply escaped_skip_of_plain (escaped_of_place place)
  intro c member
  rw [rest, Nat.add_comm, List.take_succ_cons] at member
  rcases List.mem_cons.mp member with rfl | member
  · decide
  · have taken :
        (d :: more).take (Text.digits ((s.rest).drop 1)).length = Text.digits (d :: more) := by
      rw [rest]
      exact (List.prefix_iff_eq_take.mp (List.takeWhile_prefix isDigit)).symm
    rw [rest] at taken
    rw [taken] at member
    exact Reader.isDigit_ne_backslash (List.all_eq_true.mp List.all_takeWhile c member)

theorem name?_spec {text name : Text} (found : Text.name? text = some name) :
    ∃ more, text = name ++ '>' :: more := by
  unfold Text.name? at found
  dsimp only at found
  split at found
  · contradiction
  · split at found
    · rename_i closing
      cases found
      have parts : text.takeWhile isWord ++ text.dropWhile isWord = text :=
        List.takeWhile_append_dropWhile
      cases dropped : text.dropWhile isWord with
      | nil =>
          rw [dropped] at closing
          contradiction
      | cons c more =>
          rw [dropped, List.head?_cons, Option.some.injEq] at closing
          rw [dropped, closing] at parts
          exact ⟨more, parts.symm⟩
    · contradiction

theorem escaped_skip_name (before : Text) {name : Text} {count : Nat}
    (found : Text.name? (s.rest.drop before.length) = some name)
    (rest : s.rest.take before.length = before) (length : count = before.length + name.length + 1) :
    (s.skip count).escaped = false := by
  obtain ⟨more, equality⟩ := name?_spec found
  have whole : s.rest = (before ++ name) ++ ['>'] ++ more := by
    calc s.rest = s.rest.take before.length ++ s.rest.drop before.length :=
          (List.take_append_drop _ _).symm
      _ = _ := by rw [rest, equality]; simp
  have taken : s.rest.take count = before ++ name ++ ['>'] := by
    rw [whole]
    apply List.take_left'
    simp only [List.length_append, List.length_singleton, length]
  exact escaped_skip_of_last _ taken (by decide)

theorem nameReference_ok (place : s.place = .outside) {form : NameReference}
    (ok : s.nameReference form = .ok next) :
    ∃ name slot, Text.name? (s.rest.drop form.opener.length) = some name ∧
      s.resolve name = .ok slot ∧
        next = (s.skip (form.opener.length + name.length + 1)).emitReference slot := by
  simp only [State.nameReference, inClass_of_place place, escaped_of_place place,
    Bool.false_eq_true, ↓reduceIte] at ok
  cases named : Text.name? (s.rest.drop form.opener.length) with
  | none =>
      rw [named] at ok
      contradiction
  | some name =>
      rw [named] at ok
      unfold resolve
      dsimp only at ok
      split at ok
      · rename_i number
        obtain ⟨slot, resolved, equality⟩ := bind_ok ok
        exact ⟨name, slot, rfl, by rwa [if_pos number], (Except.ok.inj equality).symm⟩
      · rename_i number
        obtain ⟨slot, resolved, equality⟩ := bind_ok ok
        exact ⟨name, slot, rfl, by rwa [if_neg number], (Except.ok.inj equality).symm⟩

theorem move_nameReference (place : s.place = .outside) {form : NameReference}
    (found : s.next? delimiter = some (.nameReference form))
    (ok : s.nameReference form = .ok next) :
    Move options delimiter s (s.action options delimiter) next := by
  obtain ⟨_, more, rest⟩ := Construct.stands_of_at? found
  obtain ⟨name, slot, named, resolved, rfl⟩ := nameReference_ok place ok
  rw [action_outside place found, actionOf, named]
  dsimp only
  rw [resolved, referred]
  obtain ⟨positive, bound⟩ := resolve_bounds resolved
  apply Move.refer slot _ positive bound place
  apply place_skip place
  apply escaped_skip_name form.opener named _ rfl
  simp [rest]

theorem openNamed_ok (ok : s.openNamed = .ok next) :
    ∃ name, Text.name? (s.rest.drop 3) = some name ∧
      next = (({ s with groups := s.groups.push (.named name) }.emit ['(']).skip
        (3 + name.length + 1)).openFrame (.capture s.groups.size) s.out.size s.groups.size := by
  unfold openNamed at ok
  cases named : Text.name? (s.rest.drop 3) with
  | none =>
      rw [named] at ok
      contradiction
  | some name =>
      rw [named] at ok
      obtain ⟨groups, pushed, equality⟩ := bind_ok ok
      cases equality
      have table : groups = s.groups.push (.named name) := by
        unfold GroupTable.pushNamed at pushed
        split at pushed
        · contradiction
        split at pushed
        · contradiction
        split at pushed
        · contradiction
        exact (Except.ok.inj pushed).symm
      rw [table]
      exact ⟨name, rfl, rfl⟩

theorem move_openNamed (place : s.place = .outside)
    (found : s.next? delimiter = some (.openGroup .named)) (ok : s.openNamed = .ok next) :
    Move options delimiter s (s.action options delimiter) next := by
  obtain ⟨more, rest, opener⟩ := Construct.stands_of_at? found
  obtain ⟨name, named, rfl⟩ := openNamed_ok ok
  rw [action_outside place found, actionOf, slotOf, named, Option.map_some]
  have opening : s.Opening options (.capture s.groups.size) ['('] (some (.named name)) :=
    .capture _ (by simp)
  apply Move.enter _ _ _ _ opening place
  apply place_skip place
  apply escaped_skip_name ['(', '?', '<'] named _ rfl
  rw [rest]
  unfold Opener.read at opener
  split at opener <;> first | contradiction | skip
  rfl

theorem place_skip_opener (place : s.place = .outside) {form : Opener}
    (found : s.next? delimiter = some (.openGroup form)) :
    s.rest.take form.length = form.text ∧ (s.skip form.length).place = .outside := by
  obtain ⟨more, rest, opener⟩ := Construct.stands_of_at? found
  have taken : s.rest.take form.length = form.text := by
    rw [rest, opener, Opener.take_length]
  refine ⟨taken, place_skip place ?_⟩
  apply escaped_skip_of_plain (escaped_of_place place)
  intro c member
  rw [taken] at member
  exact (Opener.ne_of_mem_text member).1

theorem move_openCapture (place : s.place = .outside)
    (found : s.next? delimiter = some (.openGroup .capture))
    (ok : s.openCapture options = .ok next) :
    Move options delimiter s (s.action options delimiter) next := by
  obtain ⟨taken, after⟩ := place_skip_opener place found
  have one : s.rest.take 1 = ['('] := taken
  rw [action_outside place found, actionOf, slotOf]
  unfold openCapture at ok
  split at ok
  · contradiction
  dsimp only at ok
  cases noCapture : options.noCapture with
  | false =>
      simp only [noCapture, Bool.not_false, ↓reduceIte, Except.ok.injEq] at ok
      subst ok
      have opening : s.Opening options (.capture s.groups.size) ['('] (some .anonymous) :=
        .capture _ (by simp)
      have move : Move options delimiter s _ _ := Move.enter _ _ _ _ opening place after
      rw [← one] at move
      exact move
  | true =>
      cases start : s.atLookaheadStart with
      | true =>
          simp only [noCapture, start, Bool.not_true, Bool.false_eq_true, ↓reduceIte,
            Except.ok.injEq] at ok
          subst ok
          have opening := Opening.hidden noCapture start
          have move : Move options delimiter s _ _ := Move.enter _ _ _ _ opening place after
          rw [← one] at move
          exact move
      | false =>
          simp only [noCapture, start, Bool.not_true, Bool.false_eq_true, ↓reduceIte,
            Except.ok.injEq] at ok
          subst ok
          exact Move.enter _ _ _ _ .plain place after

theorem move_openNative (place : s.place = .outside) {form : Opener}
    (found : s.next? delimiter = some (.openGroup form)) {kind : FrameKind}
    (opening : s.Opening options kind form.text none) :
    Move options delimiter s (.enter none) (s.openNative form kind) := by
  obtain ⟨taken, after⟩ := place_skip_opener place found
  have move : Move options delimiter s _ _ := Move.enter _ _ _ _ opening place after
  rw [← taken] at move
  exact move

theorem move_openGroup (place : s.place = .outside) {form : Opener}
    (found : s.next? delimiter = some (.openGroup form))
    (ok : s.openGroup options form = .ok next) :
    Move options delimiter s (s.action options delimiter) next := by
  simp only [State.openGroup, inClass_of_place place, escaped_of_place place, Bool.false_eq_true,
    ↓reduceIte] at ok
  cases form with
  | capture => exact move_openCapture place found ok
  | named => exact move_openNamed place found ok
  | unknown => contradiction
  | plain =>
      cases ok
      rw [action_outside place found]
      exact move_openNative place found .plain
  | lookahead negative =>
      cases ok
      rw [action_outside place found]
      exact move_openNative place found (.lookahead negative)
  | lookbehind negative =>
      cases ok
      rw [action_outside place found]
      exact move_openNative place found (.lookbehind negative)
  | atomic =>
      cases ok
      rw [action_outside place found]
      exact Move.enter _ _ _ _ .atomic place (place_skip_opener place found).2

theorem wrapEmulated_some (atom : Atom) :
    s.wrapEmulated (some atom) =
      ({ s with out := (atom.prepared s.out).1 }, some (atom.prepared s.out).2) := by
  unfold wrapEmulated Atom.prepared
  cases emulated : atom.emulated with
  | false => simp only [Bool.false_eq_true, ↓reduceIte, emulated]
  | true => simp only [↓reduceIte, emulated]

theorem place_skip_quantifier (place : s.place = .outside) {q : Quantifier}
    (found : s.next? delimiter = some (.quantifier q)) :
    (s.skip q.length).place = .outside := by
  obtain ⟨legible, more, rest⟩ := Construct.stands_of_at? found
  apply place_skip place
  apply escaped_skip_of_plain (escaped_of_place place)
  intro c member
  have taken : s.rest.take q.length = q.text := by
    rw [← Quantifier.length_text, rest]
    simp
  rw [taken] at member
  exact (Repeat.ne_of_isAmount (Quantifier.isAmount_of_mem_text legible member)).1

theorem quantified?_plain (s : State) {q : Quantifier} (mark : q.possessive = false) :
    s.quantified? q = s.atom.filter (·.stop == s.out.size) := by
  simp [quantified?, mark]

theorem quantified_cases {q : Quantifier} {a : Atom} (known : s.quantified? q = some a) :
    (s.atom = some a ∧ a.stop = s.out.size) ∨
      q.possessive = true ∧ s.atom.filter (·.stop == s.out.size) = none ∧
        ∃ unit, Atom.trailingUnit? s.out = some unit ∧
          a = ⟨s.out.size - unit.size, s.out.size, s.groups.size, false⟩ := by
  have recorded : ∀ {b}, s.atom.filter (·.stop == s.out.size) = some b →
      s.atom = some b ∧ b.stop = s.out.size := by
    intro b last
    obtain ⟨same, stop⟩ := Option.filter_eq_some_iff.mp last
    exact ⟨same, by simpa using stop⟩
  cases mark : q.possessive with
  | false =>
      rw [s.quantified?_plain mark] at known
      exact Or.inl (recorded known)
  | true =>
      simp only [quantified?, mark, ↓reduceIte, Atom.trailing?] at known
      cases last : s.atom.filter (·.stop == s.out.size) with
      | some b =>
          rw [last, Option.filter_some, if_pos (by simpa using (recorded last).2)] at known
          obtain rfl := Option.some.inj known
          exact Or.inl (recorded last)
      | none =>
          rw [last] at known
          obtain ⟨unit, trailing, rfl⟩ := Option.map_eq_some_iff.mp known
          exact Or.inr ⟨rfl, rfl, unit, trailing, rfl⟩

theorem quantify_possessive {q : Quantifier} (mark : q.possessive = true)
    (ok : s.quantify options q = .ok next) :
    ∃ atom, s.quantified? q = some atom ∧ next = s.possessed atom q := by
  unfold quantify at ok
  cases quantified : s.quantified? q with
  | none =>
      rw [quantified] at ok
      simp only [wrapEmulated, mark, ↓reduceIte] at ok
      contradiction
  | some atom =>
      rw [quantified, wrapEmulated_some] at ok
      simp only [mark, ↓reduceIte, Except.ok.injEq] at ok
      exact ⟨atom, rfl, ok.symm⟩

theorem quantify_plain {q : Quantifier} (mark : q.possessive = false)
    (ok : s.quantify options q = .ok next) :
    next = { s with
      out := s.prepared (s.atom.filter (·.stop == s.out.size)) ++ q.render options.ungreedy
      atom := none }.skip q.length := by
  unfold quantify at ok
  rw [s.quantified?_plain mark] at ok
  cases last : s.atom.filter (·.stop == s.out.size) with
  | none =>
      rw [last] at ok
      simp only [wrapEmulated, mark, Bool.false_eq_true, ↓reduceIte, Except.ok.injEq] at ok
      exact ok.symm
  | some atom =>
      rw [last, wrapEmulated_some] at ok
      simp only [mark, Bool.false_eq_true, ↓reduceIte, Except.ok.injEq] at ok
      exact ok.symm

theorem quantify_of_quantifier (place : s.place = .outside) {q : Quantifier}
    (ok : s.quantifier options q = .ok next) :
    s.brokenCut? q = none ∧ s.quantify options q = .ok next := by
  simp only [State.quantifier, inClass_of_place place, escaped_of_place place,
    Bool.false_eq_true, ↓reduceIte] at ok
  split at ok
  · contradiction
  · rename_i whole
    exact ⟨whole, ok⟩

theorem quantifier_of_quantify (place : s.place = .outside) {q : Quantifier}
    (whole : s.brokenCut? q = none) : s.quantifier options q = s.quantify options q := by
  simp only [State.quantifier, inClass_of_place place, escaped_of_place place,
    Bool.false_eq_true, ↓reduceIte, whole]

theorem move_quantifier (place : s.place = .outside) {q : Quantifier}
    (found : s.next? delimiter = some (.quantifier q))
    (ok : s.quantifier options q = .ok next) :
    Move options delimiter s (s.action options delimiter) next := by
  have after := place_skip_quantifier place found
  rw [action_outside place found, actionOf]
  obtain ⟨_, ok⟩ := quantify_of_quantifier place ok
  cases mark : q.possessive with
  | true =>
      obtain ⟨atom, quantified, rfl⟩ := quantify_possessive mark ok
      rw [quantified]
      exact Move.possess q atom found place mark quantified after
  | false =>
      rw [quantify_plain mark ok]
      exact Move.repeat_ q found mark place after

theorem move_closeGroup (place : s.place = .outside)
    (found : s.next? delimiter = some .closeGroup) :
    Move options delimiter s (s.action options delimiter) s.closeGroup := by
  obtain ⟨more, rest⟩ := Construct.stands_of_at? found
  rw [action_outside place found, actionOf]
  unfold State.closeGroup
  rw [inClass_of_place place, escaped_of_place place]
  cases frames : s.frames with
  | nil =>
      exact move_copy (Quiet.copy_outside place rest (by decide) (by decide) (by decide)
        (fun equality => absurd equality (by decide)) (fun _ => by decide))
  | cons frame outer => exact Move.leave frame outer more rest frames place

theorem escaped_skip_comment (nonempty : (s.skip (commentLength s.rest)).rest ≠ []) :
    (s.skip (commentLength s.rest)).escaped = false := by
  have parts : s.rest.takeWhile (!isLineEnd ·) ++ s.rest.dropWhile (!isLineEnd ·) = s.rest :=
    List.takeWhile_append_dropWhile
  cases dropped : s.rest.dropWhile (!isLineEnd ·) with
  | nil =>
      rw [dropped, List.append_nil] at parts
      have empty : (s.skip (commentLength s.rest)).rest = [] := by
        simp only [State.skip, commentLength]
        rw [parts]
        simp
      exact absurd empty nonempty
  | cons c more =>
      have ending : isLineEnd c = true := by
        have first := List.head_dropWhile_not (fun x => !isLineEnd x) (l := s.rest)
          (by rw [dropped]; simp)
        simpa [dropped] using first
      have taken : s.rest.take (commentLength s.rest) =
          s.rest.takeWhile (!isLineEnd ·) ++ [c] := by
        rw [dropped] at parts
        have whole : s.rest = (s.rest.takeWhile (!isLineEnd ·) ++ [c]) ++ more := by
          rw [List.append_assoc]
          exact parts.symm
        calc s.rest.take (commentLength s.rest)
            = ((s.rest.takeWhile (!isLineEnd ·) ++ [c]) ++ more).take (commentLength s.rest) := by
              rw [← whole]
          _ = _ := List.take_left' (by simp [commentLength])
      apply escaped_skip_of_last _ taken
      rintro rfl
      exact absurd ending (by decide)

theorem move_comment (place : s.place = .outside) :
    Move options delimiter s .none s.comment := by
  have dropped : s.comment = (s.emit []).skip (commentLength s.rest) := by
    unfold State.comment
    rw [inClass_of_place place, escaped_of_place place, if_neg (by decide), if_neg (by decide)]
    simp
  rw [dropped]
  exact Move.write _ _ (Quiet.of_dropped place escaped_skip_comment (Or.inl rfl))

theorem move_escapedDigit (place : s.place = .outside) {digit : Char}
    (found : s.next? delimiter = some (.escapedDigit digit))
    (ok : s.escapedDigit digit = .ok next) :
    Move options delimiter s (s.action options delimiter) next := by
  obtain ⟨_, isDigit, more, rest⟩ := Construct.stands_of_at? found
  rw [action_outside place found, actionOf]
  simp only [State.escapedDigit, inClass_of_place place, Bool.false_eq_true, ↓reduceIte] at ok
  cases last : s.splice.filter (·.stop == s.out.size) with
  | some splice =>
      rw [last] at ok
      cases ok
      obtain ⟨recorded, stop⟩ := Option.filter_eq_some_iff.mp last
      apply Move.splice splice _ recorded (by simpa using stop) place
      apply place_skip place
      have behind : s.rest.drop 1 = digit :: more := by simp [rest]
      have taken : s.rest.take (1 + (Text.digits (s.rest.drop 1)).length) =
          '\\' :: Text.digits (digit :: more) := by
        rw [behind, rest, Nat.add_comm, List.take_succ_cons]
        congr 1
        exact (List.prefix_iff_eq_take.mp (List.takeWhile_prefix Character.isDigit)).symm
      have digits : Text.digits (digit :: more) = digit :: more.takeWhile Character.isDigit := by
        simp [Text.digits, isDigit]
      have all : ∀ c ∈ Text.digits (digit :: more), Character.isDigit c = true := fun c member =>
        List.all_eq_true.mp List.all_takeWhile c member
      rw [digits] at all
      rw [digits] at taken
      cases final : more.takeWhile Character.isDigit using List.reverseRecOn with
      | nil =>
          rw [final] at taken
          exact escaped_skip_of_last ['\\'] taken
            (Reader.isDigit_ne_backslash (all digit (by simp)))
      | append_singleton front c =>
          rw [final] at taken
          exact escaped_skip_of_last ('\\' :: digit :: front) taken
            (Reader.isDigit_ne_backslash (all c (by simp [final])))
  | none =>
      rw [last] at ok
      dsimp only at ok
      split at ok
      · rename_i condition
        simp only [Bool.and_eq_true, beq_iff_eq] at condition
        obtain ⟨zero, _⟩ := condition
        subst zero
        have taken : s.rest.take 2 = ['\\', '0'] := by simp [rest]
        have unescaped : (s.skip 2).escaped = false :=
          escaped_skip_of_last ['\\'] taken (by decide)
        cases ok
        change Move options delimiter s .none s.nul
        unfold nul
        dsimp only
        split
        · have joined : (s.copy 2).emit separator =
              (s.emit ('\\' :: '0' :: separator)).skip 2 := by
            simp [copy, emit, State.skip, taken]
          rw [joined]
          exact Move.write _ _ (Quiet.of_escape place unescaped (Or.inr rfl) (Or.inr rfl))
        · apply move_copy
          rw [taken]
          exact Quiet.of_escape place unescaped (Or.inr rfl) (Or.inl rfl)
      · contradiction

theorem move_escapedLetter (place : s.place = .outside) {letter : Char}
    (found : s.next? delimiter = some (.escapedLetter letter))
    (ok : s.escapedLetter options letter = .ok next) :
    Move options delimiter s .none next := by
  obtain ⟨_, isLetter, more, rest⟩ := Construct.stands_of_at? found
  obtain ⟨count, taken, rfl⟩ := escapedLetter_eq ok
  have behind : s.rest.drop 2 = more := by simp [rest]
  rw [behind] at taken
  have text : s.rest.take (2 + count) = '\\' :: letter :: more.take count := by
    rw [rest, Nat.add_comm 2 count]
    rfl
  have noDigit : isDigit letter = false := by
    simp only [Character.isLetter, Bool.or_eq_true, Bool.and_eq_true, decide_eq_true_eq] at isLetter
    rw [isDigit, Bool.and_eq_false_iff]
    right
    simp only [decide_eq_false_iff_not, Char.not_le]
    rcases isLetter with ⟨low, _⟩ | ⟨low, _⟩
    · exact Nat.lt_of_lt_of_le (by decide) low
    · exact Nat.lt_of_lt_of_le (by decide) low
  have other : letter ≠ '\\' := by
    rintro rfl
    exact absurd isLetter (by decide)
  have unescaped : (s.skip (2 + count)).escaped = false := by
    cases final : more.take count using List.reverseRecOn with
    | nil =>
        rw [final] at text
        exact escaped_skip_of_last ['\\'] text other
    | append_singleton front c =>
        rw [final] at text
        exact escaped_skip_of_last ('\\' :: letter :: front) text
          (ne_of_mem_taken taken (c := c) (by simp [final])).1
  apply move_copy
  rw [text]
  apply Quiet.of_escape place unescaped (Or.inl noDigit)
  left
  simp only [Place.isFlat, List.all_eq_true, Bool.and_eq_true, bne_iff_ne]
  intro c member
  have ne := ne_of_mem_taken taken member
  exact ⟨⟨ne.1, ne.2.1⟩, ne.2.2.2⟩

theorem move_blank (place : s.place = .outside) {c : Char}
    (found : s.next? delimiter = some (.blank c)) : Move options delimiter s .none s.blank := by
  obtain ⟨blank, more, rest⟩ := Construct.stands_of_at? found
  have unescaped : (s.skip 1).escaped = false := by
    have taken : s.rest.take 1 = [] ++ [c] := by simp [rest]
    apply escaped_skip_of_last _ taken
    rintro rfl
    exact absurd blank (by decide)
  have quiet : ∀ {text : Text}, text = [] ∨ text = separator → s.Quiet 1 text := fun dropped =>
    Quiet.of_dropped place (fun _ => unescaped) dropped
  unfold State.blank
  rw [inClass_of_place place, escaped_of_place place, if_neg (by decide), if_neg (by decide)]
  unfold dropBlank
  dsimp only
  split
  · exact Move.write 1 separator (quiet (Or.inr rfl))
  · have same : s.skip 1 = (s.emit []).skip 1 := by simp
    rw [same]
    exact Move.write 1 [] (quiet (Or.inl rfl))

theorem move_plain (place : s.place = .outside) (nonempty : s.rest ≠ [])
    (found : s.next? delimiter = none) : Move options delimiter s .none s.copyPlain := by
  cases rest : s.rest with
  | nil => exact absurd rest nonempty
  | cons c more =>
      rw [next?, rest] at found
      have idle := Construct.idle_of_at? found
      obtain ⟨open_, _, _, _, _, mark, parenthesis, _, _⟩ := idle.other
      rw [copyPlain_eq rest]
      apply Move.write
      split
      · rename_i condition
        simp only [Bool.and_eq_true] at condition
        exact Quiet.of_parted (Or.inr place) rest condition.1
      · rename_i condition
        have one : s.rest.take 1 = [c] := by simp [rest]
        rw [← one]
        apply Quiet.copy_outside place rest open_ parenthesis mark
        · intro backslash
          have behind := idle.backslash backslash (escaped_of_place place)
          cases more with
          | nil => rfl
          | cons d tail =>
              simp only [List.head?_cons, Option.all_some, Bool.and_eq_true] at behind ⊢
              exact behind.1
        · intro reference
          simpa [reference] using condition

theorem move_outside (place : s.place = .outside) (nonempty : s.rest ≠ [])
    (ok : s.step options delimiter = .ok next) :
    Move options delimiter s (s.action options delimiter) next := by
  unfold step at ok
  cases found : s.next? delimiter with
  | none =>
      rw [found] at ok
      cases ok
      have nothing : s.action options delimiter = .none := by
        unfold action
        rw [found]
      rw [nothing]
      exact move_plain place nonempty found
  | some construct =>
      have class_ := inClass_of_place place
      have escape := escaped_of_place place
      have same : s.action options delimiter = s.actionOf options construct :=
        action_outside place found
      rw [found] at ok
      cases construct with
      | blank c =>
          cases ok
          rw [same]
          exact move_blank place found
      | openClass =>
          obtain ⟨more, rest⟩ := Construct.stands_of_at? found
          simp only [read, State.openClass, class_, escape, Bool.or_self, Bool.false_eq_true,
            ↓reduceIte, Except.ok.injEq] at ok
          subst ok
          rw [same]
          exact Move.openClass more rest place
      | closeClass =>
          obtain ⟨_, more, rest⟩ := Construct.stands_of_at? found
          have start : s.classStart = none := by simpa [inClass] using class_
          simp only [read, State.closeClass, start, Except.ok.injEq] at ok
          subst ok
          rw [same]
          exact move_copy (Quiet.copy_outside place rest (by decide) (by decide) (by decide)
            (fun equality => absurd equality (by decide)) (fun _ => by decide))
      | dot =>
          obtain ⟨more, rest⟩ := Construct.stands_of_at? found
          rw [same]
          cases ok
          unfold State.dot
          rw [class_, escape]
          cases options.singleLine with
          | false =>
              exact move_copy (Quiet.copy_outside place rest (by decide) (by decide) (by decide)
                (fun equality => absurd equality (by decide)) (fun _ => by decide))
          | true => exact Move.anything more rest place
      | quantifier q => exact move_quantifier place found ok
      | numberReference => exact move_numberReference place found ok
      | nameReference form => exact move_nameReference place found ok
      | openGroup form => exact move_openGroup place found ok
      | closeGroup =>
          cases ok
          exact move_closeGroup place found
      | comment =>
          cases ok
          rw [same]
          exact move_comment place
      | escapedDigit d => exact move_escapedDigit place found ok
      | escapedLetter l =>
          rw [same]
          exact move_escapedLetter place found ok
      | flagsDelimiter c =>
          simp only [read, State.flagsDelimiter, class_, escape, Bool.or_self, Bool.false_eq_true,
            ↓reduceIte] at ok
          split at ok
          · contradiction
          cases ok
          rw [same]
          exact Move.flags place

/-- Every step is one of the moves, unless the class it is in can not be closed. -/
theorem move_of_step (ready : s.Ready) (closable : s.inClass = true → delimiter ≠ some ']')
    (nonempty : s.rest ≠ []) (ok : s.step options delimiter = .ok next) :
    Move options delimiter s (s.action options delimiter) next := by
  cases class_ : s.inClass with
  | true =>
      have nothing : s.action options delimiter = .none := by
        unfold action
        rw [class_]
        split <;> rfl
      rw [nothing]
      exact move_inClass class_ (closable class_) nonempty ok
  | false =>
      cases escape : s.escaped with
      | true =>
          have nothing : s.action options delimiter = .none := by
            unfold action
            rw [class_, escape]
            split <;> rfl
          rw [nothing]
          exact move_escaped ready class_ escape nonempty ok
      | false => exact move_outside (place_eq_outside class_ escape) nonempty ok

end State

end Conversion

end PatternDialect
