import PatternDialect.Proofs.Tokens

/-! A printed tree is converted to the native source of the tree. -/

namespace PatternDialect

open Character Source

namespace Syntax

/-! ### What comes next in a printed text -/

/-- What may follow the text of a tree. -/
def Ended (tail : Text) : Prop := tail = [] ∨ ∃ more, tail = ')' :: more

/-- A text that does not go on with a mark, not even behind blanks. -/
def Unmarked (text : Text) : Prop :=
  text.firstSignificant? ≠ some '?' ∧ text.firstSignificant? ≠ some '+'

theorem Unmarked.head {text : Text} (unmarked : Unmarked text) :
    text.head? ≠ some '?' ∧ text.head? ≠ some '+' := by
  cases text with
  | nil => simp
  | cons c rest =>
      constructor
      · rintro mark
        obtain rfl := Option.some.inj mark
        exact unmarked.1 rfl
      · rintro mark
        obtain rfl := Option.some.inj mark
        exact unmarked.2 rfl

theorem unmarked_cons {c : Char} (visible : isBlank c = false)
    (other : c ≠ '?' ∧ c ≠ '+') (rest : Text) :
    Unmarked (c :: rest) := by
  have first : Text.firstSignificant? (c :: rest) = some c := by
    simp [Text.firstSignificant?, visible]
  simpa [Unmarked, first] using other

theorem Ended.unmarked {tail : Text} (ended : Ended tail) : Unmarked tail := by
  rcases ended with rfl | ⟨more, rfl⟩
  · exact ⟨by simp [Text.firstSignificant?], by simp [Text.firstSignificant?]⟩
  · exact unmarked_cons (by decide) (by decide) more

theorem Layout.unmarked {gap more : Text} (layout : Layout gap) (unmarked : Unmarked more) :
    Unmarked (gap ++ more) := by
  induction layout with
  | none => exact unmarked
  | blank blank _ ih => simpa [Unmarked, Text.firstSignificant?, blank] using ih
  | comment => exact unmarked_cons (by decide) (by decide) _

theorem Leaf.unmarked (leaf : Leaf) (more : Text) : Unmarked (leaf.text ++ more) := by
  cases leaf with
  | literal c plain =>
      obtain ⟨visible, other⟩ := isLiteral_spec plain
      exact unmarked_cons visible ⟨other _ (by simp), other _ (by simp)⟩ more
  | reference target =>
      rcases target with (_ | _) | _ <;> exact unmarked_cons (by decide) (by decide) _
  | dot | bracket | letter | escaped => exact unmarked_cons (by decide) (by decide) _

theorem Form.unmarked (form : Form) (more : Text) : Unmarked (form.text ++ more) := by
  cases form <;> exact unmarked_cons (by decide) (by decide) _

theorem Printed.unmarked {tree : Tree} {text tail : Text} (printed : Printed tree text)
    (ended : Ended tail) : Unmarked (text ++ tail) := by
  cases printed with
  | empty layout => exact layout.unmarked ended.unmarked
  | bar layout =>
      rw [List.append_assoc]
      exact layout.unmarked (unmarked_cons (by decide) (by decide) _)
  | item layout =>
      rw [List.append_assoc, List.append_assoc]
      exact layout.unmarked (Leaf.unmarked _ _)
  | group layout =>
      rw [List.append_assoc, List.append_assoc]
      exact layout.unmarked (Form.unmarked _ _)

end Syntax

namespace Conversion

open Syntax

variable {options : Options} {s : State} {joined : Bool} {more tail : Text}

/-! ### Quantifiers -/

theorem Suffix.amount_ne_nil (suffix : Suffix) : suffix.amount.text ≠ [] := by
  intro empty
  have digit := suffix.amount_spec.2 ['0']
  rw [empty] at digit
  contradiction

theorem Suffix.text_ne_nil (suffix : Suffix) : suffix.quantifier.text ≠ [] := by
  simp [Quantifier.text, Suffix.quantifier, Suffix.amount_ne_nil]

theorem next?_quantifier (suffix : Suffix) (rest : s.rest = suffix.quantifier.text ++ more)
    (unmarked : Unmarked more) : s.next? none = some (.quantifier suffix.quantifier) := by
  obtain ⟨notLazy, notPossessive⟩ := unmarked.head
  have marked : ∃ marks, s.rest = suffix.amount.text ++ marks ∧
      Quantifier.withMarks suffix.amount marks = suffix.quantifier := by
    cases greed : suffix.greed with
    | greedy =>
        refine ⟨more, ?_, ?_⟩
        · simp [rest, Quantifier.text, Suffix.quantifier, greed]
        · simp [Quantifier.withMarks_eq, Suffix.quantifier, greed, notLazy, notPossessive]
    | lazy =>
        refine ⟨'?' :: more, ?_, ?_⟩
        · simp [rest, Quantifier.text, Suffix.quantifier, greed]
        · simp [Quantifier.withMarks_eq, Suffix.quantifier, greed]
    | possessive =>
        refine ⟨'+' :: more, ?_, ?_⟩
        · simp [rest, Quantifier.text, Suffix.quantifier, greed]
        · simp [Quantifier.withMarks_eq, Suffix.quantifier, greed]
  obtain ⟨marks, parts, quantifier⟩ := marked
  cases amount : suffix.amount with
  | star =>
      rw [amount] at parts quantifier
      rw [State.next?_plain parts (by simp)]
      exact congrArg (fun q => some (Construct.quantifier q)) quantifier
  | plus =>
      rw [amount] at parts quantifier
      rw [State.next?_plain parts (by simp)]
      exact congrArg (fun q => some (Construct.quantifier q)) quantifier
  | optional =>
      rw [amount] at parts quantifier
      rw [State.next?_plain parts (by simp)]
      exact congrArg (fun q => some (Construct.quantifier q)) quantifier
  | counted braces =>
      rw [amount] at parts quantifier
      have count := suffix.count braces amount
      obtain ⟨inner, rfl, _⟩ := Repeat.inner_of_isCount count
      have found : Repeat.braces? (inner ++ marks) = some ('{' :: inner) :=
        (Repeat.finds_braces _ _).mpr ⟨count, List.prefix_append _ _⟩
      have next : s.next? none = Construct.afterBrace? (inner ++ marks) := by
        rw [State.next?_plain parts (by simp)]
        rfl
      rw [next, Construct.afterBrace?, found]
      simp [quantifier]

namespace State

variable {front unit : Text} {index count : Nat} {emulated refers : Bool}

theorem Pause.skip (pause : s.Pause joined) (place : (s.skip count).place = .outside) :
    (s.skip count).Pause joined := ⟨place, pause.followed, pause.mark, pause.behind⟩

theorem Unit.skip (unit_ : s.Unit front unit index emulated refers)
    (place : (s.skip count).place = .outside) :
    (s.skip count).Unit front unit index emulated refers :=
  ⟨unit_.toPause.skip place, unit_.out, unit_.found⟩

theorem prepared_span {first : Nat} (out : s.out = front ++ unit) :
    Atom.prepared s.out ⟨front.size, s.out.size, first, emulated⟩ =
      (front ++ enclosed emulated unit,
        ⟨front.size, (front ++ enclosed emulated unit).size, first, false⟩) := by
  have before := Text.takeBytes_add front unit 0
  have behind := Text.dropBytes_add front unit 0
  simp only [Nat.add_zero, Text.takeBytes_zero, Text.dropBytes_zero,
    List.append_nil] at before behind
  cases emulated with
  | false => simp [Atom.prepared, enclosed, out]
  | true => simp [Atom.prepared, Atom.wrap, enclosed, out, before, behind]

theorem Unit.prepared (unit_ : s.Unit front unit index emulated refers) :
    s.prepared (s.atom.filter (·.stop == s.out.size)) = front ++ enclosed emulated unit := by
  rcases unit_.found with ⟨first, recorded, _⟩ | ⟨none_, rfl, _⟩
  · rw [recorded]
    exact congrArg Prod.fst (prepared_span unit_.out)
  · rw [none_]
    simp [State.prepared, enclosed, unit_.out]

theorem Unit.quantified (unit_ : s.Unit front unit index emulated refers) {q : Quantifier}
    (mark : q.possessive = true) :
    ∃ first, s.quantified? q = some ⟨front.size, s.out.size, first, emulated⟩ ∧
      s.groups.clamp first = index := by
  have looked : s.quantified? q =
      Atom.trailing? s.out (s.atom.filter (·.stop == s.out.size)) s.groups := by
    simp [quantified?, mark]
  rw [looked]
  rcases unit_.found with ⟨first, recorded, clamped⟩ | ⟨none_, rfl, trailing, rfl⟩
  · refine ⟨first, ?_, clamped⟩
    rw [recorded]
    simp [Atom.trailing?, Option.filter]
  · refine ⟨s.groups.size, ?_, ?_⟩
    · have start : s.out.size - unit.size = front.size := by
        rw [unit_.out, Text.size_append]
        omega
      rw [none_]
      simp [Atom.trailing?, trailing, start]
    · have positive : 1 ≤ s.groups.size := Nat.le_add_left 1 _
      unfold GroupTable.clamp
      omega

theorem Unit.brokenCut? (unit_ : s.Unit front unit index emulated refers) (q : Quantifier) :
    s.brokenCut? q = none := by
  have whole : (s.out.splitAt? front.size).isNone = false := by
    rw [unit_.out, Text.splitAt?_size_append]
    rfl
  unfold State.brokenCut?
  cases mark : q.possessive with
  | true =>
      obtain ⟨first, known, _⟩ := unit_.quantified mark
      simp [known, Option.filter, whole]
  | false =>
      have looked := s.quantified?_plain mark
      rcases unit_.found with ⟨first, recorded, _⟩ | ⟨none_, _⟩
      · rw [looked, recorded, Option.filter, whole, Bool.and_false]
        rfl
      · rw [looked, none_]
        rfl

theorem possessed_span (out : s.out = front ++ unit) {first : Nat} (q : Quantifier)
    (clamped : s.groups.clamp first = index) :
    (s.possessed ⟨front.size, s.out.size, first, emulated⟩ q).out = front ++ (Atom.atomicOpen ++
        enclosed emulated (Backreference.renumber index 1 unit) ++ q.amount.text ++
          Atom.atomicClose index) ∧
      (s.possessed ⟨front.size, s.out.size, first, emulated⟩ q).groups =
        ⟨s.groups.declared.insertIdx (index - 1) .suppressed⟩ := by
  have before := Text.takeBytes_add front (enclosed emulated unit) 0
  have behind := Text.dropBytes_add front (enclosed emulated unit) 0
  simp only [Nat.add_zero, Text.takeBytes_zero, Text.dropBytes_zero,
    List.append_nil] at before behind
  unfold State.possessed
  rw [prepared_span out]
  constructor
  · simp [markReference, Atom.makePossessive, before, behind, clamped, renumber_enclosed]
  · simp [markReference, Atom.makePossessive, GroupTable.insertSuppressed, clamped]

theorem pause_possessed (q : Quantifier)
    (place : (s.skip q.length).place = .outside) (atom : Atom) :
    (s.possessed atom q).Pause true := by
  refine ⟨place, followed_of_last rfl (inClass_of_place place), ?_, ?_⟩
  · exact beq_self_eq_true _
  · intro a recorded
    obtain rfl := Option.some.inj recorded
    exact Nat.le_refl _

theorem Pause.repeated (pause : s.Pause joined) {q : Quantifier} (filled : q.amount.text ≠ [])
    (place : (s.skip q.length).place = .outside) (options : Options) :
    (s.repeated options q).Pause false := by
  have grown : s.out.size < (s.repeated options q).out.size := by
    have written := size_prepared s (s.atom.filter (·.stop == s.out.size))
    have rendered : q.render options.ungreedy ≠ [] := by
      unfold Quantifier.render
      split <;> simp [filled]
    exact Nat.lt_of_le_of_lt written (size_lt_append rendered)
  refine ⟨place, ?_, (pause.outgrown grown).2, fun a none_ => by contradiction⟩
  intro stop last
  have before := (pause.followed stop last).1
  exact ⟨by omega, fun _ => by omega⟩

end State

def suffixed (options : Options) (emulated : Bool) (index : Nat)
    (suffix : Option Suffix) (unit : Text) :
    Text :=
  repeated options.ungreedy emulated index suffix
    (if Suffix.possessive suffix then Backreference.renumber index 1 unit else unit)

theorem conclude_quantifier {front unit : Text} {index : Nat} {emulated refers : Bool}
    (unit_ : s.Unit front unit index emulated refers) (suffix : Suffix)
    (rest : s.rest = suffix.quantifier.text ++ more) (unmarked : Unmarked more) :
    ∃ next, conclude options none s = conclude options none next ∧ s.Keeps next more ∧
      next.out = front ++ suffixed options emulated index (some suffix) unit ∧
        next.groups.declared = (if Suffix.possessive (some suffix) then
          s.groups.declared.insertIdx (index - 1) .suppressed else s.groups.declared) ∧
          next.Pause (Syntax.refers refers (some suffix)) := by
  have nonempty := Suffix.text_ne_nil suffix
  have length : suffix.quantifier.length = suffix.quantifier.text.length := by simp
  have found := next?_quantifier suffix rest unmarked
  have read : s.step options none = s.quantify options suffix.quantifier := by
    rw [State.step, found]
    exact State.quantifier_of_quantify unit_.place (unit_.brokenCut? _)
  have place := State.place_skip_quantifier unit_.place found
  have behind : s.rest.drop suffix.quantifier.length = more := by rw [rest, length, List.drop_left]
  have filled : s.rest ≠ [] := by simp [rest, nonempty]
  cases mark : suffix.quantifier.possessive with
  | true =>
      have greed : suffix.greed = .possessive := by simpa [Suffix.quantifier] using mark
      obtain ⟨first, known, clamped⟩ := unit_.quantified mark
      obtain ⟨out, groups⟩ := State.possessed_span unit_.out suffix.quantifier clamped
      refine ⟨_, conclude_ok filled (read.trans (State.quantify_possessed mark known)),
        ⟨behind, rfl, rfl⟩, ?_, ?_, ?_⟩
      · rw [out]
        simp [suffixed, repeated_possessive greed, Suffix.possessive, Suffix.quantifier, greed]
      · rw [groups]
        simp [Suffix.possessive, greed]
      · have refers_ : Syntax.refers refers (some suffix) = true := by simp [Syntax.refers, greed]
        rw [refers_]
        exact State.pause_possessed _ place _
  | false =>
      have greed : suffix.greed ≠ .possessive := by simpa [Suffix.quantifier] using mark
      have unmoved : Suffix.possessive (some suffix) = false := by simp [Suffix.possessive, greed]
      refine ⟨_, conclude_ok filled (read.trans (State.quantify_repeated mark)),
        ⟨behind, rfl, rfl⟩, ?_, ?_, ?_⟩
      · change s.prepared _ ++ suffix.quantifier.render options.ungreedy = _
        rw [unit_.prepared, suffixed, unmoved, if_neg (by decide), List.append_assoc]
        congr 1
        cases kind : suffix.greed with
        | possessive => exact absurd kind greed
        | greedy =>
            cases options.ungreedy <;>
              simp [repeated, Quantifier.render, Suffix.quantifier, kind]
        | lazy =>
            cases options.ungreedy <;>
              simp [repeated, Quantifier.render, Suffix.quantifier, kind]
      · rw [unmoved]
        rfl
      · have refers_ : Syntax.refers refers (some suffix) = false := by simp [Syntax.refers, greed]
        rw [refers_]
        exact unit_.toPause.repeated (Suffix.amount_ne_nil suffix) place options

theorem conclude_suffixed {front unit marks : Text} {index : Nat} {emulated refers : Bool}
    {suffix : Option Suffix} (unit_ : s.Unit front unit index emulated refers)
    (whole : Sealed refers s.out) (printed : Suffixed suffix marks) (rest : s.rest = marks ++ more)
    (unmarked : Unmarked more) :
    ∃ next, conclude options none s = conclude options none next ∧ s.Keeps next more ∧
      next.out = front ++ suffixed options emulated index suffix unit ∧
        next.groups.declared = (if Suffix.possessive suffix then
          s.groups.declared.insertIdx (index - 1) .suppressed else s.groups.declared) ∧
          next.Pause (Syntax.refers refers suffix) := by
  cases printed with
  | none => exact ⟨s, rfl, ⟨rest, rfl, rfl⟩, unit_.out, rfl, unit_.toPause⟩
  | some suffix layout =>
      rename_i gap
      rw [List.append_assoc] at rest
      obtain ⟨through, place⟩ : conclude options none s = _ ∧ _ :=
        conclude_layout layout unit_.place whole rest
      have behind : (s.skip gap.length).rest = suffix.quantifier.text ++ more := by
        rw [State.rest_skip, rest, List.drop_left]
      obtain ⟨next, outcome, keeps, result⟩ : ∃ next, conclude options none _ = _ ∧ _ :=
        conclude_quantifier (unit_.skip place) suffix behind unmarked
      exact ⟨next, through.trans outcome, ⟨keeps.rest, keeps.frames, keeps.flags⟩, result⟩

/-! ### Groups -/

namespace State

/-- Whether a group opened here is the first thing in a positive lookahead, where the
lookahead was opened in the output. -/
structure Begins (s : State) (first : Bool) : Prop where
  start : s.atLookaheadStart = first
  opened : ∀ frame ∈ s.frames.head?, frame.start + 3 ≤ s.out.size ∨ frame.kind ≠ .lookahead false

theorem Begins.grown {first : Bool} {next : State} (begins : s.Begins first)
    (frames : next.frames = s.frames) (grown : s.out.size < next.out.size) : next.Begins false := by
  constructor
  · unfold atLookaheadStart
    rw [frames]
    cases inner : s.frames with
    | nil => rfl
    | cons frame outer =>
        rcases begins.opened frame (by simp [inner]) with before | other
        · have beyond : frame.start + 3 ≠ next.out.size := by omega
          simp [beyond]
        · simp [other]
  · rw [frames]
    intro frame inner
    rcases begins.opened frame inner with before | other
    · exact Or.inl (by omega)
    · exact Or.inr other

end State

def kindOf (noCapture first : Bool) (slot : Nat) : Form → FrameKind
  | .capture => if !noCapture || first then .capture slot else .plain
  | .named _ _ => .capture slot
  | .plain | .lookbehind _ => .plain
  | .lookahead negative => .lookahead negative
  | .atomic => .atomic slot

def State.entered (s : State) (options : Options) (first : Bool) (form : Form) : State :=
  (({ s with groups := ⟨s.groups.declared ++ form.slots options.noCapture first⟩ }.emit
    (form.opening options.noCapture first)).skip form.text.length).openFrame
      (kindOf options.noCapture first s.groups.size form) s.out.size s.groups.size

@[simp] theorem State.rest_entered (first : Bool) (form : Form) :
    (s.entered options first form).rest = s.rest.drop form.text.length := rfl

@[simp] theorem State.out_entered (first : Bool) (form : Form) :
    (s.entered options first form).out = s.out ++ form.opening options.noCapture first := rfl

@[simp] theorem State.groups_entered (first : Bool) (form : Form) :
    (s.entered options first form).groups =
      ⟨s.groups.declared ++ form.slots options.noCapture first⟩ := rfl

@[simp] theorem State.frames_entered (first : Bool) (form : Form) :
    (s.entered options first form).frames =
      ⟨kindOf options.noCapture first s.groups.size form, s.out.size, s.groups.size⟩ ::
        s.frames := rfl

theorem Form.plain_text (form : Form) : ∀ c ∈ form.text, c ≠ '\\' := by
  cases form with
  | named name identifier =>
      obtain ⟨_, _, _, _, words⟩ := isIdentifier_spec identifier
      rintro c member rfl
      have inside : '\\' ∈ name := by simpa [Form.text] using member
      exact absurd (words _ inside) (by decide)
  | lookahead negative | lookbehind negative => cases negative <;> simp [Form.text]
  | capture | plain | atomic => simp [Form.text]

theorem State.Pause.entered (pause : s.Pause joined) {form : Form}
    (rest : s.rest = form.text ++ more)
    (first : Bool) : (s.entered options first form).Pause false := by
  obtain ⟨⟨left, opens⟩, _⟩ := form.opening_spec options.noCapture first
  have place : (s.skip form.text.length).place = .outside := by
    apply State.place_skip pause.place
    apply State.escaped_skip_of_plain (State.escaped_of_place pause.place)
    rw [rest, List.take_left]
    exact Form.plain_text form
  have written :
      ((s.emit (form.opening options.noCapture first)).skip form.text.length).Pause false :=
    pause.written (by simp [opens]) place
  exact ⟨written.place, written.followed, written.mark, written.behind⟩

theorem State.begins_entered {first : Bool} {form : Form} :
    (s.entered options first form).Begins form.looksAhead := by
  have three : ∀ negative :
      Bool, Text.size ['(', '?', if negative then '!' else '='] = 3 := by decide
  constructor
  · unfold atLookaheadStart
    rw [State.frames_entered, State.out_entered, Text.size_append]
    cases form with
    | capture =>
        simp only [kindOf]
        split <;> rfl
    | lookahead negative =>
        rw [Form.opening, three]
        cases negative <;> simp [kindOf, Form.looksAhead]
    | named | plain | lookbehind | atomic => rfl
  · rw [State.frames_entered]
    intro frame inner
    obtain rfl := Option.some.inj inner
    rw [State.out_entered, Text.size_append]
    cases form with
    | capture =>
        simp only [kindOf]
        split <;> exact Or.inr (by simp)
    | lookahead negative =>
        rw [Form.opening, three]
        exact Or.inl (Nat.le_refl _)
    | named | plain | lookbehind | atomic => exact Or.inr (by simp [kindOf])

theorem State.entered_native {first : Bool} {form : Form} {opener : Opener} {kind : FrameKind}
    (rest : s.rest = form.text ++ more) (length : form.text.length = opener.length)
    (opening : form.opening options.noCapture first = form.text)
    (slots : form.slots options.noCapture first = [])
    (kind_ : kindOf options.noCapture first s.groups.size form = kind) :
    s.openNative opener kind = s.entered options first form := by
  have taken : s.rest.take form.text.length = form.text := by rw [rest, List.take_left]
  rw [State.openNative, State.entered, opening, slots, kind_, ← length, s.copy_of_take taken,
    List.append_nil]

theorem step_opener {left : Text} {opener : Opener} (rest : s.rest = '(' :: left)
    (form : Opener.read left = opener) : s.step options none = s.openGroup options opener := by
  rw [State.step, State.next?_plain rest (by simp), Construct.plain?_openGroup, form]
  rfl

theorem step_named {name : Text} {identifier : isIdentifier name = true}
    (rest : s.rest = (Form.named name identifier).text ++ more) (place : s.place = .outside) :
    s.step options none = s.openNamed ∧ Text.name? (s.rest.drop 3) = some name := by
  obtain ⟨c, left, rfl, _, words⟩ := isIdentifier_spec identifier
  have word : isWord c = true := words c (by simp)
  have behind : c ≠ '=' := by
    rintro rfl
    contradiction
  have notBehind : c ≠ '!' := by
    rintro rfl
    contradiction
  have parts : s.rest = '(' :: '?' :: '<' :: c :: (left ++ '>' :: more) := by simp [rest, Form.text]
  have named : Opener.read ('?' :: '<' :: c :: (left ++ '>' :: more)) = .named := by
    simp [Opener.read, behind, notBehind]
  constructor
  · rw [step_opener parts named]
    simp only [State.openGroup, State.escaped_of_place place, State.inClass_of_place place,
      Bool.false_eq_true, ↓reduceIte]
  · rw [parts]
    exact (Text.finds_name _ _).mpr ⟨⟨by simp, words⟩, more, by simp⟩

theorem step_form {first : Bool} {form : Form} (rest : s.rest = form.text ++ more)
    (place : s.place = .outside)
    (start : s.atLookaheadStart = first)
    (unmarked : form = .capture → more.firstSignificant? ≠ some '?')
    (free : ∀ name identifier, form = .named name identifier → name ∉ s.groups.names) :
    s.step options none = .ok (s.entered options first form) := by
  have escape := State.escaped_of_place place
  have class_ := State.inClass_of_place place
  cases form with
  | capture =>
      have unmarked := unmarked rfl
      have capture : Opener.read more = .capture := by
        cases more with
        | nil => rfl
        | cons c left =>
            apply Opener.read_other
            rintro rfl
            exact unmarked rfl
      have significant : (Text.firstSignificant? (s.rest.drop 1)) ≠ some '?' := by
        rw [rest]
        exact unmarked
      have taken : s.rest.take 1 = ['('] := by simp [rest, Form.text]
      rw [step_opener rest capture]
      simp only [State.openGroup, escape, class_, Bool.false_eq_true, ↓reduceIte, State.openCapture,
        if_neg significant, start]
      cases noCapture : options.noCapture with
      | false =>
          simp [State.entered, Form.slots, Form.opening, Form.text, kindOf, noCapture,
            State.copy, taken, GroupTable.push]
      | true =>
          cases first with
          | true =>
              simp [State.entered, Form.slots, Form.opening, Form.text, kindOf,
                noCapture, State.copy, taken, GroupTable.push]
          | false => simp [State.entered, Form.slots, Form.opening, Form.text, kindOf, noCapture]
  | named name identifier =>
      obtain ⟨read, found⟩ : s.step options none = _ ∧ _ := step_named rest place
      have pushed : s.groups.pushNamed name = .ok (s.groups.push (.named name)) := by
        rw [GroupTable.pushNamed_of_isIdentifier _ identifier, if_neg (free _ _ rfl)]
      have length : (Form.named name identifier).text.length = 3 + name.length + 1 := by
        simp [Form.text]
        omega
      rw [read, State.entered, length]
      simp only [State.openNamed, found, pushed]
      rfl
  | plain =>
      rw [step_opener rest rfl]
      simp only [State.openGroup, escape, class_, Bool.false_eq_true, ↓reduceIte]
      exact congrArg Except.ok (State.entered_native rest rfl rfl rfl rfl)
  | lookahead negative =>
      rw [step_opener rest (by cases negative <;> rfl : _ = Opener.lookahead negative)]
      simp only [State.openGroup, escape, class_, Bool.false_eq_true, ↓reduceIte]
      exact congrArg Except.ok (State.entered_native rest rfl rfl rfl rfl)
  | lookbehind negative =>
      rw [step_opener rest (by cases negative <;> rfl : _ = Opener.lookbehind negative)]
      simp only [State.openGroup, escape, class_, Bool.false_eq_true, ↓reduceIte]
      exact congrArg Except.ok (State.entered_native rest rfl rfl rfl rfl)
  | atomic =>
      rw [step_opener rest rfl]
      simp only [State.openGroup, escape, class_, Bool.false_eq_true, ↓reduceIte]
      rfl

theorem closing_kindOf (noCapture first : Bool) (slot start : Nat) (form : Form) :
    State.closing ⟨kindOf noCapture first slot form, start, slot⟩ = form.closing slot ∧
      State.isAtomic ⟨kindOf noCapture first slot form, start, slot⟩ = form.isAtomic := by
  cases form with
  | capture => cases noCapture <;> cases first <;> exact ⟨rfl, rfl⟩
  | _ => exact ⟨rfl, rfl⟩

theorem step_close {frame : Frame} {outer : List Frame} (rest : s.rest = ')' :: more)
    (place : s.place = .outside) (frames : s.frames = frame :: outer) :
    s.step options none = .ok (s.closed frame outer) := by
  rw [State.step, State.next?_plain rest (by simp), Construct.plain?_closeGroup]
  simp [State.read, State.closeGroup, State.inClass_of_place place,
    State.escaped_of_place place, frames, State.closed]

theorem State.Pause.closed {form : Form} {noCapture first : Bool} {slot : Nat} {front inner : Text}
    (pause : s.Pause joined) (rest : s.rest = ')' :: more) (outer : List Frame)
    (out : s.out = front ++ inner) (positive : 1 ≤ slot) (bound : slot ≤ s.groups.size) :
    (s.closed ⟨kindOf noCapture first slot form, front.size, slot⟩ outer).Unit front
      (inner ++ form.closing slot) slot form.isAtomic form.isAtomic := by
  obtain ⟨frame, named⟩ :
      ∃ frame, frame = Frame.mk (kindOf noCapture first slot form) front.size slot :=
    ⟨_, rfl⟩
  obtain ⟨closes, atomic⟩ := closing_kindOf noCapture first slot front.size form
  rw [← named] at closes atomic ⊢
  obtain ⟨written, before, behind, class_, groups⟩ := State.closed_eq frame outer rest
  rw [closes, out, List.append_assoc] at written
  have grown : s.out.size < (s.closed frame outer).out.size := by
    rw [written, out, ← List.append_assoc]
    apply State.size_lt_append
    cases form <;> simp [Form.closing]
  have place : (s.closed frame outer).place = .outside := by
    apply State.place_eq_outside
    · rw [State.inClass, class_]
      exact State.inClass_of_place pause.place
    · rw [State.escaped, before, Escape.pending_cons]
      rfl
  have mark : ((s.closed frame outer).referenceEnd == some (s.closed frame outer).out.size) =
      form.isAtomic := by
    rw [← atomic]
    cases kind : frame.kind with
    | atomic slot => simp [State.closed, State.emitClose, State.isAtomic, kind, State.markReference]
    | capture | plain | lookahead =>
        have same : (s.closed frame outer).referenceEnd = s.referenceEnd := by
          simp [State.closed, State.emitClose, kind]
        rw [same, (pause.outgrown grown).2]
        simp [State.isAtomic, kind]
  refine ⟨⟨place, State.followed_emitClose pause.followed pause.place frame, mark, ?_⟩, written,
    Or.inl ⟨slot, ?_, ?_⟩⟩
  · intro a recorded
    obtain rfl := Option.some.inj recorded
    exact Nat.le_refl _
  · have span : (s.closed frame outer).atom =
        some ⟨front.size, (s.closed frame outer).out.size, slot, form.isAtomic⟩ := by
      rw [← atomic, named]
      rfl
    rw [span]
    simp [Option.filter]
  · rw [groups, GroupTable.clamp]
    omega

theorem conclude_closed {form : Form} {noCapture first : Bool} {slot : Nat} {front inner : Text}
    {outer : List Frame} (rest : s.rest = ')' :: more) (pause : s.Pause joined)
    (frames : s.frames = ⟨kindOf noCapture first slot form, front.size, slot⟩ :: outer)
    (out : s.out = front ++ inner) (positive : 1 ≤ slot) (bound : slot ≤ s.groups.size) :
    let u := s.closed ⟨kindOf noCapture first slot form, front.size, slot⟩ outer
    conclude options none s = conclude options none u ∧ u.rest = more ∧ u.frames = outer ∧
      u.flags = s.flags ∧ u.groups = s.groups ∧
        u.Unit front (inner ++ form.closing slot) slot form.isAtomic form.isAtomic := by
  intro u
  obtain ⟨_, _, behind, _, groups⟩ := State.closed_eq _ outer rest
  have flags : u.flags = s.flags := by
    unfold u State.closed State.emitClose
    split <;> rfl
  exact ⟨conclude_ok (by simp [rest]) (step_close rest pause.place frames), behind, rfl, flags,
    groups, pause.closed rest outer out positive bound⟩

theorem conclude_close {form : Form} {noCapture first : Bool} {slot : Nat} {front inner : Text}
    {outer : List Frame} (rest : s.rest = ')' :: more) (pause : s.Pause joined)
    (frames : s.frames = ⟨kindOf noCapture first slot form, front.size, slot⟩ :: outer)
    (out : s.out = front ++ inner) (positive : 1 ≤ slot) (bound : slot ≤ s.groups.size) :
    ∃ u, conclude options none s = conclude options none u ∧ u.rest = more ∧ u.frames = outer ∧
      u.flags = s.flags ∧ u.groups = s.groups ∧
        u.Unit front (inner ++ form.closing slot) slot form.isAtomic form.isAtomic :=
  ⟨_, conclude_closed rest pause frames out positive bound⟩

/-! ### Trees -/

theorem insertIdx_between (declared inner : List Slot) :
    (declared ++ inner).insertIdx declared.length .suppressed =
      declared ++ .suppressed :: inner := by
  rw [GroupTable.insertIdx_eq (by simp), List.take_left, List.drop_left]

theorem slots_suffixed (suffix : Option Suffix) (declared inner : List Slot) :
    (if Suffix.possessive suffix then
      (declared ++ inner).insertIdx declared.length .suppressed else declared ++ inner) =
        declared ++ (Suffix.slots suffix ++ inner) := by
  cases possessive : Suffix.possessive suffix with
  | false => simp [Suffix.slots, possessive]
  | true => simp [Suffix.slots, possessive, insertIdx_between]

theorem moves_of_known {declared inner : List Slot} {target : Target}
    (known : target.Known (declared ++ inner))
    (small : (declared ++ inner).length + 1 < Decimal.limit) :
    target.Moves (declared.length + 1) ⟨declared ++ inner⟩ ⟨declared ++ .suppressed :: inner⟩ := by
  obtain ⟨positive, bound⟩ := known.index_bounds
  refine ⟨positive, by omega, ?_⟩
  rw [← insertIdx_between]
  exact known.index_insertIdx (by simp)

theorem suffixed_leaf {declared : List Slot} {leaf : Leaf} (suffix : Option Suffix)
    (known : leaf.Known declared) (small : declared.length + 1 < Decimal.limit) :
    suffixed options false (declared.length + 1) suffix (leaf.source options ⟨declared⟩) =
      repeated options.ungreedy false (declared.length + 1) suffix
        (leaf.source options ⟨declared ++ Suffix.slots suffix⟩) := by
  cases possessive : Suffix.possessive suffix with
  | false => simp [suffixed, Suffix.slots, possessive]
  | true =>
      have moves : ∀ target ∈ leaf.targets,
          target.Moves (declared.length + 1) ⟨declared ++ []⟩ ⟨declared ++ [.suppressed]⟩ := by
        cases leaf with
        | reference target =>
            intro other member
            obtain rfl := List.mem_singleton.mp member
            exact moves_of_known (by simpa [Leaf.Known] using known) (by simpa using small)
        | _ => simp [Leaf.targets]
      rw [List.append_nil] at moves
      simp [suffixed, Suffix.slots, possessive, Leaf.renumber_source moves]

theorem suffixed_group {declared slots : List Slot} {form : Form} {body : Tree} {first : Bool}
    (suffix : Option Suffix) (opened : slots.Sublist declared)
    (known : body.Known options.noCapture (slots ++ form.slots options.noCapture first)
      form.looksAhead)
    (small : (declared ++ (form.slots options.noCapture first ++
      body.slots options.noCapture form.looksAhead)).length + 1 < Decimal.limit) :
    let own := declared.length + 1 + (Suffix.slots suffix).length
    let inner := own + (form.slots options.noCapture first).length
    suffixed options form.isAtomic (declared.length + 1) suffix
        (form.opening options.noCapture first ++
          (body.source options
              ⟨declared ++ form.slots options.noCapture first ++
              body.slots options.noCapture form.looksAhead⟩
              (declared.length + 1 + (form.slots options.noCapture first).length)
              form.looksAhead false ++
            form.closing (declared.length + 1))) =
      repeated options.ungreedy form.isAtomic (declared.length + 1) suffix
        (form.opening options.noCapture first ++
          (body.source options
              ⟨declared ++ (Suffix.slots suffix ++ (form.slots options.noCapture first ++
                body.slots options.noCapture form.looksAhead))⟩ inner form.looksAhead false ++
            form.closing own)) := by
  intro own inner
  cases possessive : Suffix.possessive suffix with
  | false => simp [suffixed, Suffix.slots, possessive, own, inner]
  | true =>
      have one : Suffix.slots suffix = [.suppressed] := by simp [Suffix.slots, possessive]
      have moves : ∀ target ∈ body.targets, target.Moves (declared.length + 1)
          ⟨declared ++ (form.slots options.noCapture first ++
            body.slots options.noCapture form.looksAhead)⟩
          ⟨declared ++ .suppressed :: (form.slots options.noCapture first ++
            body.slots options.noCapture form.looksAhead)⟩ := by
        intro target member
        apply moves_of_known _ small
        rw [← List.append_assoc]
        exact (known.target member).mono
          ((opened.append (List.Sublist.refl _)).append (List.Sublist.refl _))
      simp only [List.length_append] at small
      have moved : Backreference.renumber _ 1 (body.source options _ _ form.looksAhead false) = _ :=
        Tree.renumber_source moves (by omega : 0 < declared.length + 1 +
          (form.slots options.noCapture first).length) (by omega) form.looksAhead (by omega) false
      have slot : form.isAtomic = true → (form.slots options.noCapture first).length = 1 := by
        cases form <;> simp [Form.isAtomic, Form.slots]
      have whole := Tree.sealed_source options ⟨declared ++ (form.slots options.noCapture first ++
        body.slots options.noCapture form.looksAhead)⟩ body Sealed.nil
          (declared.length + 1 + (form.slots options.noCapture first).length) form.looksAhead
      have unit := Form.renumber_unit form options.noCapture first whole.outside
        (Nat.le_refl (declared.length + 1))
          (fun atomic => ⟨by omega, by have := slot atomic; omega⟩)
      rw [List.nil_append, moved] at unit
      rw [suffixed, possessive, if_pos rfl, List.append_assoc, unit]
      simp only [one, own, inner, List.length_cons, List.length_nil, List.cons_append,
        List.nil_append]
      rw [Nat.add_right_comm]

/-- A state in which a tree can be read.  `slots` are the groups that the author has opened. -/
structure State.Awaits (s : State) (options : Options) (slots : List Slot) (first joined : Bool)
    (tree : Tree) : Prop where
  pause : s.Pause joined
  whole : Sealed joined s.out
  begins : s.Begins first
  opened : slots.Sublist s.groups.declared
  known : tree.Known options.noCapture slots first
  distinct : ((s.groups.declared ++ tree.slots options.noCapture first).filterMap Slot.name?).Nodup
  small : s.groups.size + (tree.slots options.noCapture first).length < Atom.searchReach

/-- A state in which a piece was read, with the source and the slots that it added. -/
structure State.Translates (s : State) (options : Options) (tail source : Text) (slots : List Slot)
    (refers : Bool) (next : State) : Prop where
  outcome : conclude options none s = conclude options none next
  keeps : s.Keeps next tail
  out : next.out = s.out ++ source
  groups : next.groups.declared = s.groups.declared ++ slots
  pause : next.Pause refers

theorem State.Translates.trans {t next : State} {source later : Text} {slots following : List Slot}
    {refers last : Bool} (step : s.Translates options more source slots refers t)
    (run : t.Translates options tail later following last next) :
    s.Translates options tail (source ++ later) (slots ++ following) last next where
  outcome := step.outcome.trans run.outcome
  keeps := ⟨run.keeps.rest, run.keeps.frames.trans step.keeps.frames,
    run.keeps.flags.trans step.keeps.flags⟩
  out := by rw [run.out, step.out, List.append_assoc]
  groups := by rw [run.groups, step.groups, List.append_assoc]
  pause := run.pause

theorem State.pause_start (text : Text) : (State.start text).Pause false :=
  ⟨rfl, followed_start text, rfl, fun a none_ => by contradiction⟩

theorem convert_of_translates {text source : Text} {slots : List Slot}
    {refers : Bool} {last : State}
    (run : (State.start text).Translates options [] source slots refers last) :
    convert options none text = .ok ⟨source, ⟨slots⟩, none⟩ := by
  have class_ := State.inClass_of_place run.pause.place
  have frames : last.frames = [] := run.keeps.frames
  have out : last.out = source := run.out
  have groups : last.groups = ⟨slots⟩ := congrArg GroupTable.mk run.groups
  have flags : last.flags = none := run.keeps.flags
  rw [convert_eq_conclude, run.outcome, conclude_nil run.keeps.rest, finish, class_,
    frames, out, groups, flags]
  rfl

theorem translates_layout {gap : Text} (layout : Layout gap) (pause : s.Pause joined)
    (whole : Sealed joined s.out) (rest : s.rest = gap ++ more) :
    s.Translates options more [] [] joined (s.skip gap.length) := by
  obtain ⟨through, place⟩ : conclude options none s = _ ∧ _ :=
    conclude_layout layout pause.place whole rest
  refine ⟨through, ⟨?_, rfl, rfl⟩, (List.append_nil _).symm, (List.append_nil _).symm,
    pause.skip place⟩
  rw [State.rest_skip, rest, List.drop_left]

theorem translates_bar (rest : s.rest = '|' :: more) (pause : s.Pause joined) :
    ∃ t, s.Translates options more ['|'] [] false t := by
  have step : s.step options none = _ := step_plain rest (by decide) (by decide) pause.mark
  rw [if_neg (by simp; exact fun _ => by decide), List.nil_append] at step
  refine ⟨_, conclude_ok (by simp [rest]) step, ⟨by simp [rest], rfl, rfl⟩, rfl,
    (List.append_nil _).symm, pause.written (by simp) (place_skip_one pause.place rest (by decide))⟩

theorem translates_item {leaf : Leaf} {suffix : Option Suffix} {marks : Text}
    (lenient : options.extra = false) (known : leaf.Known s.groups.declared)
    (small : s.groups.size < Atom.searchReach) (printed : Suffixed suffix marks)
    (ends : leaf.Ends (marks ++ more)) (unmarked : Unmarked more)
    (rest : s.rest = leaf.text ++ (marks ++ more)) (pause : s.Pause joined)
    (whole : Sealed joined s.out) :
    ∃ t, s.Translates options more
      (leaf.parted joined ++ repeated options.ungreedy false s.groups.size suffix
        (leaf.source options ⟨s.groups.declared ++ Suffix.slots suffix⟩))
      (Suffix.slots suffix) (Syntax.refers leaf.refers suffix) t := by
  obtain ⟨u, through, kept, groups, unit⟩ : ∃ u, conclude options none s = _ ∧ _ :=
    conclude_leaf lenient known (fun _ => small) rest ends pause whole
  obtain ⟨before, parted, apart⟩ := Leaf.sealed_parted whole leaf options s.groups
  have sealed_ : Sealed leaf.refers u.out := by
    rw [unit.out]
    exact leaf.seals options s.groups before _ parted apart
  obtain ⟨t, outcome, keeps, out, declared, later⟩ : ∃ t, conclude options none u = _ ∧ _ :=
    conclude_suffixed unit sealed_ printed kept.rest unmarked
  have limit : s.groups.declared.length + 1 < Decimal.limit := Nat.lt_trans small (by decide)
  refine ⟨t, through.trans outcome, ⟨keeps.rest, keeps.frames.trans kept.frames,
    keeps.flags.trans kept.flags⟩, ?_, ?_, later⟩
  · rw [out, List.append_assoc]
    exact congrArg (fun w => s.out ++ (leaf.parted joined ++ w)) (suffixed_leaf suffix known limit)
  · have slots := slots_suffixed suffix s.groups.declared []
    rw [List.append_nil, List.append_nil] at slots
    rw [declared, groups]
    exact slots

/-- What it means that a text is read as a tree, wherever it stands. -/
def Runs (options : Options) (tree : Tree) (text : Text) : Prop :=
  ∀ (s : State) (slots : List Slot) (first joined : Bool) (tail : Text),
    s.Awaits options slots first joined tree → Ended tail → s.rest = text ++ tail →
      ∃ next, s.Translates options tail
        (tree.source options ⟨s.groups.declared ++ tree.slots options.noCapture first⟩ s.groups.size
          first joined)
        (tree.slots options.noCapture first) (tree.refers joined) next

theorem translates_group {form : Form} {body next : Tree} {suffix : Option Suffix}
    {slots : List Slot} {first : Bool} {inner marks : Text} (runs : Runs options body inner)
    (awaits : s.Awaits options slots first joined (.group form body suffix next))
    (content : Printed body inner) (printed : Suffixed suffix marks) (unmarked : Unmarked more)
    (rest : s.rest = form.text ++ (inner ++ ')' :: (marks ++ more))) :
    ∃ t, s.Translates options more
      (repeated options.ungreedy form.isAtomic s.groups.size suffix
        (form.opening options.noCapture first ++
          (body.source options ⟨s.groups.declared ++ (Suffix.slots suffix ++
              (form.slots options.noCapture first ++ body.slots options.noCapture form.looksAhead))⟩
            (s.groups.size + (Suffix.slots suffix).length +
              (form.slots options.noCapture first).length) form.looksAhead false ++
            form.closing (s.groups.size + (Suffix.slots suffix).length))))
      (Suffix.slots suffix ++
        (form.slots options.noCapture first ++ body.slots options.noCapture form.looksAhead))
      (Syntax.refers form.isAtomic suffix) t := by
  obtain ⟨knownBody, knownNext⟩ := awaits.known
  have ended : Ended (')' :: (marks ++ more)) := Or.inr ⟨_, rfl⟩
  have small := awaits.small
  simp only [Tree.slots, List.length_append] at small
  have inside : (s.groups.declared ++ form.slots options.noCapture first ++
      body.slots options.noCapture form.looksAhead).Sublist
        (s.groups.declared ++ (Tree.group form body suffix next).slots
          options.noCapture first) := by
    rw [List.append_assoc]
    apply (List.Sublist.refl _).append
    apply List.Sublist.trans _ (List.sublist_append_right _ _)
    exact (List.Sublist.refl _).append (List.sublist_append_left _ _)
  have distinct := awaits.distinct.sublist (inside.filterMap Slot.name?)
  have free : ∀ name identifier, form = .named name identifier → name ∉ s.groups.names := by
    rintro name identifier rfl member
    rw [List.append_assoc, List.filterMap_append] at distinct
    exact (List.nodup_append.mp distinct).2.2 name member name
      (by simp [Form.slots, Slot.name?]) rfl
  have opening : s.step options none = .ok (s.entered options first form) :=
    step_form rest awaits.pause.place awaits.begins.start
      (fun _ => (content.unmarked ended).1) free
  have entered : (s.entered options first form).Awaits options
      (slots ++ form.slots options.noCapture first) form.looksAhead false body := by
    refine ⟨awaits.pause.entered rest first, ?_, State.begins_entered,
      awaits.opened.append (List.Sublist.refl _), knownBody, ?_, ?_⟩
    · obtain ⟨⟨left, opens⟩, plain⟩ := form.opening_spec options.noCapture first
      exact awaits.whole.text (by simp [opens]) plain (fun _ => by simp [opens]; decide)
    · exact distinct
    · simp only [State.groups_entered, GroupTable.size, List.length_append] at small ⊢
      omega
  have behind : (s.entered options first form).rest = inner ++ ')' :: (marks ++ more) := by
    rw [State.rest_entered, rest, List.drop_left]
  obtain ⟨v, run⟩ := runs _ _ _ _ _ entered ended behind
  have frames : v.frames = ⟨kindOf options.noCapture first s.groups.size form, s.out.size,
      s.groups.size⟩ :: s.frames := run.keeps.frames
  have out : v.out = s.out ++ (form.opening options.noCapture first ++ _) :=
    run.out.trans (List.append_assoc _ _ _)
  have groups : v.groups = ⟨s.groups.declared ++ form.slots options.noCapture first ++
      body.slots options.noCapture form.looksAhead⟩ := congrArg GroupTable.mk run.groups
  obtain ⟨u, closed, rest', frames', flags, groups', unit⟩ : ∃ u, conclude options none v = _ ∧ _ :=
    conclude_close run.keeps.rest run.pause frames out (Nat.le_add_left 1 _) (by
      rw [groups]
      simp [GroupTable.size])
  have sealed_ : Sealed form.isAtomic u.out := by
    rw [unit.out, List.append_assoc]
    apply form.seals options.noCapture first s.groups.size
      (fun _ open_ => Tree.sealed_source options _ body open_ _ form.looksAhead)
        joined _ awaits.whole
    obtain ⟨⟨left, opens⟩, _⟩ := form.opening_spec options.noCapture first
    exact fun _ => by simp [opens]; decide
  obtain ⟨t, outcome, keeps, out', declared, later⟩ : ∃ t, conclude options none u = _ ∧ _ :=
    conclude_suffixed unit sealed_ printed rest' unmarked
  refine ⟨t, ?_, ⟨keeps.rest, keeps.frames.trans frames', ?_⟩, ?_, ?_, later⟩
  · rw [conclude_ok (by simp [rest]) opening, run.outcome, closed, outcome]
  · rw [keeps.flags, flags, run.keeps.flags]
    rfl
  · rw [out', List.append_assoc]
    have limit : (s.groups.declared ++ (form.slots options.noCapture first ++
        body.slots options.noCapture form.looksAhead)).length + 1 < Decimal.limit := by
      have reach : Atom.searchReach < Decimal.limit := by decide
      simp only [GroupTable.size, List.length_append] at small ⊢
      omega
    have size : (s.entered options first form).groups.size =
        s.groups.declared.length + 1 + (form.slots options.noCapture first).length := by
      simp only [State.groups_entered, GroupTable.size, List.length_append]
      omega
    rw [size]
    exact congrArg (s.out ++ ·) (suffixed_group suffix awaits.opened knownBody limit)
  · rw [declared, groups', groups, List.append_assoc]
    exact slots_suffixed suffix s.groups.declared _

theorem Leaf.Ends.append {leaf : Leaf} {text : Text} (ends : leaf.Ends text) (ended : Ended tail) :
    leaf.Ends (text ++ tail) := by
  have open_ : tail.head?.all (!isDigit ·) = true := by
    rcases ended with rfl | ⟨more, rfl⟩
    · rfl
    · rfl
  cases leaf with
  | reference target =>
      rcases target with (_ | _) | _
      · cases text with
        | nil => exact open_
        | cons c text => exact ends
      · trivial
      · trivial
  | _ => trivial

theorem Leaf.Known.target {leaf : Leaf} {slots more : List Slot} (known : leaf.Known slots)
    (sublist : slots.Sublist more) :
      leaf.Known more ∧ ∀ target ∈ leaf.targets, target.Known more := by
  cases leaf with
  | reference target =>
      have wider := Target.Known.mono known sublist
      exact ⟨wider, fun other member => List.mem_singleton.mp member ▸ wider⟩
  | _ => exact ⟨trivial, by simp [Leaf.targets]⟩

theorem translates_next {tree next : Tree} {slots later added : List Slot} {first refers : Bool}
    {t : State} {source text : Text} (awaits : s.Awaits options slots first joined tree)
    (piece : s.Translates options (text ++ tail) source added refers t) (nonempty : source ≠ [])
    (whole : Sealed refers (s.out ++ source))
    (parts : tree.slots options.noCapture first = added ++ next.slots options.noCapture false)
    (visible : later.Sublist added) (known : next.Known options.noCapture (slots ++ later) false)
    (runs : Runs options next text) (ended : Ended tail) :
    ∃ last, s.Translates options tail
      (source ++ next.source options
        ⟨s.groups.declared ++ tree.slots options.noCapture first⟩
        (s.groups.size + added.length) false refers)
      (tree.slots options.noCapture first) (next.refers refers) last := by
  have groups := piece.groups
  have distinct := awaits.distinct
  have small := awaits.small
  have size : t.groups.size = s.groups.size + added.length := by
    simp only [GroupTable.size, groups, List.length_append]
    omega
  have ready : t.Awaits options (slots ++ later) false refers next := by
    refine ⟨piece.pause, by rwa [piece.out], ?_, ?_, known, ?_, ?_⟩
    · apply awaits.begins.grown piece.keeps.frames
      rw [piece.out]
      exact State.size_lt_append nonempty
    · rw [groups]
      exact awaits.opened.append visible
    · rw [groups, List.append_assoc, ← parts]
      exact distinct
    · rw [parts, List.length_append] at small
      omega
  obtain ⟨last, run⟩ := runs t _ _ _ _ ready ended piece.keeps.rest
  rw [groups, List.append_assoc, ← parts, size] at run
  have total := piece.trans run
  rw [← parts] at total
  exact ⟨last, total⟩

theorem runs_of_printed (lenient : options.extra = false) {tree : Tree} {text : Text}
    (printed : Printed tree text) : Runs options tree text := by
  induction printed with
  | empty layout =>
      intro s slots first joined tail awaits _ rest
      exact ⟨_, translates_layout layout awaits.pause awaits.whole rest⟩
  | bar layout printed ih =>
      rename_i gap text next
      intro s slots first joined tail awaits ended rest
      rw [List.append_assoc] at rest
      have start : s.Translates options _ _ _ _ _ :=
        translates_layout layout awaits.pause awaits.whole rest
      obtain ⟨t, step⟩ : ∃ t, (s.skip gap.length).Translates options _ _ _ _ t :=
        translates_bar start.keeps.rest start.pause
      have whole :
          Sealed false (s.out ++ ['|']) := awaits.whole.char (by decide) (fun _ => by decide)
      have known : next.Known options.noCapture (slots ++ []) false := by
        rw [List.append_nil]
        exact awaits.known
      exact translates_next awaits (start.trans step)
        (by simp) whole rfl (List.nil_sublist _) known ih
        ended
  | item layout suffixed printed ends ih =>
      rename_i gap marks text leaf suffix next
      intro s slots first joined tail awaits ended rest
      simp only [List.append_assoc] at rest
      obtain ⟨knownLeaf, knownNext⟩ := awaits.known
      have start : s.Translates options _ _ _ _ _ :=
        translates_layout layout awaits.pause awaits.whole rest
      obtain ⟨t, step⟩ := translates_item (s := s.skip gap.length) lenient
        (Leaf.Known.target knownLeaf awaits.opened).1
        (Nat.lt_of_le_of_lt (Nat.le_add_right _ _) awaits.small) suffixed
        (by simpa using Leaf.Ends.append ends ended) (printed.unmarked ended) start.keeps.rest
        start.pause awaits.whole
      have whole := Tree.sealed_source options ⟨s.groups.declared ++ Suffix.slots suffix⟩
        (.item leaf suffix .empty) awaits.whole s.groups.size first
      simp only [Tree.source, Tree.refers, List.append_nil] at whole
      obtain ⟨last, run⟩ := translates_next awaits (start.trans step)
        (by simp [repeated_ne_nil (Leaf.source_ne_nil _ _ _)]) whole rfl (List.nil_sublist _)
          (by simpa using knownNext) ih ended
      -- the references of the leaf are the same in the whole table
      have same : leaf.source options ⟨s.groups.declared ++ Suffix.slots suffix⟩ =
          leaf.source options ⟨s.groups.declared ++
            (Tree.item leaf suffix next).slots options.noCapture first⟩ := by
        apply Leaf.source_congr
        intro target member
        have known := (Leaf.Known.target knownLeaf
          (awaits.opened.trans (List.sublist_append_left _ (Suffix.slots suffix)))).2 target member
        rw [Tree.slots, ← List.append_assoc]
        exact (known.index_append _).symm
      refine ⟨last, ?_⟩
      rw [Tree.source, ← same]
      simp only [List.nil_append, List.append_assoc] at run
      exact run
  | group layout content suffixed printed inner_ih ih =>
      rename_i gap inner marks text form body next suffix
      intro s slots first joined tail awaits ended rest
      simp only [List.append_assoc, List.cons_append] at rest
      obtain ⟨knownBody, knownNext⟩ := awaits.known
      have start : s.Translates options _ _ _ _ _ :=
        translates_layout layout awaits.pause awaits.whole rest
      have ready :
          (s.skip gap.length).Awaits options slots first joined (.group form body suffix next) :=
        ⟨start.pause, awaits.whole, ⟨awaits.begins.start, awaits.begins.opened⟩, awaits.opened,
          awaits.known, awaits.distinct, awaits.small⟩
      obtain ⟨t, step⟩ := translates_group inner_ih ready content suffixed (printed.unmarked ended)
        start.keeps.rest
      have whole := Tree.sealed_source options ⟨s.groups.declared ++ (Suffix.slots suffix ++
          (form.slots options.noCapture first ++ body.slots options.noCapture form.looksAhead))⟩
        (.group form body suffix .empty) awaits.whole s.groups.size first
      simp only [Tree.source, Tree.refers, List.append_nil] at whole
      have filled : ∀ more, form.opening options.noCapture first ++ more ≠ [] := by
        obtain ⟨⟨left, opens⟩, _⟩ := form.opening_spec options.noCapture first
        simp [opens]
      obtain ⟨last, run⟩ := translates_next awaits (start.trans step)
        (by simpa using repeated_ne_nil (filled _) _ _ _ _) whole (by simp [Tree.slots])
        (List.sublist_append_right (Suffix.slots suffix) _) knownNext ih ended
      -- and so are those of the body
      have same : ∀ index, body.source options ⟨s.groups.declared ++ (Suffix.slots suffix ++
            (form.slots options.noCapture first ++ body.slots options.noCapture form.looksAhead))⟩
              index form.looksAhead false =
          body.source options ⟨s.groups.declared ++
            (Tree.group form body suffix next).slots options.noCapture first⟩ index form.looksAhead
              false := by
        intro index
        apply Tree.source_congr
        intro target member
        have known : target.Known (s.groups.declared ++ (Suffix.slots suffix ++
            (form.slots options.noCapture first ++
            body.slots options.noCapture form.looksAhead))) := by
          apply (knownBody.target member).mono
          rw [List.append_assoc]
          exact awaits.opened.append (List.sublist_append_right _ _)
        have wider := known.index_append (next.slots options.noCapture false)
        simp only [List.append_assoc] at wider
        exact wider.symm
      refine ⟨last, ?_⟩
      rw [Tree.source, ← same]
      simp only [List.nil_append, List.length_append, ← Nat.add_assoc] at run
      exact run

end Conversion

namespace Syntax

open Conversion

/-- A printed tree is converted to its native source, with the table of its groups. -/
theorem convert_printed {tree : Tree} {text : Text} {options : Options}
    (printed : Printed tree text) (lenient : options.extra = false)
    (distinct : ((tree.slots options.noCapture false).filterMap Slot.name?).Nodup)
    (known : tree.Known options.noCapture [] false)
    (small : (tree.slots options.noCapture false).length + 1 < Atom.searchReach) :
    convert options none text =
      .ok ⟨tree.source options (tree.table options) 1 false false, tree.table options, none⟩ := by
  have awaits : (State.start text).Awaits options [] false false tree := by
    refine ⟨⟨rfl, followed_start text, rfl, fun a none_ => by contradiction⟩, Sealed.nil,
      ⟨rfl, fun frame none_ => by contradiction⟩, List.nil_sublist _, known, distinct, ?_⟩
    change 1 + (tree.slots options.noCapture false).length < Atom.searchReach
    omega
  obtain ⟨last, run⟩ := runs_of_printed lenient printed _ _ _ _ [] awaits (Or.inl rfl)
    (List.append_nil _).symm
  have class_ := State.inClass_of_place run.pause.place
  have frames : last.frames = [] := run.keeps.frames
  have out : last.out = tree.source options (tree.table options) 1 false false := run.out
  have groups : last.groups = tree.table options := congrArg GroupTable.mk run.groups
  have flags : last.flags = none := run.keeps.flags
  rw [convert_eq_conclude, run.outcome, conclude_nil run.keeps.rest, finish, class_,
    frames, out, groups, flags]
  rfl

def nestedTree : Tree :=
  .group (.named ['n'] rfl) (.item .dot none .empty) (some ⟨.plus, .possessive, count_plus⟩)
    (.group (.lookahead false)
      (.group .capture (.item (.literal 'a' rfl) none .empty) none
        (.item (.literal 'b' rfl) (some ⟨.star, .greedy, count_star⟩) .empty)) none
      (.item (.escaped ' ' rfl) none
        (.item (.reference (.name ['n'] rfl)) none
          (.item (.literal '1' rfl) none
            (.item (.reference (.number false 1)) none (.item (.literal '2' rfl) none .empty))))))

theorem printed_nestedTree :
    Printed nestedTree "(?<n>.)++ (?= (a) #c\n b* )\\  $<n>1$1 2".toList := by
  have blank : Layout [' '] := .blank rfl .none
  have comment : Layout (' ' :: ('#' :: ['c'] ++ '\n' :: [' '])) :=
    .blank rfl (.comment (List.forall_mem_singleton.mpr rfl) rfl blank)
  have dot : Printed (.item .dot none .empty) _ := .item .none .none (.empty .none) trivial
  have letter : Printed (.item (.literal 'a' rfl) none .empty) _ :=
    .item .none .none (.empty .none) trivial
  have ahead : Printed (.group .capture (.item (.literal 'a' rfl) none .empty) none
      (.item (.literal 'b' rfl) (some ⟨.star, .greedy, count_star⟩) .empty)) _ :=
    .group blank letter .none (.item comment (.some _ .none) (.empty blank) trivial)
  have number : Printed (.item (.reference (.number false 1)) none
      (.item (.literal '2' rfl) none .empty)) ['$', '1', ' ', '2'] :=
    .item .none .none (.item blank .none (.empty .none) trivial) rfl
  have behind : Printed (.item (.escaped ' ' rfl) none
      (.item (.reference (.name ['n'] rfl)) none
        (.item (.literal '1' rfl) none
          (.item (.reference (.number false 1)) none (.item (.literal '2' rfl) none .empty))))) _ :=
    .item .none .none
      (.item blank .none (.item .none .none number trivial) trivial) trivial
  exact (.group .none dot (.some _ .none) (.group blank ahead .none behind) : Printed nestedTree _)

theorem convert_printed_nested :
    Printed nestedTree "(?<n>.)++ (?= (a) #c\n b* )\\  $<n>1$1 2".toList ∧
      convert { noCapture := true, singleLine := true, ungreedy := true } none
          "(?<n>.)++ (?= (a) #c\n b* )\\  $<n>1$1 2".toList =
        .ok ⟨"(?=(([^])+))\\1(?=(a)b*?) \\2(?:)1\\2(?:)2".toList,
          ⟨[.suppressed, .named ['n'], .suppressed]⟩, none⟩ := by
  refine ⟨printed_nestedTree, ?_⟩
  rw [convert_printed printed_nestedTree rfl (by decide) ?_ (by decide)]
  · decide +kernel
  · simp [nestedTree, Tree.Known, Leaf.Known, Target.Known, Form.slots, Tree.slots, Slot.isVisible]

end Syntax

end PatternDialect
