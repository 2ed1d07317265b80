import PatternDialect.Proofs.Translation

/-! Native text that is read as it is.

Where nothing is emulated, a token is written as it was read.  The groups, the last capture
and the last lookahead stay what they are. -/

namespace PatternDialect

open Character Source

def Syntax.isBare (c : Char) : Bool :=
  !(isBlank c || ['[', '.', '*', '+', '?', '(', ')', '#', '\\'].contains c)

def Syntax.Form.isNative : Form → Bool
  | .named _ _ | .atomic => false
  | .capture | .plain | .lookahead _ | .lookbehind _ => true

namespace Conversion

open Syntax

/-- A state outside of everything in which nothing is emulated. -/
structure Direct (joined : Bool) (s : State) : Prop where
  pause : s.Pause joined
  native : ∀ a, s.atom = some a → a.emulated = false
  frames : ∀ frame ∈ s.frames, State.isAtomic frame = false
  flags : s.flags = none

structure Passes (options : Options) (s : State) (tail source : Text) (slots : List Slot)
    (next : State) :
    Prop where
  outcome : conclude options none s = conclude options none next
  rest : next.rest = tail
  out : next.out = s.out ++ source
  groups : next.groups.declared = s.groups.declared ++ slots
  direct : Direct false next

structure Copies (options : Options) (s : State) (tail source : Text) (next : State) : Prop
    extends Passes options s tail source [] next where
  level : next.frames = s.frames
  capture : next.capture = s.capture
  splice : next.splice = s.splice

variable {options : Options} {joined : Bool} {s : State} {more : Text}

theorem direct_start (text : Text) : Direct false (State.start text) where
  pause := State.pause_start text
  native := by
    intro a recorded
    contradiction
  frames := by
    intro frame member
    contradiction
  flags := rfl

theorem Passes.trans {t next : State} {middle tail source after : Text} {slots others : List Slot}
    (first : Passes options s middle source slots t)
    (second : Passes options t tail after others next) :
    Passes options s tail (source ++ after) (slots ++ others) next where
  outcome := first.outcome.trans second.outcome
  rest := second.rest
  out := by rw [second.out, first.out, List.append_assoc]
  groups := by rw [second.groups, first.groups, List.append_assoc]
  direct := second.direct

theorem Copies.trans {t next : State} {middle tail source after : Text}
    (first : Copies options s middle source t) (second : Copies options t tail after next) :
    Copies options s tail (source ++ after) next where
  toPasses := first.toPasses.trans second.toPasses
  level := second.level.trans first.level
  capture := second.capture.trans first.capture
  splice := second.splice.trans first.splice

theorem copies_word (direct : Direct joined s) {word : Text} (nonempty : word ≠ [])
    (rest : s.rest = word ++ more) (place : (s.skip word.length).place = .outside)
    (outcome : conclude options none s = conclude options none (s.copy word.length)) :
    Copies options s more word (s.copy word.length) := by
  have copied : s.copy word.length = (s.emit word).skip word.length :=
    s.copy_of_take (by rw [rest, List.take_left])
  have pause := direct.pause.written nonempty place
  rw [← copied] at pause
  exact ⟨⟨outcome, State.rest_copied rest, congrArg State.out copied, (List.append_nil _).symm,
    pause, direct.native, direct.frames, direct.flags⟩, rfl, rfl, rfl⟩

theorem copies_one (direct : Direct joined s) {c : Char} (rest : s.rest = c :: more)
    (other : c ≠ '\\') (step : s.step options none = .ok (s.copy 1)) :
    Copies options s more [c] (s.copy 1) :=
  copies_word direct (by simp) rest (place_skip_one direct.pause.place rest other)
    (conclude_ok (by simp [rest]) step)

/-- A bare character is read as itself: a closing bracket ends no class here, and the dollar
sign and the brace start nothing before what follows them. -/
theorem step_itself (direct : Direct joined s) {c : Char} (bare : isBare c = true)
    (rest : s.rest = c :: more) (apart : joined = true → isDigit c = false)
    (dollar : c = '$' → Construct.afterDollar? more = none)
    (brace : c = '{' → Repeat.braces? more = none) : s.step options none = .ok (s.copy 1) := by
  by_cases closing : c = ']'
  · subst closing
    have outside : s.classStart = none := by
      simpa [State.inClass] using State.inClass_of_place direct.pause.place
    rw [State.step, State.next?_plain rest (by simp), Construct.plain?_closeClass]
    simp [State.read, State.closeClass, outside]
  have unread : Construct.plain? s.before (c :: more) = none := by
    by_cases sign : c = '$'
    · subst sign
      rw [Construct.plain?_dollar, dollar rfl]
    by_cases opening : c = '{'
    · subst opening
      rw [Construct.plain?_brace, Construct.afterBrace?, brace rfl]
      rfl
    · obtain ⟨visible, others⟩ : isBlank c = false ∧ _ := by simpa [isBare] using bare
      apply Construct.plain?_other _ _ visible
      simp [Construct.heads, closing, sign, opening, others]
  have alone : (isDigit c && joined) = false := by
    cases joined with
    | false => exact Bool.and_false _
    | true => rw [apart rfl, Bool.false_and]
  rw [State.step, State.next?_plain rest (by simp), unread, State.copyPlain_eq rest,
    direct.pause.mark, alone]
  exact congrArg Except.ok (s.copy_of_take (by simp [rest])).symm

variable {ungreedy : Bool}

theorem step_native_dot (rest : s.rest = '.' :: more) :
    s.step { ungreedy } none = .ok (s.copy 1) := by
  rw [State.step, State.next?_plain rest (by simp), Construct.plain?_dot]
  simp [State.read, State.dot]

theorem copies_escape (direct : Direct joined s) {c : Char}
    (kept : (isDigit c || isBlank c || c == '#') = false)
    (rest : s.rest = '\\' :: c :: more) (ends : c = 'k' → more.head? ≠ some '<') :
    Copies { ungreedy } s more ['\\', c] (s.copy 2) := by
  have unescaped := State.escaped_of_place direct.pause.place
  obtain ⟨⟨digit, blank⟩, hash⟩ : (isDigit c = false ∧ isBlank c = false) ∧ c ≠ '#' := by
    simpa using kept
  refine copies_word direct (by simp) rest (direct.pause.copy_two rest).place ?_
  cases found : Construct.afterBackslash? (c :: more) with
  | none =>
      have rest' : (s.copy 1).rest = c :: more := by simp [rest]
      rw [conclude_pair (by decide) unescaped found rest]
      simp [State.passed, blank, hash, State.copyPlain_of_not_digit rest' digit, State.copy_copy]
  | some construct =>
      rcases afterBackslash?_cases found with ⟨_, rfl, left, rfl⟩ | ⟨_, number⟩ | ⟨rfl, _⟩
      · exact absurd rfl (ends rfl)
      · rw [digit] at number
        contradiction
      · have step : s.step { ungreedy } none = s.escapedLetter { ungreedy } c := by
          rw [State.step, next?_backslash unescaped rest (by decide), found]
          rfl
        rw [State.escapedLetter_admitted rfl] at step
        simpa using conclude_ok (by simp [rest]) step

theorem copies_bracket (direct : Direct joined s) {body : Text} (inner : isClassBody body = true)
    (rest : s.rest = ('[' :: body ++ [']']) ++ more) :
    ∃ next, Copies { ungreedy } s more ('[' :: body ++ [']']) next := by
  obtain ⟨outcome, place, behind⟩ : conclude { ungreedy } none s = _ ∧ _ :=
    conclude_recorded rfl inner rest direct.pause
  refine ⟨_, ⟨outcome, behind, rfl, (List.append_nil _).symm,
    (direct.pause.recorded_unit (by simp) place).toPause, ?_, direct.frames, direct.flags⟩,
    rfl, rfl, rfl⟩
  intro a recorded
  obtain rfl := Option.some.inj recorded
  rfl

theorem Direct.quantified (direct : Direct joined s) {q : Quantifier}
    (mark : q.possessive = false) :
    s.brokenCut? q = none ∧ s.prepared (s.atom.filter (·.stop == s.out.size)) = s.out := by
  cases found : s.atom.filter (·.stop == s.out.size) with
  | none => simp [State.brokenCut?, State.quantified?, mark, found, State.prepared]
  | some a =>
      have native := direct.native a (Option.filter_eq_some_iff.mp found).1
      have known : s.quantified? q = some a := by simp [State.quantified?, mark, found]
      constructor
      · simp [State.brokenCut?, known, Option.filter, mark, native]
      · simp [State.prepared, Atom.prepared, native]

theorem copies_quantifier (direct : Direct joined s) {q : Quantifier}
    (found : s.next? none = some (.quantifier q)) (rest : s.rest = q.text ++ more)
    (mark : q.possessive = false) :
    ∃ next, Copies { ungreedy } s more (q.render ungreedy) next := by
  obtain ⟨legible, _⟩ := Construct.stands_of_at? found
  obtain ⟨c, left, amount, _⟩ := legible.head
  obtain ⟨whole, prepared⟩ := direct.quantified mark
  have step : s.step { ungreedy } none = .ok (s.repeated { ungreedy } q) := by
    rw [State.step, found]
    exact (State.quantifier_of_quantify direct.pause.place whole).trans
      (State.quantify_repeated mark)
  have place := State.place_skip_quantifier direct.pause.place found
  have nonempty : s.rest ≠ [] := by simp [rest, Quantifier.text, amount]
  refine ⟨_, ⟨conclude_ok nonempty step, ?_, ?_, (List.append_nil _).symm,
    direct.pause.repeated (by simp [amount]) place _, ?_, direct.frames, direct.flags⟩,
    rfl, rfl, rfl⟩
  · change s.rest.drop q.length = more
    rw [rest, ← q.length_text, List.drop_left]
  · change s.prepared _ ++ q.render ungreedy = _
    rw [prepared]
  · intro a recorded
    contradiction

/-! ### Groups -/

theorem passes_opener (direct : Direct joined s) {form : Form} (native : form.isNative = true)
    (rest : s.rest = form.text ++ more)
    (unmarked : form = .capture → more.firstSignificant? ≠ some '?') :
    Passes { ungreedy } s more form.text (form.slots false false)
      (s.entered { ungreedy } s.atLookaheadStart form) := by
  have step : s.step { ungreedy } none = .ok (s.entered { ungreedy } s.atLookaheadStart form) := by
    apply step_form rest direct.pause.place rfl unmarked
    rintro name identifier rfl
    contradiction
  have nonempty : s.rest ≠ [] := by
    rw [rest]
    cases form <;> simp [Form.text]
  have opening : form.opening false s.atLookaheadStart = form.text := by
    cases form <;> first | rfl | contradiction
  have slots : form.slots false s.atLookaheadStart = form.slots false false := by
    cases form <;> rfl
  refine ⟨conclude_ok nonempty step, ?_, congrArg (s.out ++ ·) opening,
    congrArg (s.groups.declared ++ ·) slots, direct.pause.entered rest _, direct.native,
    ?_, direct.flags⟩
  · rw [State.rest_entered, rest, List.drop_left]
  · intro frame member
    rcases List.mem_cons.mp member with rfl | outer
    · cases form <;> first | rfl | contradiction
    · exact direct.frames frame outer

theorem passes_close (direct : Direct joined s) (rest : s.rest = ')' :: more) {frame : Frame}
    {outer : List Frame} (frames : s.frames = frame :: outer) :
    Passes options s more [')'] [] (s.closed frame outer) := by
  have plain := direct.frames frame (by simp [frames])
  have copied : s.emitClose frame = s.copy 1 := by
    unfold State.emitClose
    split
    · rename_i kind
      simp [State.isAtomic, kind] at plain
    · rfl
  have place := place_skip_one direct.pause.place rest (by decide)
  have written : (s.copy 1).Pause false := by
    rw [s.copy_of_take (by rw [rest]; rfl : s.rest.take 1 = [')'])]
    exact direct.pause.written (by simp) place
  have closed : s.closed frame outer =
      { s.copy 1 with
        frames := outer
        splice := (s.copy 1).spliceOf frame s.out.size
        capture := (s.copy 1).captureOf frame
        atom := some ⟨frame.start, (s.copy 1).out.size, frame.firstGroup, false⟩ } := by
    rw [State.closed, copied, plain]
  have step : s.step options none = _ := step_close rest direct.pause.place frames
  rw [closed] at step ⊢
  refine ⟨conclude_ok (by simp [rest]) step, by simp [rest], by simp [rest],
    (List.append_nil _).symm, ⟨written.place, written.followed, written.mark, ?_⟩, ?_, ?_,
    direct.flags⟩
  · intro a recorded
    obtain rfl := Option.some.inj recorded
    exact Nat.le_refl _
  · intro a recorded
    obtain rfl := Option.some.inj recorded
    rfl
  · intro other member
    exact direct.frames other (by simp [frames, member])

theorem copies_stray (direct : Direct joined s) (rest : s.rest = ')' :: more)
    (frames : s.frames = []) : Copies options s more [')'] (s.copy 1) := by
  apply copies_one direct rest (by decide)
  rw [State.step, State.next?_plain rest (by simp), Construct.plain?_closeGroup]
  simp [State.read, State.closeGroup, frames]

end Conversion

end PatternDialect
