import PatternDialect.Proofs.Regions
import PatternDialect.Proofs.Stability

/-! The turns of a conversion without a delimiter: what a step reads, what it emits
for it, and where that leaves the reader of the pattern. -/

namespace PatternDialect

open Character Source

def Construct.isReference : Construct → Bool
  | numberReference | nameReference _ => true
  | _ => false

def Opener.captures : Opener → Bool
  | capture | named => true
  | plain | lookahead _ | lookbehind _ | atomic | unknown => false

namespace Region

theorem after_line {line : Text} (open_ : ∀ c ∈ line, isLineEnd c = false) (more : Text) :
    comment.after line = comment ∧ comment.dropsAll (line ++ more) = comment.dropsAll more := by
  induction line with
  | nil => exact ⟨rfl, rfl⟩
  | cons c rest ih =>
      have stays : comment.next c = comment := by simp [next, open_ c]
      obtain ⟨after, dropped⟩ := ih fun d member => open_ d (by simp [member])
      simp [dropsAll, drops, stays, after, dropped]

theorem tame_line {line last : Text} (open_ : ∀ c ∈ line, isLineEnd c = false)
    (short : last.length ≤ 1) : (pattern .outside).Tame ('#' :: (line ++ last)) := by
  intro front c back cut filled outside
  exfalso
  cases front with
  | nil => exact filled rfl
  | cons d front =>
      rw [List.cons_append, List.cons.injEq] at cut
      obtain ⟨rfl, inner⟩ := cut
      have begins : front <+: line := by
        rcases List.append_eq_append_iff.mp inner with ⟨more, rfl, behind⟩ | ⟨more, rfl, _⟩
        · have lengths := congrArg List.length behind
          simp only [List.length_append, List.length_cons] at lengths
          have empty : more = [] := List.length_eq_zero_iff.mp (by omega)
          simp [empty]
        · exact List.prefix_append _ _
      have stays := (after_line (fun e member => open_ e (begins.subset member)) []).1
      have comment_ : (pattern .outside).next '#' = comment := rfl
      rw [after_cons, comment_, stays] at outside
      contradiction

end Region

namespace Conversion

namespace State

variable {options : Options} {s next : State}

def front (s : State) : Text := s.before.reverse

theorem front_skip {word more : Text} (rest : s.rest = word ++ more) :
    (s.skip word.length).front = s.front ++ word ∧ (s.skip word.length).rest = more := by
  simp [front, rest]

def nulText (after : Text) : Text := '\\' :: '0' :: if joins after then separator else []

theorem nul_of_rest {more : Text} (rest : s.rest = '\\' :: '0' :: more) :
    s.nul = (s.emit (nulText more)).skip 2 := by
  unfold State.nul nulText
  change (if joins (s.rest.drop 2) = true then _ else _) = _
  have after : s.rest.drop 2 = more := by simp [rest]
  rw [after]
  split <;> simp [State.copy, emit, State.skip, rest]

inductive Turn (options : Options) (s : State) : Text → State → Prop where
  | drop (word more : Text) (rest : s.rest = word ++ more) (place : s.place = .outside)
      (filled : word ≠ []) (gap : Region.isGap word = true)
      (tame : (Region.pattern .outside).Tame word)
      (ends : more ≠ [] →
        Region.of word = .pattern .outside ∧ (s.skip word.length).place = .outside) :
      Turn options s word (s.skip word.length)
  | part (c : Char) (more : Text) (rest : s.rest = c :: more) (place : s.place = .outside)
      (blank : isBlank c = true) (parts : s.parts more = true) :
      Turn options s [c] ((s.skip 1).emit separator)
  | plain (c : Char) (more : Text) (rest : s.rest = c :: more) (place : s.place = .outside)
      (kept : isBreak c = false) (other : c ≠ '(' ∧ c ≠ ')' ∧ c ≠ '[')
      (alone : c = '\\' → more.head?.all (!isDigit ·) = true)
      (found : s.next? none = none ∨ c = ']' ∨ c = '.') : Turn options s [c] s.copyPlain
  | letter (l : Char) (tail more : Text) (rest : s.rest = '\\' :: l :: (tail ++ more))
      (place : s.place = .outside) (letter : isLetter l = true)
      (inner : ∀ d ∈ l :: tail, Construct.isInner d = true)
      (braced : options.unicode = false → tail = []) :
      Turn options s ('\\' :: l :: tail) (s.copy (tail.length + 2))
  | nul (more : Text) (rest : s.rest = '\\' :: '0' :: more) (place : s.place = .outside)
      (alone : more.head?.all (!isDigit ·) = true)
      (free : s.splice.filter (·.stop == s.out.size) = none) :
      Turn options s ['\\', '0'] ((s.emit (nulText more)).skip 2)
  | splice (digits more : Text) (splice : Splice) (rest : s.rest = '\\' :: (digits ++ more))
      (place : s.place = .outside) (filled : digits ≠ []) (all : ∀ d ∈ digits, isDigit d = true)
      (last : s.splice = some splice) (stop : splice.stop = s.out.size) :
      Turn options s ('\\' :: digits) { ({ s with
        groups := s.groups.suppress splice.slot }.skip (digits.length + 1)).emitReference
          splice.slot with splice := none }
  | refer (c : Char) (tail more : Text) (slot : Nat) (rest : s.rest = c :: (tail ++ more))
      (place : s.place = .outside) (head : c = '$' ∨ c = '\\' ∧ tail.head? = some 'k')
      (inner : ∀ d ∈ tail, Construct.isInner d = true) (positive : 0 < slot)
      (found : (s.next? none).any Construct.isReference = true) :
      Turn options s (c :: tail) ((s.skip (tail.length + 1)).emitReference slot)
  | openClass (more : Text) (rest : s.rest = '[' :: more) (place : s.place = .outside) :
      Turn options s ['['] (entered s)
  | anything (more : Text) (rest : s.rest = '.' :: more) (place : s.place = .outside)
      (single : options.singleLine = true) :
      Turn options s ['.'] (((s.emit ['[', '^', ']']).skip 1).recordAtom s.out.size)
  | repeat_ (q : Quantifier) (more : Text) (rest : s.rest = q.text ++ more)
      (legible : q.amount.Legible) (place : s.place = .outside) (mark : q.possessive = false)
      (next : s.next? none = some (.quantifier q)) :
      Turn options s q.text ({ s with
        out := s.prepared (s.atom.filter (·.stop == s.out.size)) ++ q.render options.ungreedy
        atom := none }.skip q.length)
  | possess (q : Quantifier) (atom : Atom) (more : Text) (rest : s.rest = q.text ++ more)
      (legible : q.amount.Legible) (place : s.place = .outside) (mark : q.possessive = true)
      (found : s.quantified? q = some atom) (next : s.next? none = some (.quantifier q)) :
      Turn options s q.text (s.possessed atom q)
  | enter (inner more : Text) (kind : FrameKind) (text : Text) (slot : Option Slot)
      (rest : s.rest = '(' :: (inner ++ more)) (place : s.place = .outside)
      (tail : ∀ d ∈ inner, Construct.isInner d = true) (opening : s.Opening options kind text slot)
      (ahead : kind = .lookahead false ↔ inner = ['?', '='])
      (marked : Opener.read (inner ++ more) = .lookahead false → kind = .lookahead false)
      (captures : s.atLookaheadStart = true →
        ((∃ slot, kind = .capture slot) ↔ (Opener.read (inner ++ more)).captures = true)) :
      Turn options s ('(' :: inner)
        ((({ s with groups := s.opened slot }.emit text).skip (inner.length + 1)).openFrame kind
          s.out.size s.groups.size)
  | leave (frame : Frame) (frames : List Frame) (more : Text) (rest : s.rest = ')' :: more)
      (place : s.place = .outside) (open_ : s.frames = frame :: frames) :
      Turn options s [')'] (s.closed frame frames)
  | stray (more : Text) (rest : s.rest = ')' :: more) (place : s.place = .outside)
      (open_ : s.frames = []) : Turn options s [')'] (s.copy 1)
  | within (word more : Text) (rest : s.rest = word ++ more) (filled : word ≠ [])
      (stays : s.place.within word = true) : Turn options s word (s.copy word.length)
  | closeClass (start : Nat) (more : Text) (rest : s.rest = ']' :: more)
      (place : s.place = .inClass) (open_ : s.classStart = some start) :
      Turn options s [']'] ({ s.copy 1 with classStart := none }.recordAtom start)
  | escaped (c : Char) (more : Text) (rest : s.rest = c :: more) (place : s.place = .escape)
      (noDigit : isDigit c = false) : Turn options s [c] (s.copy 1)
  | restore (c : Char) (more : Text) (rest : s.rest = c :: more) (place : s.place = .escape)
      (kept : isBlank c = true ∨ c = '#') : Turn options s [c] (s.dropEscape.copy 1)

theorem turn_inClass (followed : s.Followed) (class_ : s.inClass = true) (nonempty : s.rest ≠ [])
    (ok : s.step options none = .ok next) : ∃ word, Turn options s word next := by
  cases rest : s.rest with
  | nil => exact absurd rest nonempty
  | cons c more =>
      by_cases closes : c = ']' ∧ s.escaped = false
      · obtain ⟨rfl, unescaped⟩ := closes
        cases open_ : s.classStart with
        | none => simp [inClass, open_] at class_
        | some start =>
            rw [step, next?_plain rest (by simp), Construct.plain?_closeClass] at ok
            simp only [read, State.closeClass, open_, unescaped, Bool.false_eq_true, ↓reduceIte,
              Except.ok.injEq] at ok
            subst ok
            exact ⟨_, Turn.closeClass start more rest (place_of_inClass class_ unescaped) open_⟩
      · have open_ : c = ']' → s.escaped = true ∨ (none : Option Char) = some ']' := by
          intro bracket
          exact Or.inl (by simpa using fun unescaped => closes ⟨bracket, unescaped⟩)
        obtain ⟨word, left, parts, filled, stays, copied⟩ :=
          step_copies (admitted_of_step ok) class_ followed rest open_
        rw [ok] at copied
        cases copied
        exact ⟨word, Turn.within word left parts filled (stays (by simp))⟩

theorem turn_escaped (ready : s.Ready) (place : s.place = .escape) (nonempty : s.rest ≠ [])
    (ok : s.step options none = .ok next) : ∃ word, Turn options s word next := by
  have class_ : s.inClass = false := by
    rw [← inside_place, place]
    rfl
  have escape : s.escaped = true := by
    rw [← isEscape_place, place]
    rfl
  cases rest : s.rest with
  | nil => exact absurd rest nonempty
  | cons c more =>
      have noDigit : isDigit c = false := by simpa [rest] using ready escape class_
      rw [step_escaped escape rest, Except.ok.injEq] at ok
      subst ok
      unfold passed
      rw [if_neg (by simp), class_, Bool.not_false, Bool.and_true]
      split
      · rename_i breaks
        rw [Bool.or_eq_true, beq_iff_eq] at breaks
        exact ⟨_, Turn.restore c more rest place breaks⟩
      · rw [copyPlain_of_not_digit rest noDigit]
        exact ⟨_, Turn.escaped c more rest place noDigit⟩

theorem turn_blank {c : Char} {more : Text} (place : s.place = .outside) (rest : s.rest = c :: more)
    (blank : isBlank c = true) : Turn options s [c] s.blank := by
  have plain : c ≠ '#' ∧ c ≠ '\\' ∧ c ≠ '[' := by
    refine ⟨?_, ?_, ?_⟩ <;> rintro rfl <;> exact absurd blank (by decide)
  have after : s.rest.drop 1 = more := by simp [rest]
  unfold State.blank
  rw [inClass_of_place place, escaped_of_place place, if_neg (by decide), if_neg (by decide)]
  change Turn options s [c] (if s.parts (s.rest.drop 1) = true then _ else _)
  rw [after]
  split
  · rename_i parts
    exact Turn.part c more rest place blank parts
  · refine Turn.drop [c] more rest place (by simp) ?_ (.of_inner (by simp)) fun _ => ?_
    · simp [Region.isGap, Region.dropsAll, Region.drops, isBreak, blank]
    · refine ⟨by simp [Region.of, Region.next, Place.next, plain], place_skip place ?_⟩
      rw [List.length_singleton, escaped_skip_one rest, beq_eq_false_iff_ne.mpr plain.2.1,
        Bool.false_and]

theorem turn_comment {more : Text} (place : s.place = .outside) (rest : s.rest = '#' :: more) :
    ∃ word, Turn options s word s.comment := by
  obtain ⟨line, begins⟩ : ∃ line, line = more.takeWhile (!isLineEnd ·) := ⟨_, rfl⟩
  obtain ⟨tail, ends⟩ : ∃ tail, tail = more.dropWhile (!isLineEnd ·) := ⟨_, rfl⟩
  have parts : more = line ++ tail := by
    rw [begins, ends]
    exact List.takeWhile_append_dropWhile.symm
  have open_ : ∀ c ∈ line, isLineEnd c = false := by
    intro c member
    rw [begins] at member
    simpa using List.all_eq_true.mp List.all_takeWhile c member
  have comment_ : (Region.pattern .outside).next '#' = .comment := rfl
  have count : commentLength s.rest = line.length + 2 := by
    rw [rest, commentLength, List.takeWhile_cons_of_pos (by decide), ← begins]
    rfl
  have dropped : s.comment = s.skip (line.length + 2) := by
    unfold State.comment
    rw [inClass_of_place place, escaped_of_place place, if_neg (by decide), if_neg (by decide),
      count]
  rw [dropped]
  cases tail with
  | nil =>
      have whole : s.skip (line.length + 2) = s.skip ('#' :: line).length := by
        rw [List.append_nil] at parts
        have long : line.take (line.length + 1) = line := List.take_of_length_le (by omega)
        simp [State.skip, rest, parts, long]
      rw [whole]
      refine ⟨_, Turn.drop ('#' :: line) [] (by simp [rest, parts]) place (by simp) ?_ ?_
        (by simp)⟩
      · have all := (Region.after_line open_ []).2
        rw [List.append_nil] at all
        simp [Region.isGap, Region.dropsAll, comment_, all, Region.drops, isBreak]
      · have tame : (Region.pattern .outside).Tame ('#' :: (line ++ [])) :=
          Region.tame_line open_ (by simp)
        rwa [List.append_nil] at tame
  | cons c left =>
      have closes : isLineEnd c = true := by
        have first := List.head_dropWhile_not (fun x => !isLineEnd x) (l := more)
          (by rw [← ends]; simp)
        simpa [← ends] using first
      have whole : line.length + 2 = ('#' :: (line ++ [c])).length := by simp
      rw [whole]
      refine ⟨_, Turn.drop ('#' :: (line ++ [c])) left (by simp [rest, parts]) place (by simp) ?_
        (Region.tame_line open_ (by simp)) fun _ => ?_⟩
      · have all := (Region.after_line open_ [c]).2
        simp [Region.isGap, Region.dropsAll, comment_, all, Region.drops, isBreak]
      · have stays := (Region.after_line open_ []).1
        refine ⟨by simp [Region.of, stays, Region.next, closes], place_skip place ?_⟩
        have read : s.rest = '#' :: (line ++ [c]) ++ left := by simp [rest, parts]
        have taken : s.rest.take ('#' :: (line ++ [c])).length = '#' :: line ++ [c] := by
          rw [read, List.take_left]
          rfl
        apply escaped_skip_of_last _ taken
        rintro rfl
        exact absurd closes (by decide)

theorem digits_append (text : Text) : ∃ more, text = Text.digits text ++ more ∧
    more.head?.all (!isDigit ·) = true ∧ ∀ d ∈ Text.digits text, isDigit d = true := by
  refine ⟨text.dropWhile isDigit, List.takeWhile_append_dropWhile.symm,
    Text.head?_dropWhile_isDigit text, ?_⟩
  intro d member
  exact List.all_eq_true.mp List.all_takeWhile d member

theorem isInner_of_isDigit {d : Char} (digit : isDigit d = true) : Construct.isInner d = true := by
  simp [Construct.isInner, isWord, digit]

theorem isInner_of_isHexDigit {d : Char} (hex : isHexDigit d = true) :
    Construct.isInner d = true := by
  rcases isLetter_or_isDigit_of_isHexDigit hex with letter | digit
  · simp [Construct.isInner, isWord, letter]
  · exact isInner_of_isDigit digit

theorem name?_inner {text name : Text} (found : Text.name? text = some name) :
    (∃ more, text = name ++ '>' :: more) ∧ ∀ d ∈ name, Construct.isInner d = true := by
  refine ⟨name?_spec found, ?_⟩
  unfold Text.name? at found
  dsimp only at found
  split at found
  · contradiction
  split at found
  · cases found
    intro d member
    have word : isWord d = true := List.all_eq_true.mp List.all_takeWhile d member
    simp [Construct.isInner, word]
  · contradiction

theorem turn_numberReference (place : s.place = .outside) {d : Char} {more : Text}
    (rest : s.rest = '$' :: d :: more) (found : s.next? none = some .numberReference)
    (ok : s.numberReference = .ok next) :
    ∃ word, Turn options s word next := by
  simp only [State.numberReference, inClass_of_place place, escaped_of_place place, Bool.or_self,
    Bool.false_eq_true, ↓reduceIte] at ok
  obtain ⟨slot, resolved, equality⟩ := bind_ok ok
  cases equality
  have behind : s.rest.drop 1 = d :: more := by simp [rest]
  rw [behind, Nat.add_comm 1]
  obtain ⟨left, parts, _, all⟩ := digits_append (d :: more)
  exact ⟨_, Turn.refer '$' (Text.digits (d :: more)) left slot (by rw [rest, ← parts]) place
    (Or.inl rfl) (fun e member => isInner_of_isDigit (all e member))
    (resolveDigits_bounds resolved).1 (by rw [found]; rfl)⟩

theorem turn_nameReference (place : s.place = .outside) {form : NameReference} {more : Text}
    (rest : s.rest = form.opener ++ more) (found : s.next? none = some (.nameReference form))
    (ok : s.nameReference form = .ok next) :
    ∃ word, Turn options s word next := by
  obtain ⟨name, slot, named, resolved, rfl⟩ := nameReference_ok place ok
  have positive := (resolve_bounds resolved).1
  obtain ⟨⟨left, parts⟩, inner⟩ := name?_inner named
  rw [rest, List.drop_left] at parts
  have written : ∀ front : Text, (∀ d ∈ front, Construct.isInner d = true) →
      ∀ d ∈ front ++ (name ++ ['>']), Construct.isInner d = true := by
    intro front all d member
    simp only [List.mem_append, List.mem_singleton] at member
    rcases member with early | written | rfl
    · exact all d early
    · exact inner d written
    · decide
  have count : ∀ front : Text, front.length + 1 = form.opener.length →
      form.opener.length + name.length + 1 = (front ++ (name ++ ['>'])).length + 1 := by
    intro front length
    simp only [List.length_append, List.length_singleton]
    omega
  have reads : (s.next? none).any Construct.isReference = true := by
    rw [found]
    rfl
  cases form with
  | dollar =>
      rw [count ['<'] rfl]
      exact ⟨_, Turn.refer '$' _ left slot (by rw [rest, parts]; simp [NameReference.opener]) place
        (Or.inl rfl) (written ['<'] (List.all_eq_true.mp rfl)) positive reads⟩
  | escape =>
      rw [count ['k', '<'] rfl]
      exact ⟨_, Turn.refer '\\' _ left slot (by rw [rest, parts]; simp [NameReference.opener]) place
        (Or.inr ⟨rfl, rfl⟩) (written ['k', '<'] (List.all_eq_true.mp rfl)) positive reads⟩

theorem turn_openCapture (place : s.place = .outside) {more : Text} (rest : s.rest = '(' :: more)
    (form : Opener.read more = .capture) (ok : s.openCapture options = .ok next) :
    Turn options s ['('] next := by
  have one : s.rest.take 1 = ['('] := by simp [rest]
  have read : Opener.read ([] ++ more) = .capture := form
  have enter : ∀ {kind : FrameKind} {text : Text} {slot : Option Slot},
      s.Opening options kind text slot → kind ≠ .lookahead false →
        (s.atLookaheadStart = true → ∃ slot, kind = .capture slot) →
          Turn options s ['('] ((({ s with groups := s.opened slot }.emit text).skip 1).openFrame
            kind s.out.size s.groups.size) := by
    intro kind text slot opening other captures
    refine Turn.enter [] more kind text slot rest place (by simp) opening (by simp [other]) ?_ ?_
    · rw [read]
      simp
    · rw [read]
      exact fun start => ⟨fun _ => rfl, fun _ => captures start⟩
  unfold openCapture at ok
  split at ok
  · contradiction
  dsimp only at ok
  cases noCapture : options.noCapture with
  | false =>
      simp only [noCapture, Bool.not_false, ↓reduceIte, Except.ok.injEq] at ok
      subst ok
      have opening : s.Opening options (.capture s.groups.size) ['('] (some .anonymous) :=
        .capture _ (by simp)
      have turn := enter opening (by simp) fun _ => ⟨_, rfl⟩
      rw [← one] at turn
      rwa [copy_of_take _ rfl, ← one]
  | true =>
      cases start : s.atLookaheadStart with
      | true =>
          simp only [noCapture, start, Bool.not_true, Bool.false_eq_true, ↓reduceIte,
            Except.ok.injEq] at ok
          subst ok
          have turn := enter (.hidden noCapture start) (by simp) fun _ => ⟨_, rfl⟩
          rw [← one] at turn
          rwa [copy_of_take _ rfl, ← one]
      | false =>
          simp only [noCapture, start, Bool.not_true, Bool.false_eq_true, ↓reduceIte,
            Except.ok.injEq] at ok
          subst ok
          exact enter .plain (by simp) fun begins => absurd (start.symm.trans begins) (by simp)

theorem turn_marked (place : s.place = .outside) {more : Text} (rest : s.rest = '(' :: more)
    {form : Opener} (read : Opener.read more = form) {inner : Text}
    (written : form.text = '(' :: inner)
    (plain : form.captures = false) {kind : FrameKind} {text : Text} {slot : Option Slot}
    (opening : s.Opening options kind text slot) (other : ∀ slot, kind ≠ .capture slot)
    (ahead : kind = .lookahead false ↔ form = .lookahead false) :
    Turn options s ('(' :: inner) ((({ s with groups := s.opened slot }.emit text).skip
      (inner.length + 1)).openFrame kind s.out.size s.groups.size) := by
  obtain ⟨left, rfl⟩ : ∃ left, more = inner ++ left := by
    have taken := Opener.take_length more
    rw [read, ← Opener.length_text, written, List.length_cons, List.take_succ_cons,
      List.cons.injEq] at taken
    refine ⟨more.drop inner.length, ?_⟩
    calc more = more.take inner.length ++ more.drop inner.length := (List.take_append_drop _ _).symm
      _ = _ := by rw [taken.2]
  have marks : ∀ d ∈ inner, Construct.isInner d = true := by
    intro d member
    have tail : form.text.tail = inner := by rw [written, List.tail_cons]
    exact Opener.isInner_of_mem_tail (tail ▸ member)
  refine Turn.enter inner left kind text slot rest place marks opening ?_ ?_ fun _ => ?_
  · rw [ahead]
    constructor
    · rintro rfl
      exact (List.cons.inj written).2.symm
    · rintro rfl
      exact read.symm
  · rw [read]
    exact ahead.mpr
  · rw [read, plain]
    exact ⟨fun ⟨slot, same⟩ => absurd same (other slot), fun never => absurd never (by simp)⟩

theorem turn_native (place : s.place = .outside) {more : Text} (rest : s.rest = '(' :: more)
    {form : Opener} (read : Opener.read more = form) {inner : Text}
    (written : form.text = '(' :: inner) (plain : form.captures = false) {kind : FrameKind}
    (opening : s.Opening options kind form.text none) (other : ∀ slot, kind ≠ .capture slot)
    (ahead : kind = .lookahead false ↔ form = .lookahead false) :
    Turn options s form.text (s.openNative form kind) := by
  have taken : s.rest.take form.length = form.text := by
    rw [rest, ← read]
    exact Opener.take_length more
  have turn := turn_marked place rest read written plain opening other ahead
  rw [← List.length_cons, ← written, Opener.length_text] at turn
  rwa [openNative, s.copy_of_take taken]

theorem turn_openNamed (place : s.place = .outside) {more : Text} (rest : s.rest = '(' :: more)
    (form : Opener.read more = .named) (ok : s.openNamed = .ok next) :
    ∃ word, Turn options s word next := by
  obtain ⟨name, named, rfl⟩ := openNamed_ok ok
  obtain ⟨⟨left, parts⟩, inner⟩ := name?_inner named
  have begins : more = ['?', '<'] ++ (name ++ ['>']) ++ left := by
    have taken := Opener.take_length more
    rw [form] at taken
    have behind : more.drop 2 = name ++ '>' :: left := by
      rw [rest] at parts
      exact parts
    calc more = more.take 2 ++ more.drop 2 := (List.take_append_drop _ _).symm
      _ = ['?', '<'] ++ (name ++ '>' :: left) := by rw [behind, (List.cons.inj taken).2]
      _ = _ := by simp
  have marks : ∀ d ∈ ['?', '<'] ++ (name ++ ['>']), Construct.isInner d = true := by
    intro d member
    simp only [List.mem_append, List.mem_cons, List.not_mem_nil, or_false] at member
    rcases member with (rfl | rfl) | written | rfl
    · decide
    · decide
    · exact inner d written
    · decide
  have opening : s.Opening options (.capture s.groups.size) ['('] (some (.named name)) :=
    .capture _ (by simp)
  have count : 3 + name.length + 1 = (['?', '<'] ++ (name ++ ['>'])).length + 1 := by
    simp only [List.length_append, List.length_cons, List.length_nil]
    omega
  rw [count]
  refine ⟨_, Turn.enter _ left _ _ _ (by rw [rest, ← begins]) place marks opening (by simp) ?_ ?_⟩
  · rw [← begins, form]
    simp
  · rw [← begins, form]
    exact fun _ => ⟨fun _ => rfl, fun _ => ⟨_, rfl⟩⟩

theorem turn_openGroup (place : s.place = .outside) {more : Text} (rest : s.rest = '(' :: more)
    (ok : s.openGroup options (.read more) = .ok next) : ∃ word, Turn options s word next := by
  simp only [State.openGroup, inClass_of_place place, escaped_of_place place, Bool.false_eq_true,
    ↓reduceIte] at ok
  cases form : Opener.read more with
  | capture =>
      rw [form] at ok
      exact ⟨_, turn_openCapture place rest form ok⟩
  | named =>
      rw [form] at ok
      exact turn_openNamed place rest form ok
  | unknown =>
      rw [form] at ok
      contradiction
  | plain =>
      rw [form] at ok
      cases ok
      exact ⟨_, turn_native place rest form rfl rfl .plain (by simp) (by simp)⟩
  | lookahead negative =>
      rw [form] at ok
      cases ok
      exact ⟨_, turn_native place rest form rfl rfl (.lookahead negative) (by simp) (by simp)⟩
  | lookbehind negative =>
      rw [form] at ok
      cases ok
      exact ⟨_, turn_native place rest form rfl rfl (.lookbehind negative) (by simp) (by simp)⟩
  | atomic =>
      rw [form] at ok
      cases ok
      exact ⟨_, turn_marked place rest form rfl rfl .atomic (by simp) (by simp)⟩

theorem turn_closeGroup (place : s.place = .outside) {more : Text} (rest : s.rest = ')' :: more) :
    Turn options s [')'] s.closeGroup := by
  unfold State.closeGroup
  rw [inClass_of_place place, escaped_of_place place]
  cases open_ : s.frames with
  | nil => exact Turn.stray more rest place open_
  | cons frame frames => exact Turn.leave frame frames more rest place open_

theorem turn_quantifier (place : s.place = .outside) {q : Quantifier}
    (read : s.next? none = some (.quantifier q))
    (ok : s.quantifier options q = .ok next) : Turn options s q.text next := by
  obtain ⟨legible, more, rest⟩ := Construct.stands_of_at? read
  obtain ⟨_, ok⟩ := quantify_of_quantifier place ok
  cases mark : q.possessive with
  | true =>
      obtain ⟨atom, found, rfl⟩ := quantify_possessive mark ok
      exact Turn.possess q atom more rest legible place mark found read
  | false =>
      rw [quantify_plain mark ok]
      exact Turn.repeat_ q more rest legible place mark read

theorem turn_escapedDigit (place : s.place = .outside) {digit : Char} {more : Text}
    (isDigit_ : isDigit digit = true) (rest : s.rest = '\\' :: digit :: more)
    (ok : s.escapedDigit digit = .ok next) : ∃ word, Turn options s word next := by
  have behind : s.rest.drop 1 = digit :: more := by simp [rest]
  obtain ⟨left, parts, ends, all⟩ := digits_append (digit :: more)
  have filled : Text.digits (digit :: more) ≠ [] := by simp [Text.digits, isDigit_]
  simp only [State.escapedDigit, inClass_of_place place, Bool.false_eq_true, ↓reduceIte,
    behind] at ok
  cases last : s.splice.filter (·.stop == s.out.size) with
  | some splice =>
      rw [last] at ok
      cases ok
      obtain ⟨recorded, stop⟩ := Option.filter_eq_some_iff.mp last
      rw [Nat.add_comm 1]
      exact ⟨_, Turn.splice _ left splice (by rw [rest, ← parts]) place filled all recorded
        (by simpa using stop)⟩
  | none =>
      rw [last] at ok
      dsimp only at ok
      split at ok
      · rename_i condition
        simp only [Bool.and_eq_true, beq_iff_eq] at condition
        obtain ⟨rfl, single⟩ := condition
        cases ok
        have tail : left = more := by
          have digits : Text.digits ('0' :: more) = '0' :: Text.digits more := rfl
          rw [digits] at parts single
          have none_ : Text.digits more = [] := by simpa using single
          rw [none_] at parts
          simpa using parts.symm
        rw [nul_of_rest rest]
        exact ⟨_, Turn.nul more rest place (tail ▸ ends) last⟩
      · contradiction

theorem turn_escapedLetter (place : s.place = .outside) {letter : Char} {more : Text}
    (isLetter_ : isLetter letter = true) (rest : s.rest = '\\' :: letter :: more)
    (ok : s.escapedLetter options letter = .ok next) : ∃ word, Turn options s word next := by
  have behind : s.rest.drop 2 = more := by simp [rest]
  obtain ⟨count, counted⟩ : ∃ count, count =
    if letter == 'u' && options.unicode then bracedLength more else 0 := ⟨_, rfl⟩
  have taken : count = 0 ∨ count = bracedLength more := by
    rw [counted]
    split
    · exact Or.inr rfl
    · exact Or.inl rfl
  obtain rfl : next = s.copy (2 + count) := by rw [escapedLetter_copy ok, behind, counted]
  have short : count ≤ more.length := by
    have bound := bracedLength_le more
    omega
  have length : 2 + count = (more.take count).length + 2 := by
    rw [List.length_take_of_le short]
    omega
  rw [length]
  refine ⟨_, Turn.letter letter (more.take count) (more.drop count) (by simp [rest]) place
    isLetter_ ?_ fun plain => by simp [counted, plain]⟩
  intro d member
  rcases List.mem_cons.mp member with rfl | member
  · simp [Construct.isInner, isWord, isLetter_]
  rcases taken with rfl | rfl
  · simp at member
  · rcases mem_take_bracedLength member with rfl | rfl | hex
    · decide
    · decide
    · exact isInner_of_isHexDigit hex

theorem turn_outside (place : s.place = .outside) (nonempty : s.rest ≠ [])
    (ok : s.step options none = .ok next) : ∃ word, Turn options s word next := by
  have class_ := inClass_of_place place
  have escape := escaped_of_place place
  unfold step at ok
  cases found : s.next? none with
  | none =>
      rw [found] at ok
      cases ok
      cases rest : s.rest with
      | nil => exact absurd rest nonempty
      | cons c more =>
          rw [next?, rest] at found
          have idle := Construct.idle_of_at? found
          obtain ⟨open_, _, _, _, _, _, parenthesis, closing, hash⟩ := idle.other
          refine ⟨_, Turn.plain c more rest place ?_ ⟨parenthesis, closing, open_⟩ ?_
            (Or.inl (by rw [next?, rest, found]))⟩
          · simp [isBreak, idle.notBlank, hash]
          · intro backslash
            have behind := idle.backslash backslash escape
            cases more with
            | nil => rfl
            | cons d tail =>
                simp only [List.head?_cons, Option.all_some, Bool.and_eq_true] at behind ⊢
                exact behind.1
  | some construct =>
      have stands := Construct.stands_of_at? found
      rw [found] at ok
      have single : ∀ {c : Char} {more : Text}, s.rest = c :: more → isDigit c = false →
          isBreak c = false → c ≠ '(' ∧ c ≠ ')' ∧ c ≠ '[' → c ≠ '\\' → c = ']' ∨ c = '.' →
            Turn options s [c] (s.copy 1) := by
        intro c more rest noDigit kept other backslash known
        rw [← copyPlain_of_not_digit rest noDigit]
        exact Turn.plain c more rest place kept other (fun same => absurd same backslash)
          (Or.inr known)
      cases construct with
      | blank c =>
          obtain ⟨blank, more, rest⟩ := stands
          cases ok
          exact ⟨_, turn_blank place rest blank⟩
      | openClass =>
          obtain ⟨more, rest⟩ := stands
          simp only [read, State.openClass, class_, escape, Bool.or_self, Bool.false_eq_true,
            ↓reduceIte, Except.ok.injEq] at ok
          subst ok
          exact ⟨_, Turn.openClass more rest place⟩
      | closeClass =>
          obtain ⟨_, more, rest⟩ := stands
          have start : s.classStart = none := by simpa [inClass] using class_
          simp only [read, State.closeClass, start, Except.ok.injEq] at ok
          subst ok
          exact ⟨_, single rest (by decide) (by decide) (by decide) (by decide) (by decide)⟩
      | dot =>
          obtain ⟨more, rest⟩ := stands
          cases ok
          unfold State.dot
          rw [class_, escape]
          cases mode : options.singleLine with
          | false =>
              exact ⟨_, single rest (by decide) (by decide) (by decide) (by decide) (by decide)⟩
          | true => exact ⟨_, Turn.anything more rest place mode⟩
      | quantifier q => exact ⟨_, turn_quantifier place found ok⟩
      | numberReference =>
          obtain ⟨d, more, rest, _⟩ := stands
          exact turn_numberReference place rest found ok
      | nameReference form =>
          obtain ⟨_, more, rest⟩ := stands
          exact turn_nameReference place rest found ok
      | openGroup form =>
          obtain ⟨more, rest, rfl⟩ := stands
          exact turn_openGroup place rest ok
      | closeGroup =>
          obtain ⟨more, rest⟩ := stands
          cases ok
          exact ⟨_, turn_closeGroup place rest⟩
      | comment =>
          obtain ⟨more, rest⟩ := stands
          cases ok
          exact turn_comment place rest
      | escapedDigit d =>
          obtain ⟨_, digit, more, rest⟩ := stands
          exact turn_escapedDigit place digit rest ok
      | escapedLetter l =>
          obtain ⟨_, letter, more, rest⟩ := stands
          exact turn_escapedLetter place letter rest ok
      | flagsDelimiter c => exact absurd stands.1 (by simp)

theorem turn_of_step (ready : s.Ready) (followed : s.Followed) (nonempty : s.rest ≠ [])
    (ok : s.step options none = .ok next) : ∃ word, Turn options s word next := by
  cases class_ : s.inClass with
  | true => exact turn_inClass followed class_ nonempty ok
  | false =>
      cases escape : s.escaped with
      | true => exact turn_escaped ready (place_eq_escape class_ escape) nonempty ok
      | false => exact turn_outside (place_eq_outside class_ escape) nonempty ok

theorem ne_of_isInner {d : Char} (inner : Construct.isInner d = true) :
    d ≠ '#' ∧ d ≠ '[' ∧ d ≠ '\\' := by
  refine ⟨?_, ?_, ?_⟩ <;> rintro rfl <;> exact absurd inner (by decide)

theorem solid_of_isInner {d : Char} (inner : Construct.isInner d = true) :
    isBreak d = false ∧ d ≠ '(' ∧ d ≠ ')' := by
  refine ⟨?_, ?_, ?_⟩
  · by_contra breaks
    rw [isInner_of_isBreak (by simpa using breaks)] at inner
    contradiction
  · rintro rfl
    exact absurd inner (by decide)
  · rintro rfl
    exact absurd inner (by decide)

theorem text_quantifier {q : Quantifier} (legible : q.amount.Legible) :
    ∃ c tail, q.text = c :: tail ∧ Construct.isInner c = true ∧
      ∀ d ∈ tail, Construct.isInner d = true := by
  have inner : ∀ d ∈ q.text, Construct.isInner d = true := fun d member => by
    simp [Construct.isInner, Quantifier.isAmount_of_mem_text legible member]
  obtain ⟨c, rest, amount, _⟩ := legible.head
  obtain ⟨tail, written⟩ : ∃ tail, q.text = c :: tail := ⟨_, by rw [Quantifier.text, amount]; rfl⟩
  rw [written] at inner
  exact ⟨c, tail, written, inner c (by simp), fun d member => inner d (by simp [member])⟩

theorem head_quantifier {q : Quantifier} (legible : q.amount.Legible) {c : Char} {tail : Text}
    (written : q.text = c :: tail) : isDigit c = false := by
  obtain ⟨d, rest, amount, noDigit⟩ := legible.head
  rw [Quantifier.text, amount] at written
  rwa [← (List.cons.inj written).1]

theorem Turn.reads {word : Text} (turn : Turn options s word next) :
    next.front = s.front ++ word ∧ s.rest = word ++ next.rest := by
  have skipped : ∀ (word : Text) {more : Text} {count : Nat}, s.rest = word ++ more →
      word.length = count → (s.skip count).front = s.front ++ word ∧
        s.rest = word ++ (s.skip count).rest := by
    rintro word more _ rest rfl
    obtain ⟨front, behind⟩ := front_skip rest
    exact ⟨front, by rw [behind, rest]⟩
  cases turn with
  | drop _ more rest => exact skipped _ rest rfl
  | part c more rest => exact skipped [c] rest rfl
  | plain c more rest =>
      rw [copyPlain_eq rest]
      exact skipped [c] rest rfl
  | letter l tail more rest => exact skipped (_ :: _ :: tail) rest rfl
  | nul more rest => exact skipped ['\\', '0'] rest rfl
  | splice digits more splice rest => exact skipped ('\\' :: digits) rest rfl
  | refer c tail more slot rest => exact skipped (c :: tail) rest rfl
  | openClass more rest => exact skipped ['['] rest rfl
  | anything more rest => exact skipped ['.'] rest rfl
  | repeat_ q more rest => exact skipped _ rest q.length_text
  | possess q atom more rest => exact skipped _ rest q.length_text
  | enter inner more kind text slot rest => exact skipped ('(' :: inner) rest rfl
  | leave frame frames more rest =>
      obtain ⟨_, before, behind, _, _⟩ := closed_eq frame frames rest
      exact ⟨by simp [front, before], by rw [behind, rest]; rfl⟩
  | stray more rest => exact skipped [')'] rest rfl
  | within _ more rest => exact skipped _ rest rfl
  | closeClass start more rest => exact skipped [']'] rest rfl
  | escaped c more rest => exact skipped [c] rest rfl
  | restore c more rest =>
      have reads := skipped [c] rest rfl
      unfold dropEscape
      split <;> exact reads

theorem Turn.tame {word : Text} (turn : Turn options s word next) :
    (Region.pattern s.place).Tame word := by
  cases turn with
  | drop _ more rest place filled gap tame =>
      rw [place]
      exact tame
  | letter l tail more rest place isLetter_ inner => exact .of_inner inner
  | nul => exact .of_inner (List.all_eq_true.mp rfl)
  | splice digits more splice rest place filled all =>
      exact .of_inner fun d member => isInner_of_isDigit (all d member)
  | refer c tail more slot rest place head inner => exact .of_inner inner
  | repeat_ q more rest legible =>
      obtain ⟨c, tail, written, _, inner⟩ := text_quantifier legible
      rw [written]
      exact .of_inner inner
  | possess q atom more rest legible =>
      obtain ⟨c, tail, written, _, inner⟩ := text_quantifier legible
      rw [written]
      exact .of_inner inner
  | enter inner more kind text slot rest place tail => exact .of_inner tail
  | within _ more rest filled stays => exact .of_within stays
  | _ => exact .of_inner (by simp)

theorem Turn.filled {word : Text} (turn : Turn options s word next) : word ≠ [] := by
  cases turn with
  | drop _ more rest place filled => exact filled
  | within _ more rest filled => exact filled
  | repeat_ q more rest legible =>
      obtain ⟨c, tail, written, _, _⟩ := text_quantifier legible
      simp [written]
  | possess q atom more rest legible =>
      obtain ⟨c, tail, written, _, _⟩ := text_quantifier legible
      simp [written]
  | _ => simp

theorem inside_after_of_plain {place : Place} (outside : place.inside = false) {text : Text}
    (plain : ∀ c ∈ text, c ≠ '[') : (place.after text).inside = false := by
  induction text generalizing place with
  | nil => exact outside
  | cons c rest ih =>
      rw [Place.after_cons]
      refine ih ?_ fun d member => plain d (by simp [member])
      have open_ := plain c (by simp)
      cases place with
      | outside =>
          by_cases backslash : c = '\\' <;> simp [Place.next, Place.inside, backslash, open_]
      | escape => rfl
      | inClass => contradiction
      | classEscape => contradiction

theorem region_of_reads {word : Text} (reads : next.front = s.front ++ word)
    (visible : (Region.pattern s.place).after word = .pattern (s.place.after word))
    (inside : (s.place.after word).inside = next.inClass) :
    (Region.pattern s.place).after word = .pattern next.place := by
  have before : next.before = word.reverse ++ s.before := by
    have reversed := congrArg List.reverse reads
    simpa [front] using reversed
  rw [visible]
  congr 1
  apply Place.eq_of_inside
  · rw [inside, inside_place]
  · rw [Place.isEscape_after_of (isEscape_place s), isEscape_place, escaped, before]

theorem region_of_inner {c : Char} {tail : Text} (reads : next.front = s.front ++ c :: tail)
    (place : s.place = .outside) (head : c ≠ '#' ∧ c ≠ '[')
    (inner : ∀ d ∈ tail, Construct.isInner d = true) (class_ : next.inClass = false) :
    (Region.pattern s.place).after (c :: tail) = .pattern next.place := by
  apply region_of_reads reads
  · apply Region.after_pattern
    intro d member
    rcases List.mem_cons.mp member with rfl | member
    · exact head.1
    · exact (ne_of_isInner (inner d member)).1
  · rw [class_, place]
    apply inside_after_of_plain rfl
    intro d member
    rcases List.mem_cons.mp member with rfl | member
    · exact head.2
    · exact (ne_of_isInner (inner d member)).2.1

theorem Turn.region {word : Text} (turn : Turn options s word next) (more : next.rest ≠ []) :
    (Region.pattern s.place).after word = .pattern next.place := by
  have reads := turn.reads.1
  have outside : s.place = .outside → s.inClass = false := inClass_of_place
  cases turn with
  | drop _ left rest place filled gap tame ends =>
      obtain ⟨region, behind⟩ := ends (by rwa [(front_skip rest).2] at more)
      rw [place, behind]
      exact region
  | part c left rest place blank parts =>
      refine region_of_inner reads place ?_ (by simp) (outside place)
      constructor <;> rintro rfl <;> exact absurd blank (by decide)
  | plain c left rest place kept other alone =>
      refine region_of_inner reads place ⟨?_, other.2.2⟩ (by simp) ?_
      · rintro rfl
        exact absurd kept (by decide)
      · rw [copyPlain_eq rest]
        exact outside place
  | letter l tail left rest place isLetter_ inner =>
      exact region_of_inner reads place (by decide) inner (outside place)
  | nul left rest place =>
      exact region_of_inner reads place (by decide) (List.all_eq_true.mp rfl) (outside place)
  | splice digits left splice rest place filled all =>
      exact region_of_inner reads place (by decide)
        (fun d member => isInner_of_isDigit (all d member)) (outside place)
  | refer c tail left slot rest place head inner =>
      refine region_of_inner reads place ?_ inner (outside place)
      rcases head with rfl | ⟨rfl, _⟩ <;> decide
  | openClass left rest place =>
      apply region_of_reads reads
      · rw [place]
        rfl
      · rw [place]
        rfl
  | anything left rest place =>
      exact region_of_inner reads place (by decide) (by simp) (outside place)
  | repeat_ q left rest legible place =>
      obtain ⟨c, tail, written, head, inner⟩ := text_quantifier legible
      rw [written] at reads ⊢
      have ne := ne_of_isInner head
      exact region_of_inner reads place ⟨ne.1, ne.2.1⟩ inner (outside place)
  | possess q atom left rest legible place =>
      obtain ⟨c, tail, written, head, inner⟩ := text_quantifier legible
      rw [written] at reads ⊢
      have ne := ne_of_isInner head
      exact region_of_inner reads place ⟨ne.1, ne.2.1⟩ inner (outside place)
  | enter inner left kind text slot rest place tail =>
      exact region_of_inner reads place (by decide) tail (outside place)
  | leave frame frames left rest place =>
      refine region_of_inner reads place (by decide) (by simp) ?_
      obtain ⟨_, _, _, class_, _⟩ := closed_eq frame frames rest
      rw [inClass, class_]
      exact outside place
  | stray left rest place =>
      exact region_of_inner reads place (by decide) (by simp) (outside place)
  | within _ left rest filled stays =>
      apply region_of_reads reads (Region.after_within stays)
      have inside := Place.inside_of_within stays
      rw [inside_place] at inside
      rw [Place.inside_after_of_within stays]
      exact inside.symm
  | closeClass start left rest place =>
      apply region_of_reads reads
      · rw [place]
        rfl
      · rw [place]
        rfl
  | escaped c left rest place =>
      apply region_of_reads reads
      · rw [place]
        rfl
      · have class_ := inside_place s
        rw [place] at class_ ⊢
        exact class_
  | restore c left rest place =>
      apply region_of_reads reads
      · rw [place]
        rfl
      · have class_ := inside_place s
        rw [← inClass_dropEscape, place] at class_
        rw [place]
        exact class_

theorem Turn.size_le {word : Text} (turn : Turn options s word next) :
    next.groups.size ≤ s.groups.size + 1 := by
  cases turn with
  | plain c more rest =>
      rw [copyPlain_eq rest]
      exact Nat.le_succ _
  | possess q atom more =>
      exact Nat.le_of_eq (GroupTable.size_insertSuppressed _ _)
  | enter inner more kind text slot =>
      cases slot with
      | none => exact Nat.le_succ _
      | some slot => exact Nat.le_of_eq (GroupTable.size_push _ _)
  | leave frame frames more rest =>
      obtain ⟨_, _, _, _, groups⟩ := closed_eq frame frames rest
      rw [groups]
      exact Nat.le_succ _
  | splice digits more splice =>
      change (s.groups.suppress splice.slot).size ≤ _
      rw [GroupTable.size_suppress]
      exact Nat.le_succ _
  | restore c more =>
      unfold dropEscape
      split <;> exact Nat.le_succ _
  | _ => exact Nat.le_succ _

/-- What is known of every state that a conversion without a delimiter comes to. -/
structure Reached (s : State) : Prop where
  ready : s.Ready
  followed : s.Followed
  sound : ∃ ledger, s.Sound ledger
  slots : s.groups.size ≤ s.front.length + 1
  region : s.rest ≠ [] → Region.of s.front = .pattern s.place

theorem Reached.start (text : Text) : (State.start text).Reached where
  ready := ready_start text
  followed := followed_start text
  sound := ⟨{}, Sound.start text⟩
  slots := Nat.le_refl _
  region := fun _ => rfl

theorem Reached.reach (reached : s.Reached) (short : s.text.length < Atom.searchReach) :
    s.groups.size ≤ Atom.searchReach := by
  have slots := reached.slots
  rw [text, List.length_append] at short
  unfold front at slots
  omega

theorem Reached.step (reached : s.Reached) (short : s.text.length < Atom.searchReach)
    (nonempty : s.rest ≠ []) (ok : s.step options none = .ok next) : next.Reached := by
  have move := move_of_step reached.ready (fun _ => by simp) nonempty ok
  obtain ⟨word, turn⟩ := turn_of_step reached.ready reached.followed nonempty ok
  obtain ⟨ledger, sound⟩ := reached.sound
  obtain ⟨front, _⟩ := turn.reads
  refine ⟨move.ready, move.followed reached.followed,
    ⟨_, sound.move move nonempty (reached.reach short)⟩, ?_, fun more => ?_⟩
  · have grown := turn.size_le
    have read := List.length_pos_iff.mpr turn.filled
    have slots := reached.slots
    rw [front, List.length_append]
    omega
  · rw [front, Region.of_append, reached.region nonempty, turn.region more]

end State

variable {options : Options} {text : Text} {s final : State} {states : List State}

theorem Trace.turns (invariant : State → Prop)
    (keep : ∀ {s next : State} {word : Text}, s.Reached → s.text.length < Atom.searchReach →
      s.rest ≠ [] → State.Turn options s word next → invariant s → invariant next)
    (trace : Trace options none s states final) (short : s.text.length < Atom.searchReach)
    (reached : s.Reached) (holds : invariant s) : final.Reached ∧ invariant final := by
  induction trace with
  | done s => exact ⟨reached, holds⟩
  | step nonempty ok rest ih =>
      obtain ⟨word, turn⟩ := State.turn_of_step reached.ready reached.followed nonempty ok
      refine ih ?_ (reached.step short nonempty ok) (keep reached short nonempty turn holds)
      rwa [State.text_step nonempty ok]

theorem Trace.reached (trace : Trace options none (.start text) states s)
    (short : text.length < Atom.searchReach) : s.Reached :=
  (trace.turns (fun _ => True) (fun _ _ _ _ _ => trivial) short (.start text) trivial).1

/-- A conversion that comes to the end stops before each character outside classes and
comments that goes on with no construct. -/
theorem Trace.stops {front more : Text} {c : Char} (trace : Trace options none s states final)
    (ends : final.rest = []) (short : s.text.length < Atom.searchReach) (reached : s.Reached)
    (split : s.text = front ++ c :: more) (outside : Region.of front = .pattern .outside)
    (outer : Construct.isInner c = false) (early : s.front <+: front) :
    ∃ states t, Trace options none s states t ∧ t.front = front := by
  induction trace with
  | done s =>
      have whole : s.front = s.text := by simp [State.front, State.text, ends]
      have length := early.length_le
      rw [whole, split, List.length_append, List.length_cons] at length
      omega
  | @step s next final states nonempty ok rest ih =>
      obtain ⟨a, begins⟩ := early
      cases a with
      | nil => exact ⟨_, s, Trace.done s, by simpa using begins⟩
      | cons d a =>
          obtain ⟨word, turn⟩ := State.turn_of_step reached.ready reached.followed nonempty ok
          obtain ⟨read, left⟩ := turn.reads
          have text := State.text_step nonempty ok
          have parts : word ++ next.rest = (d :: a) ++ c :: more := by
            have whole : s.front ++ s.rest = s.front ++ ((d :: a) ++ c :: more) := by
              rw [← List.append_assoc, begins]
              exact split
            rw [← left]
            exact List.append_cancel_left whole
          have onward : next.front <+: front →
              ∃ states t, Trace options none s states t ∧ t.front = front := by
            intro early
            obtain ⟨states, t, later, there⟩ := ih ends (by rwa [text])
              (reached.step short nonempty ok) (by rwa [text]) early
            exact ⟨s :: states, t, Trace.step nonempty ok later, there⟩
          rcases List.append_eq_append_iff.mp parts with ⟨b, further, _⟩ | ⟨b, straddles, behind⟩
          · exact onward ⟨b, by rw [read, ← begins, further]; simp⟩
          · cases b with
            | nil => exact onward ⟨[], by rw [read, ← begins, straddles]; simp⟩
            | cons e b =>
                -- the character would stand within what the turn reads
                obtain rfl : e = c := (List.cons.inj behind).1.symm
                rw [← begins, Region.of_append, reached.region nonempty] at outside
                rw [turn.tame _ _ _ straddles (by simp) outside] at outer
                contradiction

end Conversion

end PatternDialect
