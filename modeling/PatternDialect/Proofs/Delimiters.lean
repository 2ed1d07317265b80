import PatternDialect.Proofs.Runs
import PatternDialect.Proofs.Severing

/-! Conversion with a delimiter is plain conversion of what stands before it. -/

namespace PatternDialect.Conversion

open Character

namespace State

variable {options : Options} {delimiter : Option Char} {s next : State}

def endsHere (s : State) (delimiter : Option Char) : Bool :=
  s.rest.head?.any (delimiter == some ·) && !s.inClass && !s.escaped

theorem flags_quantify {q : Quantifier} (ok : s.quantify options q = .ok next) :
    next.flags = s.flags := by
  cases mark : q.possessive with
  | true =>
      obtain ⟨atom, _, rfl⟩ := quantify_possessive mark ok
      rfl
  | false => rw [quantify_plain mark ok]; rfl

theorem flags_openGroup {form : Opener} (ok : s.openGroup options form = .ok next) :
    next.flags = s.flags := by
  unfold State.openGroup openCapture openNamed at ok
  split at ok
  · cases ok; rfl
  split at ok
  · cases ok; rfl
  split at ok
  · dsimp only at ok
    split_ifs at ok <;> first | contradiction | (cases ok; rfl)
  · cases ok; rfl
  · cases ok; rfl
  · cases ok; rfl
  · split at ok
    · obtain ⟨_, _, equality⟩ := bind_ok ok
      cases equality
      rfl
    · contradiction
  · cases ok; rfl
  · contradiction

theorem flags_step (ok : s.step options delimiter = .ok next)
    (more : s.endsHere delimiter = false) : next.flags = s.flags := by
  unfold step at ok
  cases found : s.next? delimiter with
  | none =>
      rw [found] at ok
      cases ok
      unfold copyPlain
      split
      · rfl
      · split <;> rfl
  | some construct =>
      have stands := Construct.stands_of_at? found
      rw [found] at ok
      cases construct with
      | blank c =>
          cases ok
          unfold State.blank dropEscape dropBlank
          dsimp only
          split_ifs <;> rfl
      | openClass =>
          cases ok
          unfold State.openClass
          split <;> rfl
      | closeClass =>
          cases ok
          unfold State.closeClass
          split
          · split <;> rfl
          · rfl
      | dot =>
          cases ok
          unfold State.dot
          split <;> rfl
      | quantifier q =>
          simp only [read, State.quantifier] at ok
          split at ok
          · cases ok; rfl
          split at ok
          · cases ok; rfl
          split at ok
          · contradiction
          · exact flags_quantify ok
      | numberReference =>
          simp only [read, State.numberReference] at ok
          split at ok
          · cases ok; rfl
          · obtain ⟨_, _, equality⟩ := bind_ok ok
            cases equality
            rfl
      | nameReference form =>
          simp only [read, State.nameReference] at ok
          split at ok
          · cases ok; rfl
          split at ok
          · cases ok; rfl
          split at ok
          · split at ok
            · obtain ⟨_, _, equality⟩ := bind_ok ok
              cases equality
              rfl
            · obtain ⟨_, _, equality⟩ := bind_ok ok
              cases equality
              rfl
          · contradiction
      | openGroup form => exact flags_openGroup ok
      | closeGroup =>
          cases ok
          unfold State.closeGroup emitClose
          dsimp only
          split
          · rfl
          split
          · rfl
          · split <;> rfl
      | comment =>
          cases ok
          unfold State.comment dropEscape
          split_ifs <;> rfl
      | escapedDigit digit =>
          simp only [read, State.escapedDigit, nul] at ok
          split at ok
          · cases ok; rfl
          split at ok
          · cases ok; rfl
          split at ok
          · cases ok
            split <;> rfl
          · contradiction
      | escapedLetter letter =>
          obtain ⟨count, _, rfl⟩ := escapedLetter_eq ok
          rfl
      | flagsDelimiter c =>
          obtain ⟨rfl, rest, parts⟩ := stands
          simp only [read, State.flagsDelimiter] at ok
          split at ok
          · cases ok; rfl
          · rename_i outside
            simp_all [endsHere]

/-- The last reference ends in the output, and before a class that is open. -/
def Followed (s : State) : Prop :=
  ∀ stop, s.referenceEnd = some stop → stop ≤ s.out.size ∧ (s.inClass = true → stop < s.out.size)

theorem Followed.of_grown (followed : s.Followed) (same : next.referenceEnd = s.referenceEnd)
    (grown : s.out.size ≤ next.out.size) (class_ : next.inClass = true → s.inClass = true) :
    next.Followed := by
  intro stop last
  rw [same] at last
  obtain ⟨inside, before⟩ := followed stop last
  exact ⟨Nat.le_trans inside grown, fun open_ => Nat.lt_of_lt_of_le (before (class_ open_)) grown⟩

theorem followed_of_last (last : next.referenceEnd = some next.out.size)
    (outside : next.inClass = false) : next.Followed := by
  intro stop found
  rw [last] at found
  cases found
  refine ⟨Nat.le_refl _, fun open_ => ?_⟩
  rw [outside] at open_
  contradiction

theorem size_prepared (s : State) (atom : Option Atom) : s.out.size ≤ (s.prepared atom).size := by
  cases atom with
  | none => exact Nat.le_refl _
  | some atom =>
      have whole := congrArg Text.size (Text.takeBytes_append_dropBytes atom.start s.out)
      change s.out.size ≤ (atom.prepared s.out).1.size
      unfold Atom.prepared
      split
      · simp only [Atom.wrap, Text.size_append] at whole ⊢
        omega
      · exact Nat.le_refl _

theorem referenceEnd_dropEscape (s : State) : s.dropEscape.referenceEnd = s.referenceEnd := by
  unfold dropEscape
  split <;> rfl

theorem inClass_dropEscape (s : State) : s.dropEscape.inClass = s.inClass := by
  unfold dropEscape
  split <;> rfl

theorem size_le_restored (s : State) (c : Char) :
    s.out.size ≤ (s.dropEscape.out ++ [c]).size := by
  have filled := c.utf8Size_pos
  unfold dropEscape
  split
  · rename_i last
    obtain ⟨front, parts⟩ := List.getLast?_eq_some_iff.mp last
    have one : '\\'.utf8Size = 1 := by decide
    simp only [parts, List.dropLast_concat, Text.size_append, Text.size_cons, Text.size_nil]
    omega
  · simp

theorem followed_emitClose (followed : s.Followed) (place : s.place = .outside) (frame : Frame) :
    (s.emitClose frame).Followed := by
  unfold emitClose
  split
  · exact followed_of_last rfl (inClass_of_place place : s.inClass = false)
  · exact followed.of_grown rfl (by simp) id

theorem Move.followed {action : Action} (move : Move options delimiter s action next)
    (followed : s.Followed) : next.Followed := by
  cases move with
  | write count text quiet => exact followed.of_grown rfl (by simp) id
  | restore c more rest place kept =>
      refine followed.of_grown (referenceEnd_dropEscape s) ?_ ?_
      · have large := s.size_le_restored c
        rwa [out_copy, rest_dropEscape, rest]
      · intro open_
        rwa [← inClass_dropEscape]
  | openClass more rest place =>
      intro stop last
      have inside := (followed stop last).1
      have size : ({ s with classStart := some s.out.size }.copy 1).out.size = s.out.size + 1 := by
        rw [out_copy, Text.size_append, rest]
        rfl
      exact ⟨by omega, fun _ => by omega⟩
  | closeClass start more rest class_ unescaped =>
      refine followed.of_grown rfl (by simp [recordAtom]) ?_
      intro open_
      contradiction
  | anything more rest place =>
      exact followed.of_grown rfl (by simp [recordAtom]) id
  | repeat_ q found mark place after =>
      refine followed.of_grown rfl ?_ id
      have large := s.size_prepared (s.atom.filter (·.stop == s.out.size))
      simp only [out_skip, Text.size_append]
      omega
  | possess q atom found place mark known after =>
      exact followed_of_last rfl (inClass_of_place place : s.inClass = false)
  | refer slot count positive bound place after =>
      exact followed_of_last rfl (inClass_of_place place : s.inClass = false)
  | enter kind text slot count opening place after =>
      exact followed.of_grown rfl (by simp [openFrame]) id
  | leave frame frames more rest open_ place => exact followed_emitClose followed place frame
  | splice splice count last stop place after =>
      exact followed_of_last rfl (inClass_of_place place : s.inClass = false)
  | flags place => exact followed.of_grown rfl (Nat.le_refl _) id

theorem copyPlain_inClass (class_ : s.inClass = true) (followed : s.Followed) {c : Char}
    {more : Text} (rest : s.rest = c :: more) : s.copyPlain = s.copy 1 := by
  have apart : (s.referenceEnd == some s.out.size) = false := by
    rw [beq_eq_false_iff_ne]
    intro last
    have before := (followed _ last).2 class_
    omega
  rw [copyPlain_eq rest, apart, Bool.and_false, if_neg (by decide)]
  exact (s.copy_of_take (by simp [rest])).symm

theorem step_inClass (class_ : s.inClass = true) (unescaped : s.escaped = false)
    (followed : s.Followed) {c : Char} {more : Text} (rest : s.rest = c :: more)
    (plain : c ≠ '\\' ∧ c ≠ ']') :
    ∃ word left, s.rest = word ++ left ∧ word ≠ [] ∧ (∀ d ∈ word, d ≠ '\\' ∧ d ≠ ']') ∧
      s.step options delimiter = .ok (s.copy word.length) := by
  unfold step
  cases found : s.next? delimiter with
  | none =>
      exact ⟨[c], more, rest, by simp, by simpa using plain,
        congrArg Except.ok (copyPlain_inClass class_ followed rest)⟩
  | some construct =>
      have stands := Construct.stands_of_at? found
      by_cases delimits : ∃ d, construct = .flagsDelimiter d
      · obtain ⟨d, rfl⟩ := delimits
        refine ⟨[c], more, rest, by simp, by simpa using plain, ?_⟩
        simp [read, State.flagsDelimiter, class_]
      have open_ : construct ≠ .closeClass := by
        rintro rfl
        obtain ⟨_, _, parts⟩ := stands
        exact plain.2 (List.cons.inj (rest.symm.trans parts)).1
      have noLetter : ∀ l, construct ≠ .escapedLetter l := by
        rintro l rfl
        obtain ⟨_, _, _, parts⟩ := stands
        exact plain.1 (List.cons.inj (rest.symm.trans parts)).1
      obtain ⟨word, left, parts, filled, unclosing, read⟩ :=
        read_inClass class_ unescaped stands open_ noLetter (fun d same => delimits ⟨d, same⟩)
      refine ⟨word, left, parts, filled, ?_, read⟩
      obtain ⟨e, tail, rfl⟩ := List.exists_cons_of_ne_nil filled
      obtain rfl : c = e := (List.cons.inj (rest.symm.trans parts)).1
      exact unclosing.plain plain.1

end State

variable {options : Options} {s next : State}

theorem State.Followed.copy (followed : s.Followed) (count : Nat) : (s.copy count).Followed :=
  followed.of_grown rfl (by simp) id

theorem State.copy_copy (s : State) (first second : Nat) :
    (s.copy first).copy second = s.copy (first + second) := by
  simp only [State.copy, State.skip, State.emit, List.drop_drop, List.append_assoc,
    ← List.take_add, State.mk.injEq, and_true]
  rw [← List.append_assoc, ← List.reverse_append, ← List.take_add]

theorem State.rest_copied {word left : Text} (rest : s.rest = word ++ left) :
    (s.copy word.length).rest = left := by
  simp [rest]

theorem State.escaped_copy {word left : Text} (unescaped : s.escaped = false)
    (rest : s.rest = word ++ left) (plain : ∀ c ∈ word, c ≠ '\\' ∧ c ≠ ']') :
    (s.copy word.length).escaped = false := by
  apply State.escaped_skip_of_plain unescaped
  rw [rest, List.take_left]
  exact fun c member => (plain c member).1

theorem conclude_copy {word left : Text} (class_ : s.inClass = true) (unescaped : s.escaped = false)
    (followed : s.Followed) (rest : s.rest = word ++ left)
    (plain : ∀ c ∈ word, c ≠ '\\' ∧ c ≠ ']') :
    conclude options none s = conclude options none (s.copy word.length) := by
  induction length : s.rest.length using Nat.strongRecOn generalizing s word left with
  | ind n ih =>
      have further : ∀ {front tail behind : Text}, front ≠ [] →
          s.rest = front ++ tail ++ behind → (∀ c ∈ front ++ tail, c ≠ '\\' ∧ c ≠ ']') →
            conclude options none (s.copy front.length) =
              conclude options none (s.copy (front ++ tail).length) := by
        intro front tail behind filled parts all
        rw [List.append_assoc] at parts
        have less : (s.copy front.length).rest.length < n := by
          have positive := List.length_pos_iff.mpr filled
          rw [State.rest_copied parts, ← length, parts]
          simp only [List.length_append]
          omega
        rw [List.length_append, ← State.copy_copy]
        exact ih _ less class_
          (State.escaped_copy unescaped parts fun c member => all c (List.mem_append_left _ member))
          (followed.copy _) (State.rest_copied parts)
          (fun c member => all c (List.mem_append_right _ member)) rfl
      cases word with
      | nil => simp
      | cons c more =>
          obtain ⟨read, behind, parts, filled, copied, step⟩ :=
            State.step_inClass class_ unescaped followed rest (plain c List.mem_cons_self)
          rw [conclude_ok (by simp [rest]) step]
          -- The step and the word both begin the text, so one begins the other.
          have first : read <+: s.rest := ⟨behind, parts.symm⟩
          have second : c :: more <+: s.rest := ⟨left, rest.symm⟩
          rcases List.prefix_or_prefix_of_prefix first second with ⟨tail, equality⟩ |
            ⟨tail, equality⟩
          · rw [← equality] at rest plain ⊢
            exact further filled rest plain
          · rw [← equality] at parts copied ⊢
            exact (further (by simp) parts copied).symm

/-- A delimiter that behaves like any other character where it does not delimit. -/
structure Ordinary (d : Char) : Prop extends State.Foreign d where
  notHash : d ≠ '#'
  notBackslash : d ≠ '\\'

theorem conclude_undelimited {d : Char} (ordinary : Ordinary d) (followed : s.Followed)
    (closable : s.inClass = true → d ≠ ']') (nonempty : s.rest ≠ [])
    (more : s.endsHere (some d) = false) (ok : s.step options (some d) = .ok next) :
    conclude options none s = conclude options none next := by
  cases rest : s.rest with
  | nil => exact absurd rest nonempty
  | cons c text =>
      by_cases same : d = c
      · subst same
        cases escape : s.escaped with
        | true =>
            have plain := State.copyPlain_of_not_digit rest ordinary.notDigit
            have visible : (isBlank d || d == '#') = false := by
              simp [ordinary.visible, ordinary.notHash]
            have alone : s.step options none = .ok (s.copy 1) := by
              rw [State.step_escaped escape rest]
              simp [State.passed, visible, plain]
            rw [State.step_escaped escape rest] at ok
            simp only [State.passed, if_true, Except.ok.injEq] at ok
            rw [← ok]
            exact conclude_ok nonempty alone
        | false =>
            have class_ : s.inClass = true := by
              simpa [State.endsHere, rest, escape] using more
            have copied : s.step options (some d) = .ok (s.copy 1) := by
              unfold State.step
              rw [State.next?_delimiter rest rfl]
              simp [State.read, State.flagsDelimiter, class_]
            rw [copied] at ok
            cases ok
            have parts : s.rest = [d] ++ text := rest
            exact conclude_copy class_ escape followed parts (by
              simpa using ⟨ordinary.notBackslash, closable class_⟩)
      · have plainly : ∀ delimiter, delimiter ≠ some c →
            s.next? delimiter = Construct.plain? s.before (c :: text) :=
          fun _ => State.next?_plain rest
        apply conclude_ok nonempty
        rw [← ok]
        unfold State.step
        rw [plainly none (by simp), plainly (some d) (by simpa using same)]

theorem closable_of_conclude {d : Char} {result : Result}
    (ok : conclude options (some d) s = .ok result) : s.inClass = true → d ≠ ']' := by
  unfold conclude at ok
  split at ok
  · rename_i final reached
    have finished : final.inClass = false := (finish_eq_ok_iff.mp ok).1
    intro class_ same
    exact (trace_of_run reached).closable finished class_ (congrArg some same)
  · contradiction

def State.flagged (s : State) (d : Char) (text : Text) : State :=
  { s with before := text.reverse ++ d :: s.before, rest := [], flags := some text }

theorem step_endsHere {d : Char} {text : Text} (rest : s.rest = d :: text)
    (here : s.endsHere (some d) = true) :
    s.step options (some d) =
      if Escape.occursUnescaped d (d :: s.before) text then .error (.secondDelimiter d)
      else .ok (s.flagged d text) := by
  have outside : (s.inClass || s.escaped) = false := by
    simp only [State.endsHere, Bool.and_eq_true, Bool.not_eq_true'] at here
    simp [here.1.2, here.2]
  have after : s.skip 1 = { s with before := d :: s.before, rest := text } := by
    simp [State.skip, rest]
  unfold State.step
  rw [State.next?_delimiter rest rfl]
  simp only [State.read, State.flagsDelimiter, outside, Bool.false_eq_true, ↓reduceIte, after]
  simp [State.flagged]

/-- The body and the flags of a text, as a conversion with a delimiter tells them apart. -/
structure Divides (options : Options) (d : Char) (s : State) (result : Result) (body flags : Text) :
    Prop where
  parts : s.rest = body ++ d :: flags
  found : result.flags = some flags
  unescaped : Escape.pending (body.reverse ++ s.before) = false
  single : Escape.occursUnescaped d (d :: (body.reverse ++ s.before)) flags = false
  alone : (options.extra = true → options.unicode = true → '}' ∈ d :: flags →
      State.closesProperties d s.before body = true) →
    conclude options none { s with rest := body } = .ok { result with flags := none }

theorem Divides.before_step {d : Char} {result : Result} {body flags taken : Text}
    (divides : Divides options d next result body flags) (ordinary : Ordinary d)
    (followed : s.Followed) (closable : s.inClass = true → d ≠ ']')
    (here : s.endsHere (some d) = false) (step : s.step options (some d) = .ok next)
    (before : next.before = taken.reverse ++ s.before) (rest : s.rest = taken ++ next.rest)
    (filled : taken ≠ []) : Divides options d s result (taken ++ body) flags := by
  have parts : s.rest = taken ++ body ++ d :: flags := by
    rw [rest, divides.parts, List.append_assoc]
  have passed : (taken ++ body).reverse ++ s.before = body.reverse ++ next.before := by
    rw [before, List.reverse_append, List.append_assoc]
  refine ⟨parts, divides.found, passed ▸ divides.unescaped, passed ▸ divides.single, ?_⟩
  intro closed
  have extended : State.extend { s with rest := taken ++ body } (d :: flags) = s := by
    unfold State.extend
    rw [← parts]
  have nonempty : taken ++ body ≠ [] := by simp [filled]
  obtain ⟨after, short, equality⟩ := State.step_cut (s := { s with rest := taken ++ body })
    ordinary.toForeign nonempty closed (by rw [extended]; exact step)
    (by simp [divides.parts])
  have remains : after = { next with rest := body } := by
    have last := divides.parts
    rw [equality, State.rest_extend] at last
    rw [equality, ← List.append_cancel_right last]
    rfl
  have open_ : State.endsHere { s with rest := taken ++ body } (some d) = false := by
    rw [← here]
    unfold State.endsHere
    rw [rest]
    cases taken with
    | nil => exact absurd rfl filled
    | cons c taken => rfl
  rw [conclude_undelimited ordinary (s := { s with rest := taken ++ body }) followed
    closable nonempty open_ short, remains]
  apply divides.alone
  intro extra unicode brace
  rw [before]
  exact State.closesProperties_append (closed extra unicode brace)

theorem conclude_delimited {d : Char} {result : Result} (ordinary : Ordinary d)
    (followed : s.Followed) (ready : s.Ready) (fresh : s.flags = none)
    (ok : conclude options (some d) s = .ok result) :
    (result.flags = none ∧ conclude options none s = .ok result) ∨
      ∃ body flags, Divides options d s result body flags := by
  induction length : s.rest.length using Nat.strongRecOn generalizing s with
  | ind n ih =>
      cases rest : s.rest with
      | nil =>
          rw [conclude_nil rest] at ok
          left
          refine ⟨?_, (conclude_nil rest).trans ok⟩
          rw [(finish_eq_ok_iff.mp ok).2.2, fresh]
      | cons c text =>
          have nonempty : s.rest ≠ [] := by simp [rest]
          have closable := closable_of_conclude ok
          obtain ⟨next, step, shorter, later⟩ := step_of_conclude nonempty ok
          cases here : s.endsHere (some d) with
          | true =>
              have same : c = d := by
                simp only [State.endsHere, rest, List.head?_cons, Option.any_some, Bool.and_eq_true,
                  beq_iff_eq, Option.some.injEq] at here
                exact here.1.1.symm
              subst same
              rw [step_endsHere rest here] at step
              split at step
              · contradiction
              rename_i single
              cases step
              rw [conclude_nil rfl] at later
              obtain ⟨outside, closed, rfl⟩ := finish_eq_ok_iff.mp later
              refine Or.inr ⟨[], text, ⟨rest, rfl, ?_, Bool.eq_false_iff.mpr single, fun _ => ?_⟩⟩
              · simp only [State.endsHere, Bool.and_eq_true, Bool.not_eq_true'] at here
                exact here.2
              · rw [conclude_nil rfl, finish_eq_ok_iff]
                exact ⟨outside, closed, by simp [State.flagged, fresh]⟩
          | false =>
              have move := State.move_of_step ready (fun class_ => by simpa using closable class_)
                nonempty step
              have same := conclude_undelimited ordinary followed closable nonempty here step
              rcases ih _ (length ▸ shorter) (move.followed followed) move.ready
                ((State.flags_step step here).trans fresh) later rfl with
                ⟨absent, whole⟩ | ⟨body, flags, divides⟩
              · exact Or.inl ⟨absent, same.trans whole⟩
              · right
                obtain ⟨count, positive, before, behind⟩ := State.reads_step nonempty step
                refine ⟨s.rest.take count ++ body, flags, divides.before_step ordinary followed
                  closable here step before ?_ ?_⟩
                · rw [behind]
                  exact (List.take_append_drop count s.rest).symm
                · simp only [ne_eq, List.take_eq_nil_iff, nonempty, or_false]
                  omega

theorem flags_conclude_none {result : Result} (ok : conclude options none s = .ok result) :
    result.flags = s.flags := by
  induction length : s.rest.length using Nat.strongRecOn generalizing s with
  | ind n ih =>
      cases rest : s.rest with
      | nil =>
          rw [conclude_nil rest, finish_eq_ok_iff] at ok
          rw [ok.2.2]
      | cons c text =>
          obtain ⟨next, step, shorter, later⟩ := step_of_conclude (by simp [rest]) ok
          have kept : next.flags = s.flags := State.flags_step step (by simp [State.endsHere, rest])
          exact (ih _ (length ▸ shorter) later rfl).trans kept

theorem followed_start (text : Text) :
    (State.start text).Followed := fun _ none_ => by contradiction

end PatternDialect.Conversion

namespace PatternDialect

open Conversion

variable {options : Options} {text : Text} {result : Conversion.Result}

theorem flags_convert (ok : convert options none text = .ok result) : result.flags = none := by
  rw [convert_eq_conclude] at ok
  exact flags_conclude_none ok

theorem convert_delimited {d : Char} (ordinary : Ordinary d)
    (ok : convert options (some d) text = .ok result) :
    (result.flags = none ∧ convert options none text = .ok result) ∨
      ∃ body flags, Divides options d (.start text) result body flags :=
  conclude_delimited ordinary (followed_start text) (ready_start text) rfl ok

theorem ordinary_slash : Ordinary '/' := ⟨State.foreign_slash, by decide, by decide⟩

theorem Escape.pending_of_occursUnescaped {wanted : Char} {before front back : Text}
    (absent : occursUnescaped wanted before (front ++ wanted :: back) = false) :
    pending (front.reverse ++ before) = true := by
  induction front generalizing before with
  | nil =>
      simp only [List.nil_append, occursUnescaped, beq_self_eq_true, Bool.true_and,
        Bool.or_eq_false_iff, Bool.not_eq_false'] at absent
      exact absent.1
  | cons c front ih =>
      rw [List.cons_append, occursUnescaped, Bool.or_eq_false_iff] at absent
      have later := ih absent.2
      rwa [List.reverse_cons, List.append_assoc]

/-- A text that is converted with the slash for a delimiter converts alike without it: the
whole text where it has no flags, and else what stands before the slash of the flags.  A brace
among the flags might be taken for the end of a property in the body. -/
theorem convert_slash_body (ok : convert options (some '/') text = .ok result) :
    (result.flags = none → convert options none text = .ok result) ∧
      ∀ flags, result.flags = some flags →
        ∃ body, text = body ++ '/' :: flags ∧ Escape.endsOpen body = false ∧
          (∀ front back, flags = front ++ '/' :: back →
            Escape.endsOpen (body ++ '/' :: front) = true) ∧
          ('}' ∉ flags → convert options none body = .ok { result with flags := none }) := by
  rcases convert_delimited ordinary_slash ok with ⟨absent, whole⟩ | ⟨body, behind, divides⟩
  · refine ⟨fun _ => whole, fun flags found => ?_⟩
    rw [absent] at found
    contradiction
  · refine ⟨fun absent => ?_, fun flags found => ?_⟩
    · rw [divides.found] at absent
      contradiction
    · obtain rfl : behind = flags := Option.some.inj (divides.found.symm.trans found)
      refine ⟨body, divides.parts, ?_, fun front back parts => ?_, fun braceless => ?_⟩
      · simpa [State.start, Escape.endsOpen] using divides.unescaped
      · have single := divides.single
        rw [parts] at single
        simpa [State.start, Escape.endsOpen] using Escape.pending_of_occursUnescaped single
      · apply divides.alone
        intro _ _ brace
        simp [braceless] at brace

theorem convert_slash_body_nested :
    ∃ result, convert { unicode := true, extra := true } (some '/')
          "(?<w>\\w++) \\/ [/] #tail/\n \\u\x7b12345\x7d(/i\\/U".toList = .ok result ∧
        result.source = "((?=(\\w+))\\2)\\/[/]\\u\x7b12345\x7d(".toList ∧
        result.flags = some "i\\/U".toList ∧
        convert { unicode := true, extra := true } none
          "(?<w>\\w++) \\/ [/] #tail/\n \\u\x7b12345\x7d(".toList =
            .ok { result with flags := none } := by
  obtain ⟨result, ok, shown⟩ : ∃ result : Conversion.Result,
      convert { unicode := true, extra := true } (some '/')
          "(?<w>\\w++) \\/ [/] #tail/\n \\u\x7b12345\x7d(/i\\/U".toList = .ok result ∧
        (result.source, result.flags) =
          ("((?=(\\w+))\\2)\\/[/]\\u\x7b12345\x7d(".toList, some "i\\/U".toList) :=
    exists_of_evaluated (by decide +kernel)
  obtain ⟨source, found⟩ := Prod.mk.inj shown
  obtain ⟨body, parts, _, _, alone⟩ := (convert_slash_body ok).2 _ found
  have front : "(?<w>\\w++) \\/ [/] #tail/\n \\u\x7b12345\x7d(".toList = body :=
    List.append_cancel_right parts
  rw [front]
  exact ⟨result, ok, source, found, alone (by decide)⟩

end PatternDialect
