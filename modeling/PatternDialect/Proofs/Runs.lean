import PatternDialect.Proofs.Steps

/-! Runs of a conversion, move by move. -/

namespace PatternDialect.Conversion

open Character Source

namespace State

variable {options : Options} {delimiter : Option Char} {s next : State} {action : Action}

theorem inClass_of_step (same : delimiter = some ']') (class_ : s.inClass = true)
    (ok : s.step options delimiter = .ok next) : next.inClass = true := by
  unfold step at ok
  cases found : s.next? delimiter with
  | none =>
      rw [found] at ok
      cases ok
      unfold copyPlain
      split
      · exact class_
      · split <;> exact class_
  | some construct =>
      have stands := Construct.stands_of_at? found
      rw [found] at ok
      have copied : ∀ count, s.copy count = next → next.inClass = true := by
        rintro count rfl
        exact class_
      cases construct with
      | blank c => exact copied 1 (by simpa [read, State.blank, class_] using ok)
      | openClass => exact copied 1 (by simpa [read, State.openClass, class_] using ok)
      | closeClass => exact absurd same stands.1
      | dot => exact copied 1 (by simpa [read, State.dot, class_] using ok)
      | quantifier q =>
          cases escape : s.escaped with
          | true => exact copied 1 (by simpa [read, State.quantifier, escape] using ok)
          | false =>
              exact copied q.length (by simpa [read, State.quantifier, escape, class_] using ok)
      | numberReference => exact copied 1 (by simpa [read, State.numberReference, class_] using ok)
      | nameReference form =>
          cases escape : s.escaped with
          | true => exact copied 1 (by simpa [read, State.nameReference, escape] using ok)
          | false =>
              exact copied form.opener.length
                (by simpa [read, State.nameReference, escape, class_] using ok)
      | openGroup form =>
          cases escape : s.escaped with
          | true => exact copied 1 (by simpa [read, State.openGroup, escape] using ok)
          | false =>
              exact copied form.length (by simpa [read, State.openGroup, escape, class_] using ok)
      | closeGroup => exact copied 1 (by simpa [read, State.closeGroup, class_] using ok)
      | comment => exact copied 1 (by simpa [read, State.comment, class_] using ok)
      | escapedDigit d => exact copied 2 (by simpa [read, State.escapedDigit, class_] using ok)
      | escapedLetter l =>
          obtain ⟨count, _, equality⟩ := escapedLetter_eq ok
          exact copied (2 + count) equality.symm
      | flagsDelimiter c => exact copied 1 (by simpa [read, State.flagsDelimiter, class_] using ok)

def closing (frame : Frame) : Text :=
  match frame.kind with
  | .atomic slot => Atom.atomicClose slot
  | _ => [')']

theorem closed_eq (frame : Frame) (frames : List Frame) {more : Text}
    (rest : s.rest = ')' :: more) :
    (s.closed frame frames).out = s.out ++ closing frame ∧
      (s.closed frame frames).before = ')' :: s.before ∧
        (s.closed frame frames).rest = more ∧
          (s.closed frame frames).classStart = s.classStart ∧
            (s.closed frame frames).groups = s.groups := by
  unfold closed emitClose closing
  cases frame.kind with
  | atomic slot => simp [markReference, rest]
  | capture slot => simp [rest]
  | plain => simp [rest]
  | lookahead negative => simp [rest]

theorem closed_splice {frame : Frame} {frames : List Frame} {p : Splice}
    (recorded : (s.closed frame frames).splice = some p) :
    frame.kind = .lookahead false ∧ ∃ c, s.capture = some c ∧ c.start = frame.start + 3 ∧
      c.stop = s.out.size ∧ p = ⟨c.slot, (s.closed frame frames).out.size⟩ := by
  change (s.emitClose frame).spliceOf frame s.out.size = some p at recorded
  unfold spliceOf at recorded
  split at recorded
  · rename_i c kind last
    have kept : (s.emitClose frame).capture = s.capture := by
      rw [emitClose, kind]
      rfl
    rw [kept] at last
    split at recorded
    · rename_i ends
      simp only [Bool.and_eq_true, beq_iff_eq] at ends
      exact ⟨kind, c, last, ends.1, ends.2, (Option.some.inj recorded).symm⟩
    · contradiction
  · contradiction

theorem closed_splice_eq {frame : Frame} {frames : List Frame} {k : ClosedCapture}
    (kind : frame.kind = .lookahead false) (recorded : s.capture = some k)
    (start : frame.start + 3 = k.start) (stop : k.stop = s.out.size) :
    (s.closed frame frames).splice = some ⟨k.slot, (s.closed frame frames).out.size⟩ := by
  have kept : (s.emitClose frame).capture = some k := by
    rw [emitClose, kind]
    exact recorded
  change (s.emitClose frame).spliceOf frame s.out.size = _
  unfold spliceOf
  rw [kind, kept]
  simp only [start, stop, beq_self_eq_true, Bool.and_self, ↓reduceIte]
  rfl

theorem Move.ready (move : Move options delimiter s action next) : next.Ready := by
  have skipped : ∀ {count : Nat}, (s.skip count).place = .outside → (s.skip count).Ready :=
    fun place => ready_of_unescaped (escaped_of_place place)
  cases move with
  | write count text quiet => exact quiet.ready
  | restore c more rest place kept =>
      apply ready_of_unescaped
      have dropped : s.dropEscape.rest = c :: more := by
        unfold dropEscape
        split <;> exact rest
      have other : c ≠ '\\' := by
        rintro rfl
        revert kept
        decide
      change (s.dropEscape.skip 1).escaped = false
      rw [escaped_skip_one dropped, beq_eq_false_iff_ne.mpr other, Bool.false_and]
  | openClass more rest place => exact ready_of_inClass rfl
  | closeClass start more rest class_ escape =>
      apply ready_of_unescaped
      change (s.skip 1).escaped = false
      rw [escaped_skip_one rest]
      rfl
  | anything more rest place =>
      apply ready_of_unescaped
      change (s.skip 1).escaped = false
      rw [escaped_skip_one rest]
      rfl
  | repeat_ q found mark place after =>
      have ready := skipped after
      exact ready
  | possess q atom found place mark quantified after =>
      have ready := skipped after
      exact ready
  | refer slot count positive bound place after => exact skipped after
  | enter kind text slot count opening place after => exact skipped after
  | leave frame frames more rest open_ place =>
      apply ready_of_unescaped
      obtain ⟨_, before, _, _, _⟩ := closed_eq frame frames rest
      unfold escaped
      rw [before, Escape.pending_cons]
      rfl
  | splice splice count last stop place after => exact skipped after
  | flags place =>
      intro _ _
      have empty : ((s.skip 1).skip (s.skip 1).rest.length).rest = [] := List.drop_length
      change ((s.skip 1).skip (s.skip 1).rest.length).rest.head?.all (!isDigit ·) = true
      rw [empty]
      rfl

end State

variable {options : Options} {delimiter : Option Char}

inductive Trace (options : Options) (delimiter : Option Char) :
    State → List State → State → Prop where
  | done (s : State) : Trace options delimiter s [] s
  | step {s next final : State} {states : List State} (nonempty : s.rest ≠ [])
      (ok : s.step options delimiter = .ok next)
        (rest : Trace options delimiter next states final) :
      Trace options delimiter s (s :: states) final

theorem trace_of_run {bound : Nat} {s final : State}
    (ok : run options delimiter bound s = .ok final) :
    Trace options delimiter s (visited options delimiter bound s) final := by
  induction bound generalizing s with
  | zero =>
      cases ok
      exact Trace.done _
  | succ bound ih =>
      unfold run at ok
      unfold visited
      cases empty : s.rest.isEmpty with
      | true =>
          simp only [empty, ↓reduceIte, Except.ok.injEq] at ok ⊢
          subst ok
          exact Trace.done _
      | false =>
          simp only [empty, Bool.false_eq_true, ↓reduceIte] at ok ⊢
          cases taken : s.step options delimiter with
          | error fault =>
              rw [taken] at ok
              contradiction
          | ok next =>
              rw [taken] at ok
              exact Trace.step (by simpa using empty) taken (ih ok)

theorem finish_eq_ok_iff {s : State} {result : Result} :
    finish s = .ok result ↔ s.inClass = false ∧ s.frames.any State.isAtomic = false ∧
      result = ⟨s.out, s.groups, s.flags⟩ := by
  unfold finish
  cases s.inClass <;> cases s.frames.any State.isAtomic <;> simp [eq_comm]

theorem run_of_convert {text : Text} {result : Result}
    (ok : convert options delimiter text = .ok result) :
    ∃ final, run options delimiter text.length (.start text) = .ok final ∧
      finish final = .ok result := by
  unfold convert at ok
  cases ran : run options delimiter text.length (.start text) with
  | error fault =>
      rw [ran] at ok
      contradiction
  | ok final =>
      rw [ran] at ok
      exact ⟨final, rfl, ok⟩

theorem trace_of_convert {text : Text} {result : Result}
    (ok : convert options delimiter text = .ok result) :
    ∃ final, Trace options delimiter (.start text)
        (visited options delimiter text.length (.start text)) final ∧
      final.inClass = false ∧ result = ⟨final.out, final.groups, final.flags⟩ := by
  obtain ⟨final, ran, finished⟩ := run_of_convert ok
  obtain ⟨class_, _, rfl⟩ := finish_eq_ok_iff.mp finished
  exact ⟨final, trace_of_run ran, class_, rfl⟩

/-- Where the conversion ends outside classes, no class was left open by a
delimiter that closes it. -/
theorem Trace.closable {s final : State} {states : List State}
    (trace : Trace options delimiter s states final) (finished : final.inClass = false) :
    s.inClass = true → delimiter ≠ some ']' := by
  induction trace with
  | done s =>
      intro class_
      rw [finished] at class_
      contradiction
  | step nonempty ok rest ih =>
      intro class_ same
      exact ih finished (State.inClass_of_step same class_ ok) same

/-- What is recorded along a trace, one action at a time. -/
def recorded {Record : Type} (options : Options) (delimiter : Option Char)
    (advance : Action → Record → Record) (states : List State) (record : Record) : Record :=
  states.foldl (fun record s => advance (s.action options delimiter) record) record

theorem Trace.keeps {Record : Type} {advance : Action → Record → Record}
    {allowed : State → Prop} {invariant : State → Record → Prop}
    (keep : ∀ {s next : State} {action : Action} {record : Record},
      State.Move options delimiter s action next → s.rest ≠ [] → s.Ready → allowed s →
        invariant s record → invariant next (advance action record))
    {s final : State} {states : List State} (trace : Trace options delimiter s states final)
    (finished : final.inClass = false) (all : ∀ state ∈ states, allowed state) (ready : s.Ready)
    {record : Record} (holds : invariant s record) :
    invariant final (recorded options delimiter advance states record) := by
  induction trace generalizing record with
  | done s => exact holds
  | step nonempty ok rest ih =>
      have move := State.move_of_step ready ((Trace.step nonempty ok rest).closable finished)
        nonempty ok
      exact ih finished (fun state member => all state (by simp [member])) move.ready
        (keep move nonempty ready (all _ (by simp)) holds)

theorem Trace.holds {allowed : State → Prop} (invariant : State → Prop)
    (keep : ∀ {s next : State} {action : Action}, State.Move options delimiter s action next →
      s.rest ≠ [] → allowed s → invariant s → invariant next)
    {s final : State} {states : List State} (trace : Trace options delimiter s states final)
    (finished : final.inClass = false) (all : ∀ state ∈ states, allowed state) (ready : s.Ready)
    (holds : invariant s) : invariant final :=
  @Trace.keeps options delimiter Unit (fun _ record => record) allowed
    (fun state _ => invariant state)
    (fun move nonempty _ allowed holds => keep move nonempty allowed holds) s final states trace
    finished all ready () holds

theorem ready_start (text : Text) : (State.start text).Ready :=
  State.ready_of_unescaped rfl

end PatternDialect.Conversion
