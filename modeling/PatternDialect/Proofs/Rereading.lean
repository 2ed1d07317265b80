import PatternDialect.Proofs.Outlines

/-! Source that is read a second time.

Where the outline of a source is whole, the source is read as itself: its groups are found
again, and a lookahead around a single group with a reference to it is taken for the
emulation that it is. -/

namespace PatternDialect

open Character Source Syntax

namespace Syntax.Outline

/-- The capture that a source ends in. -/
def capture? (start index stop : Nat) : Outline → Option Conversion.ClosedCapture
  | group front .capture _ =>
      some ⟨index + front.slots.length, start + (front.source index).size, stop⟩
  | _ => none

/-- The lookahead around a single capture that a source ends in. -/
def splice? (index stop : Nat) : Outline → Option Conversion.Splice
  | group front (.lookahead false) (group empty .capture _) =>
      some ⟨index + front.slots.length, stop⟩
  | _ => none

theorem splice?_eq_none {outline : Outline} (other : outline.isSingle = false) (index stop : Nat) :
    outline.splice? index stop = none := by
  unfold splice?
  split
  · contradiction
  · rfl

theorem splice?_eq_some {outline : Outline} {index stop : Nat} {p : Conversion.Splice}
    (found : outline.splice? index stop = some p) :
    ∃ front body, outline = group front (.lookahead false) (group empty .capture body) ∧
      p = ⟨index + front.slots.length, stop⟩ := by
  unfold splice? at found
  split at found
  · exact ⟨_, _, rfl, (Option.some.inj found).symm⟩
  · contradiction

theorem capture?_group {front body : Outline} {form : Form} (other : form ≠ .capture)
    (start index stop : Nat) : (group front form body).capture? start index stop = none := by
  cases form with
  | capture => contradiction
  | named | plain | lookahead | lookbehind | atomic => rfl

theorem splice?_group {front body : Outline} {form : Form} (other : form ≠ .lookahead false)
    (index stop : Nat) : (group front form body).splice? index stop = none := by
  cases form with
  | lookahead negative =>
      cases negative with
      | false => contradiction
      | true => rfl
  | capture | named | plain | lookbehind | atomic => rfl

theorem splice?_of_other {front before body : Outline} {form : Form}
    (other : before ≠ empty ∨ form ≠ .capture) (index stop : Nat) :
    (group front (.lookahead false) (group before form body)).splice? index stop = none := by
  unfold splice?
  split
  · simp_all
  · rfl

end Syntax.Outline

namespace Conversion

open Outline

/-- A record of something that ends where the source did, and what it is at an offset. -/
structure Recorded {α : Type} (ends : α → Nat) (record : Option α) (stop : Nat)
    (found : Option α) : Prop where
  here : record.filter (ends · == stop) = found
  behind : ∀ r, record = some r → ends r ≤ stop

theorem Recorded.nothing {α : Type} (ends : α → Nat) (stop : Nat) :
    Recorded ends none stop none := ⟨rfl, nofun⟩

theorem Recorded.last {α : Type} (ends : α → Nat) (r : α) :
    Recorded ends (some r) (ends r) (some r) := by
  refine ⟨by simp, fun other same => ?_⟩
  exact Nat.le_of_eq (congrArg ends (Option.some.inj same).symm)

theorem Recorded.outgrown {α : Type} {ends : α → Nat} {record found : Option α}
    {stop beyond : Nat} (recorded : Recorded ends record stop found) (grown : stop < beyond) :
    Recorded ends record beyond none := by
  constructor
  · rw [Option.filter_eq_none_iff]
    intro r last
    have := recorded.behind r last
    simp only [beq_iff_eq]
    omega
  · intro r last
    have := recorded.behind r last
    omega

/-- What a state remembers of the source that was written up to an offset. -/
structure State.Recalls (s : State) (start index stop : Nat) (outline : Outline) : Prop where
  capture : Recorded ClosedCapture.stop s.capture stop (outline.capture? start index stop)
  splice : Recorded Splice.stop s.splice stop (outline.splice? index stop)

variable {s next : State} {start index stop : Nat} {outline : Outline}

theorem State.capture_closed {frame : Frame} (other : ∀ slot, frame.kind ≠ .capture slot)
    (outer : List Frame) : (s.closed frame outer).capture = s.capture := by
  unfold State.closed State.captureOf State.emitClose
  cases kind : frame.kind with
  | capture slot => exact absurd kind (other slot)
  | atomic | plain | lookahead => rfl

theorem State.splice_closed {frame : Frame} (other : frame.kind ≠ .lookahead false)
    (outer : List Frame) : (s.closed frame outer).splice = none := by
  cases recorded : (s.closed frame outer).splice with
  | none => rfl
  | some p => exact absurd (State.closed_splice recorded).1 other

/-- A lookahead is remembered where the capture closed last is all that it holds. -/
theorem State.Recalls.single {top : Bool} {body : Outline} {frame : Frame} {own : Nat}
    (inner : s.Recalls (frame.start + 3) own s.out.size body) (whole : body.Whole top)
    (kind : frame.kind = .lookahead false) (front : Outline) (outer : List Frame)
    (first : own = index + front.slots.length) :
    (s.closed frame outer).splice =
      (group front (.lookahead false) body).splice? index (s.closed frame outer).out.size := by
  have unremembered : (∀ c, body.capture? (frame.start + 3) own s.out.size = some c →
      c.start ≠ frame.start + 3) → (s.closed frame outer).splice = none := by
    intro other
    cases recorded : (s.closed frame outer).splice with
    | none => rfl
    | some p =>
        obtain ⟨_, c, last, starts, stops, _⟩ := State.closed_splice recorded
        refine absurd starts (other c ?_)
        rw [← inner.capture.here, last, Option.filter_some, stops, beq_self_eq_true, if_pos rfl]
  cases body with
  | empty => exact unremembered nofun
  | words before text => exact unremembered nofun
  | group before form b =>
      by_cases capture : form = .capture
      · subst capture
        by_cases nothing : before = empty
        · subst nothing
          obtain ⟨last, _⟩ := Option.filter_eq_some_iff.mp inner.capture.here
          rw [State.closed_splice_eq kind last rfl rfl, first]
          rfl
        · rw [splice?_of_other (Or.inl nothing), unremembered]
          intro c held
          obtain ⟨d, rest, begins, _⟩ := whole.1.head nothing own
          have filled : 0 < (before.source own).size := Text.size_pos (by simp [begins])
          obtain rfl := Option.some.inj held
          change frame.start + 3 + (before.source own).size ≠ frame.start + 3
          omega
      · rw [splice?_of_other (Or.inr capture), unremembered]
        intro c held
        rw [capture?_group capture] at held
        contradiction

theorem State.size_lt_closed (frame : Frame) (outer : List Frame) {more : Text}
    (rest : s.rest = ')' :: more) : s.out.size < (s.closed frame outer).out.size := by
  rw [(State.closed_eq frame outer rest).1]
  apply State.size_lt_append
  unfold State.closing
  split <;> simp [Atom.atomicClose]

/-- Closing a group: a capture is remembered, and a lookahead around a single one. -/
theorem State.Recalls.closed {top : Bool} {front body : Outline} {form : Form} {more : Text}
    {frame : Frame} (outer : List Frame)
    (inner : s.Recalls (frame.start + (form.opening false false).size)
      (frame.firstGroup + (form.slots false false).length) s.out.size body)
    (whole : body.Whole top) (visible : form.isNamed = false)
    (rest : s.rest = ')' :: more) (kind : frame.kind = kindOf false false frame.firstGroup form)
    (first : frame.firstGroup = index + front.slots.length)
    (starts : frame.start = start + (front.source index).size) :
    (s.closed frame outer).Recalls start index (s.closed frame outer).out.size
      (group front form body) := by
  have grown := State.size_lt_closed frame outer rest
  constructor
  · by_cases capture : form = .capture
    · subst capture
      have recorded : (s.closed frame outer).capture =
          some ⟨index + front.slots.length, start + (front.source index).size,
            (s.closed frame outer).out.size⟩ := by
        change (s.emitClose frame).captureOf frame = _
        rw [State.captureOf, kind, ← first, ← starts]
        rfl
      rw [recorded]
      exact Recorded.last ClosedCapture.stop _
    · rw [capture?_group capture, State.capture_closed]
      · exact inner.capture.outgrown grown
      · rw [kind]
        cases form with
        | capture => contradiction
        | named => contradiction
        | plain | lookahead | lookbehind | atomic => simp [kindOf]
  · by_cases ahead : form = .lookahead false
    · subst ahead
      rw [inner.single whole kind front outer first]
      cases found : (group front (.lookahead false) body).splice? index
          (s.closed frame outer).out.size with
      | none => exact Recorded.nothing _ _
      | some p =>
          obtain ⟨_, _, _, rfl⟩ := splice?_eq_some found
          exact Recorded.last Splice.stop _
    · rw [splice?_group ahead, State.splice_closed]
      · exact Recorded.nothing _ _
      · rw [kind]
        cases form with
        | lookahead negative => simpa [kindOf] using ahead
        | capture | named | plain | lookbehind | atomic => simp [kindOf]

/-! ### Reading again -/

/-- A state at the start of the text or of a group. -/
structure State.Fresh (s : State) : Prop where
  direct : Direct false s
  recalls : s.Recalls s.out.size s.groups.size s.out.size .empty

/-- A state behind a source that was read again. -/
structure State.Rereads (s : State) (outline : Outline) (tail : Text) (next : State) : Prop where
  outcome : conclude {} none s = conclude {} none next
  rest : next.rest = tail
  out : next.out = s.out ++ outline.source s.groups.size
  groups : next.groups.declared = s.groups.declared ++ outline.slots
  frames : next.frames = s.frames
  direct : Direct outline.refers next
  recalls : next.Recalls s.out.size s.groups.size next.out.size outline

/-- What may follow a source without joining with it. -/
structure Follows (tail : Text) (outline : Outline) : Prop where
  parted : outline.isWords = true → Parted tail
  apart : outline.refers = true → tail.head?.all (!isDigit ·) = true

theorem Follows.of_parted {tail : Text} (parted : Parted tail) (outline : Outline) :
    Follows tail outline :=
  ⟨fun _ => parted, fun _ => parted.all rfl⟩

theorem parted_close (more : Text) : Parted (')' :: more) := rfl

def Readable (top : Bool) (outline : Outline) : Prop :=
  ∀ (s : State) (tail : Text), s.Fresh → (top = true → s.frames = []) → Follows tail outline →
    s.rest = outline.source s.groups.size ++ tail → ∃ next, s.Rereads outline tail next

variable {top : Bool} {front body : Outline} {text tail : Text}

theorem readable_empty (top : Bool) : Readable top .empty := by
  intro s tail fresh level follows rest
  exact ⟨s, rfl, rest, (List.append_nil _).symm, (List.append_nil _).symm, rfl, fresh.direct,
    fresh.recalls⟩

theorem Readable.words (readable : Readable top front) (whole : (words front text).Whole top) :
    Readable top (words front text) := by
  obtain ⟨_, filled, verbatim, other, apart, single⟩ := whole
  intro s tail fresh level follows rest
  have next : Follows (text ++ tail) front := by
    refine ⟨fun words_ => ?_, fun refers => ?_⟩
    · rw [other] at words_
      contradiction
    · exact head_append filled (apart refers) tail
  obtain ⟨t, read⟩ := readable s (text ++ tail) fresh level next (by simpa [source] using rest)
  have free : ['\\', '0'] <+: text → t.splice.filter (·.stop == t.out.size) = none := by
    intro zero
    rw [read.recalls.splice.here]
    apply splice?_eq_none
    simpa using fun on => single on zero
  obtain ⟨last, copied⟩ := copies_verbatim verbatim filled read.direct read.rest
    (follows.parted rfl) (fun on => read.frames.trans (level on)) apart
    read.recalls.splice.behind free
  have grown : t.out.size < last.out.size := by
    rw [copied.out]
    exact State.size_lt_append filled
  refine ⟨last, read.outcome.trans copied.outcome, copied.rest, ?_, ?_,
    copied.level.trans read.frames, copied.direct, ?_, ?_⟩
  · rw [copied.out, read.out, source, List.append_assoc]
  · rw [copied.groups, read.groups, List.append_nil]
    rfl
  · rw [copied.capture]
    exact read.recalls.capture.outgrown grown
  · rw [copied.splice]
    exact read.recalls.splice.outgrown grown

theorem enters_native {joined : Bool} {form : Form} {more : Text} (direct : Direct joined s)
    (recalls : s.Recalls start index s.out.size outline) (native : form.isNative = true)
    (rest : s.rest = form.opening false false ++ more)
    (unmarked : form.isBare = true → more.firstSignificant? ≠ some '?') :
    ∃ next, Passes {} s more (form.opening false false) (form.slots false false) next ∧
      next.Fresh ∧ next.frames =
        ⟨kindOf false false s.groups.size form, s.out.size, s.groups.size⟩ :: s.frames := by
  have opening := Form.opening_native native
  rw [opening] at rest ⊢
  have passes : Passes {} s more form.text (form.slots false false)
      (s.entered {} s.atLookaheadStart form) := by
    refine passes_opener direct native rest ?_
    rintro rfl
    exact unmarked rfl
  have grown : s.out.size < (s.entered {} s.atLookaheadStart form).out.size := by
    rw [passes.out, ← opening]
    obtain ⟨⟨left, opens⟩, _⟩ := form.opening_spec false false
    exact State.size_lt_append (by simp [opens])
  refine ⟨_, passes, ⟨passes.direct, recalls.capture.outgrown grown, Recorded.nothing _ _⟩, ?_⟩
  rw [State.frames_entered]
  cases form <;> rfl

theorem Readable.native {form : Form} (before : Readable top front) (within : Readable false body)
    (whole : (group front form body).Whole top) (native : form.isNative = true) :
    Readable top (group front form body) := by
  obtain ⟨_, inner, visible, unmarked⟩ := whole
  obtain ⟨⟨left, opens⟩, _⟩ := form.opening_spec false false
  have closing : ∀ own, form.closing own = [')'] := by
    cases form <;> first | exact fun _ => rfl | contradiction
  intro s tail fresh level follows rest
  obtain ⟨own, named⟩ : ∃ own, own = s.groups.size + front.slots.length := ⟨_, rfl⟩
  obtain ⟨inside, written⟩ : ∃ inside,
    inside = body.source (own + (form.slots false false).length) := ⟨_, rfl⟩
  have rest' : s.rest = front.source s.groups.size ++
      (form.opening false false ++ (inside ++ ')' :: tail)) := by
    rw [rest, source, ← named, ← written, closing]
    simp
  obtain ⟨t, read⟩ := before s _ fresh level (Follows.of_parted (by rw [opens]; rfl) front) rest'
  have sizeT : t.groups.size = own := by
    rw [named, GroupTable.size, GroupTable.size, read.groups, List.length_append]
    omega
  obtain ⟨u, opened, freshU, frames⟩ := enters_native read.direct read.recalls native read.rest
    fun bare => written ▸ inner.significant (unmarked bare) _ (unmarked_cons rfl (by decide) tail).1
  rw [sizeT] at frames
  have sizeU : u.groups.size = own + (form.slots false false).length := by
    rw [← sizeT, GroupTable.size, GroupTable.size, opened.groups, List.length_append]
    omega
  obtain ⟨v, through⟩ := within u (')' :: tail) freshU (by simp)
    (Follows.of_parted (parted_close tail) body)
    (by rw [opened.rest, written, sizeU])
  obtain ⟨frame, known⟩ : ∃ frame, frame =
    Frame.mk (kindOf false false own form) t.out.size own := ⟨_, rfl⟩
  have framesV : v.frames = frame :: t.frames := through.frames.trans (known ▸ frames)
  have closed : Passes {} v tail [')'] [] (v.closed frame t.frames) :=
    passes_close through.direct through.rest framesV
  refine ⟨_, read.outcome.trans (opened.outcome.trans (through.outcome.trans closed.outcome)),
    closed.rest, ?_, ?_, read.frames, ?_, ?_⟩
  · rw [closed.out, through.out, opened.out, read.out, sizeU, source, ← named, closing]
    simp
  · rw [closed.groups, through.groups, opened.groups, read.groups]
    simp [slots]
  · have plain : (group front form body).refers = false := by
      cases form <;> first | rfl | contradiction
    rw [plain]
    exact closed.direct
  · have recalls : v.Recalls (frame.start + (form.opening false false).size)
        (frame.firstGroup + (form.slots false false).length) v.out.size body := by
      have recalls := through.recalls
      rw [opened.out, Text.size_append, sizeU] at recalls
      rwa [known]
    refine recalls.closed t.frames inner visible through.rest (by rw [known]) ?_ ?_
    · rw [known, named]
    · rw [known, ← Text.size_append, ← read.out]

theorem suppress_between (declared inner : List Slot) :
    GroupTable.suppress ⟨declared ++ .anonymous :: inner⟩ (declared.length + 1) =
      ⟨declared ++ .suppressed :: inner⟩ := by
  simp [GroupTable.suppress]

/-- A reference behind a lookahead around a single group is written as it was. -/
theorem conclude_spliced {joined : Bool} {own slot : Nat} (direct : Direct joined s)
    (splice : s.splice = some ⟨slot, s.out.size⟩)
    (rest : s.rest = Backreference.render own ++ tail)
    (apart : tail.head?.all (!isDigit ·) = true) :
    ∃ next, conclude {} none s = conclude {} none next ∧ next.rest = tail ∧
      next.out = s.out ++ Backreference.render slot ∧ next.groups = s.groups.suppress slot ∧
        next.frames = s.frames ∧ next.capture = s.capture ∧ next.splice = none ∧
          Direct true next := by
  obtain ⟨count, length⟩ : ∃ count, count = (Backreference.render own).length := ⟨_, rfl⟩
  have step : s.step {} none = .ok { ({ s with groups := s.groups.suppress slot }.skip
      count).emitReference slot with splice := none } := by
    rw [step_digits direct.pause.place rest (Decimal.write_ne_nil own)
      (fun _ => Decimal.isDigit_of_mem_write) apart (by decide), length]
    simp only [splice, Option.filter_some, beq_self_eq_true, ↓reduceIte]
    rfl
  have place : (s.skip count).place = .outside := by
    obtain ⟨front, d, written, digit⟩ := render_concat own
    have taken : s.rest.take count = '\\' :: front ++ [d] := by
      rw [rest, length, List.take_left, written]
    exact State.place_skip direct.pause.place
      (State.escaped_skip_of_last _ taken (Reader.isDigit_ne_backslash digit))
  have pause := direct.pause
  have hidden : ({ s with groups := s.groups.suppress slot } : State).Pause joined :=
    ⟨pause.place, pause.followed, pause.mark, pause.behind⟩
  have referred := @State.Pause.referred _ joined _ hidden slot place
  refine ⟨_, conclude_ok (by simp [rest, Backreference.render]) step, ?_, rfl, rfl, rfl, rfl, rfl,
    ⟨referred.place, referred.followed, referred.mark, referred.behind⟩, direct.native,
    direct.frames, direct.flags⟩
  change s.rest.drop count = tail
  rw [rest, length, List.drop_left]

theorem Readable.atomic (before : Readable top front) (within : Readable false body)
    (whole : (group front .atomic body).Whole top) : Readable top (group front .atomic body) := by
  obtain ⟨first, inner, _, unmarked⟩ := whole
  have capture : Readable false (group empty .capture body) :=
    (readable_empty false).native within ⟨trivial, inner, rfl, unmarked⟩ rfl
  -- the emulation is a lookahead around a single group, with a reference behind it
  have single : Readable top (group front (.lookahead false) (group empty .capture body)) :=
    before.native capture ⟨first, ⟨trivial, inner, rfl, unmarked⟩, rfl, by simp [Form.isBare]⟩ rfl
  intro s tail fresh level follows rest
  obtain ⟨own, named⟩ : ∃ own, own = s.groups.size + front.slots.length := ⟨_, rfl⟩
  have parts : (group front .atomic body).source s.groups.size =
      (group front (.lookahead false) (group empty .capture body)).source s.groups.size ++
        Backreference.render own := by
    simp [source, slots, Form.opening, Form.slots, Form.closing, Backreference.render, named]
  rw [parts, List.append_assoc] at rest
  have parted : Parted (Backreference.render own ++ tail) := rfl
  obtain ⟨t, read⟩ := single s _ fresh level (Follows.of_parted parted _) rest
  obtain ⟨splice, _⟩ := Option.filter_eq_some_iff.mp read.recalls.splice.here
  obtain ⟨next, outcome, rest', out, groups, frames, captured, spliced, direct⟩ :=
    conclude_spliced read.direct splice read.rest (follows.apart rfl)
  have grown : t.out.size < next.out.size := by
    rw [out]
    exact State.size_lt_append (by simp [Backreference.render])
  refine ⟨next, read.outcome.trans outcome, rest', ?_, ?_, frames.trans read.frames, direct, ?_, ?_⟩
  · rw [out, read.out, parts, named, List.append_assoc]
  · have table : t.groups = ⟨(s.groups.declared ++ front.slots) ++ .anonymous :: body.slots⟩ := by
      apply congrArg GroupTable.mk (read.groups.trans _)
      simp [slots, Form.slots]
    have slot : s.groups.size + front.slots.length =
        (s.groups.declared ++ front.slots).length + 1 := by
      rw [GroupTable.size, List.length_append]
      omega
    rw [groups, table, slot, suppress_between]
    simp [slots, Form.slots]
  · rw [captured]
    exact read.recalls.capture.outgrown grown
  · rw [spliced]
    exact Recorded.nothing _ _

theorem readable_of_whole (whole : outline.Whole top) : Readable top outline := by
  induction outline generalizing top with
  | empty => exact readable_empty top
  | words front text ih => exact (ih whole.1).words whole
  | group front form body before within =>
      by_cases atomic : form = .atomic
      · subst atomic
        exact (before whole.1).atomic (within whole.2.1) whole
      · refine (before whole.1).native (within whole.2.1) whole ?_
        have visible := whole.2.2.1
        cases form <;> first | rfl | contradiction

end Conversion

end PatternDialect
