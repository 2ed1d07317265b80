import PatternDialect.Proofs.Order
import PatternDialect.Proofs.Stability

/-! Slots and captures at the end of a conversion.

Main statements: where nothing is misread, the table has a slot for every capture
of the source, and the hidden slots are those of emulations. -/

namespace PatternDialect.Conversion

open Character Source Backreference

namespace State

variable {mode : Option Bool} {s : State}

theorem Ordered.referred (ordered : s.Ordered mode) (nonempty : s.rest ≠ []) {slot count : Nat}
    (place : s.place = .outside) (after : (s.skip count).place = .outside) :
    ((s.skip count).emitReference slot).Ordered mode := by
  have here := ordered.place nonempty place
  obtain ⟨outside, bare⟩ := render_reads slot
  obtain ⟨text, d, ends, digit⟩ := ends_in_digit s.out slot
  apply ordered.extend ((s.skip count).emitReference slot) (render slot) rfl rfl rfl rfl rfl rfl rfl
  · intro _
    change Place.outside.after (s.out ++ render slot) = (s.skip count).place
    rw [Place.after_append, here, outside, after]
  · exact admits_of_inert (by decide) s.out _
  · rw [here]
    exact bare
  · change Whole (s.out ++ render slot)
    rw [ends]
    apply whole_of_last
    · rintro rfl
      exact absurd digit (by decide)
    · rintro rfl
      exact absurd digit (by decide)
  · intro empty
    simp [render] at empty

theorem opening_reveals {options : Options} {kind : FrameKind} {text : Text} {slot : Option Slot}
    (opening : s.Opening options kind text slot)
    (agrees : ∀ noCapture, mode = some noCapture → noCapture = options.noCapture) :
    (∃ rest, text = '(' :: rest) ∧ Place.outside.after text = .outside ∧ Shape kind text ∧
      (∃ inner d, text = inner ++ [d] ∧ d ≠ '?' ∧ d ≠ '<') ∧
        ∀ front back, (s.atLookaheadStart = true →
          lookahead <:+ back ∨ back = [] ∧ lookahead <:+ front) →
            List.Forall₂ (Hides mode front) slot.toList ((captures text).map (back ++ ·)) := by
  cases opening with
  | capture slot visible =>
      refine ⟨⟨_, rfl⟩, rfl, rfl, ⟨[], '(', rfl, by decide, by decide⟩, ?_⟩
      intro front back _
      exact List.Forall₂.cons (fun _ _ hidden => absurd hidden visible) List.Forall₂.nil
  | hidden noCapture start =>
      refine ⟨⟨_, rfl⟩, rfl, rfl, ⟨[], '(', rfl, by decide, by decide⟩, ?_⟩
      intro front back first
      refine List.Forall₂.cons ?_ List.Forall₂.nil
      intro noCapture_ known _
      change Emulates noCapture_ (back ++ []) ∨ back ++ [] = [] ∧ _
      rw [List.append_nil, agrees noCapture_ known]
      rcases first start with suffix | ⟨empty, suffix⟩
      · exact Or.inl (Or.inl suffix)
      · exact Or.inr ⟨empty, noCapture, suffix⟩
  | atomic =>
      refine ⟨⟨_, rfl⟩, rfl, ?_, ⟨['(', '?', '='], '(', rfl, by decide, by decide⟩, ?_⟩
      · change [] ∉ [lookahead]
        decide
      · intro front back _
        refine List.Forall₂.cons ?_ List.Forall₂.nil
        exact fun _ _ _ => Or.inl (Or.inl (List.suffix_append _ _))
  | plain =>
      refine ⟨⟨_, rfl⟩, rfl, trivial, ⟨['(', '?'], ':', rfl, by decide, by decide⟩, ?_⟩
      exact fun _ _ _ => List.Forall₂.nil
  | lookahead negative =>
      cases negative with
      | true =>
          refine ⟨⟨_, rfl⟩, rfl, trivial, ⟨['(', '?'], '!', rfl, by decide, by decide⟩, ?_⟩
          exact fun _ _ _ => List.Forall₂.nil
      | false =>
          refine ⟨⟨_, rfl⟩, rfl, Or.inl (List.prefix_refl _),
            ⟨['(', '?'], '=', rfl, by decide, by decide⟩, ?_⟩
          exact fun _ _ _ => List.Forall₂.nil
  | lookbehind negative =>
      cases negative with
      | true =>
          refine ⟨⟨_, rfl⟩, rfl, trivial, ⟨['(', '?', '<'], '!', rfl, by decide, by decide⟩, ?_⟩
          exact fun _ _ _ => List.Forall₂.nil
      | false =>
          refine ⟨⟨_, rfl⟩, rfl, trivial, ⟨['(', '?', '<'], '=', rfl, by decide, by decide⟩, ?_⟩
          exact fun _ _ _ => List.Forall₂.nil

theorem Ordered.at_lookahead (ordered : s.Ordered mode) (start : s.atLookaheadStart = true) :
    ∃ front, s.out = front ++ lookahead ∧ ∀ frame ∈ s.frames, frame.start ≤ front.size := by
  unfold atLookaheadStart at start
  cases open_ : s.frames with
  | nil =>
      rw [open_] at start
      contradiction
  | cons frame frames =>
      rw [open_] at start
      simp only [Bool.and_eq_true, beq_iff_eq] at start
      obtain ⟨kind, size⟩ := start
      obtain ⟨front, back, part, shape, _⟩ := ordered.situated frame (by simp [open_])
      have sizes := congrArg Text.size part.parts
      have start_ := part.size
      rw [Text.size_append] at sizes
      rw [kind] at shape
      refine ⟨front, ?_, ?_⟩
      · rcases shape with ⟨rest, written⟩ | ⟨rest, written⟩
        · cases rest with
          | nil => rw [part.parts, ← written, List.append_nil]
          | cons c more =>
              have positive := c.utf8Size_pos
              have three : Text.size lookahead = 3 := by decide
              have long := congrArg Text.size written
              rw [Text.size_append, Text.size_cons, three] at long
              omega
        · have four : Text.size ['(', '?', '(', '?'] = 4 := by decide
          have long := congrArg Text.size written
          rw [Text.size_append, four] at long
          omega
      · intro other member
        have nested := ordered.nested
        rw [open_, List.pairwise_cons] at nested
        rcases List.mem_cons.mp member with rfl | outer
        · exact Nat.le_of_eq start_.symm
        · have before := nested.1 other outer
          omega

theorem Ordered.entered (ordered : s.Ordered mode) (nonempty : s.rest ≠ []) {options : Options}
    (agrees : ∀ noCapture, mode = some noCapture → noCapture = options.noCapture)
    {kind : FrameKind} {text : Text} {slot : Option Slot} {count : Nat}
    (opening : s.Opening options kind text slot) (place : s.place = .outside)
    (after : (s.skip count).place = .outside) :
    ((({ s with groups := s.opened slot }.emit text).skip count).openFrame kind s.out.size
      s.groups.size).Ordered mode := by
  have here := ordered.place nonempty place
  obtain ⟨filled, _, slotted⟩ := opening_spec opening
  obtain ⟨⟨rest, opens⟩, stays, shape, ⟨inner, d, ends, mark, angle⟩, hides⟩ :=
    opening_reveals opening agrees
  have declared : (s.opened slot).declared = s.groups.declared ++ slot.toList := by
    cases slot with
    | none => exact (List.append_nil _).symm
    | some slot => rfl
  have admits : Admits s.out '(' := admits_of_inert (by decide) s.out
  have steady : Steady .outside s.out text := by
    rw [opens]
    exact admits rest
  have longer : s.out.size < (s.out ++ text).size := by
    have positive := Text.size_pos filled
    rw [Text.size_append]
    omega
  have total : (captures s.out).length = s.groups.declared.length := ordered.aligned.length.symm
  have starts : ∀ frame ∈ s.frames, frame.start < s.out.size := by
    intro frame member
    obtain ⟨_, _, part, _⟩ := ordered.situated frame member
    exact part.lt
  -- where a lookahead has just been opened, every part before it ends with it
  have first : ∀ front back, s.out = front ++ back → (front = [] ∨ ∃ frame ∈ s.frames,
      frame.start = front.size) → s.atLookaheadStart = true →
        lookahead <:+ back ∨ back = [] ∧ lookahead <:+ front := by
    intro front back parts known start
    obtain ⟨before, out, behind⟩ := ordered.at_lookahead start
    left
    have low : front.size ≤ before.size := by
      rcases known with rfl | ⟨frame, member, same⟩
      · simp
      · rw [← same]
        exact behind frame member
    rw [parts] at out
    rcases List.append_eq_append_iff.mp out with ⟨middle, before_, back_⟩ | ⟨middle, front_, back_⟩
    · rw [back_]
      exact List.suffix_append _ _
    · cases middle with
      | nil =>
          rw [List.nil_append] at back_
          exact back_ ▸ List.suffix_refl _
      | cons c more =>
          have positive := c.utf8Size_pos
          rw [front_, Text.size_append, Text.size_cons] at low
          omega
  refine ⟨?_, ?_, ?_, ?_, ?_, ?_, fun a recorded => (ordered.atom a recorded).grown longer,
    fun c recorded on => (ordered.capture c recorded on).grown longer, ?_, no_class place⟩
  · intro _
    change Place.outside.after (s.out ++ text) = (s.skip count).place
    rw [Place.after_append, here, stays, after]
  · change Whole (s.out ++ text)
    rw [ends, ← List.append_assoc]
    exact whole_of_last mark angle
  · change Aligned mode (s.opened slot).declared [] (s.out ++ text)
    rw [declared]
    apply ordered.aligned.append slot.toList steady
    rw [List.nil_append, here]
    exact hides [] s.out (first [] s.out rfl (Or.inl rfl))
  · intro frame member
    change Situated mode (s.opened slot).declared (s.out ++ text) frame
    rw [declared]
    rcases List.mem_cons.mp member with rfl | member
    · refine ⟨s.out, text, ⟨rfl, rfl, by rw [total]; rfl, ?_, ?_⟩, shape, by rw [opens]; rfl⟩
      · refine ⟨here, Or.inr ⟨'(', rest, opens, admits⟩, ?_, ?_⟩
        · rw [List.length_append]
          omega
        · rw [total, List.drop_left]
          have alone := hides s.out [] fun start => Or.inr ⟨rfl, ?_⟩
          · simpa using alone
          · obtain ⟨before, out, _⟩ := ordered.at_lookahead start
            rw [out]
            exact List.suffix_append _ _
      · exact ⟨'(', rest, opens, by decide, admits⟩
    · apply (ordered.situated frame member).append slot.toList steady
      intro front back part
      rw [here]
      exact hides front back (first front back part.parts
        (Or.inr ⟨frame, member, part.size.symm⟩))
  · intro frame member slot' known
    rcases List.mem_cons.mp member with rfl | member
    · rw [slotted] at known
      obtain ⟨_, _, same⟩ := Option.map_eq_some_iff.mp known
      exact same.symm
    · exact ordered.slotted frame member slot' known
  · exact List.Pairwise.cons starts ordered.nested
  · intro p recorded
    contradiction

theorem closing_reads (frame : Frame) :
    (∃ c rest, closing frame = c :: rest ∧ isInert c = true) ∧
      Place.outside.after (closing frame) = .outside ∧
        capturesFrom [] .outside (closing frame) = [] ∧
          ∃ inner d, closing frame = inner ++ [d] ∧ d ≠ '(' ∧ d ≠ '?' ∧ d ≠ '<' := by
  unfold closing
  split
  · rename_i slot _
    obtain ⟨outside, bare⟩ := render_reads slot
    obtain ⟨inner, d, ends, digit⟩ := ends_in_digit [')', ')'] slot
    have other : ∀ {e : Char}, isDigit e = false → d ≠ e := by
      rintro e plain rfl
      rw [digit] at plain
      contradiction
    refine ⟨⟨')', _, rfl, by decide⟩, outside, ?_, inner, d, ends, other (by decide),
      other (by decide), other (by decide)⟩
    change capturesFrom [')', ')'] .outside (render slot) = []
    rw [capturesFrom_eq_map, bare]
    rfl
  · exact ⟨⟨')', [], rfl, by decide⟩, rfl, rfl, [], ')', rfl, by decide, by decide, by decide⟩

theorem Ordered.left (ordered : s.Ordered mode) {frame : Frame} {frames : List Frame} {more : Text}
    (rest : s.rest = ')' :: more) (open_ : s.frames = frame :: frames)
    (place : s.place = .outside) : (s.closed frame frames).Ordered mode := by
  have here := ordered.place (by simp [rest]) place
  obtain ⟨out, before, _, class_, groups⟩ := closed_eq frame frames rest
  obtain ⟨⟨c, tail, written, inert⟩, outside, bare, inner, d, ends, notOpen, mark, angle⟩ :=
    closing_reads frame
  have steady : Steady .outside s.out (closing frame) := by
    rw [written]
    exact admits_of_inert inert s.out tail
  rw [← here] at bare
  have longer : s.out.size < (s.closed frame frames).out.size := by
    have positive : 0 < (closing frame).size := Text.size_pos (by simp [written])
    rw [out, Text.size_append]
    omega
  have last : (s.closed frame frames).out = (s.out ++ inner) ++ [d] := by
    rw [out, ends, List.append_assoc]
  have free : (s.closed frame frames).escaped = false := by
    unfold escaped
    rw [before, Escape.pending_cons]
    rfl
  have outer : (s.closed frame frames).place = .outside := by
    apply place_eq_outside _ free
    rw [inClass, class_]
    exact inClass_of_place place
  have nested := ordered.nested
  rw [open_, List.pairwise_cons] at nested
  have known : ∀ other ∈ frames, other ∈ s.frames := fun other member => by
    rw [open_]
    exact List.mem_cons_of_mem _ member
  have same : captures (s.closed frame frames).out = captures s.out := by
    rw [out, captures_append steady, bare]
    exact List.append_nil _
  obtain ⟨front, back, part, shape, head⟩ :=
    (ordered.situated frame (by simp [open_])).extend steady bare
  rw [← out] at part
  rw [← groups] at part
  refine ⟨?_, ?_, ?_, ?_, fun other member => ordered.slotted other (known other member), nested.2,
    ?_, ?_, ?_, no_class outer⟩
  · intro _
    rw [out, Place.after_append, here, outside, outer]
  · rw [last]
    exact whole_of_last mark angle
  · rw [out, groups]
    exact ordered.aligned.extend steady bare
  · intro other member
    rw [out, groups]
    exact (ordered.situated other (known other member)).extend steady bare
  · intro a recorded
    cases recorded
    refine ⟨Nat.le_refl _, fun _ => ⟨Or.inr free, ?_, nested.1, front, back, part, ?_⟩⟩
    · rw [last]
      exact shut_of_last notOpen
    · intro emulated
      change isAtomic frame = true at emulated
      unfold isAtomic at emulated
      split at emulated
      · rename_i slot kind
        rw [kind] at shape
        exact shape
      · contradiction
  · intro c recorded on
    cases kind : frame.kind with
    | capture slot =>
        simp only [closed, captureOf, kind] at recorded
        cases recorded
        obtain rfl : slot = frame.firstGroup :=
          ordered.slotted frame (by simp [open_]) slot (by rw [kind]; rfl)
        rw [kind] at shape
        refine ⟨Nat.le_refl _, fun _ => ⟨Or.inr free, ?_, front,
          part.getElem?_captures shape, part.size⟩⟩
        exact part.count ▸ Nat.succ_pos _
    | atomic slot =>
        simp only [closed, captureOf, emitClose, kind] at recorded
        exact (ordered.capture c recorded on).grown longer
    | plain =>
        simp only [closed, captureOf, emitClose, kind] at recorded
        exact (ordered.capture c recorded on).grown longer
    | lookahead negative =>
        simp only [closed, captureOf, emitClose, kind] at recorded
        exact (ordered.capture c recorded on).grown longer
  · intro p recorded on
    obtain ⟨kind, c, last, start, stop, rfl⟩ := closed_splice recorded
    obtain ⟨_, low, inside, found, size⟩ := (ordered.capture c last on).2 stop
    refine ⟨Nat.le_refl _, fun _ => ⟨Or.inr free, low, front, ?_, ?_⟩⟩
    · -- the capture begins where the opener of the lookahead ends
      change (captures (s.closed frame frames).out)[c.slot - 1]? = some (front ++ lookahead)
      rw [← same] at found
      obtain ⟨after, parts, _⟩ := parts_of_capture (List.mem_of_getElem? found)
      rw [kind] at shape
      rw [found, part.eq_lookahead shape parts (size.trans start)]
    · intro other member
      have before := nested.1 other member
      have at_ := part.size
      change other.start ≤ front.size
      omega

theorem Ordered.spliced (ordered : s.Ordered mode) (nonempty : s.rest ≠ []) {splice : Splice}
    {count : Nat} (last : s.splice = some splice) (stop : splice.stop = s.out.size)
    (place : s.place = .outside) (after : (s.skip count).place = .outside) :
    State.Ordered mode { ({ s with groups := s.groups.suppress splice.slot }.skip
      count).emitReference splice.slot with splice := none } := by
  have here := ordered.place nonempty place
  obtain ⟨outside, bare⟩ := render_reads splice.slot
  obtain ⟨text, d, ends, digit⟩ := ends_in_digit s.out splice.slot
  have other : ∀ {e : Char}, isDigit e = false → d ≠ e := by
    rintro e plain rfl
    rw [digit] at plain
    contradiction
  have steady : Steady .outside s.out (render splice.slot) := admits_of_inert (by decide) s.out _
  rw [← here] at bare
  have longer : s.out.size < (s.out ++ render splice.slot).size := by
    have positive : 0 < (render splice.slot).size := Text.size_pos (by simp [render])
    rw [Text.size_append]
    omega
  have found : mode.isSome = true → ∃ before,
      (captures s.out)[splice.slot - 1]? = some (before ++ lookahead) ∧
        ∀ frame ∈ s.frames, frame.start ≤ before.size :=
    fun on => ((ordered.splice splice last on).2 stop).2.2
  have hidden : Aligned mode (s.groups.suppress splice.slot).declared [] s.out ∧
      ∀ frame ∈ s.frames, Situated mode (s.groups.suppress splice.slot).declared s.out frame := by
    rcases s.groups.declared_suppress splice.slot with same | set
    · rw [same]
      exact ⟨ordered.aligned, ordered.situated⟩
    · rw [set]
      constructor
      · apply ordered.aligned.hide
        intro noCapture known between located
        obtain ⟨before, here, _⟩ := found (by rw [known]; rfl)
        rw [List.nil_append, here, Option.some.injEq] at located
        exact Or.inl (suffix_of_behind located (by simp))
      · intro frame member
        apply (ordered.situated frame member).hide
        intro on
        obtain ⟨before, here, behind⟩ := found on
        exact ⟨before, here, behind frame member⟩
  refine ⟨?_, ?_, hidden.1.extend steady bare, fun frame member =>
    (hidden.2 frame member).extend steady bare, ordered.slotted, ordered.nested,
    fun a recorded => (ordered.atom a recorded).grown longer,
    fun c recorded on => (ordered.capture c recorded on).grown longer, ?_, no_class place⟩
  · intro _
    change Place.outside.after (s.out ++ render splice.slot) = (s.skip count).place
    rw [Place.after_append, here, outside, after]
  · change Whole (s.out ++ render splice.slot)
    rw [ends]
    exact whole_of_last (other (by decide)) (other (by decide))
  · intro p recorded
    contradiction

theorem Ordered.flagged (ordered : s.Ordered mode) :
    State.Ordered mode
      { (s.skip 1).skip (s.skip 1).rest.length with flags := some (s.skip 1).rest } := by
  have empty : ((s.skip 1).skip (s.skip 1).rest.length).rest = [] := List.drop_length
  apply ordered.extend { (s.skip 1).skip (s.skip 1).rest.length with flags := some (s.skip 1).rest }
    [] (List.append_nil _).symm rfl rfl rfl rfl rfl rfl
  · exact fun left => absurd empty left
  · exact steady_nil s.out
  · rfl
  · exact ordered.whole
  · exact fun _ => Or.inl empty

/-- Every move keeps the order while nothing is misread.  Where more is asked of the
hidden slots, numbers have to be in reach. -/
theorem Ordered.move {options : Options} {delimiter : Option Char} {action : Action} {next : State}
    (move : Move options delimiter s action next) (nonempty : s.rest ≠ [])
    (reads : s.misreads delimiter = false) (single : s.encloses delimiter = false)
    (agrees : ∀ noCapture, mode = some noCapture → noCapture = options.noCapture)
    (known : mode.isSome = true → s.groups.size ≤ Atom.searchReach ∧ ∃ ledger, s.Sound ledger)
    (ordered : s.Ordered mode) : next.Ordered mode := by
  cases move with
  | write count text quiet => exact ordered.write nonempty quiet
  | restore c more rest place kept => exact ordered.restore rest place kept
  | openClass more rest place => exact ordered.openClass rest place
  | closeClass start more rest class_ unescaped => exact ordered.closeClass rest class_ unescaped
  | anything more rest place => exact ordered.anything rest place
  | repeat_ q found mark place after =>
      apply ordered.repeated nonempty (Construct.stands_of_at? found).1 place _ after
      intro optional
      simpa [misreads, marks, searched?, found, place, mark, optional] using reads
  | possess q atom found place mark quantified after =>
      have legible := (Construct.stands_of_at? found).1
      apply ordered.possessed nonempty legible place _ after
      · intro on
        obtain ⟨reach, ledger, sound⟩ := known on
        exact (sound.repeats nonempty reach legible place quantified).2.2.2.2
      · apply ordered.finds nonempty place _ quantified
        intro unrecorded unit trailing
        have searched : s.searched? delimiter = some unit := by
          simp [searched?, found, place, mark, unrecorded, trailing]
        rw [misreads, searched, Bool.or_eq_false_iff] at reads
        rw [encloses, searched] at single
        exact ⟨reads.2, single⟩
  | refer slot count positive bound place after => exact ordered.referred nonempty place after
  | enter kind text slot count opening place after =>
      exact ordered.entered nonempty agrees opening place after
  | leave frame frames more rest open_ place => exact ordered.left rest open_ place
  | splice splice count last stop place after =>
      exact ordered.spliced nonempty last stop place after
  | flags place => exact ordered.flagged

end State

/-- Where nothing is misread, every hidden slot has the capture of an emulation. -/
theorem emulations_convert {options : Options} {delimiter : Option Char} {text : Text}
    {result : Result} (ok : convert options delimiter text = .ok result)
    (reach : result.groups.size ≤ Atom.searchReach)
    (reads : ∀ s ∈ visited options delimiter text.length (.start text),
      s.misreads delimiter = false ∧ s.encloses delimiter = false)
    {index : Nat} (hidden : result.groups.get? index = some .suppressed) :
    ∃ before, (captures result.source)[index - 1]? = some before ∧
      Emulates options.noCapture before := by
  obtain ⟨final, trace, finished, rfl⟩ := trace_of_convert ok
  obtain ⟨_, sizes⟩ := trace.size_le finished (ready_start text)
  have allowed : ∀ s ∈ visited options delimiter text.length (.start text),
      s.groups.size ≤ Atom.searchReach ∧ s.misreads delimiter = false ∧
        s.encloses delimiter = false :=
    fun s member => ⟨Nat.le_trans (sizes s member) reach, reads s member⟩
  have kept : (∃ ledger, final.Sound ledger) ∧ final.Ordered (some options.noCapture) := by
    refine trace.holds (fun s => (∃ ledger, s.Sound ledger) ∧ s.Ordered (some options.noCapture))
      ?_ finished allowed (ready_start text) ?_
    · rintro s next action move nonempty ⟨small, proper, single⟩ ⟨⟨ledger, sound⟩, ordered⟩
      refine ⟨⟨_, sound.move move nonempty small⟩, ?_⟩
      exact ordered.move move nonempty proper single (fun _ same => (Option.some.inj same).symm)
        (fun _ => ⟨small, ledger, sound⟩)
    · exact ⟨⟨_, State.Sound.start text⟩, State.Ordered.start _ text⟩
  exact kept.2.aligned.emulates hidden

theorem emulations_convert_nested :
    ∃ result before, convert {} none "((a)b++)++".toList = .ok result ∧
      result.groups.get? 4 = some .suppressed ∧ (captures result.source)[3]? = some before ∧
        Emulates false before := by
  have ok : convert {} none "((a)b++)++".toList =
      .ok ⟨"(?=(((a)(?=(b+))\\4)+))\\1".toList,
        ⟨[.suppressed, .anonymous, .anonymous, .suppressed]⟩, none⟩ := by
    decide +kernel
  obtain ⟨before, found, emulates⟩ := emulations_convert ok (by decide +kernel) (by decide +kernel)
    (show GroupTable.get? _ 4 = some .suppressed from rfl)
  exact ⟨_, before, ok, rfl, found, emulates⟩

/-- Under `noCapture` a group at the start of a lookahead keeps a hidden slot, and when
it is repeated its capture moves into the one of the repetition. -/
theorem hidden_convert_lookahead :
    ∃ result before, convert { noCapture := true } none "(?=(a)++)".toList = .ok result ∧
      result.groups.get? 2 = some .suppressed ∧ (captures result.source)[1]? = some before ∧
        ¬ lookahead <:+ before := by
  have ok : convert { noCapture := true } none "(?=(a)++)".toList =
      .ok ⟨"(?=(?=((a)+))\\1)".toList, ⟨[.suppressed, .suppressed]⟩, none⟩ := by
    decide +kernel
  exact ⟨_, "(?=(?=(".toList, ok, rfl, by decide +kernel, by decide +kernel⟩

end PatternDialect.Conversion
