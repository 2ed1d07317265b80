import PatternDialect.Proofs.Emulations

/-! The number of slots against the number of captures.  Every quantifier keeps it,
except for those that are misread, and each of these breaks it at once. -/

namespace PatternDialect

open Character Source Backreference

namespace Source

theorem whole_of_place {text : Text} (other : Place.outside.after text ≠ .outside) :
    Whole text := by
  rintro before after rfl outside
  rw [Place.after_append, outside] at other
  constructor
  · rintro rfl
    exact other rfl
  · rintro rfl
    exact other rfl

theorem captures_possess_class {front unit closing : Text}
    (inside : Place.outside.after front = .inClass) (steady : Steady .inClass unit closing)
    (bare : capturesFrom [] (Place.inClass.after unit) closing = []) :
    (captures (front ++ (Atom.atomicOpen ++ (unit ++ closing)))).length =
      (captures (front ++ unit)).length := by
  have other : Place.outside.after front ≠ .outside := by
    rw [inside]
    decide
  have joined : ∀ more, Steady .outside front more := fun more =>
    (whole_of_place other).steady (Or.inl (shut_of_place other))
  have opener : capturesFrom [] .inClass (Atom.atomicOpen ++ (unit ++ closing)) =
      capturesFrom Atom.atomicOpen .inClass (unit ++ closing) := rfl
  rw [captures_append (joined _), captures_append (joined _), inside, opener,
    capturesFrom_eq_map Atom.atomicOpen, capturesFrom_append steady,
    capturesFrom_eq_map ([] ++ unit), bare]
  simp

theorem opener_of_alters {text : Text} {c : Char} (altered : alters text c = true) :
    ∃ before opener, text = before ++ opener ∧ Place.outside.after before = .outside ∧
      (opener = ['('] ∧ c = '?' ∨ opener = ['(', '?'] ∧ c = '<' ∨
        opener = ['(', '?', '<'] ∧ (c = '=' ∨ c = '!')) := by
  obtain ⟨reversed, same⟩ : ∃ reversed, reversed = text.reverse := ⟨_, rfl⟩
  have parts : text = reversed.reverse := by rw [same, List.reverse_reverse]
  rw [alters, ← same] at altered
  split at altered
  · rename_i before
    simp only [Bool.and_eq_true, beq_iff_eq] at altered
    exact ⟨before.reverse, ['('], by simp [parts], altered.1, Or.inl ⟨rfl, altered.2⟩⟩
  · rename_i before
    simp only [Bool.and_eq_true, beq_iff_eq] at altered
    exact ⟨before.reverse, ['(', '?'], by simp [parts], altered.1, Or.inr (Or.inl ⟨rfl, altered.2⟩)⟩
  · rename_i before
    simp only [Bool.and_eq_true, Bool.or_eq_true, beq_iff_eq] at altered
    exact ⟨before.reverse, ['(', '?', '<'], by simp [parts], altered.1,
      Or.inr (Or.inr ⟨rfl, altered.2⟩)⟩
  · contradiction

theorem parenthesis_of_alters {text : Text} (altered : alters text '?' = true) :
    ∃ before, text = before ++ ['('] ∧ Place.outside.after before = .outside := by
  obtain ⟨before, opener, parts, outside, kind⟩ := opener_of_alters altered
  rcases kind with ⟨rfl, _⟩ | ⟨_, other⟩ | ⟨_, other⟩
  · exact ⟨before, parts, outside⟩
  · exact absurd other (by decide)
  · exact absurd other (by decide)

theorem captures_mark {text more : Text} (altered : alters text '?' = true)
    (flat : Place.isFlat more = true) (angle : more.head? ≠ some '<') :
    (captures text).length = (captures (text ++ '?' :: more)).length + 1 := by
  obtain ⟨before, rfl, outside⟩ := parenthesis_of_alters altered
  have closed : opensCapture ('?' :: more) = false := by
    cases more with
    | nil => rfl
    | cons c rest =>
        have other : c ≠ '<' := by simpa using angle
        simp [opensCapture, other]
  have steady : ∀ rest, Steady .outside before ('(' :: rest) :=
    fun rest => admits_of_inert (by decide) before rest
  have bare := (Place.reads_of_flat flat (['('] ++ ['?'])).2.2
  have rest : capturesFrom [] .outside ('(' :: '?' :: more) = [] := by
    rw [capturesFrom_cons, closed, capturesFrom_cons_of_ne _ _ (by decide)]
    exact bare
  rw [List.append_assoc, List.singleton_append, captures_append (steady []),
    captures_append (steady _), outside]
  change _ = (captures before ++ (capturesFrom [] .outside ('(' :: '?' :: more)).map _).length + 1
  rw [rest, List.length_append, List.map_nil, List.append_nil]
  rfl

theorem repeating_reads {amount : Repeat} (legible : amount.Legible) (first : Nat) :
    (∃ c rest, amount.text ++ Atom.atomicClose first = c :: rest ∧ c ≠ '<') ∧
      capturesFrom [] .outside (amount.text ++ Atom.atomicClose first) = [] := by
  constructor
  · obtain ⟨c, rest, written, _⟩ := legible.head
    refine ⟨c, rest ++ Atom.atomicClose first, by rw [written]; rfl, ?_⟩
    rintro rfl
    have amount_ := legible.all '<' (by simp [written])
    revert amount_
    decide
  · have flat : Place.isFlat (amount.text ++ [')', ')']) = true := by
      have flat := Conversion.flat_of_legible legible
      simp only [Place.isFlat, List.all_append, Bool.and_eq_true] at flat ⊢
      exact ⟨flat, by decide⟩
    obtain ⟨after, _, bare⟩ := Place.reads_of_flat flat []
    have outside : Place.outside.after (amount.text ++ [')', ')']) = .outside := by
      rw [← Reader.place_start]
      exact congrArg Reader.place after
    have shape : amount.text ++ Atom.atomicClose first =
        (amount.text ++ [')', ')']) ++ render first := by simp [Atom.atomicClose]
    rw [shape]
    exact (captures_render _ outside first).2.trans bare

theorem captures_unit_class {front unit : Text} (first : Nat) {amount : Repeat}
    (legible : amount.Legible) (found : Atom.trailingUnit? (front ++ unit) = some unit)
    (single : holdsGroup unit = false)
    (outside : Place.outside.after (front ++ unit) = .outside)
    (other : Place.outside.after front ≠ .outside) :
    (captures (front ++ (Atom.atomicOpen ++ (renumber first 1 unit ++
      (amount.text ++ Atom.atomicClose first))))).length = (captures (front ++ unit)).length := by
  obtain ⟨front', parts, kind⟩ := Atom.trailingUnit?_sound found
  obtain rfl : front = front' := List.append_cancel_right parts
  have unescaped : (Place.outside.after front).isEscape = false := by
    rcases kind with ⟨body, _, free, _⟩ | ⟨c, rfl, missed, _⟩
    · rw [Place.isEscape_after]
      exact free
    · exact Atom.unescaped_of_single missed
  have inside : Place.outside.after front = .inClass := by
    cases place : Place.outside.after front with
    | outside => exact absurd place other
    | inClass => rfl
    | escape =>
        rw [place] at unescaped
        contradiction
    | classEscape =>
        rw [place] at unescaped
        contradiction
  have closes : Place.inClass.after unit = .outside := by
    rw [Place.after_append, inside] at outside
    exact outside
  have bare := (repeating_reads legible first).2
  rw [← closes] at bare
  -- a unit that leaves the class is no number
  have same : renumber first 1 unit = unit ∧ ∀ c, unit.head? = some c → c = '\\' ∨ unit = [c] := by
    rcases kind with ⟨body, rfl, _, complete⟩ | ⟨c, rfl, _, _, _⟩
    · refine ⟨?_, fun c head => Or.inl (by simpa using head.symm)⟩
      obtain ⟨c, body, rfl⟩ := List.exists_cons_of_ne_nil (Atom.isEscapeBody_ne_nil complete)
      cases body with
      | nil => contradiction
      | cons d rest =>
          change Place.inClass.after (d :: rest) = .outside at closes
          obtain ⟨begun, simple⟩ := Atom.isEscapeBody_spec complete
          have plain : isDigit c = false := by
            rcases begun with ordinary | digits
            · exact isDigit_of_ordinary ordinary
            · rw [Atom.after_digits fun e member => digits e (List.mem_cons_of_mem _ member)]
                at closes
              contradiction
          rw [renumber, renumberFrom_copied first 1 (by decide), renumberFrom,
            if_neg (by simp [plain])]
          exact congrArg (fun text => '\\' :: c :: text)
            (renumberFrom_plain first 1 (by decide : Place.outside ≠ .escape) simple)
    · refine ⟨?_, fun d head => Or.inr (by simpa using head)⟩
      apply renumberFrom_plain first 1 (by decide)
      rintro d member rfl
      rw [← List.mem_singleton.mp member] at closes
      contradiction
  have steady : Steady .inClass unit (amount.text ++ Atom.atomicClose first) := by
    intro before after equality here
    cases before with
    | nil => contradiction
    | cons c before =>
        cases before with
        | nil =>
            rcases same.2 c (by rw [equality]; rfl) with rfl | alone
            · contradiction
            · rw [equality] at alone
              simp at alone
        | cons d rest =>
            rw [holdsGroup, equality] at single
            simp at single
  rw [same.1]
  exact captures_possess_class inside steady bare

theorem captures_unit_mark {front : Text} (first : Nat) {amount : Repeat} (legible : amount.Legible)
    (whole : Whole (front ++ ['?'])) (outside : Place.outside.after front = .outside) :
    (captures (front ++ (Atom.atomicOpen ++ (renumber first 1 ['?'] ++
      (amount.text ++ Atom.atomicClose first))))).length = (captures (front ++ ['?'])).length := by
  obtain ⟨⟨c, rest, head, angle⟩, bare⟩ := repeating_reads legible first
  have same : alters front '?' = false := by
    cases altered : alters front '?' with
    | false => rfl
    | true =>
        obtain ⟨before, rfl, here⟩ := parenthesis_of_alters altered
        exact absurd rfl (whole before ['?'] (by simp) here).1
  have closed : opensCapture ('?' :: (amount.text ++ Atom.atomicClose first)) = false := by
    rw [head]
    simp [opensCapture, angle]
  have nothing : capturesFrom [] .outside
      (Atom.atomicOpen ++ '?' :: (amount.text ++ Atom.atomicClose first)) = [] := by
    change (if opensCapture ('?' :: (amount.text ++ Atom.atomicClose first)) then
        [lookahead] else []) ++
      capturesFrom (Atom.atomicOpen ++ ['?']) .outside (amount.text ++ Atom.atomicClose first) = []
    rw [closed, capturesFrom_eq_map, bare]
    rfl
  have opener : Steady .outside front
      (Atom.atomicOpen ++ '?' :: (amount.text ++ Atom.atomicClose first)) :=
    admits_of_inert (by decide) front _
  change (captures (front ++
    (Atom.atomicOpen ++ '?' :: (amount.text ++ Atom.atomicClose first)))).length = _
  rw [captures_append opener, captures_append (admits_of_alters same []), outside, nothing]
  rfl

theorem captures_unit_opener {before : Text} {c : Char} (first : Nat) {amount : Repeat}
    (legible : amount.Legible) (ends : c = '=' ∨ c = '!')
    (outside : Place.outside.after before = .outside) :
    (captures (before ++ ['(', '?', '<'] ++ (Atom.atomicOpen ++ (renumber first 1 [c] ++
        (amount.text ++ Atom.atomicClose first))))).length =
      (captures (before ++ ['(', '?', '<'] ++ [c])).length + 2 := by
  obtain ⟨⟨d, rest, head, angle⟩, bare⟩ := repeating_reads legible first
  have steady : ∀ more, Steady .outside before ('(' :: more) :=
    fun more => admits_of_inert (by decide) before more
  have same : renumber first 1 [c] = [c] := by
    apply renumberFrom_plain first 1 (by decide)
    rcases ends with rfl | rfl <;> simp
  have old : capturesFrom [] .outside ('(' :: ['?', '<', c]) = [] := by
    rcases ends with rfl | rfl <;> rfl
  have new : (capturesFrom [] .outside ('(' :: '?' :: '<' :: (Atom.atomicOpen ++ c ::
      (amount.text ++ Atom.atomicClose first)))).length = 2 := by
    have read : ∀ text, capturesFrom [] .outside ('(' :: '?' :: '<' :: (Atom.atomicOpen ++ text)) =
        [[]] ++ ((if opensCapture text then [['(', '?', '<'] ++ lookahead] else []) ++
          capturesFrom (['(', '?', '<'] ++ Atom.atomicOpen) .outside text) := fun _ => rfl
    have opens : opensCapture (c :: (amount.text ++ Atom.atomicClose first)) = true := by
      rcases ends with rfl | rfl <;> rfl
    have skipped :
        capturesFrom [] .outside (c :: (amount.text ++ Atom.atomicClose first)) = [] := by
      have next : Place.outside.next c = .outside ∧ c ≠ '(' := by
        rcases ends with rfl | rfl <;> decide
      rw [capturesFrom_cons_of_ne _ _ next.2, next.1, capturesFrom_eq_map, bare]
      rfl
    rw [read, opens, capturesFrom_eq_map, skipped]
    rfl
  rw [same, List.append_assoc, List.append_assoc]
  change (captures (before ++ '(' :: '?' :: '<' :: (Atom.atomicOpen ++ c ::
    (amount.text ++ Atom.atomicClose first)))).length =
      (captures (before ++ '(' :: ['?', '<', c])).length + 2
  rw [captures_append (steady _), captures_append (steady _), outside, old, List.length_append,
    List.length_map, new]
  simp

/-- A unit that is none, repeated: there is no capture more for it, or two. -/
theorem captures_unit_stray {front unit : Text} (first : Nat) {amount : Repeat}
    (legible : amount.Legible) (found : Atom.trailingUnit? (front ++ unit) = some unit)
    (single : holdsGroup unit = false) (whole : Whole (front ++ unit))
    (outside : Place.outside.after (front ++ unit) = .outside)
    (stray : isStray (front ++ unit) unit = true) :
    (captures (front ++ (Atom.atomicOpen ++ (renumber first 1 unit ++
      (amount.text ++ Atom.atomicClose first))))).length ≠
        (captures (front ++ unit)).length + 1 := by
  by_cases here : Place.outside.after front = .outside
  · have size : (front ++ unit).size - unit.size = front.size := by
      rw [Text.size_append]
      omega
    simp only [isStray, size, Text.takeBytes_size_append, here, bne_self_eq_false, Bool.false_or,
      Option.any_eq_true, Bool.or_eq_true, beq_iff_eq] at stray
    obtain ⟨c, head, kind⟩ := stray
    obtain ⟨front', parts, shape⟩ := Atom.trailingUnit?_sound found
    have inert : isInert c = false := by
      rcases kind with rfl | altered
      · rfl
      · obtain ⟨_, _, _, _, ⟨_, rfl⟩ | ⟨_, rfl⟩ | ⟨_, rfl | rfl⟩⟩ :=
        opener_of_alters altered <;> rfl
    obtain rfl : unit = [c] := by
      rcases shape with ⟨body, rfl, _⟩ | ⟨d, rfl, _⟩
      · rw [← Option.some.inj head] at inert
        contradiction
      · rw [Option.some.inj head]
    rcases kind with rfl | altered
    · rw [captures_unit_mark first legible whole here]
      omega
    · obtain ⟨before, opener, rfl, free, kind⟩ := opener_of_alters altered
      rcases kind with ⟨rfl, rfl⟩ | ⟨rfl, rfl⟩ | ⟨rfl, ends⟩
      · exact absurd rfl (whole before ['?'] (by simp) free).1
      · exact absurd rfl (whole before ['?', '<'] (by simp) free).2
      · rw [captures_unit_opener first legible ends free]
        omega
  · rw [captures_unit_class first legible found single outside here]
    omega

end Source

namespace Conversion

namespace State

variable {options : Options} {delimiter : Option Char} {mode : Option Bool} {s next : State}

/-- Every capture of the output has its slot. -/
def Counted (s : State) : Prop := s.groups.size = 1 + (captures s.out).length

theorem Ordered.counted (ordered : s.Ordered mode) : s.Counted := by
  have length := ordered.aligned.length
  rw [List.nil_append] at length
  change s.groups.declared.length + 1 = _
  rw [length, Nat.add_comm]

theorem quantify_of_step (place : s.place = .outside) {q : Quantifier}
    (found : s.next? delimiter = some (.quantifier q)) (ok : s.step options delimiter = .ok next) :
    s.quantify options q = .ok next := by
  rw [step, found] at ok
  exact (quantify_of_quantifier place ok).2

/-- A mark that makes another group of the last one leaves its slot behind. -/
theorem Ordered.miscounts_mark (ordered : s.Ordered mode) (marked : s.marks delimiter = true)
    (ok : s.step options delimiter = .ok next) : ¬ next.Counted := by
  have counted := ordered.counted
  unfold marks at marked
  split at marked
  · rename_i q found
    simp only [Bool.and_eq_true, beq_iff_eq, Bool.not_eq_true'] at marked
    obtain ⟨⟨⟨place, mark⟩, optional⟩, altered⟩ := marked
    have unrecorded : s.atom.filter (·.stop == s.out.size) = none := by
      cases recorded : s.atom.filter (·.stop == s.out.size) with
      | none => rfl
      | some a =>
          obtain ⟨last, stop⟩ := Option.filter_eq_some_iff.mp recorded
          obtain ⟨before, parts, outside⟩ := parenthesis_of_alters altered
          exact absurd outside (((ordered.atom a last).2 (by simpa using stop)).2.shut before parts)
    obtain ⟨more, rendered, flat, angle⟩ : ∃ more, q.render options.ungreedy = '?' :: more ∧
        Place.isFlat more = true ∧ more.head? ≠ some '<' := by
      unfold Quantifier.render
      rw [optional]
      split
      · exact ⟨['?'], rfl, by decide, by decide⟩
      · exact ⟨[], rfl, rfl, by decide⟩
    rw [quantify_plain mark (quantify_of_step place found ok), unrecorded, rendered]
    intro fits
    have fewer := captures_mark altered flat angle
    have same : s.groups.size = 1 + (captures (s.out ++ '?' :: more)).length := fits
    unfold Counted at counted
    omega
  · contradiction

theorem Ordered.miscounts_unit (ordered : s.Ordered mode) (nonempty : s.rest ≠ []) {unit : Text}
    (searched : s.searched? delimiter = some unit) (stray : isStray s.out unit = true)
    (single : holdsGroup unit = false) (ok : s.step options delimiter = .ok next) :
    ¬ next.Counted := by
  have counted := ordered.counted
  unfold searched? at searched
  split at searched
  · rename_i q found
    split at searched
    · rename_i conditions
      simp only [Bool.and_eq_true, beq_iff_eq, Option.isNone_iff_eq_none] at conditions
      obtain ⟨⟨place, mark⟩, unrecorded⟩ := conditions
      have outside := ordered.place nonempty place
      obtain ⟨front, parts, _⟩ := Atom.trailingUnit?_sound searched
      have size : s.out.size - unit.size = front.size := by
        rw [parts, Text.size_append]
        omega
      have whole := ordered.whole
      obtain ⟨atom, quantified, rfl⟩ := quantify_possessive mark (quantify_of_step place found ok)
      simp only [quantified?, mark, ↓reduceIte, Atom.trailing?, unrecorded, Option.filter_none,
        searched, Option.map_some, Option.some.injEq] at quantified
      subst quantified
      obtain ⟨legible, _⟩ := Construct.stands_of_at? found
      have slot : s.groups.clamp s.groups.size = s.groups.size := by
        unfold GroupTable.clamp GroupTable.size
        omega
      have shape : (s.possessed ⟨s.out.size - unit.size, s.out.size, s.groups.size, false⟩ q).out =
          front ++ (Atom.atomicOpen ++ (renumber s.groups.size 1 unit ++
            (q.amount.text ++ Atom.atomicClose s.groups.size))) := by
        change (Atom.makePossessive s.out s.groups
          ⟨s.out.size - unit.size, s.out.size, s.groups.size, false⟩ q.amount.text).source = _
        simp only [Atom.makePossessive, slot, size]
        rw [parts, Text.takeBytes_size_append, Text.dropBytes_size_append]
        simp
      have table : (s.possessed ⟨s.out.size - unit.size, s.out.size, s.groups.size, false⟩
          q).groups.size = s.groups.size + 1 := GroupTable.size_insertSuppressed _ _
      rw [parts] at searched stray whole outside
      have other := captures_unit_stray s.groups.size legible searched single whole outside stray
      intro fits
      unfold Counted at counted fits
      rw [shape, table] at fits
      rw [parts] at counted
      omega
    · contradiction
  · contradiction

theorem Ordered.miscounts (ordered : s.Ordered mode) (nonempty : s.rest ≠ [])
    (misread : s.misreads delimiter = true) (single : s.encloses delimiter = false)
    (ok : s.step options delimiter = .ok next) : ¬ next.Counted := by
  rw [misreads, Bool.or_eq_true, Option.any_eq_true] at misread
  rcases misread with marked | ⟨unit, searched, stray⟩
  · exact ordered.miscounts_mark marked ok
  · rw [encloses, searched] at single
    exact ordered.miscounts_unit nonempty searched stray single ok

end State

variable {options : Options} {delimiter : Option Char}

theorem Trace.counted_iff {s final : State} {states : List State}
    (trace : Trace options delimiter s states final) (finished : final.inClass = false)
    (ready : s.Ready) (single : ∀ state ∈ states, state.encloses delimiter = false)
    (ordered : s.Ordered none) :
    ((∀ state ∈ states, state.Counted) ∧ final.Counted) ↔
      ∀ state ∈ states, state.misreads delimiter = false := by
  induction trace with
  | done s => simp [ordered.counted]
  | step nonempty ok rest ih =>
      rename_i s next final states
      have alone := single s (by simp)
      have move := State.move_of_step ready ((Trace.step nonempty ok rest).closable finished)
        nonempty ok
      cases misread : s.misreads delimiter with
      | true =>
          constructor
          · rintro ⟨counted, last⟩
            have next_ : next.Counted := by
              cases rest with
              | done => exact last
              | step => exact counted next (by simp)
            exact absurd next_ (ordered.miscounts nonempty misread alone ok)
          · intro reads
            rw [reads s (by simp)] at misread
            contradiction
      | false =>
          have later := ih finished move.ready (fun state member => single state (by simp [member]))
            (ordered.move move nonempty misread alone (fun _ never => by contradiction)
              (fun never => by contradiction))
          simp only [List.forall_mem_cons, ordered.counted, misread, true_and]
          exact later

/-- Every capture of the source has its slot, in every state that the conversion goes
through, exactly if it misreads nothing. -/
theorem captures_convert {text : Text} {result : Result}
    (ok : convert options delimiter text = .ok result)
    (single : ∀ s ∈ visited options delimiter text.length (.start text),
      s.encloses delimiter = false) :
    ((∀ s ∈ visited options delimiter text.length (.start text), s.Counted) ∧
        result.groups.size = 1 + (captures result.source).length) ↔
      ∀ s ∈ visited options delimiter text.length (.start text), s.misreads delimiter = false := by
  obtain ⟨final, trace, finished, rfl⟩ := trace_of_convert ok
  exact trace.counted_iff finished (ready_start text) single (State.Ordered.start none text)

theorem captures_convert_groups :
    ∃ result, convert {} none "(a)(?>b)[(]c++".toList = .ok result ∧
      (∀ s ∈ visited {} none "(a)(?>b)[(]c++".toList.length (.start "(a)(?>b)[(]c++".toList),
        s.misreads none = false) ∧
        result.groups.size = 1 + (captures result.source).length := by
  have ok : convert {} none "(a)(?>b)[(]c++".toList =
      .ok ⟨"(a)(?=(b))\\2[(](?=(c+))\\3".toList,
        ⟨[.anonymous, .suppressed, .suppressed]⟩, none⟩ := by
    decide +kernel
  have reads : ∀ s ∈ visited {} none "(a)(?>b)[(]c++".toList.length
      (.start "(a)(?>b)[(]c++".toList), s.misreads none = false := by
    decide +kernel
  exact ⟨_, ok, reads, ((captures_convert ok (by decide +kernel)).mpr reads).2⟩

-- a comment between the parenthesis and the mark
example : (convert {} none "(#c\n?:a)".toList).toOption.map
    (fun result => (result.groups.size, (captures result.source).length)) = some (2, 0) := by
  decide +kernel

end Conversion

end PatternDialect
