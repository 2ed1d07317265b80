import PatternDialect.Proofs.Moves
import PatternDialect.Proofs.Parts
import PatternDialect.Proofs.Units

/-! Quantifiers and the captures: wrapping or repeating the last atom keeps every
slot at its capture, while the atom is one of the output. -/

namespace PatternDialect

open Character

namespace Source

/-- Whether a character behind a text changes what its last group is. -/
def alters (text : Text) (c : Char) : Bool :=
  match text.reverse with
  | '(' :: before => Place.outside.after before.reverse == .outside && c == '?'
  | '?' :: '(' :: before => Place.outside.after before.reverse == .outside && c == '<'
  | '<' :: '?' :: '(' :: before =>
      Place.outside.after before.reverse == .outside && (c == '=' || c == '!')
  | _ => false

theorem admits_of_alters {text : Text} {c : Char} (same : alters text c = false) :
    Admits text c := by
  intro rest before after equality outside
  subst equality
  by_cases empty : after = []
  · subst empty
    simp only [alters, List.reverse_append, List.reverse_cons, List.reverse_nil, List.nil_append,
      List.singleton_append, List.reverse_reverse, outside, BEq.rfl, Bool.true_and,
      beq_eq_false_iff_ne] at same
    exact opensCapture_of_head (by simpa using same)
  · by_cases mark : after = ['?']
    · subst mark
      simp [alters, outside] at same
      simp [opensCapture, same]
    · by_cases angle : after = ['?', '<']
      · subst angle
        simp [alters, outside] at same
        simp [opensCapture, same]
      · exact opensCapture_append empty mark angle (c :: rest)

theorem shut_of_alters {text : Text} (same : alters text '?' = false) : Shut text := by
  rintro before rfl outside
  simp [alters, outside] at same

/-- Whether a unit found at the end of a source is none: it starts in a class, it is
a mark, or it ends an opener. -/
def isStray (source unit : Text) : Bool :=
  let front := source.takeBytes (source.size - unit.size)
  Place.outside.after front != .outside || unit.head?.any fun c => c == '?' || alters front c

/-- Whether a unit holds a group. -/
def holdsGroup (unit : Text) : Bool := (unit.drop 2).contains '('

end Source

namespace Conversion

open Source Backreference

variable {mode : Option Bool} {slots : List Slot} {out : Text} {frames : List Frame} {a : Atom}

/-- An output that ends outside classes, with its slots and its open groups. -/
structure Settled (mode : Option Bool) (slots : List Slot) (frames : List Frame) (out : Text) :
    Prop where
  outside : Place.outside.after out = .outside
  whole : Whole out
  aligned : Aligned mode slots [] out
  situated : ∀ frame ∈ frames, Situated mode slots out frame

/-- The atom at the end of an output, behind all groups that are open. -/
structure Closing (mode : Option Bool) (slots : List Slot) (frames : List Frame) (out : Text)
    (a : Atom) : Prop where
  shut : Shut out
  behind : ∀ frame ∈ frames, frame.start < a.start
  last : Last mode slots out a

theorem Settled.extend (settled : Settled mode slots frames out) {text : Text}
    (nonempty : text ≠ []) (flat : Place.isFlat text = true)
    (head : Shut out ∨ text.head? ≠ some '?') : Settled mode slots frames (out ++ text) := by
  obtain ⟨after, _, bare⟩ := Place.reads_of_flat flat []
  have steady : Steady .outside out text :=
    settled.whole.steady (head.imp id opensCapture_of_head)
  rw [← settled.outside] at bare
  refine ⟨?_, ?_, settled.aligned.extend steady bare, fun frame member =>
    (settled.situated frame member).extend steady bare⟩
  · rw [Place.after_append, settled.outside, ← Reader.place_start]
    exact congrArg Reader.place after
  · apply (whole_append settled.whole nonempty (fun _ => head) _).1
    intro before behind equality
    have member : '(' ∈ text := by simp [equality]
    simp only [Place.isFlat, List.all_eq_true, Bool.and_eq_true, bne_iff_ne] at flat
    exact absurd rfl (flat '(' member).2

theorem Settled.prepared (settled : Settled mode slots frames out)
    (closing : Closing mode slots frames out a) :
    Settled mode slots frames (a.prepared out).1 ∧
      Closing mode slots frames (a.prepared out).1 (a.prepared out).2 ∧
        out.size ≤ (a.prepared out).1.size ∧ (a.prepared out).2.firstGroup = a.firstGroup := by
  unfold Atom.prepared
  cases emulated : a.emulated with
  | false => exact ⟨settled, closing, Nat.le_refl _, rfl⟩
  | true =>
      obtain ⟨front, back, part, bare⟩ := closing.last
      have wrapped := part.wrap settled.outside (bare emulated)
      have shape : (a.wrap out).1 = front ++ (['(', '?', ':'] ++ (back ++ [')'])) := by
        simp only [Atom.wrap, ← part.size]
        rw [part.parts, Text.takeBytes_size_append, Text.dropBytes_size_append]
        simp
      have ends : front ++ (['(', '?', ':'] ++ (back ++ [')'])) =
          (front ++ (['(', '?', ':'] ++ back)) ++ [')'] := by simp
      have place : Place.outside.after ((a.wrap out).1) = .outside := by
        rw [shape, Place.after_append, part.aligned.outside, Place.after_append]
        change Place.outside.after (back ++ [')']) = .outside
        rw [Place.after_append, part.outside settled.outside]
        rfl
      rw [if_pos rfl]
      refine ⟨⟨place, ?_, ?_, ?_⟩, ⟨?_, closing.behind, ?_⟩, ?_, rfl⟩
      · rw [shape, ends]
        exact whole_of_last (by decide) (by decide)
      · rw [shape]
        exact wrapped.aligned settled.aligned
      · intro frame member
        rw [shape]
        exact wrapped.situated frame (closing.behind frame member)
          (settled.situated frame member)
      · rw [shape, ends]
        exact shut_of_last (by decide)
      · rw [shape]
        exact ⟨front, _, wrapped.part, fun never => absurd never Bool.false_ne_true⟩
      · rw [shape, part.parts]
        simp only [Text.size_append]
        omega

theorem flat_of_legible {amount : Repeat} (legible : amount.Legible) :
    Place.isFlat amount.text = true := by
  simp only [Place.isFlat, List.all_eq_true, Bool.and_eq_true, bne_iff_ne]
  intro c member
  have ne := Repeat.ne_of_isAmount (legible.all c member)
  exact ⟨⟨ne.1, ne.2.1⟩, ne.2.2.2⟩

theorem ends_in_digit (front : Text) (slot : Nat) :
    ∃ text d, front ++ render slot = text ++ [d] ∧ isDigit d = true := by
  have nonempty := Decimal.write_ne_nil slot
  refine ⟨front ++ '\\' :: (Decimal.write slot).dropLast, (Decimal.write slot).getLast nonempty,
    ?_, Decimal.isDigit_of_mem_write (List.getLast_mem nonempty)⟩
  rw [List.append_assoc, List.cons_append, List.dropLast_append_getLast]
  rfl

theorem Settled.possess (settled : Settled mode slots frames out)
    (closing : Closing mode slots frames out a) {amount : Repeat} (legible : amount.Legible)
    {groups : GroupTable} (table : groups.declared = slots) :
    Settled mode (groups.insertSuppressed a.firstGroup).declared frames
        (Atom.makePossessive out groups a amount.text).source ∧
      Closing mode (groups.insertSuppressed a.firstGroup).declared frames
        (Atom.makePossessive out groups a amount.text).source
        (Atom.makePossessive out groups a amount.text).atom := by
  obtain ⟨front, back, part, bare⟩ := closing.last
  obtain ⟨c, rest, written, noDigit⟩ := legible.head
  have flat := flat_of_legible legible
  have apart : amount.text.head?.all (!isDigit ·) = true := by simp [written, noDigit]
  have steady : Steady .outside out (amount.text ++ [')', ')']) :=
    settled.whole.steady (Or.inl closing.shut)
  have slot : groups.clamp a.firstGroup = a.firstGroup := by
    have known := part.aligned.known
    have count := part.count
    rw [← table] at known
    unfold GroupTable.clamp GroupTable.size
    omega
  have shape : (Atom.makePossessive out groups a amount.text).source =
      front ++ (Atom.atomicOpen ++
        (renumber a.firstGroup 1 back ++ (amount.text ++ Atom.atomicClose a.firstGroup))) := by
    simp only [Atom.makePossessive, slot, ← part.size]
    rw [part.parts, Text.takeBytes_size_append, Text.dropBytes_size_append]
    simp
  have inserted : (groups.insertSuppressed a.firstGroup).declared =
      slots.insertIdx (a.firstGroup - 1) .suppressed := by
    simp only [GroupTable.insertSuppressed, slot, table]
  have repeated := part.possess settled.outside flat apart steady
  have place_ := captures_possess a.firstGroup
    (by rw [List.head?_append_of_ne_nil _ part.nonempty]; exact part.head?)
      (part.outside settled.outside) flat apart
    (by rw [part.parts] at steady; exact steady.part part.aligned.outside)
  obtain ⟨text, d, ends, digit⟩ := ends_in_digit (front ++ (Atom.atomicOpen ++
    (renumber a.firstGroup 1 back ++ (amount.text ++ [')', ')'])))) a.firstGroup
  have last : (Atom.makePossessive out groups a amount.text).source = text ++ [d] := by
    rw [shape, ← ends]
    simp [Atom.atomicClose]
  have other : ∀ {e : Char}, isDigit e = false → d ≠ e := by
    rintro e plain rfl
    rw [digit] at plain
    contradiction
  obtain ⟨back', whole⟩ : ∃ back', back' = Atom.atomicOpen ++
    (renumber a.firstGroup 1 back ++ (amount.text ++ Atom.atomicClose a.firstGroup)) := ⟨_, rfl⟩
  rw [← whole] at shape repeated place_
  rw [inserted]
  refine ⟨⟨?_, ?_, ?_, ?_⟩, ⟨?_, closing.behind, front, back', ?_, ?_⟩⟩
  · rw [shape, Place.after_append, part.aligned.outside]
    exact place_.1
  · rw [last]
    exact whole_of_last (other (by decide)) (other (by decide))
  · rw [shape]
    exact repeated.aligned settled.aligned
  · intro frame member
    rw [shape]
    exact repeated.situated frame (closing.behind frame member) (settled.situated frame member)
  · rw [last]
    exact shut_of_last (other (by decide))
  · have same : (Atom.makePossessive out groups a amount.text).atom.firstGroup =
        a.firstGroup := slot
    rw [shape, same]
    exact repeated.part
  · intro _ member
    rw [place_.2, List.mem_append, List.mem_singleton, List.mem_map] at member
    rcases member with empty | ⟨before, _, empty⟩
    · exact absurd empty (by decide)
    · exact absurd (List.append_eq_nil_iff.mp empty).1 (by decide)

theorem unit_closed {unit : Text} (kind : (∃ d more, unit = '\\' :: d :: more) ∨
    ∃ c, unit = [c] ∧ c ≠ '(') (closed : '(' ∉ unit.drop 2) {middle after : Text}
    (parts : unit = middle ++ '(' :: after) : Place.outside.after middle ≠ .outside := by
  match middle with
  | [] =>
      rcases kind with ⟨d, more, written⟩ | ⟨c, written, other⟩
      · rw [written, List.nil_append, List.cons.injEq] at parts
        exact absurd parts.1 (by decide)
      · rw [written, List.nil_append, List.cons.injEq] at parts
        exact absurd parts.1 other
  | [e] =>
      rcases kind with ⟨d, more, written⟩ | ⟨c, written, other⟩
      · rw [written, List.cons_append, List.cons.injEq] at parts
        rw [← parts.1]
        decide
      · simp [written] at parts
  | e :: f :: rest =>
      rw [parts] at closed
      simp at closed

theorem Settled.unit (settled : Settled mode slots frames out) {unit : Text}
    (found : Atom.trailingUnit? out = some unit) (proper : isStray out unit = false)
    (single : holdsGroup unit = false) :
    Closing mode slots frames out ⟨out.size - unit.size, out.size, slots.length + 1, false⟩ := by
  obtain ⟨front, parts, kind⟩ := Atom.trailingUnit?_sound found
  have size : out.size - unit.size = front.size := by
    rw [parts, Text.size_append]
    omega
  have before : out.takeBytes (out.size - unit.size) = front := by
    rw [size, parts, Text.takeBytes_size_append]
  simp only [isStray, before, Bool.or_eq_false_iff, bne_eq_false_iff_eq] at proper
  obtain ⟨outside, head⟩ := proper
  have closed : '(' ∉ unit.drop 2 := by simpa [holdsGroup] using single
  have kind' : (∃ d more, unit = '\\' :: d :: more) ∨ ∃ c, unit = [c] ∧ c ≠ '(' := by
    rcases kind with ⟨body, written, _, complete⟩ | ⟨c, written, _, other, _⟩
    · obtain ⟨d, more, rfl⟩ := List.exists_cons_of_ne_nil (Atom.isEscapeBody_ne_nil complete)
      exact Or.inl ⟨d, more, written⟩
    · exact Or.inr ⟨c, written, other⟩
  obtain ⟨c, rest, written⟩ : ∃ c rest, unit = c :: rest := by
    rcases kind' with ⟨d, more, written⟩ | ⟨c, written, _⟩
    · exact ⟨_, _, written⟩
    · exact ⟨_, _, written⟩
  rw [written] at head
  simp only [List.head?_cons, Option.any_some, Bool.or_eq_false_iff, beq_eq_false_iff_ne] at head
  have admits := admits_of_alters head.2
  have bare : captures unit = [] := by
    apply List.eq_nil_iff_forall_not_mem.mpr
    intro found member
    obtain ⟨after, inside, here⟩ := parts_of_capture member
    exact unit_closed kind' closed inside here
  have total : (captures front).length = slots.length := by
    have length := settled.aligned.length
    rw [List.nil_append, parts, captures_join outside (Or.inr ⟨c, rest, written, admits⟩), bare]
      at length
    simpa using length.symm
  -- so the groups of the output are opened before the unit
  have early : ∀ before after, out = before ++ '(' :: after →
      Place.outside.after before = .outside → before.size < front.size := by
    intro before after equality here
    rw [parts] at equality
    rcases List.append_eq_append_iff.mp equality with ⟨middle, rfl, inside⟩ |
      ⟨middle, front_, inside⟩
    · rw [Place.after_append, outside] at here
      exact absurd here (unit_closed kind' closed inside)
    · cases middle with
      | nil =>
          have whole : unit = [] ++ '(' :: after := inside.symm
          exact absurd rfl (unit_closed kind' closed whole)
      | cons d more =>
          have positive := d.utf8Size_pos
          rw [front_, Text.size_append, Text.size_cons]
          omega
  refine ⟨?_, ?_, front, unit, ⟨parts, size.symm, by rw [total], ?_, ?_⟩, by simp⟩
  · intro before equality here
    have low := early before [] equality here
    have sizes := congrArg Text.size (parts.symm.trans equality)
    have positive : 0 < unit.size := Text.size_pos (by simp [written])
    have one : '('.utf8Size = 1 := by decide
    simp only [Text.size_append, Text.size_cons, Text.size_nil, one] at sizes
    omega
  · intro frame member
    obtain ⟨front', back', part, _, opens⟩ := settled.situated frame member
    obtain ⟨more, begins⟩ : ∃ more, back' = '(' :: more := by
      cases back' with
      | nil => contradiction
      | cons d more => exact ⟨more, by simpa using opens⟩
    change frame.start < out.size - unit.size
    rw [size, ← part.size]
    apply early front' more _ part.aligned.outside
    rw [← begins]
    exact part.parts
  · refine ⟨outside, Or.inr ⟨c, rest, written, admits⟩, Nat.le_of_eq total, ?_⟩
    rw [bare, total, List.drop_length]
    exact List.Forall₂.nil
  · exact ⟨c, rest, written, head.1, admits⟩

end Conversion

end PatternDialect
