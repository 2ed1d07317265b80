import PatternDialect.Proofs.Alignment
import PatternDialect.Proofs.Cuttable

/-! Parts of the output that may be put into an emulation, and the open groups
among them. -/

namespace PatternDialect.Conversion

open Character Source Backreference

/-- The output from an offset on, with the slots of its captures. -/
structure Part (mode : Option Bool) (slots : List Slot) (out : Text) (start first : Nat)
    (front back : Text) : Prop where
  parts : out = front ++ back
  size : front.size = start
  count : (captures front).length + 1 = first
  aligned : Aligned mode slots front back
  head : ∃ c rest, back = c :: rest ∧ c ≠ '?' ∧ Admits front c

namespace Part

variable {mode : Option Bool} {slots : List Slot} {out front back : Text} {start first : Nat}

theorem append (part : Part mode slots out start first front back) {text : Text}
    (more : List Slot) (steady : Steady .outside out text)
    (new : List.Forall₂ (Hides mode front) more
      ((capturesFrom [] (Place.outside.after out) text).map (back ++ ·))) :
    Part mode (slots ++ more) (out ++ text) start first front (back ++ text) := by
  obtain ⟨c, rest, written, other, admits⟩ := part.head
  rw [part.parts] at steady new
  refine ⟨?_, part.size, part.count, part.aligned.append more steady new, ?_⟩
  · rw [part.parts, List.append_assoc]
  · exact ⟨c, rest ++ text, by rw [written]; rfl, other, admits⟩

theorem steady (part : Part mode slots out start first front back) :
    Steady .outside front back := by
  obtain ⟨c, rest, written, _, admits⟩ := part.head
  rw [written]
  exact admits rest

theorem nonempty (part : Part mode slots out start first front back) : back ≠ [] := by
  obtain ⟨c, rest, written, _⟩ := part.head
  simp [written]

theorem head? (part : Part mode slots out start first front back) :
    back.head? ≠ some '?' := by
  obtain ⟨c, rest, written, other, _⟩ := part.head
  simpa [written] using other

theorem lt (part : Part mode slots out start first front back) : start < out.size := by
  have positive := Text.size_pos part.nonempty
  have size := part.size
  rw [part.parts, Text.size_append]
  omega

theorem outside (part : Part mode slots out start first front back)
    (here : Place.outside.after out = .outside) : Place.outside.after back = .outside := by
  rwa [part.parts, Place.after_append, part.aligned.outside] at here

theorem between {start' first' : Nat} {front' back' : Text}
    (part : Part mode slots out start first front back)
    (inner : Part mode slots out start' first' front' back') (before : start < start') :
    ∃ middle, middle ≠ [] ∧ front' = front ++ middle ∧ back = middle ++ back' := by
  have equality : front ++ back = front' ++ back' := by rw [← part.parts, ← inner.parts]
  have size := part.size
  have size' := inner.size
  rcases List.append_eq_append_iff.mp equality with ⟨middle, front_, back_⟩ | ⟨middle, front_, _⟩
  · refine ⟨middle, ?_, front_, back_⟩
    rintro rfl
    rw [List.append_nil] at front_
    subst front_
    omega
  · have longer := congrArg Text.size front_
    rw [Text.size_append] at longer
    omega

end Part

def Shape : FrameKind → Text → Prop
  | .capture _, back => (captures back).head? = some []
  | .atomic _, back => [] ∉ captures back
  | .lookahead false, back => lookahead <+: back ∨ ['(', '?', '(', '?'] <+: back
  | .lookahead true, _ | .plain, _ => True

theorem Shape.append {kind : FrameKind} {back text : Text} (shape : Shape kind back)
    (nonempty : back ≠ []) (steady : Steady .outside back text) : Shape kind (back ++ text) := by
  cases kind with
  | capture slot =>
      simp only [Shape, captures_append steady] at shape ⊢
      rw [List.head?_append, shape]
      rfl
  | atomic slot =>
      simp only [Shape, captures_append steady, List.mem_append, List.mem_map, not_or] at shape ⊢
      refine ⟨shape, ?_⟩
      rintro ⟨before, _, empty⟩
      exact nonempty (List.append_eq_nil_iff.mp empty).1
  | lookahead negative =>
      cases negative with
      | true => trivial
      | false =>
          rcases shape with whole | cut
          · exact Or.inl (whole.trans (List.prefix_append _ _))
          · exact Or.inr (cut.trans (List.prefix_append _ _))
  | plain => trivial

section Openings

variable {mode : Option Bool} {slots : List Slot} {out front back : Text} {start first : Nat}

theorem Part.getElem?_captures (part : Part mode slots out start first front back)
    (opens : (captures back).head? = some []) : (captures out)[first - 1]? = some front := by
  have count := part.count
  have position : first - 1 = (captures front).length := by omega
  rw [part.parts, captures_join part.aligned.outside part.aligned.joined, position,
    List.getElem?_append_right (Nat.le_refl _), Nat.sub_self, List.getElem?_map,
    ← List.head?_eq_getElem?, opens]
  simp

theorem Part.eq_lookahead (part : Part mode slots out start first front back)
    (shape : Shape (.lookahead false) back) {before after : Text}
    (parts : out = before ++ '(' :: after) (size : before.size = start + 3) :
    before = front ++ lookahead := by
  have split : ∀ {opener tail : Text}, Text.size opener = 3 → back = opener ++ tail →
      before = front ++ opener ∧ '(' :: after = tail := by
    intro opener tail three back_
    have total : before.size = (front ++ opener).size := by
      rw [size, Text.size_append, part.size, three]
    have whole : before ++ '(' :: after = (front ++ opener) ++ tail := by
      rw [← parts, part.parts, back_, List.append_assoc]
    have equal : before = front ++ opener := by
      rw [← Text.takeBytes_size_append before ('(' :: after), whole, total,
        Text.takeBytes_size_append]
    rw [equal] at whole
    exact ⟨equal, List.append_cancel_left whole⟩
  rcases shape with ⟨tail, written⟩ | ⟨tail, written⟩
  · exact (split (by decide) written.symm).1
  · have cut : back = ['(', '?', '('] ++ '?' :: tail := written.symm
    have wrong := (split (by decide) cut).2
    simp at wrong

end Openings

theorem Shape.rewrite {kind : FrameKind} {middle back back' : Text}
    (shape : Shape kind (middle ++ back)) (nonempty : middle ≠ [])
    (steady : Steady .outside middle back) (head : back.head? ≠ some '?')
    (opens : ['(', '?'] <+: back') : Shape kind (middle ++ back') := by
  obtain ⟨rest, written⟩ := opens
  have steady' : Steady .outside middle back' := by
    rw [← written]
    exact admits_of_inert (by decide) middle _
  cases kind with
  | capture slot =>
      simp only [Shape, captures_append steady, captures_append steady'] at shape ⊢
      cases found : captures middle with
      | cons before others =>
          rw [found] at shape
          exact shape
      | nil =>
          rw [found, List.nil_append, List.head?_map] at shape
          obtain ⟨before, _, empty⟩ := Option.map_eq_some_iff.mp shape
          exact absurd (List.append_eq_nil_iff.mp empty).1 nonempty
  | atomic slot =>
      simp only [Shape, captures_append steady, captures_append steady', List.mem_append,
        List.mem_map, not_or] at shape ⊢
      refine ⟨shape.1, ?_⟩
      rintro ⟨before, _, empty⟩
      exact nonempty (List.append_eq_nil_iff.mp empty).1
  | lookahead negative =>
      cases negative with
      | true => trivial
      | false =>
          -- what follows the first two characters may be rewritten, and shows that it was
          subst written
          match middle with
          | [] => exact absurd rfl nonempty
          | [c] =>
              rcases shape with ⟨tail, parts⟩ | ⟨tail, parts⟩
              all_goals
                simp only [lookahead, List.cons_append, List.cons.injEq] at parts
                exact absurd (congrArg List.head? parts.2).symm head
          | [c, d] =>
              right
              rcases shape with ⟨tail, parts⟩ | ⟨tail, parts⟩
              all_goals
                simp only [lookahead, List.cons_append, List.cons.injEq] at parts
                rw [← parts.1, ← parts.2.1]
                exact ⟨rest, rfl⟩
          | [c, d, e] =>
              rcases shape with ⟨tail, parts⟩ | ⟨tail, parts⟩
              · simp only [lookahead, List.cons_append, List.cons.injEq] at parts
                rw [← parts.1, ← parts.2.1, ← parts.2.2.1]
                exact Or.inl ⟨_, rfl⟩
              · simp only [List.cons_append, List.cons.injEq] at parts
                exact absurd (congrArg List.head? parts.2.2.2).symm head
          | c :: d :: e :: f :: more =>
              rcases shape with ⟨tail, parts⟩ | ⟨tail, parts⟩
              · simp only [lookahead, List.cons_append, List.cons.injEq] at parts
                rw [← parts.1, ← parts.2.1, ← parts.2.2.1]
                exact Or.inl ⟨_, rfl⟩
              · simp only [List.cons_append, List.cons.injEq] at parts
                rw [← parts.1, ← parts.2.1, ← parts.2.2.1, ← parts.2.2.2.1]
                exact Or.inr ⟨_, rfl⟩
  | plain => trivial

def Situated (mode : Option Bool) (slots : List Slot) (out : Text) (frame : Frame) : Prop :=
  ∃ front back, Part mode slots out frame.start frame.firstGroup front back ∧
    Shape frame.kind back ∧ back.head? = some '('

def Last (mode : Option Bool) (slots : List Slot) (out : Text) (a : Atom) : Prop :=
  ∃ front back, Part mode slots out a.start a.firstGroup front back ∧
    (a.emulated = true → [] ∉ captures back)

variable {mode : Option Bool} {slots : List Slot} {out : Text}

theorem Situated.append {frame : Frame} (situated : Situated mode slots out frame)
    {text : Text} (more : List Slot) (steady : Steady .outside out text)
    (new : ∀ front back, Part mode slots out frame.start frame.firstGroup front back →
      List.Forall₂ (Hides mode front) more
        ((capturesFrom [] (Place.outside.after out) text).map (back ++ ·))) :
    Situated mode (slots ++ more) (out ++ text) frame := by
  obtain ⟨front, back, part, shape, head⟩ := situated
  refine ⟨front, back ++ text, part.append more steady (new front back part), ?_, ?_⟩
  · rw [part.parts] at steady
    exact shape.append part.nonempty (steady.part part.aligned.outside)
  · rw [List.head?_append, head]
    rfl

theorem Situated.extend {frame : Frame} (situated : Situated mode slots out frame)
    {text : Text} (steady : Steady .outside out text)
    (bare : capturesFrom [] (Place.outside.after out) text = []) :
    Situated mode slots (out ++ text) frame := by
  have longer := situated.append [] steady (by
    intro _ _ _
    rw [bare]
    exact List.Forall₂.nil)
  rwa [List.append_nil] at longer

theorem suffix_of_behind {before front between : Text}
    (equality : before ++ lookahead = front ++ between) (behind : front.size ≤ before.size) :
    lookahead <:+ between := by
  rcases List.append_eq_append_iff.mp equality with ⟨middle, front_, between_⟩ |
    ⟨middle, _, between_⟩
  · cases middle with
    | nil =>
        rw [List.nil_append] at between_
        exact between_ ▸ List.suffix_refl _
    | cons c rest =>
        have positive := c.utf8Size_pos
        rw [front_, Text.size_append, Text.size_cons] at behind
        omega
  · rw [between_]
    exact List.suffix_append _ _

theorem Situated.hide {frame : Frame} (situated : Situated mode slots out frame) {position : Nat}
    (found : mode.isSome = true → ∃ before,
      (captures out)[position]? = some (before ++ lookahead) ∧ frame.start ≤ before.size) :
    Situated mode (slots.set position .suppressed) out frame := by
  obtain ⟨front, back, part, shape, head⟩ := situated
  refine ⟨front, back, ⟨part.parts, part.size, part.count, ?_, part.head⟩, shape, head⟩
  apply part.aligned.hide
  intro noCapture known between located
  obtain ⟨before, here, behind⟩ := found (by rw [known]; rfl)
  rw [← part.parts, here, Option.some.injEq] at located
  exact Or.inl (suffix_of_behind located (by rw [part.size]; exact behind))

theorem Situated.exchange {frame : Frame} {c : Char}
    (situated : Situated mode slots (out ++ ['\\']) frame)
    (other : c ≠ '(' ∧ isInert c = true) : Situated mode slots (out ++ [c]) frame := by
  obtain ⟨front, back, part, shape, head⟩ := situated
  obtain ⟨inner, parts, rfl⟩ : ∃ inner, out = front ++ inner ∧ back = inner ++ ['\\'] := by
    cases back using List.reverseRecOn with
    | nil => contradiction
    | append_singleton inner d =>
        have equality := part.parts
        rw [← List.append_assoc] at equality
        obtain ⟨same, last⟩ := List.append_inj' equality rfl
        exact ⟨inner, same, by rw [last]⟩
  obtain ⟨aligned, same⟩ := part.aligned.exchange (by decide) other
  cases inner with
  | nil => contradiction
  | cons d more =>
      refine ⟨front, (d :: more) ++ [c], ⟨?_, part.size, part.count, aligned, ?_⟩, ?_, head⟩
      · rw [parts, List.append_assoc]
      · obtain ⟨e, rest, written, notMark, admits⟩ := part.head
        rw [List.cons_append, List.cons.injEq] at written
        exact ⟨d, more ++ [c], rfl, written.1 ▸ notMark, written.1 ▸ admits⟩
      · cases kind : frame.kind with
        | capture slot =>
            rw [kind] at shape
            simp only [Shape, same] at shape ⊢
            exact shape
        | atomic slot =>
            rw [kind] at shape
            simp only [Shape, same] at shape ⊢
            exact shape
        | plain => trivial
        | lookahead negative =>
            rw [kind] at shape
            have kept : ∀ {p : Text}, '\\' ∉ p → p <+: (d :: more) ++ ['\\'] →
                p <+: (d :: more) ++ [c] := by
              intro p absent begins
              rcases List.prefix_concat_iff.mp begins with rfl | begins
              · exact absurd (by simp) absent
              · exact begins.trans (List.prefix_append _ _)
            cases negative with
            | true => trivial
            | false => exact shape.imp (kept (by decide)) (kept (by decide))

namespace Part

variable {start first : Nat} {front back : Text}

/-- What is known of an output after its last part was rewritten. -/
structure Rewritten (mode : Option Bool) (slots slots' : List Slot) (out out' : Text)
    (start first : Nat) (front back : Text) : Prop where
  part : Part mode slots' out' start first front back
  situated : ∀ frame, frame.start < start → Situated mode slots out frame →
    Situated mode slots' out' frame
  aligned : Aligned mode slots [] out → Aligned mode slots' [] out'

theorem rewrite (part : Part mode slots out start first front back) {back' : Text}
    {slots' : List Slot} (opens : ['(', '?'] <+: back')
    (around : ∀ {front' middle : Text}, front = front' ++ middle →
      Aligned mode slots front' (middle ++ back) →
        Aligned mode slots' front' (middle ++ back')) :
    Rewritten mode slots slots' out (front ++ back') start first front back' := by
  refine ⟨⟨rfl, part.size, part.count, ?_, ?_⟩, ?_, ?_⟩
  · exact around (List.append_nil front).symm part.aligned
  · obtain ⟨rest, written⟩ := opens
    exact ⟨'(', '?' :: rest, written.symm, by decide, admits_of_inert (by decide) front⟩
  · rintro frame before ⟨front', back_, outer, shape, head⟩
    obtain ⟨middle, nonempty, rfl, rfl⟩ := outer.between part before
    have steady := part.steady.part outer.aligned.outside
    obtain ⟨c, rest, written⟩ := List.exists_cons_of_ne_nil nonempty
    refine ⟨front', middle ++ back',
      ⟨by simp, outer.size, outer.count, around rfl outer.aligned, ?_⟩, ?_, ?_⟩
    · obtain ⟨d, more, equality, other, admits⟩ := outer.head
      rw [written, List.cons_append, List.cons.injEq] at equality
      exact ⟨c, _, by rw [written]; rfl, equality.1 ▸ other, equality.1 ▸ admits⟩
    · exact shape.rewrite nonempty steady part.head? opens
    · rw [written] at head ⊢
      exact head
  · intro aligned
    rw [part.parts] at aligned
    exact around rfl aligned

theorem wrap (part : Part mode slots out start first front back)
    (here : Place.outside.after out = .outside) (emulated : [] ∉ captures back) :
    Rewritten mode slots slots out (front ++ (['(', '?', ':'] ++ (back ++ [')']))) start first
      front (['(', '?', ':'] ++ (back ++ [')'])) := by
  apply part.rewrite ⟨_, rfl⟩
  rintro front' middle rfl aligned
  exact aligned.wrap part.aligned part.steady (part.outside here) emulated

theorem possess (part : Part mode slots out start first front back) {amount : Text}
    (here : Place.outside.after out = .outside) (flat : Place.isFlat amount = true)
    (apart : amount.head?.all (!isDigit ·) = true)
    (closing : Steady .outside out (amount ++ [')', ')'])) :
    Rewritten mode slots (slots.insertIdx (first - 1) .suppressed) out
      (front ++ (Atom.atomicOpen ++ (renumber first 1 back ++ (amount ++ Atom.atomicClose first))))
      start first front
      (Atom.atomicOpen ++ (renumber first 1 back ++ (amount ++ Atom.atomicClose first))) := by
  apply part.rewrite ⟨_, rfl⟩
  rintro front' middle rfl aligned
  rw [part.parts] at closing
  exact aligned.possess part.aligned part.count part.steady part.head? part.nonempty
    (part.outside here) flat apart (closing.part part.aligned.outside)

end Part

end PatternDialect.Conversion
