import PatternDialect.Proofs.Rewriting

/-! The source may be cut before the unit that a possessive quantifier finds. -/

namespace PatternDialect

open Character Backreference

namespace Source

theorem Reader.held_suffix {text : Text} (held : (start.after text).digits ≠ []) :
    ∃ front, text = front ++ '\\' :: (start.after text).digits.reverse ∧
      Escape.pending front.reverse = false := by
  induction text using List.reverseRecOn with
  | nil => exact absurd rfl held
  | append_singleton text c ih =>
      have next : start.after (text ++ [c]) = (start.after text).next c := by
        rw [after_append, after_cons, after_nil]
      rw [next] at held ⊢
      unfold Reader.next at held ⊢
      by_cases taken : (start.after text).takes c = true
      · rw [if_pos taken] at held ⊢
        cases digits : (start.after text).digits with
        | nil =>
            simp only [takes, digits, List.isEmpty_nil, Bool.not_true, Bool.false_or,
              Bool.and_eq_true, beq_iff_eq] at taken
            have pending : Escape.pending text.reverse = true := by
              rw [← Place.isEscape_after, ← place_start]
              exact congrArg Place.isEscape taken.2.1
            cases text using List.reverseRecOn with
            | nil => contradiction
            | append_singleton front d =>
                rw [List.reverse_append, List.reverse_singleton, List.singleton_append,
                  Escape.pending_cons, Bool.and_eq_true] at pending
                have slash : d = '\\' := by simpa using pending.1
                exact ⟨front, by simp [slash], by simpa using pending.2⟩
        | cons d more =>
            obtain ⟨front, parts, unescaped⟩ := ih (by simp [digits])
            refine ⟨front, ?_, unescaped⟩
            rw [digits] at parts
            rw [parts]
            simp
      · rw [if_neg taken] at held
        exact absurd rfl held

theorem references_subset {front back : Text} (apart : back.head?.all (!isDigit ·) = true) :
    ∀ n ∈ references front, n ∈ references (front ++ back) := by
  intro n member
  cases back with
  | nil => simpa using member
  | cons c rest =>
      have filled : c :: rest ≠ [] := by simp
      obtain ⟨passed, _⟩ :=
        Reader.reads_apart (Reader.Proper.start.after front) filled (fun _ => apart)
      rw [references, Reader.read_append, Reader.read, passed]
      rw [references, Reader.read] at member
      rcases List.mem_append.mp member with member | member
      · exact List.mem_append_left _ member
      · apply List.mem_append_right
        apply List.mem_append_left
        exact List.mem_append_left _ member

end Source

open Source

namespace Atom

theorem calmFrom_of_plain {text : Text} (plain : ∀ c ∈ text, c ≠ '\\') :
    calmFrom false text = true := by
  induction text with
  | nil => rfl
  | cons c rest ih =>
      rw [calmFrom, beq_eq_false_iff_ne.mpr (plain c (by simp))]
      exact ih fun d member => plain d (by simp [member])

theorem calmFrom_escape {c d : Char} {rest : Text}
    (complete : isEscapeBody (c :: d :: rest) = true) :
    calmFrom false ('\\' :: c :: d :: rest) = true ∨ ∀ e ∈ c :: d :: rest, isDigit e = true := by
  obtain ⟨begun, plain⟩ := isEscapeBody_spec complete
  rcases begun with ordinary | digits
  · left
    have inner := calmFrom_of_plain plain
    simpa [calmFrom, ordinary] using inner
  · exact Or.inr digits

theorem after_digits {text : Text} (digits : ∀ c ∈ text, isDigit c = true) :
    Place.inClass.after text = .inClass := by
  induction text with
  | nil => rfl
  | cons c rest ih =>
      have digit := digits c (by simp)
      have slash := Reader.isDigit_ne_backslash digit
      have bracket : c ≠ ']' := by
        rintro rfl
        revert digit
        decide
      have stays : Place.inClass.next c = .inClass := by simp [Place.next, slash, bracket]
      rw [Place.after_cons, stays]
      exact ih fun d member => digits d (by simp [member])

/-- How far the search for an escape sequence reaches: a reference to a group below
this number is found whole. -/
def searchReach : Nat := Nat.pow 10 15

theorem isDigit_of_single {front : Text} {c : Char}
    (missed : trailingEscape? (front ++ [c]).reverse [] = none)
    (held : (Reader.start.after front).digits ≠ [])
    (reach : ∀ n ∈ references (front ++ [c]), n < searchReach) : isDigit c = false := by
  cases digit : isDigit c with
  | false => rfl
  | true =>
      have taken : (Reader.start.after front).takes c = true := by
        simp [Reader.takes, digit, held]
      have after : Reader.start.after (front ++ [c]) =
          ⟨.outside, c :: (Reader.start.after front).digits⟩ := by
        rw [Reader.after_append, Reader.after_cons, Reader.after_nil, Reader.next, if_pos taken]
      have proper := Reader.Proper.start.after (front ++ [c])
      obtain ⟨before, parts, unescaped⟩ :=
        Reader.held_suffix (by rw [after]; simp)
      rw [after] at parts proper
      obtain ⟨digits, written⟩ : ∃ digits, digits = c :: (Reader.start.after front).digits :=
        ⟨_, rfl⟩
      rw [← written] at parts proper after
      have nonempty : digits.reverse ≠ [] := by simp [written]
      have all : ∀ d ∈ digits.reverse, isDigit d = true := fun d member =>
        proper.digits d (List.mem_reverse.mp member)
      have value : Decimal.value digits.reverse < searchReach := by
        apply reach
        rw [references, Reader.read, after]
        simp [Reader.held, written]
      have few : digits.reverse.length - 1 < 15 := by
        have low := Decimal.le_value nonempty
          (by rw [List.head?_reverse]; exact proper.nonzero) all
        have bound := Nat.lt_of_le_of_lt low value
        exact (Nat.pow_lt_pow_iff_right (by decide)).mp bound
      have short : Text.size ('\\' :: (digits.reverse ++ [])) ≤ searchWidth := by
        have slash : '\\'.utf8Size = 1 := by decide
        rw [List.append_nil, Text.size_cons, Text.size_digits all, slash]
        unfold searchWidth
        omega
      have found := trailingEscape?_isSome unescaped
        (by rw [List.append_nil]; exact isEscapeBody_digits nonempty all) short
      have reversed : (front ++ [c]).reverse = digits ++ '\\' :: before.reverse := by
        rw [parts]
        simp
      rw [← reversed, missed] at found
      contradiction

theorem unescaped_of_single {front : Text} {c : Char}
    (missed : trailingEscape? (front ++ [c]).reverse [] = none) :
    (Place.outside.after front).isEscape = false := by
  cases escape : (Place.outside.after front).isEscape with
  | false => rfl
  | true =>
      rw [Place.isEscape_after] at escape
      cases front using List.reverseRecOn with
      | nil => contradiction
      | append_singleton front d =>
          rw [List.reverse_append, List.reverse_singleton, List.singleton_append,
            Escape.pending_cons, Bool.and_eq_true] at escape
          have slash : d = '\\' := by simpa using escape.1
          have unescaped : Escape.pending front.reverse = false := by simpa using escape.2
          have short : Text.size ('\\' :: ([c].reverse ++ [])) ≤ searchWidth := by
            have one : '\\'.utf8Size = 1 := by decide
            have four := c.utf8Size_le_four
            simp only [List.reverse_singleton, List.append_nil, Text.size_cons, Text.size_nil, one]
            unfold searchWidth
            omega
          have found : (trailingEscape? ([c] ++ '\\' :: front.reverse) []).isSome = true :=
            trailingEscape?_isSome unescaped rfl short
          rw [slash] at missed
          have reversed : (front ++ ['\\'] ++ [c]).reverse = [c] ++ '\\' :: front.reverse := by simp
          rw [reversed] at missed
          rw [missed] at found
          contradiction

/-- The source before a unit, which may be cut off. -/
structure UnitCut (front unit : Text) (first : Nat) : Prop extends Severed front unit first where
  unescaped : (Place.outside.after front).isEscape = false
  plain : Place.outside.after front = .outside ∨ calmFrom false unit = true

theorem unitCut_of_trailingUnit? {source unit : Text} {first : Nat}
    (found : trailingUnit? source = some unit)
    (outside : Place.outside.after source = .outside)
    (below : ∀ n ∈ references source, n < first) (reach : first ≤ searchReach) :
    ∃ front, source = front ++ unit ∧ UnitCut front unit first := by
  obtain ⟨front, parts, kind⟩ := trailingUnit?_sound found
  refine ⟨front, parts, ?_⟩
  rw [parts] at outside below
  -- everything follows from where the reader stands before the unit
  suffices cut : (Place.outside.after front).isEscape = false ∧
      (Place.outside.after front = .outside ∨ calmFrom false unit = true) ∧
        (Reader.start.after front).Fits unit ∧ unit ≠ [] by
    obtain ⟨unescaped, plain, fits, nonempty⟩ := cut
    refine ⟨⟨fits, nonempty, ?_⟩, unescaped, plain⟩
    intro n member
    apply below
    rw [references_append fits nonempty]
    exact List.mem_append_left _ member
  have place := Reader.place_start front
  rw [Place.after_append] at outside
  rcases kind with ⟨body, rfl, pending, complete⟩ | ⟨c, rfl, missed, _, _⟩
  · have unescaped : (Place.outside.after front).isEscape = false := by
      rw [Place.isEscape_after, pending]
    refine ⟨unescaped, ?_⟩
    cases stands : Place.outside.after front with
    | outside =>
        refine ⟨Or.inl rfl, ?_, by simp⟩
        rw [stands] at place
        simp only [Reader.Fits, place]
        exact fun _ => rfl
    | escape => exact absurd unescaped (by rw [stands]; decide)
    | classEscape => exact absurd unescaped (by rw [stands]; decide)
    | inClass =>
        rw [stands] at outside place
        obtain ⟨d, body, rfl⟩ := List.exists_cons_of_ne_nil (isEscapeBody_ne_nil complete)
        cases body with
        | nil => exact absurd outside (by simp [Place.next])
        | cons e rest =>
            rcases calmFrom_escape complete with calm | digits
            · have merged := calmFrom_merges calm outside
              refine ⟨Or.inr calm, ?_, by simp⟩
              simpa [Reader.Fits, place] using merged
            · have stays : Place.inClass.after (e :: rest) = .inClass :=
                after_digits fun f member => digits f (by simp [List.mem_cons.mp member])
              have same : Place.inClass.after ('\\' :: d :: e :: rest) =
                  Place.inClass.after (e :: rest) := rfl
              rw [same, stays] at outside
              contradiction
  · have unescaped := unescaped_of_single (parts ▸ missed)
    refine ⟨unescaped, ?_⟩
    cases stands : Place.outside.after front with
    | outside =>
        refine ⟨Or.inl rfl, ?_, by simp⟩
        rw [stands] at place
        simp only [Reader.Fits, place]
        intro held
        have other := isDigit_of_single (parts ▸ missed) held
          (fun n member => Nat.lt_of_lt_of_le (below n member) reach)
        simp [other]
    | escape => exact absurd unescaped (by rw [stands]; decide)
    | classEscape => exact absurd unescaped (by rw [stands]; decide)
    | inClass =>
        rw [stands] at outside place
        have bracket : c = ']' := by
          by_contra other
          by_cases slash : c = '\\'
          · simp [Place.next, slash] at outside
          · simp [Place.next, slash, other] at outside
        subst bracket
        refine ⟨Or.inr rfl, ?_, by simp⟩
        simp only [Reader.Fits, place]
        rfl

/-- An anchor keeps clear of the unit, or else comes to stand before it. -/
theorem UnitCut.anchored {front unit : Text} {first : Nat} (cut : UnitCut front unit first)
    (complete : unit.length = 1 ∨ ∃ body, unit = '\\' :: body ∧ isEscapeBody body = true)
    (outside : Place.outside.after (front ++ unit) = .outside) {offset lower : Nat}
    (anchored : Anchored (front ++ unit) offset offset lower) :
    Anchored (front ++ unit) (min front.size offset) offset lower := by
  obtain ⟨base, zone, rest, seam, low, high, inside⟩ := anchored
  by_cases clear : base.size ≤ front.size
  · exact ⟨base, zone, rest, seam, by omega, high, inside⟩
  · have nonempty : zone ++ rest ≠ [] := by
      intro empty
      have first := seam.apart
      rw [empty] at first
      contradiction
    obtain ⟨part, longer, unitParts⟩ : ∃ part, base = front ++ part ∧
        unit = part ++ (zone ++ rest) := by
      rcases List.append_eq_append_iff.mp seam.parts with ⟨part, whole, tail⟩ | ⟨part, whole, tail⟩
      · exact ⟨part, whole, tail⟩
      · rw [whole, Text.size_append] at clear
        omega
    cases part with
    | nil =>
        rw [longer] at clear
        simp at clear
    | cons c part =>
        obtain ⟨body, written, body_⟩ : ∃ body, unit = '\\' :: body ∧ isEscapeBody body = true := by
          rcases complete with one | escape
          · rw [unitParts] at one
            have filled := List.length_pos_iff.mpr nonempty
            simp only [List.length_append, List.length_cons] at one filled
            omega
          · exact escape
        rw [written, List.cons_append, List.cons.injEq] at unitParts
        obtain ⟨rfl, split⟩ := unitParts
        cases part with
        | nil =>
            have open_ := seam.unescaped
            rw [longer, Place.after_append] at open_
            have step := Place.isEscape_next (Place.outside.after front) '\\'
            rw [cut.unescaped] at step
            exact absurd (step.symm.trans open_) (by decide)
        | cons d part =>
            cases remainder : zone ++ rest with
            | nil => exact absurd remainder nonempty
            | cons e tail =>
                have shape : ∃ g more, body = d :: g :: more ∧ e ∈ g :: more := by
                  rw [split, remainder]
                  cases part with
                  | nil => exact ⟨e, tail, rfl, by simp⟩
                  | cons g part => exact ⟨g, part ++ e :: tail, rfl, by simp⟩
                obtain ⟨g, more, shaped, member⟩ := shape
                rw [shaped] at body_
                rcases calmFrom_escape body_ with calm | digits
                · refine ⟨front, unit, [], ?_, by omega, by simp at inside ⊢; omega, inside⟩
                  refine ⟨by simp, ?_, cut.unescaped, outside, ?_, ?_⟩
                  · rw [written, shaped]
                    exact calm
                  · rw [written]
                    rfl
                  · intro n known
                    apply seam.below n
                    rw [longer]
                    exact references_subset rfl n known
                · have first := seam.apart
                  rw [remainder] at first
                  have digit := digits e (by simp only [List.mem_cons] at member ⊢; tauto)
                  simp [digit] at first

theorem UnitCut.anchored_opened {front unit : Text} {first : Nat} (cut : UnitCut front unit first)
    (outside : Place.outside.after (front ++ unit) = .outside) {edit : Text → Text}
    (sparing : Sparing edit) {w : Text} (filled : w ≠ [])
    (ordinary : ∀ c ∈ w, isOrdinary c = true) (closing : Text) :
    Anchored (front ++ (w ++ (edit unit ++ closing))) front.size front.size first := by
  have wide := Text.size_pos filled
  have head : w.head?.any (!isDigit ·) = true := by
    cases w with
    | nil => exact absurd rfl filled
    | cons c tail => simp [isDigit_of_ordinary (ordinary c (by simp))]
  have inside : front.size < (front ++ (w ++ (edit unit ++ closing))).size := by
    simp only [Text.size_append]
    omega
  rcases cut.plain with stands | calm
  · refine ⟨front, [], w ++ (edit unit ++ closing), ?_, by omega, by simp, inside⟩
    exact ⟨by simp, rfl, cut.unescaped, by simpa using stands, head?_any_append head _, cut.below⟩
  · obtain ⟨changed, edited⟩ := sparing unit [] calm
    rw [List.append_nil] at edited
    rw [edited] at inside ⊢
    have place : Reader.Fits ⟨Place.outside.after front, []⟩ unit := by
      rw [← Reader.place_start]
      exact cut.fits.fresh
    refine ⟨front, w ++ unit, changed ++ closing, ?_, by omega, by simp, inside⟩
    refine ⟨by simp, calmFrom_ordinary ordinary calm, cut.unescaped, ?_, ?_, cut.below⟩
    · rw [Place.after_append, place.after_insert cut.nonempty filled ordinary,
        ← Place.after_append]
      exact outside
    · rw [List.append_assoc]
      exact head?_any_append head _

end Atom

end PatternDialect
