import Mathlib.Data.List.Forall2
import PatternDialect.Atom
import PatternDialect.Proofs.Captures
import PatternDialect.Proofs.Groups

/-! The slots of a table against the captures of a source.

Every slot has its capture, in the same order, and a slot that is hidden has the
capture of an emulation.  What is known of the whole source is known of every part
that may still be put into an emulation. -/

namespace PatternDialect

open Character Source Backreference

namespace Source

def lookahead : Text := ['(', '?', '=']

/-- What stands before the capture of an emulation: the lookahead, and where groups
do not capture, possibly the capture of one more emulation. -/
def Emulates (noCapture : Bool) (before : Text) : Prop :=
  lookahead <:+ before ∨ noCapture = true ∧ Atom.atomicOpen <:+ before

theorem Emulates.append {noCapture : Bool} {before : Text} (emulates : Emulates noCapture before)
    (more : Text) : Emulates noCapture (more ++ before) := by
  rcases emulates with suffix | ⟨on, suffix⟩
  · exact Or.inl (suffix.trans (List.suffix_append more before))
  · exact Or.inr ⟨on, suffix.trans (List.suffix_append more before)⟩

theorem Emulates.renumber {noCapture : Bool} {before : Text} (emulates : Emulates noCapture before)
    (first amount : Nat) : Emulates noCapture (renumber first amount before) := by
  have kept : ∀ {w : Text}, (∀ c ∈ w, c ≠ '\\') → w.head?.all (!isDigit ·) = true →
      w <:+ before → w <:+ Backreference.renumber first amount before := by
    rintro w plain head ⟨text, rfl⟩
    rw [renumber_append first amount text plain head]
    exact List.suffix_append _ _
  rcases emulates with suffix | ⟨on, suffix⟩
  · exact Or.inl (kept (by simp [lookahead]) rfl suffix)
  · exact Or.inr ⟨on, kept (by simp [Atom.atomicOpen]) rfl suffix⟩

theorem parts_of_capture {source before : Text} (member : before ∈ captures source) :
    ∃ after, source = before ++ '(' :: after ∧ Place.outside.after before = .outside := by
  have general : ∀ text front : Text,
      before ∈ capturesFrom front (Place.outside.after front) text →
        ∃ after, front ++ text = before ++ '(' :: after ∧
          Place.outside.after before = .outside := by
    intro text
    induction text with
    | nil =>
        intro front member
        contradiction
    | cons c rest ih =>
        intro front member
        rw [capturesFrom_cons] at member
        rcases List.mem_append.mp member with here | later
        · split at here
          · rename_i opening
            simp only [Bool.and_eq_true, beq_iff_eq] at opening
            rw [List.mem_singleton.mp here, opening.1.2]
            exact ⟨rest, rfl, opening.1.1⟩
          · contradiction
        · have place : (Place.outside.after front).next c = Place.outside.after (front ++ [c]) := by
            rw [Place.after_append]
            rfl
          rw [place] at later
          obtain ⟨after, parts, outside⟩ := ih (front ++ [c]) later
          exact ⟨after, by rw [← parts]; simp, outside⟩
  exact general source [] member

/-- A hidden slot is that of an emulation, from what stands between the front of a
part and the capture.  In no mode nothing is asked of it; the mode else tells
whether groups do not capture. -/
def Hides (mode : Option Bool) (front : Text) (slot : Slot) (before : Text) : Prop :=
  ∀ noCapture, mode = some noCapture → slot = .suppressed →
    Emulates noCapture before ∨ before = [] ∧ noCapture = true ∧ lookahead <:+ front

/-- The slots from the given front on are those of the captures behind it. -/
structure Aligned (mode : Option Bool) (slots : List Slot) (front back : Text) : Prop where
  outside : Place.outside.after front = .outside
  joined : front = [] ∨ ∃ c rest, back = c :: rest ∧ Admits front c
  known : (captures front).length ≤ slots.length
  hides : List.Forall₂ (Hides mode front) (slots.drop (captures front).length)
    (captures back)

theorem Steady.part {front back more : Text} (outside : Place.outside.after front = .outside)
    (steady : Steady .outside (front ++ back) more) : Steady .outside back more := by
  intro before after equality here
  apply steady (front ++ before) after
  · rw [equality, List.append_assoc]
  · rw [Place.after_append, outside, here]

theorem steady_nil (text : Text) : Steady .outside text [] := by
  intro before after _ _
  rw [List.append_nil]

theorem captures_join {front back : Text} (outside : Place.outside.after front = .outside)
    (joined : front = [] ∨ ∃ c rest, back = c :: rest ∧ Admits front c) :
    captures (front ++ back) = captures front ++ (captures back).map (front ++ ·) := by
  have steady : Steady .outside front back := by
    rcases joined with rfl | ⟨c, rest, rfl, admits⟩
    · intro before after equality
      simp at equality
    · exact admits rest
  rw [captures_append steady, outside]
  rfl

theorem captures_wrap (back : Text) (outside : Place.outside.after back = .outside) :
    captures (['(', '?', ':'] ++ (back ++ [')'])) = (captures back).map (['(', '?', ':'] ++ ·) := by
  have steady : Steady .outside back [')'] := admits_of_inert (by decide) back []
  have inner : captures (back ++ [')']) = captures back := by
    rw [captures_append steady, outside]
    exact List.append_nil _
  change capturesFrom ['(', '?', ':'] .outside (back ++ [')']) = _
  rw [capturesFrom_eq_map]
  exact congrArg _ inner

theorem render_reads (slot : Nat) :
    Place.outside.after (render slot) = .outside ∧ capturesFrom [] .outside (render slot) = [] :=
  reads_of_digits (fun _ member => Decimal.isDigit_of_mem_write member) ['\\']
    (Or.inr ⟨rfl, Decimal.write_ne_nil slot⟩)

theorem captures_render (front : Text)
    (outside : Place.outside.after front = .outside) (slot : Nat) :
    Place.outside.after (front ++ render slot) = .outside ∧
      captures (front ++ render slot) = captures front := by
  have steady : Steady .outside front (render slot) := admits_of_inert (by decide) front _
  obtain ⟨after, nothing⟩ := render_reads slot
  rw [Place.after_append, captures_append steady, outside, nothing]
  exact ⟨after, List.append_nil _⟩

theorem captures_atomicOpen {text : Text} (opens : opensCapture text = true) :
    captures (Atom.atomicOpen ++ text) =
      [lookahead] ++ (captures text).map (Atom.atomicOpen ++ ·) := by
  have first : captures (Atom.atomicOpen ++ text) =
      (if opensCapture text then [lookahead] else []) ++
        capturesFrom Atom.atomicOpen .outside text := rfl
  rw [first, if_pos opens, capturesFrom_eq_map]
  rfl

theorem captures_possess {back amount : Text} (first : Nat)
    (head : (back ++ amount).head? ≠ some '?') (outside : Place.outside.after back = .outside)
    (flat : Place.isFlat amount = true) (apart : amount.head?.all (!isDigit ·) = true)
    (steady : Steady .outside back (amount ++ [')', ')'])) :
    Place.outside.after (Atom.atomicOpen ++
        (renumber first 1 back ++ (amount ++ Atom.atomicClose first))) = .outside ∧
      captures (Atom.atomicOpen ++
          (renumber first 1 back ++ (amount ++ Atom.atomicClose first))) =
        [lookahead] ++ (captures back).map fun before =>
          Atom.atomicOpen ++ renumber first 1 before := by
  obtain ⟨closing, written⟩ : ∃ closing, closing = amount ++ [')', ')'] := ⟨_, rfl⟩
  have closingFlat : Place.isFlat closing = true := by
    rw [written]
    simp only [Place.isFlat, List.all_append, Bool.and_eq_true] at flat ⊢
    exact ⟨flat, by decide⟩
  have plain : ∀ c ∈ closing, c ≠ '\\' := by
    intro c member
    simp only [Place.isFlat, List.all_eq_true, Bool.and_eq_true, bne_iff_ne] at closingFlat
    exact (closingFlat c member).1.1
  have closingHead : closing.head?.all (!isDigit ·) = true := by
    rw [written]
    cases amount with
    | nil => rfl
    | cons c rest => exact apart
  obtain ⟨flatAfter, _, flatBare⟩ := Place.reads_of_flat closingFlat []
  have after : Place.outside.after closing = .outside := by
    rw [← Reader.place_start]
    exact congrArg Reader.place flatAfter
  -- the amount and the parentheses are read over before and after renumbering
  have body : captures (back ++ closing) = captures back := by
    rw [← written] at steady
    rw [captures_append steady, outside, flatBare]
    exact List.append_nil _
  have bodyPlace : Place.outside.after (back ++ closing) = .outside := by
    rw [Place.after_append, outside, after]
  obtain ⟨place, renumbered⟩ := captures_renumber first 1 (back ++ closing)
  rw [renumber_append first 1 back plain closingHead] at place renumbered
  obtain ⟨end_, complete⟩ := captures_render _ (place.trans bodyPlace) first
  have shape : renumber first 1 back ++ (amount ++ Atom.atomicClose first) =
      (renumber first 1 back ++ closing) ++ render first := by
    simp [written, Atom.atomicClose]
  have opens : opensCapture ((renumber first 1 back ++ closing) ++ render first) = true := by
    apply opensCapture_of_head
    cases back with
    | nil =>
        rw [written]
        cases amount with
        | nil => simp [renumber, renumberFrom]
        | cons c rest => exact head
    | cons c rest =>
        rw [renumber, renumberFrom_copied first 1 (by decide)]
        exact head
  rw [shape, captures_atomicOpen opens, complete, renumbered, body, List.map_map]
  exact ⟨end_, rfl⟩

namespace Aligned

variable {mode : Option Bool} {slots : List Slot} {front back : Text}

theorem start (mode : Option Bool) : Aligned mode [] [] [] :=
  ⟨rfl, Or.inl rfl, Nat.le_refl _, List.Forall₂.nil⟩

theorem length (aligned : Aligned mode slots front back) :
    slots.length = (captures (front ++ back)).length := by
  have lengths := aligned.hides.length_eq
  have known := aligned.known
  rw [captures_join aligned.outside aligned.joined, List.length_append, List.length_map]
  rw [List.length_drop] at lengths
  omega

theorem append (aligned : Aligned mode slots front back) {text : Text} (more : List Slot)
    (steady : Steady .outside (front ++ back) text)
    (new : List.Forall₂ (Hides mode front) more
      ((capturesFrom [] (Place.outside.after (front ++ back)) text).map (back ++ ·))) :
    Aligned mode (slots ++ more) front (back ++ text) := by
  refine ⟨aligned.outside, ?_, ?_, ?_⟩
  · rcases aligned.joined with empty | ⟨c, rest, rfl, admits⟩
    · exact Or.inl empty
    · exact Or.inr ⟨c, rest ++ text, rfl, admits⟩
  · have known := aligned.known
    rw [List.length_append]
    omega
  · rw [Place.after_append, aligned.outside] at new
    rw [List.drop_append_of_le_length aligned.known,
      captures_append (steady.part aligned.outside)]
    exact List.rel_append aligned.hides new

theorem extend (aligned : Aligned mode slots front back) {text : Text}
    (steady : Steady .outside (front ++ back) text)
    (bare : capturesFrom [] (Place.outside.after (front ++ back)) text = []) :
    Aligned mode slots front (back ++ text) := by
  have longer := aligned.append [] steady (by rw [bare]; exact List.Forall₂.nil)
  rwa [List.append_nil] at longer

theorem exchange {c d : Char} (aligned : Aligned mode slots front (back ++ [c]))
    (other : c ≠ '(' ∧ isInert c = true) (other' : d ≠ '(' ∧ isInert d = true) :
    Aligned mode slots front (back ++ [d]) ∧ captures (back ++ [d]) = captures (back ++ [c]) := by
  have bare :
      ∀ {e : Char}, e ≠ '(' ∧ isInert e = true → captures (back ++ [e]) = captures back := by
    intro e inert
    rw [captures_append (admits_of_inert inert.2 back []), capturesFrom_cons_of_ne _ _ inert.1]
    exact List.append_nil _
  refine ⟨⟨aligned.outside, ?_, aligned.known, ?_⟩, by rw [bare other, bare other']⟩
  · rcases aligned.joined with empty | ⟨e, rest, written, admits⟩
    · exact Or.inl empty
    · right
      cases back with
      | nil => exact ⟨d, [], rfl, admits_of_inert other'.2 front⟩
      | cons f more =>
          rw [List.cons_append, List.cons.injEq] at written
          exact ⟨f, more ++ [d], rfl, written.1 ▸ admits⟩
  · rw [bare other', ← bare other]
    exact aligned.hides

/-- A part that begins with a parenthesis in place of the last one, with slots for
the captures that are new. -/
theorem rewrite {middle : Text} (outer : Aligned mode slots front (middle ++ back))
    (inner : Aligned mode slots (front ++ middle) back) {back' : Text} {extra : List Slot}
    {pre : List Text} {edit : Text → Text} (opens : ∃ rest, back' = '(' :: rest)
    (steady : Steady .outside (front ++ middle) back)
    (new : captures back' = pre ++ (captures back).map edit)
    (fresh : List.Forall₂ (fun slot before => ∀ noCapture, mode = some noCapture →
      slot = .suppressed → Emulates noCapture before) extra pre)
    (keep : ∀ before ∈ captures back, ∀ noCapture, Emulates noCapture before ∨ before = [] ∧
      noCapture = true ∧ lookahead <:+ front ++ middle → Emulates noCapture (edit before)) :
    Aligned mode (slots.take (captures (front ++ middle)).length ++
      (extra ++ slots.drop (captures (front ++ middle)).length)) front (middle ++ back') := by
  have here : Place.outside.after middle = .outside := by
    have outside := inner.outside
    rwa [Place.after_append, outer.outside] at outside
  have count : (captures (front ++ middle)).length =
      (captures front).length + (captures middle).length := by
    cases middle with
    | nil =>
        rw [List.append_nil]
        rfl
    | cons c rest =>
        rw [captures_join outer.outside, List.length_append, List.length_map]
        rcases outer.joined with empty | ⟨d, more, equality, admits⟩
        · exact Or.inl empty
        · rw [List.cons_append, List.cons.injEq] at equality
          exact Or.inr ⟨c, rest, rfl, equality.1 ▸ admits⟩
  have known := inner.known
  obtain ⟨n, total⟩ : ∃ n, n = (captures (front ++ middle)).length := ⟨_, rfl⟩
  rw [← total] at known count ⊢
  have size : (slots.take n).length = n := by
    rw [List.length_take]
    omega
  have first : List.Forall₂ (Hides mode front)
      ((slots.take n).drop (captures front).length) (captures middle) := by
    have hides := outer.hides
    rw [captures_append (steady.part outer.outside)] at hides
    have taken := List.forall₂_take_append _ _ _ hides
    rw [List.drop_take]
    rwa [count, Nat.add_sub_cancel_left]
  have last : List.Forall₂ (Hides mode front) (slots.drop n)
      (((captures back).map edit).map (middle ++ ·)) := by
    have hides := inner.hides
    rw [← total] at hides
    rw [List.map_map, List.forall₂_map_right_iff]
    have known := ((List.forall₂_and_left _ _).mpr ⟨fun before member => member, hides.flip⟩)
    apply known.flip.imp
    intro slot before hidden noCapture known suppressed
    exact Or.inl ((keep before hidden.1 noCapture (hidden.2 noCapture known suppressed)).append
      middle)
  have middle_ : List.Forall₂ (Hides mode front) extra (pre.map (middle ++ ·)) := by
    rw [List.forall₂_map_right_iff]
    exact fresh.imp fun slot before hidden noCapture known suppressed =>
      Or.inl ((hidden noCapture known suppressed).append middle)
  refine ⟨outer.outside, ?_, ?_, ?_⟩
  · rcases outer.joined with empty | ⟨c, rest, equality, admits⟩
    · exact Or.inl empty
    · cases middle with
      | nil =>
          obtain ⟨more, written⟩ := opens
          exact Or.inr ⟨'(', more, written, admits_of_inert (by decide) front⟩
      | cons d more =>
          rw [List.cons_append, List.cons.injEq] at equality
          exact Or.inr ⟨d, more ++ back', rfl, equality.1 ▸ admits⟩
  · rw [List.length_append, size]
    omega
  · obtain ⟨more, written⟩ := opens
    have steady' : Steady .outside middle back' := by
      rw [written]
      exact admits_of_inert (by decide) middle more
    rw [List.drop_append_of_le_length (by omega), captures_append steady', here]
    change List.Forall₂ _ _ (captures middle ++ (captures back').map (middle ++ ·))
    rw [new, List.map_append]
    exact List.rel_append first (List.rel_append middle_ last)

theorem wrap {middle : Text} (outer : Aligned mode slots front (middle ++ back))
    (inner : Aligned mode slots (front ++ middle) back)
    (steady : Steady .outside (front ++ middle) back)
    (outside : Place.outside.after back = .outside) (emulated : [] ∉ captures back) :
    Aligned mode slots front (middle ++ (['(', '?', ':'] ++ (back ++ [')']))) := by
  have new := captures_wrap back outside
  rw [← List.nil_append (List.map _ _)] at new
  have whole := outer.rewrite inner ⟨_, rfl⟩ steady new List.Forall₂.nil
    (by
      rintro before member _ (emulates | ⟨rfl, _⟩)
      · exact emulates.append _
      · exact absurd member emulated)
  rwa [List.nil_append, List.take_append_drop] at whole

theorem possess {middle amount : Text} (outer : Aligned mode slots front (middle ++ back))
    (inner : Aligned mode slots (front ++ middle) back) {first : Nat}
    (count : (captures (front ++ middle)).length + 1 = first)
    (steady : Steady .outside (front ++ middle) back)
    (head : back.head? ≠ some '?') (nonempty : back ≠ [])
    (outside : Place.outside.after back = .outside) (flat : Place.isFlat amount = true)
    (apart : amount.head?.all (!isDigit ·) = true)
    (closing : Steady .outside back (amount ++ [')', ')'])) :
    Aligned mode (slots.insertIdx (first - 1) .suppressed) front
      (middle ++ (Atom.atomicOpen ++
        (renumber first 1 back ++ (amount ++ Atom.atomicClose first)))) := by
  obtain ⟨_, new⟩ := captures_possess first (by rwa [List.head?_append_of_ne_nil _ nonempty])
    outside flat apart closing
  have fresh : List.Forall₂ (fun slot before => ∀ noCapture, mode = some noCapture →
      slot = Slot.suppressed → Emulates noCapture before) [.suppressed] [lookahead] :=
    List.Forall₂.cons (fun _ _ _ => Or.inl (List.suffix_refl _)) List.Forall₂.nil
  have whole := outer.rewrite inner ⟨_, rfl⟩ steady new fresh
    (by
      rintro before _ _ (emulates | ⟨rfl, on, _⟩)
      · exact (emulates.renumber first 1).append _
      · exact Or.inr ⟨on, List.suffix_refl _⟩)
  have position : first - 1 = (captures (front ++ middle)).length := by omega
  rw [position, GroupTable.insertIdx_eq inner.known]
  exact whole

theorem hide (aligned : Aligned mode slots front back) {position : Nat}
    (inside : ∀ noCapture, mode = some noCapture → ∀ between,
      (captures (front ++ back))[position]? = some (front ++ between) →
        Emulates noCapture between) :
    Aligned mode (slots.set position .suppressed) front back := by
  refine ⟨aligned.outside, aligned.joined, by simpa using aligned.known, ?_⟩
  have hides := aligned.hides
  rw [captures_join aligned.outside aligned.joined] at inside
  by_cases early : position < (captures front).length
  · rw [List.drop_set_of_lt early]
    exact hides
  · rw [List.drop_set, if_neg (by omega)]
    have located : ∀ noCapture, mode = some noCapture → ∀ between,
        (captures back)[position - (captures front).length]? = some between →
          Emulates noCapture between := by
      intro noCapture known between found
      apply inside noCapture known between
      rw [List.getElem?_append_right (by omega), List.getElem?_map, found]
      rfl
    generalize position - (captures front).length = offset at located ⊢
    generalize slots.drop (captures front).length = rest at hides ⊢
    generalize captures back = texts at hides located ⊢
    induction hides generalizing offset with
    | nil => exact List.Forall₂.nil
    | cons first others ih =>
        cases offset with
        | zero =>
            refine List.Forall₂.cons (fun noCapture known _ => Or.inl ?_) others
            exact located noCapture known _ rfl
        | succ offset => exact List.Forall₂.cons first (ih offset located)

/-- In the whole source, the capture of a hidden slot is that of an emulation. -/
theorem emulates {noCapture : Bool} {groups : GroupTable} {source : Text}
    (aligned : Aligned (some noCapture) groups.declared [] source) {index : Nat}
    (hidden : groups.get? index = some .suppressed) :
    ∃ before, (captures source)[index - 1]? = some before ∧ Emulates noCapture before := by
  have hides : List.Forall₂ (Hides (some noCapture) []) groups.declared (captures source) :=
    aligned.hides
  cases index with
  | zero =>
      have whole : some Slot.anonymous = some Slot.suppressed := hidden
      contradiction
  | succ position =>
      have slot : groups.declared[position]? = some .suppressed := hidden
      obtain ⟨inside, known⟩ := List.getElem?_eq_some_iff.mp slot
      obtain ⟨lengths, each⟩ := List.forall₂_iff_get.mp hides
      have inside' : position < (captures source).length := by omega
      refine ⟨(captures source)[position], List.getElem?_eq_getElem inside', ?_⟩
      rcases each position inside inside' noCapture rfl known with emulates | ⟨_, _, empty⟩
      · exact emulates
      · exact absurd empty (by decide)

end Aligned

end Source

end PatternDialect
