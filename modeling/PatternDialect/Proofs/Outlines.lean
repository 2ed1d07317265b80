import PatternDialect.Proofs.Verbatim

/-! Native source as a sequence of verbatim texts and groups, some of which are emulations.

The outline of a source says what a second reading takes it for.  It grows at its end, as
the output of a conversion does. -/

namespace PatternDialect

open Character Source Backreference Conversion

namespace Syntax

/-- A group of the form `atomic` is an emulated one. -/
inductive Outline where
  | empty
  | words (front : Outline) (text : Text)
  | group (front : Outline) (form : Form) (body : Outline)

/-- Whether the form is written with a parenthesis that a mark may follow. -/
def Form.isBare : Form → Bool
  | .capture | .named _ _ | .atomic => true
  | .plain | .lookahead _ | .lookbehind _ => false

def Form.isNamed : Form → Bool
  | .named _ _ => true
  | _ => false

theorem Form.opening_native {form : Form} (native : form.isNative = true) :
    form.opening false false = form.text := by
  cases form <;> first | rfl | contradiction

theorem Form.ordinary_opening (form : Form) :
    form.opening false false ≠ [] ∧ ∀ c ∈ form.opening false false, isOrdinary c = true := by
  cases form with
  | lookahead negative | lookbehind negative =>
      cases negative <;> exact ⟨by simp [Form.opening], List.all_eq_true.mp rfl⟩
  | capture | named | plain | atomic =>
      exact ⟨by simp [Form.opening], List.all_eq_true.mp rfl⟩

theorem Form.after_closing (form : Form) {own : Nat} (positive : 0 < own) (digits : Text) :
    ∃ held, Reader.after ⟨.outside, digits⟩ (form.closing own) = ⟨.outside, held⟩ ∧
      (held ≠ [] → form.isAtomic = true) := by
  cases form with
  | atomic =>
      refine ⟨(Decimal.write own).reverse, ?_, fun _ => rfl⟩
      have opened : Reader.after ⟨.outside, digits⟩ [')', ')'] = Reader.start :=
        (Reader.after_ordinary _ (by simp) (List.all_eq_true.mp (by decide))).1
      change Reader.after (Reader.after ⟨.outside, digits⟩ [')', ')']) (render own) = _
      rw [opened]
      exact (Reader.after_reference rfl positive).1
  | capture | named | plain | lookahead | lookbehind =>
      have closed : Reader.after ⟨.outside, digits⟩ [')'] = Reader.start :=
        (Reader.after_ordinary _ (by simp) (List.all_eq_true.mp (by decide))).1
      exact ⟨[], closed, fun held => absurd rfl held⟩

namespace Outline

def slots : Outline → List Slot
  | empty => []
  | words front _ => front.slots
  | group front form body => front.slots ++ (form.slots false false ++ body.slots)

/-- The source, where the first group has the given index. -/
def source (index : Nat) : Outline → Text
  | empty => []
  | words front text => front.source index ++ text
  | group front form body =>
      front.source index ++ (form.opening false false ++
        (body.source (index + front.slots.length + (form.slots false false).length) ++
          form.closing (index + front.slots.length)))

def refers : Outline → Bool
  | group _ form _ => form.isAtomic
  | empty | words _ _ => false

def isWords : Outline → Bool
  | words _ _ => true
  | empty | group _ _ _ => false

/-- The verbatim text that the outline ends in. -/
def last : Outline → Text
  | words _ text => text
  | empty | group _ _ _ => []

/-- Whether the source begins with the mark that tells the forms of groups. -/
def isMarked : Outline → Bool
  | empty => false
  | words empty text => text.head? == some '?'
  | words front _ | group front _ _ => front.isMarked

/-- Whether the outline ends in a lookahead around a single group. -/
def isSingle : Outline → Bool
  | group _ (.lookahead false) (group empty .capture _) => true
  | _ => false

/-- An outline that a second reading finds again. -/
def Whole (top : Bool) : Outline → Prop
  | empty => True
  | words front text =>
      front.Whole top ∧ text ≠ [] ∧ Verbatim top text ∧ front.isWords = false ∧
        (front.refers = true → text.head?.all (!isDigit ·) = true) ∧
          (front.isSingle = true → ¬ ['\\', '0'] <+: text)
  | group front form body =>
      front.Whole top ∧ body.Whole false ∧ form.isNamed = false ∧
        (form.isBare = true → body.isMarked = false)

variable {top : Bool} {outline : Outline}

theorem Whole.head (whole : outline.Whole top) (filled : outline ≠ empty) (index : Nat) :
    ∃ c rest, outline.source index = c :: rest ∧ isBlank c = false ∧
      (c = '?' → outline.isMarked = true) := by
  induction outline with
  | empty => contradiction
  | words front text ih =>
      obtain ⟨before, nonempty, verbatim, _⟩ := whole
      by_cases first : front = empty
      · subst first
        obtain ⟨c, rest, rfl⟩ := List.exists_cons_of_ne_nil nonempty
        have starts := verbatim.starts _ (Place.mem_tails.mpr ⟨nonempty, [], rfl, rfl⟩)
        have kept := isBreak_of_startsVerbatim starts
        rw [isBreak, Bool.or_eq_false_iff] at kept
        exact ⟨c, rest, rfl, kept.1, by simp [isMarked]⟩
      · obtain ⟨c, rest, begins, visible, marked⟩ := ih before first
        refine ⟨c, rest ++ text, by rw [source, begins]; rfl, visible, fun mark => ?_⟩
        rw [← marked mark]
        cases front with
        | empty => contradiction
        | words | group => rfl
  | group front form body ih =>
      by_cases first : front = empty
      · subst first
        obtain ⟨⟨left, opens⟩, _⟩ := form.opening_spec false false
        exact ⟨'(', _, by rw [source, opens]; rfl, rfl, fun mark => absurd mark (by decide)⟩
      · obtain ⟨c, rest, begins, visible, marked⟩ := ih whole.1 first
        exact ⟨c, _, by rw [source, begins]; rfl, visible, marked⟩

theorem Whole.significant (whole : outline.Whole top) (unmarked : outline.isMarked = false)
    (index : Nat) {tail : Text} (ends : tail.firstSignificant? ≠ some '?') :
    (outline.source index ++ tail).firstSignificant? ≠ some '?' := by
  by_cases filled : outline = empty
  · subst filled
    exact ends
  · obtain ⟨c, rest, begins, visible, marked⟩ := whole.head filled index
    have other : c ≠ '?' := by
      intro mark
      rw [marked mark] at unmarked
      contradiction
    simpa [begins, Text.firstSignificant?, visible] using other

theorem Whole.reads (whole : outline.Whole top) {index : Nat} (positive : 0 < index) :
    ∃ digits, Reader.start.after (outline.source index) = ⟨.outside, digits⟩ ∧
      (digits ≠ [] → outline.refers = true) := by
  induction outline generalizing top index with
  | empty => exact ⟨[], rfl, fun held => absurd rfl held⟩
  | words front text ih =>
      obtain ⟨before, filled, verbatim, _, apart, _⟩ := whole
      obtain ⟨digits, after, held⟩ := ih before positive
      have proper := Reader.Proper.start.after (front.source index)
      rw [after] at proper
      refine ⟨[], ?_, fun held => absurd rfl held⟩
      rw [source, Reader.after_append, after,
        (Reader.reads_apart proper filled fun some_ => apart (held some_)).2]
      exact (verbatim.reads 0 0).1
  | group front form body ih inner =>
      obtain ⟨before, within, _⟩ := whole
      obtain ⟨held, after, _⟩ := ih before positive
      obtain ⟨digits, through, _⟩ := inner within
        (by omega : 0 < index + front.slots.length + (form.slots false false).length)
      obtain ⟨filled, ordinary⟩ := form.ordinary_opening
      have opened : Reader.after ⟨.outside, held⟩ (form.opening false false) = Reader.start :=
        (Reader.after_ordinary _ filled ordinary).1
      rw [source, Reader.after_append, after, Reader.after_append, opened, Reader.after_append,
        through]
      exact form.after_closing (by omega) digits

theorem Whole.closed (whole : outline.Whole top) {index : Nat} (positive : 0 < index) :
    Place.outside.after (outline.source index) = .outside := by
  obtain ⟨digits, after, _⟩ := whole.reads positive
  rw [← Reader.place_start, after]

theorem Whole.closed_last (whole : outline.Whole top) :
    Place.outside.after outline.last = .outside := by
  cases outline with
  | empty => rfl
  | words front text => exact whole.2.2.1.closed
  | group front form body => rfl

/-- A group that comes in before the source moves all its references up. -/
theorem Whole.renumber (whole : outline.Whole top) {first index : Nat} (positive : 0 < index)
    (above : first ≤ index) (small : index + outline.slots.length < Decimal.limit) :
    renumber first 1 (outline.source index) = outline.source (index + 1) := by
  induction outline generalizing top index with
  | empty => rfl
  | words front text ih =>
      obtain ⟨before, _, verbatim, _, apart, _⟩ := whole
      obtain ⟨digits, after, held⟩ := before.reads positive
      have parted : renumber first 1 (front.source index ++ text) =
          renumber first 1 (front.source index) ++ renumber first 1 text :=
        renumberFrom_join first 1 after fun some_ => apart (held some_)
      rw [source, source, parted, ih before positive above small, (verbatim.reads first 1).2]
  | group front form body ih inner =>
      obtain ⟨before, within, _⟩ := whole
      obtain ⟨digits, after, _⟩ := before.reads positive
      obtain ⟨own, named⟩ : ∃ own, own = index + front.slots.length := ⟨_, rfl⟩
      have moved : index + 1 + front.slots.length = own + 1 := by omega
      simp only [slots, List.length_append] at small
      have counted : form.isAtomic = true → (form.slots false false).length = 1 := by
        cases form <;> simp [Form.isAtomic, Form.slots]
      have unit := form.renumber_unit false false
        (within.closed (by omega : 0 < own + (form.slots false false).length))
        (by omega : first ≤ own) fun atomic => ⟨by omega, by have := counted atomic; omega⟩
      have parted : ∀ unit : Text, renumber first 1 (front.source index ++
          (form.opening false false ++ unit)) = renumber first 1 (front.source index) ++
            renumber first 1 (form.opening false false ++ unit) := by
        intro unit
        obtain ⟨⟨left, opens⟩, _⟩ := form.opening_spec false false
        refine renumberFrom_join first 1 after fun _ => ?_
        rw [opens]
        rfl
      rw [source, source, ← named, moved, parted, unit, ih before positive above (by omega),
        inner within (by omega) (by omega) (by omega)]
      simp only [Nat.add_right_comm]

/-! ### Growth -/

/-- The outline with a text behind it. -/
def add (word : Text) : Outline → Outline
  | words front text => words front (text ++ word)
  | outline => words outline word

variable {word : Text}

@[simp] theorem source_add (index : Nat) :
    (outline.add word).source index = outline.source index ++ word := by
  cases outline <;> simp [add, source]

@[simp] theorem slots_add : (outline.add word).slots = outline.slots := by
  cases outline <;> rfl

theorem isMarked_add (whole : outline.Whole top) (filled : outline ≠ empty) :
    (outline.add word).isMarked = outline.isMarked := by
  cases outline with
  | empty => contradiction
  | words front text =>
      obtain ⟨c, rest, rfl⟩ := List.exists_cons_of_ne_nil whole.2.1
      cases front <;> rfl
  | group front form body => rfl

theorem Whole.add (whole : outline.Whole top) (verbatim : Verbatim top word) (filled : word ≠ [])
    (apart : Apart outline.last word)
    (digit : outline.refers = true → word.head?.all (!isDigit ·) = true)
    (single : outline.isSingle = true → ¬ ['\\', '0'] <+: word) : (outline.add word).Whole top := by
  cases outline with
  | empty => exact ⟨whole, filled, verbatim, rfl, digit, single⟩
  | words front text =>
      obtain ⟨before, nonempty, first, other, early, zero⟩ := whole
      obtain ⟨c, rest, rfl⟩ := List.exists_cons_of_ne_nil nonempty
      refine ⟨before, by simp, first.append verbatim apart, other, early, fun on begins => ?_⟩
      cases rest with
      | nil =>
          obtain rfl : c = '\\' := by
            simp only [List.singleton_append, List.cons_prefix_cons] at begins
            exact begins.1.symm
          exact absurd first.closed (by decide)
      | cons d rest => exact zero on (by simpa using begins)
  | group front form body => exact ⟨whole, filled, verbatim, rfl, digit, single⟩

theorem Whole.add_one (whole : outline.Whole top) {c : Char}
    (starts : startsVerbatim top [c] = true) (other : c ≠ '\\' ∧ c ≠ '[') (plus : c ≠ '+')
    (digit : isDigit c = true → outline.refers = false) (join : goesOn outline.last c = false) :
    (outline.add [c]).Whole top := by
  have apart : Apart outline.last [c] := by
    refine ⟨by simp [plus], fun d head => ?_, Or.inl (by simp)⟩
    obtain rfl : c = d := by simpa using head
    exact join
  refine whole.add (verbatim_one starts other) (by simp) apart ?_ ?_
  · intro refers
    cases number : isDigit c with
    | false => simp [number]
    | true => simp [digit number] at refers
  · exact fun _ begins => by simpa using begins.length_le

theorem Whole.add_of_head (whole : outline.Whole top) {c : Char} {rest : Text}
    (verbatim : Verbatim top (c :: rest))
    (head : (isDigit c || ['+', ',', '}', '<'].contains c) = false)
    (single : outline.isSingle = true → ¬ ['\\', '0'] <+: c :: rest) :
    (outline.add (c :: rest)).Whole top := by
  obtain ⟨digit, plus, comma, brace, angle⟩ :
      isDigit c = false ∧ c ≠ '+' ∧ c ≠ ',' ∧ c ≠ '}' ∧ c ≠ '<' := by simpa using head
  have apart : Apart outline.last (c :: rest) := by
    refine ⟨by simp [plus], fun d first => ?_, Or.inr (by simp [digit, comma, brace])⟩
    obtain rfl : c = d := by simpa using first
    exact goesOn_eq_false digit angle _
  exact whole.add verbatim (by simp) apart (fun _ => by simp [digit]) single

theorem Whole.add_escape (whole : outline.Whole top) {c : Char} (digit : isDigit c = false)
    (kept : isBreak c = false) : (outline.add ['\\', c]).Whole top := by
  have starts : escapesVerbatim [c] = true := by simp [escapesVerbatim, digit, kept]
  refine whole.add_of_head (verbatim_escape starts) (by decide) ?_
  rintro _ begins
  obtain rfl : '0' = c := by simpa using begins
  contradiction

/-! ### Units -/

/-- A unit that the outline ends in, as a quantifier repeats it. -/
structure Ends (top : Bool) (outline front unit : Outline) : Prop where
  source : ∀ index,
    outline.source index = front.source index ++ unit.source (index + front.slots.length)
  slots : outline.slots = front.slots ++ unit.slots
  before : front.Whole top
  whole : unit.Whole false
  begins : outline.isMarked = false → front.isMarked = false
  filled : unit ≠ empty
  unmarked : unit.isMarked = false

theorem Whole.ends_group {front body : Outline} {form : Form}
    (whole : (group front form body).Whole top) :
    (group front form body).Ends top front (group empty form body) := by
  obtain ⟨before, inner, visible, unmarked⟩ := whole
  refine ⟨fun index => ?_, rfl, before, ⟨trivial, inner, visible, unmarked⟩, id, by simp, rfl⟩
  simp [Outline.source, Outline.slots]

theorem Whole.ends_words {front : Outline} {text unit : Text}
    (whole : (words front (text ++ unit)).Whole top)
    (outside : Place.outside.after text = .outside) (verbatim : Verbatim false unit)
    (filled : unit ≠ []) (mark : unit.head? ≠ some '?') :
    ∃ start, (words front (text ++ unit)).Ends top start (words empty unit) ∧
      start.slots = front.slots ∧ ∀ index, start.source index = front.source index ++ text := by
  obtain ⟨before, _, both, other, digit, zero⟩ := whole
  have alone : (words empty unit).Whole false :=
    ⟨trivial, filled, verbatim, rfl, fun refers => by contradiction, fun on => by contradiction⟩
  have unmarked : (words empty unit).isMarked = false := by simpa [isMarked] using mark
  by_cases empty_ : text = []
  · subst empty_
    refine ⟨front, ⟨fun index => rfl, by simp [Outline.slots], before, alone, ?_, by simp,
      unmarked⟩, rfl, by simp⟩
    intro begins
    cases front with
    | empty => rfl
    | words | group => exact begins
  · obtain ⟨c, rest, rfl⟩ := List.exists_cons_of_ne_nil empty_
    have starts : (words front (c :: rest)).Whole top := by
      refine ⟨before, by simp, both.left outside, other, digit, fun on begins => ?_⟩
      exact zero on (begins.trans (List.prefix_append _ _))
    refine ⟨words front (c :: rest), ⟨fun index => ?_, by simp [Outline.slots], starts, alone, ?_,
      by simp, unmarked⟩, rfl, fun _ => rfl⟩
    · simp [Outline.source]
    · intro begins
      cases front with
      | empty => exact begins
      | words | group => exact begins

theorem Whole.ends_add (whole : (outline.add word).Whole top) (verbatim : Verbatim false word)
    (filled : word ≠ []) (mark : word.head? ≠ some '?')
    (outside : Place.outside.after outline.last = .outside) :
    ∃ start, (outline.add word).Ends top start (words empty word) ∧ start.slots = outline.slots ∧
      ∀ index, start.source index = outline.source index := by
  have alone : ∀ front : Outline, (words front word).Whole top →
      ∃ start, (words front word).Ends top start (words empty word) ∧ start.slots = front.slots ∧
        ∀ index, start.source index = front.source index := by
    intro front whole
    simpa using @Whole.ends_words top front [] word whole rfl verbatim filled mark
  cases outline with
  | empty => exact alone _ whole
  | words front text => exact Whole.ends_words whole outside verbatim filled mark
  | group front form body => exact alone _ whole

end Outline

end Syntax

end PatternDialect
