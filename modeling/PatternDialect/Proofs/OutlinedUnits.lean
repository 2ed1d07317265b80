import Mathlib.Data.List.InsertIdx
import PatternDialect.Proofs.Outlining
import PatternDialect.Proofs.Quantifiers

/-! Quantifiers behind an outlined output.

A quantifier repeats the unit that was recorded last, or one that is found at the end of the
output.  Where it is no part of something else, such a unit is one of the outline as well.
Main statement: a conversion in which every step is faithful keeps the outline. -/

namespace PatternDialect

open Character Source Backreference Syntax Conversion

/-! ### Amounts -/

section Amounts

variable {amount : Repeat} {marks : Text}

theorem head_amount (word : amount.Word) :
    ∃ c rest, amount.text = c :: rest ∧ c ∈ ['*', '+', '?', '{'] ∧
      (c = '+' → amount = .plus) ∧ (c = '?' → amount = .optional) ∧
        ∀ d ∈ rest, isDigit d = true ∨ d = ',' ∨ d = '}' := by
  cases amount with
  | star => exact ⟨'*', [], rfl, by simp, by decide, by decide, by simp⟩
  | plus => exact ⟨'+', [], rfl, by simp, fun _ => rfl, by decide, by simp⟩
  | optional => exact ⟨'?', [], rfl, by simp, by decide, fun _ => rfl, by simp⟩
  | counted braces =>
      obtain ⟨inner, rfl, all⟩ := Repeat.inner_of_isCount (Repeat.word_counted_iff.mp word)
      exact ⟨'{', inner, rfl, by simp, fun same => absurd same (by decide),
        fun same => absurd same (by decide), all⟩

theorem verbatim_amount (top : Bool) (word : amount.Word) (lazy : marks = [] ∨ marks = ['?']) :
    Verbatim top (amount.text ++ marks) := by
  obtain ⟨c, rest, written, sign, _, _, inner⟩ := head_amount word
  have mark : ∀ d ∈ marks, d = '?' := by rcases lazy with rfl | rfl <;> simp
  rw [written]
  apply verbatim_amounts
  · intro d member
    simp only [List.cons_append, List.mem_cons, List.mem_append] at member
    rcases member with rfl | early | late
    · exact List.all_eq_true.mp rfl d sign
    · rcases inner d early with digit | rfl | rfl
      · simp [Repeat.isAmount, digit]
      · decide
      · decide
    · rw [mark d late]
      decide
  · intro plus
    rcases List.mem_append.mp plus with early | late
    · exact absurd (inner _ early) (by decide)
    · exact absurd (mark _ late) (by decide)

theorem apart_amount {front : Text} (word : amount.Word) (marks : Text)
    (plus : amount = .plus → endsAmount front = false) : Apart front (amount.text ++ marks) := by
  obtain ⟨c, rest, written, sign, same, _⟩ := head_amount word
  obtain ⟨⟨⟨digit, comma⟩, brace⟩, angle⟩ :
      ((isDigit c = false ∧ c ≠ ',') ∧ c ≠ '}') ∧ c ≠ '<' := by
    have known := List.all_eq_true.mp (rfl : ['*', '+', '?', '{'].all
      (fun c => !isDigit c && c != ',' && c != '}' && c != '<') = true) c sign
    simpa using known
  rw [written]
  refine ⟨fun head => plus (same (by simpa using head)), fun d head => ?_,
    Or.inr (by simp [digit, comma, brace])⟩
  obtain rfl : c = d := by simpa using head
  exact goesOn_eq_false digit angle _

theorem Syntax.Outline.Whole.add_amount {top : Bool} {outline : Outline} (whole : outline.Whole top)
    (word : amount.Word) (lazy : marks = [] ∨ marks = ['?'])
    (plus : amount = .plus → endsAmount outline.last = false) :
    (outline.add (amount.text ++ marks)).Whole top := by
  obtain ⟨c, rest, written, sign, _⟩ := head_amount word
  refine whole.add (verbatim_amount top word lazy) (by simp [written])
    (apart_amount word marks plus) (fun _ => ?_) (fun _ begins => ?_)
  · have known := List.all_eq_true.mp (rfl : ['*', '+', '?', '{'].all (!isDigit ·) = true) c sign
    simpa [written] using known
  · rw [written] at begins
    obtain ⟨rfl, _⟩ : '\\' = c ∧ _ := by simpa using begins
    exact absurd sign (by decide)

end Amounts

/-- A unit as it is repeated, in a group of its own where it is emulated. -/
def Syntax.Outline.enclosed (emulated : Bool) (unit : Outline) : Outline :=
  if emulated then .group .empty .plain unit else unit

theorem Syntax.Outline.enclosed_spec (emulated : Bool) {unit : Outline} (whole : unit.Whole false)
    (filled : unit ≠ .empty) (unmarked : unit.isMarked = false) :
    (Outline.enclosed emulated unit).Whole false ∧ Outline.enclosed emulated unit ≠ .empty ∧
      (Outline.enclosed emulated unit).isMarked = false ∧
      (Outline.enclosed emulated unit).slots = unit.slots ∧
        (endsAmount unit.last = false → endsAmount (Outline.enclosed emulated unit).last = false) ∧
          ∀ index, (Outline.enclosed emulated unit).source index =
            Syntax.enclosed emulated (unit.source index) := by
  cases emulated with
  | false => exact ⟨whole, filled, unmarked, rfl, id, fun _ => rfl⟩
  | true =>
      refine ⟨⟨trivial, whole, rfl, by simp [Form.isBare]⟩, by simp [Outline.enclosed], rfl, rfl,
        fun _ => rfl, fun index => ?_⟩
      simp [Outline.enclosed, Outline.source, Outline.slots, Form.slots, Form.opening, Form.closing,
        Syntax.enclosed]

namespace Conversion

variable {s next : State} {layer : Layer} {left word : Text}

section Quantifiers

variable {q : Quantifier}

theorem word_of_next? (found : s.next? none = some (.quantifier q)) : q.amount.Word := by
  cases rest : s.rest with
  | nil =>
      rw [State.next?, rest] at found
      contradiction
  | cons c more =>
      rw [State.next?_plain rest (by simp)] at found
      exact ((Construct.plain?_eq_quantifier_iff _ _ _).mp found).1

theorem Layers.alters {frames : List Frame} {before : Text} {slots : List Slot}
    (layers : Layers frames before slots) (bare : frames.head?.any Frame.isBare = true) :
    alters before '?' = true := by
  cases frames with
  | nil => contradiction
  | cons frame frames =>
      obtain ⟨outer, form, visible, sound, below, rfl, rfl, _⟩ := layers.outer
      have closed := below.closed_layer sound
      have open_ : ∀ front : Text, Place.outside.after front = .outside →
          Source.alters (front ++ ['(']) '?' = true := by
        intro front outside
        simp [Source.alters, outside]
      cases form with
      | capture => exact open_ _ closed
      | atomic =>
          have lookahead : outer.text ++ Form.opening false false .atomic =
              (outer.text ++ ['(', '?', '=']) ++ ['('] := by simp [Form.opening]
          rw [lookahead]
          apply open_
          rw [Place.after_append, closed]
          rfl
      | named | plain | lookahead | lookbehind => contradiction

theorem State.Outlined.wrap (outlined : s.Outlined layer []) {front unit : Outline}
    (ends : layer.outline.Ends s.frames.isEmpty front unit) {text : Text}
    (out : text = layer.before ++ (Outline.group front .plain unit).source layer.index) :
    State.Outlined { s with out := text, atom := none }
      { layer with outline := .group front .plain unit } [] := by
  have sound : Layer.Sound { layer with outline := .group front .plain unit } s.frames :=
    ⟨⟨ends.before, ends.whole, rfl, by simp [Form.isBare]⟩,
      fun bare => ends.begins (outlined.sound.unmarked bare)⟩
  refine outlined.rewrite (silent_group (by simp) (by simp) _ _) sound out ?_ ?_ rfl rfl
    (Or.inl rfl) rfl (fun _ held => absurd held (by simp)) outlined.classStart
  · change _ < text.size
    rw [out, Layer.text, ends.source]
    simp only [Outline.source, Form.opening, Form.slots, Form.closing, Text.size_append,
      List.length_nil, Nat.add_zero]
    have positive : 0 < Text.size ['(', '?', ':'] := by decide
    omega
  · change s.groups.declared.map Slot.unnamed = _
    rw [outlined.groups, Layer.declared, ends.slots]
    rfl

/-- A unit is put into a group of its own before it is repeated, where it is emulated. -/
theorem State.Outlined.prepared (outlined : s.Outlined layer []) :
    ∃ outline, State.Outlined { s with
        out := s.prepared (s.atom.filter (·.stop == s.out.size)), atom := none }
          { layer with outline } [] ∧
      (outline = layer.outline ∨ outline ≠ .empty ∧ outline.last = []) := by
  have out := outlined.out
  rw [List.append_nil] at out
  have unchanged : ∀ text, text = s.out →
      State.Outlined { s with out := text, atom := none } layer [] := by
    rintro _ rfl
    exact outlined.hold ⟨rfl, rfl, rfl, rfl, rfl⟩ outlined.out (fun _ held => absurd held (by simp))
      (.none outlined.classStart)
  cases last : s.atom.filter (·.stop == s.out.size) with
  | none => exact ⟨_, unchanged _ rfl, Or.inl rfl⟩
  | some a =>
      cases emulated : a.emulated with
      | false =>
          exact ⟨_, unchanged _ (by simp [State.prepared, Atom.prepared, emulated]), Or.inl rfl⟩
      | true =>
          obtain ⟨recorded, stop⟩ := Option.filter_eq_some_iff.mp last
          rw [beq_iff_eq] at stop
          obtain ⟨front, unit, ends, _, start, _⟩ :=
            (outlined.atom a recorded).2 (by rw [stop, out])
          have parts : s.out = (layer.before ++ front.source layer.index) ++
              unit.source (layer.index + front.slots.length) := by
            rw [out, Layer.text, ends.source, List.append_assoc]
          have span := @State.prepared_span s _ _ a.emulated a.firstGroup parts
          rw [← start, ← stop] at span
          refine ⟨_, outlined.wrap ends ?_, Or.inr ⟨by simp, rfl⟩⟩
          change (a.prepared s.out).1 = _
          rw [congrArg Prod.fst span, emulated]
          simp [enclosed, Outline.source, Form.opening, Form.closing, Form.slots]

theorem State.Outlined.repeat_ (outlined : s.Outlined layer [])
    (found : s.next? none = some (.quantifier q)) (place : s.place = .outside)
    (mark : q.possessive = false) (merges : s.merges = false) (marks : s.marks none = false) :
    ∃ layer left, ({ s with
      out := s.prepared (s.atom.filter (·.stop == s.out.size)) ++ q.render false
      atom := none }.skip q.length).Outlined layer left := by
  have word := word_of_next? found
  obtain ⟨outline, prepared, kept⟩ := outlined.prepared
  obtain ⟨lazy, rendered⟩ : ∃ lazy, q.render false = q.amount.text ++ lazy ∧
      (lazy = [] ∨ lazy = ['?']) := by
    unfold Quantifier.render
    split <;> simp
  rw [rendered.1]
  have plus : q.amount = .plus → endsAmount outline.last = false := by
    intro plus
    rcases kept with rfl | ⟨_, nothing⟩
    · apply outlined.endsAmount_last
      simpa [State.merges, place, found, mark, plus] using merges
    · rw [nothing]
      rfl
  have head : outline = .empty → s.frames.head?.any Frame.isBare = true →
      (q.amount.text ++ lazy).head? ≠ some '?' := by
    intro nothing bare
    have same : outline = layer.outline := by
      rcases kept with same | ⟨filled, _⟩
      · exact same
      · contradiction
    obtain ⟨c, rest, written, _, _, optional, _⟩ := head_amount word
    rw [written]
    intro first
    have alters := outlined.layers.alters bare
    have text : s.out = layer.before := by
      rw [outlined.out, Layer.text, ← same, nothing]
      simp [Outline.source]
    have amount : q.amount = .optional := optional (by simpa using first)
    simp [State.marks, found, place, mark, amount, text, alters] at marks
  refine ⟨_, [], prepared.write ⟨rfl, rfl, rfl, rfl, rfl⟩ ?_ (prepared.sound.whole.add_amount word
    rendered.2 plus) head ?_ (fun _ held => absurd held (by simp)) outlined.classStart⟩
  · obtain ⟨c, rest, written, _⟩ := head_amount word
    simp [written]
  · have out := prepared.out
    rw [List.append_nil] at out
    rw [← out]
    rfl

theorem State.Outlined.possess (outlined : s.Outlined layer []) {front unit : Outline} {a : Atom}
    (ends : layer.outline.Ends s.frames.isEmpty front unit) (word : q.amount.Word)
    (plus : q.amount = .plus → endsAmount unit.last = false)
    (start : a.start = (layer.before ++ front.source layer.index).size) (stop : a.stop = s.out.size)
    (first : a.firstGroup = layer.index + front.slots.length)
    (small : s.groups.size < Decimal.limit) (grown : s.out.size < (s.possessed a q).out.size) :
    ∃ layer left, (s.possessed a q).Outlined layer left := by
  obtain ⟨own, named⟩ : ∃ own, own = layer.index + front.slots.length := ⟨_, rfl⟩
  have positive := layer.index_pos
  have size : s.groups.size = own + unit.slots.length := by
    rw [outlined.size, Layer.own, ends.slots, List.length_append]
    omega
  have parts : s.out = (layer.before ++ front.source layer.index) ++ unit.source own := by
    rw [outlined.out, List.append_nil, Layer.text, ends.source, ← named, List.append_assoc]
  have clamped : s.groups.clamp a.firstGroup = own := by
    unfold GroupTable.clamp
    omega
  have span : a = ⟨(layer.before ++ front.source layer.index).size, s.out.size, a.firstGroup,
      a.emulated⟩ := by
    rw [← start, ← stop]
  obtain ⟨alone_, filled, unmarked, slots, amount, source⟩ :=
    Outline.enclosed_spec a.emulated ends.whole ends.filled ends.unmarked
  obtain ⟨out, groups⟩ := @State.possessed_span s _ _ own a.emulated parts a.firstGroup q clamped
  rw [← span, ends.whole.renumber (by omega) (Nat.le_refl _) (by omega)] at out
  rw [← span] at groups
  obtain ⟨body, written⟩ : ∃ body,
    body = (Outline.enclosed a.emulated unit).add (q.amount.text ++ []) := ⟨_, rfl⟩
  have inner : body.Whole false :=
    written ▸ alone_.add_amount word (Or.inl rfl) fun same => amount (plus same)
  have bare : body.isMarked = false :=
    written ▸ (Outline.isMarked_add alone_ filled).trans unmarked
  have sound : Layer.Sound { layer with outline := .group front .atomic body } s.frames :=
    ⟨⟨ends.before, inner, rfl, fun _ => bare⟩, fun on => ends.begins (outlined.sound.unmarked on)⟩
  refine ⟨_, [], outlined.rewrite (silent_group (by simp) (by simp) _ _) sound ?_ ?_ ?_ rfl rfl
    (Or.inl rfl) rfl ?_ outlined.classStart⟩
  · rw [out, written, Outline.source, Outline.source_add, ← named, source]
    simp [Form.opening, Form.slots, Form.closing, Atom.atomicOpen, Atom.atomicClose,
      Backreference.render]
  · rw [← List.append_nil layer.text, ← outlined.out]
    exact grown
  · have place : own - 1 = (layer.slots ++ front.slots).length := by
      rw [named, Layer.index, List.length_append]
      omega
    rw [groups, List.map_insertIdx, outlined.groups, Layer.declared, ends.slots,
      ← List.append_assoc, place]
    change (layer.slots ++ front.slots ++ unit.slots).insertIdx _ .suppressed = _
    rw [insertIdx_between, written]
    simp [Outline.slots, Form.slots, slots]
  · intro b recorded
    obtain rfl := Option.some.inj recorded
    have kept : (a.prepared s.out).2.start = a.start ∧
        (a.prepared s.out).2.firstGroup = a.firstGroup := by
      unfold Atom.prepared
      split <;> exact ⟨rfl, rfl⟩
    refine Or.inr ⟨rfl, front, _, sound.whole.ends_group, rfl, kept.1.trans start, ?_⟩
    change s.groups.clamp (a.prepared s.out).2.firstGroup = _
    rw [kept.2, clamped]
    exact named

/-! ### Units that are searched -/

/-- A text that ends in what opens a group or closes one. -/
inductive Bordered : Text → Prop where
  | nothing : Bordered []
  | opened (front : Text) (outside : Place.outside.after front = .outside) :
      Bordered (front ++ ['('])
  | marked (front mark : Text) (last : Char) (outside : Place.outside.after front = .outside)
      (cut : mark = ['?'] ∨ mark = ['?', '<']) (other : last ≠ '\\') :
      Bordered (front ++ '(' :: (mark ++ [last]))
  | closed (front : Text) (outside : Place.outside.after front = .outside) :
      Bordered (front ++ [')'])
  | referred (front : Text) (slot : Nat) (outside : Place.outside.after front = .outside)
      (positive : 0 < slot) : Bordered (front ++ ')' :: Backreference.render slot)

theorem Layers.bordered {frames : List Frame} {before : Text} {slots : List Slot}
    (layers : Layers frames before slots) : Bordered before := by
  cases frames with
  | nil =>
      cases layers with
      | base => exact .nothing
  | cons frame frames =>
      obtain ⟨outer, form, visible, sound, below, _, rfl, _⟩ := layers.outer
      have closed := below.closed_layer sound
      cases form with
      | capture => exact .opened _ closed
      | named => contradiction
      | plain => exact .marked _ ['?'] _ closed (Or.inl rfl) (by decide)
      | lookahead negative =>
          cases negative <;> exact .marked _ ['?'] _ closed (Or.inl rfl) (by decide)
      | lookbehind negative =>
          cases negative <;> exact .marked _ ['?', '<'] _ closed (Or.inr rfl) (by decide)
      | atomic =>
          have lookahead : outer.text ++ Form.opening false false .atomic =
              (outer.text ++ ['(', '?', '=']) ++ ['('] := by simp [Form.opening]
          rw [lookahead]
          apply Bordered.opened
          rw [Place.after_append, closed]
          rfl

theorem bordered_source {top : Bool} {before : Text} {outline : Outline} (start : Bordered before)
    (outside : Place.outside.after before = .outside) (whole : outline.Whole top)
    (other : outline.isWords = false) {index : Nat} (positive : 0 < index) :
    Bordered (before ++ outline.source index) := by
  cases outline with
  | empty =>
      rw [Outline.source, List.append_nil]
      exact start
  | words front text => contradiction
  | group front form body =>
      obtain ⟨inner, written⟩ : ∃ inner, inner = before ++ (front.source index ++
        (form.opening false false ++
          body.source (index + front.slots.length + (form.slots false false).length))) := ⟨_, rfl⟩
      have opened : Place.outside.after (form.opening false false) = .outside :=
        (Reader.place_start _).symm.trans (congrArg Reader.place (Reader.start.after_ordinary
          form.ordinary_opening.1 form.ordinary_opening.2).1)
      have closed : Place.outside.after inner = .outside := by
        rw [written, Place.after_append, outside, Place.after_append, whole.1.closed positive,
          Place.after_append, opened, whole.2.1.closed (by omega)]
      have parts : before ++ (Outline.group front form body).source index =
          inner ++ form.closing (index + front.slots.length) := by
        rw [written, Outline.source]
        simp
      rw [parts]
      cases form with
      | atomic =>
          have close : inner ++ Form.closing (index + front.slots.length) .atomic =
              (inner ++ [')']) ++ ')' :: Backreference.render (index + front.slots.length) := by
            simp [Form.closing, Backreference.render]
          rw [close]
          refine .referred _ _ ?_ (by omega)
          rw [Place.after_append, closed]
          rfl
      | capture | named | plain | lookahead | lookbehind => exact .closed _ closed

/-- What stands before the last words of a layer. -/
theorem Layer.bordered {frames : List Frame} (layers : Layers frames layer.before layer.slots)
    (sound : layer.Sound frames) :
    ∃ border, layer.text = border ++ layer.outline.last ∧ Bordered border ∧
      Place.outside.after border = .outside := by
  obtain ⟨before, slots, outline⟩ := layer
  have positive : 0 < slots.length + 1 := Nat.succ_pos _
  have start := layers.bordered
  have outside := layers.closed
  cases outline with
  | words front text =>
      obtain ⟨whole, _, _, other, _⟩ := sound.whole
      refine ⟨before ++ front.source (slots.length + 1), ?_,
        bordered_source start outside whole other positive, ?_⟩
      · exact (List.append_assoc _ _ _).symm
      · rw [Place.after_append, outside, whole.closed positive]
  | empty =>
      exact ⟨_, (List.append_nil _).symm, bordered_source start outside sound.whole rfl positive,
        layers.closed_layer sound⟩
  | group front form body =>
      exact ⟨_, (List.append_nil _).symm, bordered_source start outside sound.whole rfl positive,
        layers.closed_layer sound⟩

theorem plain_escape {c : Char} {rest : Text} (plain : isPlainUnit ('\\' :: c :: rest) = true) :
    (isDigit c = true → c = '0') ∧ '(' ∉ rest ∧ ')' ∉ rest := by
  cases rest with
  | nil =>
      refine ⟨fun digit => ?_, by simp, by simp⟩
      simpa [isPlainUnit, digit] using plain
  | cons d rest =>
      simp only [isPlainUnit, Bool.and_eq_true, Bool.not_eq_true', List.all_eq_true, bne_iff_ne]
        at plain
      refine ⟨fun digit => ?_, fun member => ?_, fun member => ?_⟩
      · rw [plain.1] at digit
        contradiction
      · exact (plain.2 _ member).1 rfl
      · exact (plain.2 _ member).2 rfl

theorem mem_of_escape_over {front middle tail inner : Text} {c p : Char}
    (outside : Place.outside.after front = .outside)
    (closed : Place.outside.after (front ++ middle) = .outside)
    (parts : '\\' :: c :: inner = middle ++ p :: tail) (other : p ≠ '\\') : p ∈ inner := by
  rcases middle with _ | ⟨d, _ | ⟨e, middle⟩⟩
  · obtain ⟨rfl, _⟩ := List.cons.inj parts
    contradiction
  · obtain ⟨rfl, _⟩ := List.cons.inj parts
    rw [Place.after_append, outside] at closed
    contradiction
  · obtain ⟨_, rest⟩ := List.cons.inj parts
    obtain ⟨_, rfl⟩ := List.cons.inj rest
    simp

/-- A character at a border is in the escape behind it, or the escape is behind the character. -/
theorem mem_or_behind {front inner start tail : Text} {c p : Char}
    (outside : Place.outside.after front = .outside) (closed : Place.outside.after start = .outside)
    (written : front ++ '\\' :: c :: inner = start ++ p :: tail) (other : p ≠ '\\') :
    p ∈ inner ∨ ∃ middle, p :: tail = middle ++ '\\' :: c :: inner := by
  rcases List.append_eq_append_iff.mp written with ⟨middle, rfl, beyond⟩ | ⟨middle, _, behind⟩
  · exact Or.inl (mem_of_escape_over outside closed beyond other)
  · exact Or.inr ⟨middle, behind⟩

theorem not_bordered_escape {front inner : Text} {c : Char}
    (bordered : Bordered (front ++ '\\' :: c :: inner))
    (outside : Place.outside.after front = .outside) (digit : isDigit c = true → c = '0')
    (opening : '(' ∉ inner) (closing : ')' ∉ inner) : False := by
  generalize written : front ++ '\\' :: c :: inner = border at bordered
  cases bordered with
  | nothing => simp at written
  | opened start closed =>
      rcases mem_or_behind outside closed written (by decide) with member | ⟨middle, within⟩
      · exact opening member
      · have held : '\\' ∈ ['('] := by simp [within]
        exact absurd held (by decide)
  | marked start mark last closed cut other =>
      rcases mem_or_behind outside closed written (by decide) with member | ⟨middle, within⟩
      · exact opening member
      · have held : '\\' ∈ '(' :: (mark ++ [last]) := by simp [within]
        rcases cut with rfl | rfl <;> simp [other.symm] at held
  | closed start closed =>
      rcases mem_or_behind outside closed written (by decide) with member | ⟨middle, within⟩
      · exact closing member
      · have held : '\\' ∈ [')'] := by simp [within]
        exact absurd held (by decide)
  | referred start slot closed positive =>
      rcases mem_or_behind outside closed written (by decide) with member | ⟨middle, within⟩
      · exact closing member
      rcases middle with _ | ⟨d, _ | ⟨e, middle⟩⟩
      · simp at within
      · obtain ⟨e, rest, number, nonzero⟩ := Decimal.head_write positive
        obtain ⟨_, same⟩ : _ ∧ Decimal.write slot = c :: inner := by
          simpa [Backreference.render] using within
        have member : c ∈ Decimal.write slot := by simp [same]
        obtain ⟨rfl, _⟩ := List.cons.inj (number.symm.trans same)
        exact nonzero (digit (Decimal.isDigit_of_mem_write member))
      · have held : '\\' ∈ Decimal.write slot := by
          obtain ⟨_, _, same⟩ : _ ∧ _ ∧ Decimal.write slot = middle ++ '\\' :: c :: inner := by
            simpa [Backreference.render] using within
          simp [same]
        exact absurd (Decimal.isDigit_of_mem_write held) (by decide)

theorem endsOpener_append {front mark : Text} (outside : Place.outside.after front = .outside)
    (cut : mark = ['?'] ∨ mark = ['?', '<']) : endsOpener (front ++ '(' :: mark) = true := by
  have member : '(' :: mark ∈ Place.outside.tails (front ++ '(' :: mark) :=
    Place.tails_right outside (Place.mem_tails.mpr ⟨by simp, [], rfl, rfl⟩)
  rw [endsOpener, List.any_eq_true]
  exact ⟨_, member, by rcases cut with rfl | rfl <;> rfl⟩

theorem not_bordered_single {front : Text} {c : Char} (bordered : Bordered (front ++ [c]))
    (outside : Place.outside.after front = .outside) (opening : c ≠ '(') (closing : c ≠ ')')
    (split : endsOpener front = false)
    (digit : (Reader.start.after front).digits ≠ [] → isDigit c = false) : False := by
  generalize written : front ++ [c] = border at bordered
  have last : ∀ {start : Text} {d : Char}, front ++ [c] = start ++ [d] → front = start ∧ c = d := by
    intro start d same
    simpa using List.append_inj' same rfl
  cases bordered with
  | nothing => simp at written
  | opened start closed => exact opening (last written).2
  | closed start closed => exact closing (last written).2
  | marked start mark d closed cut other =>
      obtain ⟨rfl, _⟩ := last (written.trans (List.append_assoc start ('(' :: mark) [d]).symm)
      rw [endsOpener_append closed cut] at split
      contradiction
  | referred start slot closed positive =>
      -- the character would be the last digit of the reference
      have place : (Reader.start.after (start ++ [')'])).place = .outside := by
        rw [Reader.place_start, Place.after_append, closed]
        rfl
      have held : (Reader.start.after (front ++ [c])).digits ≠ [] := by
        rw [written, List.append_cons, Reader.after_append,
          (Reader.after_reference place positive).1]
        simp [Decimal.write_ne_nil]
      have taken : (Reader.start.after front).takes c = true := by
        by_contra untaken
        rw [Reader.after_append, Reader.after_cons, Reader.after_nil, Reader.next,
          if_neg untaken] at held
        exact held rfl
      simp only [Reader.takes, Bool.and_eq_true, Bool.or_eq_true, Bool.not_eq_true',
        beq_iff_eq, Reader.place_start, outside] at taken
      obtain ⟨number, begun | ⟨escape, _⟩⟩ := taken
      · rw [digit (by simpa using begun)] at number
        contradiction
      · contradiction

theorem unit_of_bordered {border text front unit : Text} (bordered : Bordered border)
    (parts : border ++ text = front ++ unit) (outside : Place.outside.after front = .outside)
    (closed : Place.outside.after border = .outside)
    (kind : (∃ c rest, unit = '\\' :: c :: rest) ∨
      ∃ c, unit = [c] ∧ c ≠ '(' ∧ ((Reader.start.after front).digits ≠ [] → isDigit c = false))
    (plain : isPlainUnit unit = true) (split : endsOpener front = false) :
    ∃ start, text = start ++ unit ∧ front = border ++ start := by
  rcases List.append_eq_append_iff.mp parts with ⟨start, rfl, rfl⟩ | ⟨inner, rfl, within⟩
  · exact ⟨start, rfl, rfl⟩
  · cases inner with
    | nil => exact ⟨[], within.symm, by simp⟩
    | cons d inner =>
        exfalso
        rcases kind with ⟨c, rest, rfl⟩ | ⟨c, rfl, other, digit⟩
        · obtain ⟨rfl, body⟩ := List.cons.inj within
          cases inner with
          | nil =>
              rw [Place.after_append, outside] at closed
              contradiction
          | cons e inner =>
              obtain ⟨rfl, rfl⟩ := List.cons.inj body
              obtain ⟨number, opening, closing⟩ := plain_escape plain
              exact not_bordered_escape bordered outside number
                (fun member => opening (by simp [member]))
                (fun member => closing (by simp [member]))
        · obtain ⟨rfl, rest⟩ := List.cons.inj within
          obtain ⟨rfl, rfl⟩ := List.append_eq_nil_iff.mp rest.symm
          refine not_bordered_single bordered outside other ?_ split digit
          rintro rfl
          contradiction

theorem verbatim_of_plain {top : Bool} {unit : Text} (verbatim : Verbatim top unit)
    (plain : isPlainUnit unit = true)
    (kind : (∃ c rest, unit = '\\' :: c :: rest) ∨ ∃ c, unit = [c]) : Verbatim false unit := by
  refine ⟨verbatim.closed, fun tail member => ?_⟩
  refine startsVerbatim_of_head (fun closing => ?_) false (verbatim.starts tail member)
  obtain ⟨_, front, rfl, outside⟩ := Place.mem_tails.mp member
  obtain ⟨left, rfl⟩ : ∃ left, tail = ')' :: left := by
    cases tail with
    | nil => contradiction
    | cons d left => exact ⟨left, by simpa using closing⟩
  rcases kind with ⟨c, rest, escape⟩ | ⟨c, single⟩
  · rw [escape] at plain
    have within : Place.outside.after ([] ++ front) = .outside := outside
    exact (plain_escape plain).2.2 (mem_of_escape_over rfl within escape.symm (by decide))
  · have whole : front ++ ')' :: left = [')'] := by
      cases front <;> simp_all
    rw [whole] at plain
    contradiction

/-- A unit that is found is an escape, or a character that goes on with no reference. -/
theorem forms_of_trailingUnit? {out front unit : Text} {size : Nat}
    (found : Atom.trailingUnit? out = some unit) (parts : out = front ++ unit)
    (closed : Place.outside.after out = .outside) (below : ∀ n ∈ references out, n < size)
    (reach : size ≤ Atom.searchReach) (outside : Place.outside.after front = .outside) :
    unit ≠ [] ∧ ((∃ c rest, unit = '\\' :: c :: rest) ∨ ∃ c, unit = [c] ∧ c ≠ '(' ∧
      ((Reader.start.after front).digits ≠ [] → isDigit c = false)) := by
  obtain ⟨_, _, kind⟩ := Atom.trailingUnit?_sound found
  obtain ⟨_, same, cut⟩ := Atom.unitCut_of_trailingUnit? found closed below reach
  obtain rfl := List.append_cancel_right (parts.symm.trans same)
  refine ⟨cut.nonempty, ?_⟩
  rcases kind with ⟨body, rfl, _, complete⟩ | ⟨c, rfl, _, other, _⟩
  · obtain ⟨c, rest, rfl⟩ := List.exists_cons_of_ne_nil (Atom.isEscapeBody_ne_nil complete)
    exact Or.inl ⟨c, rest, rfl⟩
  · refine Or.inr ⟨c, rfl, other, fun held => ?_⟩
    have fits := cut.fits
    simp only [Reader.Fits, Reader.place_start, outside] at fits
    simpa using fits held

theorem State.Outlined.spans_unit (outlined : s.Outlined layer []) {unit : Text}
    (found : Atom.trailingUnit? s.out = some unit)
    (below : ∀ n ∈ references s.out, n < s.groups.size)
    (reach : s.groups.size ≤ Atom.searchReach) (proper : isStray s.out unit = false)
    (plain : isPlainUnit unit = true)
    (split : endsOpener (s.out.takeBytes (s.out.size - unit.size)) = false) :
    ∃ front body, layer.outline.Ends s.frames.isEmpty front body ∧ body.last = unit ∧
      s.out.size - unit.size = (layer.before ++ front.source layer.index).size ∧
        s.groups.size = layer.index + front.slots.length := by
  obtain ⟨front, parts, _⟩ := Atom.trailingUnit?_sound found
  have out := outlined.out
  rw [List.append_nil] at out
  have size : s.out.size - unit.size = front.size := by
    rw [parts, Text.size_append]
    omega
  have before : s.out.takeBytes (s.out.size - unit.size) = front := by
    rw [size, parts, Text.takeBytes_size_append]
  simp only [isStray, before, Bool.or_eq_false_iff, bne_eq_false_iff_eq] at proper
  rw [before] at split
  obtain ⟨outside, head⟩ := proper
  obtain ⟨filled, forms⟩ := forms_of_trailingUnit? found parts
    (by rw [out]; exact outlined.closed) below reach outside
  obtain ⟨border, text, bordered, closed⟩ := layer.bordered outlined.layers outlined.sound
  obtain ⟨start, last, rfl⟩ := unit_of_bordered bordered
    (text.symm.trans (out.symm.trans parts)) outside closed forms plain split
  rw [Place.after_append, closed] at outside
  have mark : unit.head? ≠ some '?' := by
    intro first
    simp [first] at head
  obtain ⟨before_, slots, outline⟩ := layer
  cases outline with
  | empty => exact absurd (List.append_eq_nil_iff.mp last.symm).2 filled
  | group => exact absurd (List.append_eq_nil_iff.mp last.symm).2 filled
  | words first words_ =>
      obtain rfl : words_ = start ++ unit := last
      have whole := outlined.sound.whole
      have shape : (∃ c rest, unit = '\\' :: c :: rest) ∨ ∃ c, unit = [c] := by
        rcases forms with escape | ⟨c, single, _⟩
        · exact Or.inl escape
        · exact Or.inr ⟨c, single⟩
      have verbatim := verbatim_of_plain (whole.2.2.1.right outside) plain shape
      obtain ⟨begin, ends, slots_, source⟩ := whole.ends_words outside verbatim filled mark
      have written : s.out = (before_ ++ (first.source (slots.length + 1) ++ start)) ++ unit := by
        rw [out]
        simp [Layer.text, Layer.index, Outline.source]
      refine ⟨begin, _, ends, rfl, ?_, ?_⟩
      · rw [written, source, Text.size_append, Nat.add_sub_cancel]
        rfl
      · rw [outlined.size, slots_]
        rfl

theorem State.Outlined.spans (outlined : s.Outlined layer []) (reached : s.Reached)
    (reach : s.groups.size ≤ Atom.searchReach) (next : s.next? none = some (.quantifier q))
    (place : s.place = .outside) (mark : q.possessive = true) {a : Atom}
    (found : s.quantified? q = some a) (merges : s.merges = false) (splits : s.splits = false)
    (misreads : s.misreads none = false) :
    ∃ front unit, layer.outline.Ends s.frames.isEmpty front unit ∧
      (q.amount = .plus → endsAmount unit.last = false) ∧
        a.start = (layer.before ++ front.source layer.index).size ∧ a.stop = s.out.size ∧
          a.firstGroup = layer.index + front.slots.length := by
  rcases quantified_cases found with ⟨recorded, stop⟩ | ⟨_, none_, unit, trailing, rfl⟩
  · obtain ⟨front, unit, ends, amount, start, first⟩ :=
      (outlined.atom a recorded).2 (by rw [stop, outlined.out, List.append_nil])
    exact ⟨front, unit, ends, fun _ => amount, start, stop, first⟩
  · obtain ⟨ledger, sound⟩ := reached.sound
    have searched : s.searched? none = some unit := by
      simp [State.searched?, next, place, mark, none_, trailing]
    have proper : isStray s.out unit = false := by
      simp only [State.misreads, searched, Option.any_some, Bool.or_eq_false_iff] at misreads
      exact misreads.2
    simp only [State.splits, searched, Option.any_some, Bool.or_eq_false_iff,
      Bool.not_eq_false'] at splits
    obtain ⟨front, body, ends, last, start, first⟩ :=
      outlined.spans_unit trailing sound.below reach proper splits.1 splits.2
    refine ⟨front, body, ends, fun plus => ?_, start, rfl, first⟩
    rw [last]
    simpa [State.merges, place, next, mark, plus, searched] using merges

end Quantifiers

/-! ### Runs -/

theorem State.Outlined.turn (outlined : s.Outlined layer left) (reached : s.Reached)
    (short : s.text.length < Atom.searchReach) (nonempty : s.rest ≠ [])
    (turn : State.Turn {} s word next) (faithful : s.isFaithful = true) :
    ∃ layer left, next.Outlined layer left := by
  obtain ⟨refers, restores, merges, hides, splits, misreads⟩ := s.isFaithful_iff.mp faithful
  obtain ⟨ledger, sound⟩ := reached.sound
  have tracks := sound.tracks nonempty
  have reach := reached.reach short
  have done : s.place = .outside → s.Outlined layer [] := by
    intro place
    obtain rfl := outlined.finished (tracks.trans place)
    exact outlined
  cases turn with
  | drop _ more rest place =>
      have outlined := done place
      exact ⟨_, [], outlined.hold ⟨rfl, rfl, rfl, rfl, rfl⟩ outlined.out (fun _ => id)
        (.none outlined.classStart)⟩
  | part c more rest place =>
      have outlined := done place
      have out : ((s.skip 1).emit separator).out = layer.text ++ separator := by
        simp [outlined.out]
      exact ⟨_, [], outlined.part ⟨rfl, rfl, rfl, rfl, rfl⟩ out rfl outlined.classStart⟩
  | plain c more rest place kept other alone found =>
      exact (done place).plain rest place kept other found merges
  | letter l tail more rest place letter inner braced =>
      obtain rfl := braced rfl
      exact (done place).letter rest letter
  | nul more rest place alone free => exact (done place).nul more free
  | splice digits more p rest place filled all last stop =>
      obtain ⟨d, tail, rfl⟩ := List.exists_cons_of_ne_nil filled
      have digit := all d (by simp)
      refine (done place).splice last stop ?_ _
      simpa [State.hides, place, rest, digit, last, stop] using hides
  | refer c tail more slot rest place head inner positive found =>
      simp [State.refers, place, found] at refers
  | openClass more rest place =>
      have outlined := done place
      have out : s.out = layer.text := by rw [outlined.out, List.append_nil]
      refine ⟨layer, ['['], outlined.hold ⟨rfl, rfl, rfl, rfl, rfl⟩ ?_ (fun _ => id)
        (.class_ [] ?_ rfl)⟩
      · simp [Conversion.entered, rest, out]
      · simp [Conversion.entered, out]
  | anything more rest place single => contradiction
  | repeat_ q more rest legible place mark found =>
      have marks : s.marks none = false := by
        rw [State.misreads, Bool.or_eq_false_iff] at misreads
        exact misreads.1
      exact (done place).repeat_ found place mark merges marks
  | possess q a more rest legible place mark found next =>
      have outlined := done place
      obtain ⟨front, unit, ends, plus, start, stop, first⟩ :=
        outlined.spans reached reach next place mark found merges splits misreads
      obtain ⟨_, _, _, _, grown⟩ := sound.repeats nonempty reach legible place found
      have room : Atom.searchReach < Decimal.limit := by decide
      exact outlined.possess ends (word_of_next? next) plus start stop first (by omega) grown
  | enter inner more kind text slot rest place tail opening =>
      exact (done place).enter opening _
  | leave frame frames more rest place open_ => exact (done place).leave rest open_
  | stray more rest place open_ => exact (done place).stray rest open_
  | within _ more rest filled stays =>
      rw [← tracks] at stays
      exact outlined.within rest stays
  | closeClass start more rest place open_ =>
      exact outlined.closeClass rest (tracks.trans place) open_
  | escaped c more rest place digit =>
      refine outlined.escaped rest (tracks.trans place) digit ?_
      simpa [State.restores, place, rest] using restores
  | restore c more rest place kept =>
      have breaks : isBreak c = true := by simpa [isBreak] using kept
      simp [State.restores, place, rest, breaks] at restores

theorem Trace.outlined {s final : State} {states : List State}
    (trace : Trace {} none s states final) (faithful : ∀ t ∈ states, t.isFaithful = true)
    (short : s.text.length < Atom.searchReach) (reached : s.Reached) {layer : Layer} {left : Text}
    (outlined : s.Outlined layer left) : ∃ layer left, final.Outlined layer left := by
  induction trace generalizing layer left with
  | done s => exact ⟨layer, left, outlined⟩
  | step nonempty ok rest ih =>
      obtain ⟨word, turn⟩ := State.turn_of_step reached.ready reached.followed nonempty ok
      obtain ⟨_, _, next⟩ := outlined.turn reached short nonempty turn (faithful _ (by simp))
      refine ih (fun t member => faithful t (by simp [member])) ?_ (reached.step short nonempty ok)
        next
      rwa [State.text_step nonempty ok]

end Conversion

end PatternDialect
