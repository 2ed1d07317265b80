import PatternDialect.Proofs.Repeating
import PatternDialect.Proofs.Soundness

/-! The captures of the output against the slots of the table, along a conversion.

A quantifier is written where its parenthesis, or the unit it is found to apply to,
may be read as something else.  While that does not happen, every slot has its
capture and every hidden slot that of an emulation. -/

namespace PatternDialect

open Character

namespace Conversion

open Source Backreference

namespace State

def searched? (s : State) (delimiter : Option Char) : Option Text :=
  match s.next? delimiter with
  | some (.quantifier q) =>
      if s.place == .outside && q.possessive && (s.atom.filter (·.stop == s.out.size)).isNone then
        Atom.trailingUnit? s.out
      else none
  | _ => none

def marks (s : State) (delimiter : Option Char) : Bool :=
  match s.next? delimiter with
  | some (.quantifier q) =>
      s.place == .outside && !q.possessive && q.amount == .optional && alters s.out '?'
  | _ => false

/-- Whether the next quantifier makes another group of the last one, or repeats what
is no unit. -/
def misreads (s : State) (delimiter : Option Char) : Bool :=
  s.marks delimiter || (s.searched? delimiter).any (isStray s.out)

/-- Whether the next quantifier repeats a unit with a group in it. -/
def encloses (s : State) (delimiter : Option Char) : Bool :=
  (s.searched? delimiter).any holdsGroup

/-- What holds of the captures of the output in a conversion that misreads nothing. -/
structure Ordered (mode : Option Bool) (s : State) : Prop where
  tracks : s.rest ≠ [] → Place.outside.after s.out = s.place
  whole : Whole s.out
  aligned : Aligned mode s.groups.declared [] s.out
  situated : ∀ frame ∈ s.frames, Situated mode s.groups.declared s.out frame
  slotted : ∀ frame ∈ s.frames, ∀ slot, frame.kind.slot? = some slot → slot = frame.firstGroup
  nested : s.frames.Pairwise fun inner outer => outer.start < inner.start
  atom : ∀ a, s.atom = some a →
    s.Marked a.stop (Closing mode s.groups.declared s.frames s.out a)
  capture : ∀ c, s.capture = some c → mode.isSome = true → s.Marked c.stop (0 < c.slot ∧
    ∃ before, (captures s.out)[c.slot - 1]? = some before ∧ before.size = c.start)
  splice : ∀ p, s.splice = some p → mode.isSome = true → s.Marked p.stop (0 < p.slot ∧
    ∃ before, (captures s.out)[p.slot - 1]? = some (before ++ lookahead) ∧
      ∀ frame ∈ s.frames, frame.start ≤ before.size)
  class_ : ∀ start, s.classStart = some start → ∃ before inner, s.out = before ++ '[' :: inner ∧
    before.size = start ∧ Place.outside.after before = .outside ∧
      (captures before).length = s.groups.declared.length ∧
        ∀ frame ∈ s.frames, frame.start < start

theorem Ordered.start (mode : Option Bool) (text : Text) : (State.start text).Ordered mode := by
  refine ⟨fun _ => rfl, ?_, Aligned.start mode, ?_, ?_, List.Pairwise.nil, ?_, ?_, ?_, ?_⟩
  · intro before after equality
    simp [State.start] at equality
  · intro frame member
    contradiction
  · intro frame member
    contradiction
  · intro a recorded
    contradiction
  · intro c recorded
    contradiction
  · intro p recorded
    contradiction
  · intro start opened
    contradiction

variable {mode : Option Bool} {s : State}

theorem Ordered.place (ordered : s.Ordered mode) (nonempty : s.rest ≠ []) {place : Place}
    (here : s.place = place) : Place.outside.after s.out = place :=
  (ordered.tracks nonempty).trans here

theorem Ordered.extend (ordered : s.Ordered mode) (next : State) (text : Text)
    (out : next.out = s.out ++ text)
    (groups : next.groups = s.groups) (frames : next.frames = s.frames)
    (atom : next.atom = s.atom) (capture : next.capture = s.capture)
    (splice : next.splice = s.splice) (class_ : next.classStart = s.classStart)
    (tracks : next.rest ≠ [] → Place.outside.after next.out = next.place)
    (steady : Steady .outside s.out text)
    (bare : capturesFrom [] (Place.outside.after s.out) text = [])
    (whole : Whole next.out)
    (still : text = [] → next.rest = [] ∨ next.escaped = false) : next.Ordered mode := by
  refine ⟨tracks, whole, ?_, ?_, ?_, ?_, ?_, ?_, ?_, ?_⟩
  · rw [out, groups]
    exact ordered.aligned.extend steady bare
  · rw [frames, out, groups]
    exact fun frame member => (ordered.situated frame member).extend steady bare
  · rw [frames]
    exact ordered.slotted
  · rw [frames]
    exact ordered.nested
  · intro a recorded
    rw [atom] at recorded
    apply (ordered.atom a recorded).extended out still
    intro empty last
    rw [out, empty, List.append_nil, groups, frames]
    exact last
  · intro c recorded on
    rw [capture] at recorded
    apply (ordered.capture c recorded on).extended out still
    intro empty found
    rw [out, empty, List.append_nil]
    exact found
  · intro p recorded on
    rw [splice] at recorded
    apply (ordered.splice p recorded on).extended out still
    intro empty found
    rw [out, empty, List.append_nil, frames]
    exact found
  · intro start opened
    rw [class_] at opened
    obtain ⟨before, inner, parts, size, outside, count, starts⟩ := ordered.class_ start opened
    refine ⟨before, inner ++ text, ?_, size, outside, ?_, ?_⟩
    · rw [out, parts]
      simp
    · rw [groups]
      exact count
    · rw [frames]
      exact starts

theorem Ordered.write (ordered : s.Ordered mode) (nonempty : s.rest ≠ []) {count : Nat}
    {text : Text} (quiet : s.Quiet count text) : ((s.emit text).skip count).Ordered mode := by
  have place := ordered.tracks nonempty
  have steady : Steady .outside s.out text := by
    apply ordered.whole.steady
    by_cases outside : s.place = .outside
    · exact Or.inr (opensCapture_of_head (quiet.head outside))
    · exact Or.inl (shut_of_place (by rwa [place]))
  have whole : Whole (s.out ++ text) := by
    by_cases empty : text = []
    · rw [empty, List.append_nil]
      exact ordered.whole
    · apply (whole_append ordered.whole empty _ _).1
      · rw [place]
        exact fun outside => Or.inr (quiet.head outside)
      · rw [place]
        exact quiet.closed
  apply ordered.extend ((s.emit text).skip count) text rfl rfl rfl rfl rfl rfl rfl
  · intro left
    have after := quiet.place left
    change Place.outside.after (s.out ++ text) = (s.skip count).place
    rw [Place.after_append, place, after]
  · exact steady
  · rw [place]
    exact quiet.bare
  · exact whole
  · intro empty
    by_cases done : ((s.emit text).skip count).rest = []
    · exact Or.inl done
    · right
      cases escape : ((s.emit text).skip count).escaped with
      | false => rfl
      | true => exact absurd empty (quiet.grows done escape)

theorem Ordered.restore (ordered : s.Ordered mode) {c : Char} {more : Text}
    (rest : s.rest = c :: more) (place : s.place = .escape) (kept : isBlank c = true ∨ c = '#') :
    (s.dropEscape.copy 1).Ordered mode := by
  have here := ordered.place (by simp [rest]) place
  obtain ⟨front, out, frontPlace, copied, after, marks⟩ := restore_spec rest here place kept
  have apart : ∀ d, isBlank d = false → d ≠ '#' → c ≠ d := by
    rintro d visible hash rfl
    rcases kept with blank | rfl
    · rw [visible] at blank
      contradiction
    · exact hash rfl
  have notOpen : c ≠ '(' := apart _ (by decide) (by decide)
  have notSlash : c ≠ '\\' := apart _ (by decide) (by decide)
  have notBracket : c ≠ '[' := apart _ (by decide) (by decide)
  have mark : c ≠ '?' := apart _ (by decide) (by decide)
  have angle : c ≠ '<' := apart _ (by decide) (by decide)
  have means : isInert c = true := by
    simp only [isInert, Bool.and_eq_true, bne_iff_ne]
    exact ⟨⟨⟨mark, angle⟩, apart _ (by decide) (by decide)⟩, apart _ (by decide) (by decide)⟩
  have aligned := ordered.aligned
  have situated := ordered.situated
  rw [out] at aligned situated
  rw [copied]
  refine ⟨?_, whole_of_last mark angle, ?_, ?_, ordered.slotted, ordered.nested, ?_, ?_, ?_, ?_⟩
  · intro _
    change Place.outside.after (front ++ [c]) = (s.skip 1).place
    rw [Place.after_append, frontPlace, after]
    simp [Place.next, notSlash, notBracket]
  · exact (aligned.exchange (by decide) ⟨notOpen, means⟩).1
  · exact fun frame member => (situated frame member).exchange ⟨notOpen, means⟩
  · exact fun a recorded => marks (ordered.atom a recorded)
  · exact fun c' recorded on => marks (ordered.capture c' recorded on)
  · exact fun p recorded on => marks (ordered.splice p recorded on)
  · exact no_class after

theorem Ordered.openClass (ordered : s.Ordered mode) {more : Text}
    (rest : s.rest = '[' :: more) (place : s.place = .outside) :
    ({ s with classStart := some s.out.size }.copy 1).Ordered mode := by
  have here := ordered.place (by simp [rest]) place
  have copied : { s with classStart := some s.out.size }.copy 1 =
      { s.skip 1 with classStart := some s.out.size, out := s.out ++ ['['] } := by
    simp [copy, emit, State.skip, rest]
  have steady : Steady .outside s.out ['['] := admits_of_inert (by decide) s.out []
  have bare : capturesFrom [] (Place.outside.after s.out) ['['] = [] := by
    rw [capturesFrom_cons_of_ne _ _ (by decide)]
    rfl
  have longer : s.out.size < (s.out ++ ['[']).size := by
    rw [Text.size_append]
    have positive : 0 < Text.size ['['] := Text.size_pos (by simp)
    omega
  rw [copied]
  refine ⟨?_, whole_of_last (by decide) (by decide), ordered.aligned.extend steady bare,
    fun frame member => (ordered.situated frame member).extend steady bare, ordered.slotted,
    ordered.nested, fun a recorded => (ordered.atom a recorded).grown longer,
    fun c recorded on => (ordered.capture c recorded on).grown longer,
    fun p recorded on => (ordered.splice p recorded on).grown longer, ?_⟩
  · intro _
    have unescaped : (s.skip 1).escaped = false := by
      rw [escaped_skip_one rest]
      rfl
    have inside : State.place
        { s.skip 1 with classStart := some s.out.size, out := s.out ++ ['['] } = .inClass :=
      place_of_inClass rfl unescaped
    rw [inside]
    change Place.outside.after (s.out ++ ['[']) = .inClass
    rw [Place.after_append, here]
    rfl
  · intro start opened
    cases opened
    refine ⟨s.out, [], rfl, rfl, here, ordered.aligned.length.symm, ?_⟩
    intro frame member
    obtain ⟨_, _, part, _⟩ := ordered.situated frame member
    exact part.lt

theorem last_class {before inner : Text} {slots : List Slot} {stop first : Nat}
    (aligned : Aligned mode slots [] (before ++ '[' :: inner))
    (outside : Place.outside.after before = .outside)
    (count : (captures before).length = slots.length) (size : slots.length + 1 = first) :
    Last mode slots (before ++ '[' :: inner) ⟨before.size, stop, first, false⟩ := by
  have admits : Admits before '[' := admits_of_inert (by decide) before
  have whole := captures_join outside (Or.inr ⟨'[', inner, rfl, admits⟩)
  have bare : captures ('[' :: inner) = [] := by
    have total := aligned.length
    rw [List.nil_append, whole, List.length_append, List.length_map] at total
    exact List.eq_nil_of_length_eq_zero (by omega)
  refine ⟨before, '[' :: inner, ⟨rfl, rfl, by rw [count]; exact size, ?_, ?_⟩, by simp⟩
  · refine ⟨outside, Or.inr ⟨'[', inner, rfl, admits⟩, Nat.le_of_eq count, ?_⟩
    rw [bare, count, List.drop_length]
    exact List.Forall₂.nil
  · exact ⟨'[', inner, rfl, by decide, admits⟩

theorem Ordered.closeClass (ordered : s.Ordered mode) {start : Nat} {more : Text}
    (rest : s.rest = ']' :: more) (class_ : s.classStart = some start)
    (unescaped : s.escaped = false) :
    ({ s.copy 1 with classStart := none }.recordAtom start).Ordered mode := by
  have inside : s.inClass = true := by simp [inClass, class_]
  have here := ordered.place (by simp [rest]) (place_of_inClass inside unescaped)
  obtain ⟨before, inner, parts, size, outside, count, starts⟩ := ordered.class_ start class_
  have copied : { s.copy 1 with classStart := none }.recordAtom start =
      { s.skip 1 with
        classStart := none
        out := s.out ++ [']']
        atom := some ⟨start, (s.out ++ [']']).size, s.groups.size, false⟩ } := by
    simp [recordAtom, rest]
  have steady : Steady .outside s.out [']'] := admits_of_inert (by decide) s.out []
  have bare : capturesFrom [] (Place.outside.after s.out) [']'] = [] := by
    rw [capturesFrom_cons_of_ne _ _ (by decide)]
    rfl
  have longer : s.out.size < (s.out ++ [']']).size := by
    rw [Text.size_append]
    have positive : 0 < Text.size [']'] := Text.size_pos (by simp)
    omega
  have free : (s.skip 1).escaped = false := by
    rw [escaped_skip_one rest]
    rfl
  have aligned := ordered.aligned.extend steady bare
  rw [copied]
  refine ⟨?_, whole_of_last (by decide) (by decide), aligned,
    fun frame member => (ordered.situated frame member).extend steady bare, ordered.slotted,
    ordered.nested, ?_, fun c recorded on => (ordered.capture c recorded on).grown longer,
    fun p recorded on => (ordered.splice p recorded on).grown longer, ?_⟩
  · intro _
    have outer : State.place { s.skip 1 with
        classStart := none
        out := s.out ++ [']']
        atom := some ⟨start, (s.out ++ [']']).size, s.groups.size, false⟩ } = .outside :=
      place_eq_outside rfl free
    rw [outer]
    change Place.outside.after (s.out ++ [']']) = .outside
    rw [Place.after_append, here]
    rfl
  · intro a recorded
    cases recorded
    refine ⟨Nat.le_refl _, fun _ => ⟨Or.inr free, shut_of_last (by decide), starts, ?_⟩⟩
    have shape : s.out ++ [']'] = before ++ '[' :: (inner ++ [']']) := by
      rw [parts]
      simp
    change Last mode s.groups.declared (s.out ++ [']']) _
    rw [shape] at aligned ⊢
    rw [← size]
    exact last_class aligned outside count rfl
  · intro start opened
    contradiction

theorem Ordered.anything (ordered : s.Ordered mode) {more : Text} (rest : s.rest = '.' :: more)
    (place : s.place = .outside) :
    (((s.emit ['[', '^', ']']).skip 1).recordAtom s.out.size).Ordered mode := by
  have here := ordered.place (by simp [rest]) place
  have steady : Steady .outside s.out ['[', '^', ']'] := admits_of_inert (by decide) s.out _
  have bare : capturesFrom [] (Place.outside.after s.out) ['[', '^', ']'] = [] := by
    rw [here]
    rfl
  have longer : s.out.size < (s.out ++ ['[', '^', ']']).size := by
    rw [Text.size_append]
    have positive : 0 < Text.size ['[', '^', ']'] := Text.size_pos (by simp)
    omega
  have free : (s.skip 1).escaped = false := by
    rw [escaped_skip_one rest]
    rfl
  have aligned := ordered.aligned.extend steady bare
  have ends : s.out ++ ['[', '^', ']'] = (s.out ++ ['[', '^']) ++ [']'] := by simp
  refine ⟨?_, ?_, aligned, fun frame member => (ordered.situated frame member).extend steady bare,
    ordered.slotted, ordered.nested, ?_,
    fun c recorded on => (ordered.capture c recorded on).grown longer,
    fun p recorded on => (ordered.splice p recorded on).grown longer, no_class place⟩
  · intro _
    have outer : (s.skip 1).place = .outside := place_skip place free
    change Place.outside.after (s.out ++ ['[', '^', ']']) = (s.skip 1).place
    rw [Place.after_append, here, outer]
    rfl
  · change Whole (s.out ++ ['[', '^', ']'])
    rw [ends]
    exact whole_of_last (by decide) (by decide)
  · intro a recorded
    cases recorded
    refine ⟨Nat.le_refl _, fun _ => ⟨Or.inr free, ?_, ?_, ?_⟩⟩
    · change Shut (s.out ++ ['[', '^', ']'])
      rw [ends]
      exact shut_of_last (by decide)
    · intro frame member
      obtain ⟨_, _, part, _⟩ := ordered.situated frame member
      exact part.lt
    · exact last_class aligned here ordered.aligned.length.symm rfl

theorem Ordered.settled (ordered : s.Ordered mode) (nonempty : s.rest ≠ [])
    (place : s.place = .outside) : Settled mode s.groups.declared s.frames s.out :=
  ⟨ordered.place nonempty place, ordered.whole, ordered.aligned, ordered.situated⟩

theorem Ordered.repeated (ordered : s.Ordered mode) (nonempty : s.rest ≠ []) {options : Options}
    {q : Quantifier} (legible : q.amount.Legible) (place : s.place = .outside)
    (reads : q.amount = .optional → alters s.out '?' = false)
    (after : (s.skip q.length).place = .outside) :
    ({ s with
      out := s.prepared (s.atom.filter (·.stop == s.out.size)) ++ q.render options.ungreedy
      atom := none }.skip q.length).Ordered mode := by
  have settled := ordered.settled nonempty place
  obtain ⟨filled, _, flat⟩ := render_spec legible options.ungreedy
  obtain ⟨out, prepared⟩ :
      ∃ out, out = s.prepared (s.atom.filter (·.stop == s.out.size)) := ⟨_, rfl⟩
  have base : Settled mode s.groups.declared s.frames out ∧ s.out.size ≤ out.size ∧
      (q.amount = .optional → Shut out) := by
    rw [prepared]
    cases recorded : s.atom.filter (·.stop == s.out.size) with
    | none => exact ⟨settled, Nat.le_refl _, fun optional => shut_of_alters (reads optional)⟩
    | some a =>
        obtain ⟨last, stop⟩ := Option.filter_eq_some_iff.mp recorded
        have closing := ((ordered.atom a last).2 (by simpa using stop)).2
        obtain ⟨wrapped, closing', longer, _⟩ := settled.prepared closing
        exact ⟨wrapped, longer, fun _ => closing'.shut⟩
  obtain ⟨settled', longer, shut⟩ := base
  have head : Shut out ∨ (q.render options.ungreedy).head? ≠ some '?' := by
    obtain ⟨c, rest, written, _⟩ := legible.head
    have same : (q.render options.ungreedy).head? = q.amount.text.head? := by
      unfold Quantifier.render
      split <;> simp [written]
    by_cases optional : q.amount = .optional
    · exact Or.inl (shut optional)
    · rw [same]
      exact Or.inr fun mark => optional (legible.mark mark)
  have final := settled'.extend filled flat head
  rw [← prepared]
  have grown : s.out.size < (out ++ q.render options.ungreedy).size := by
    have positive := Text.size_pos filled
    rw [Text.size_append]
    omega
  refine ⟨?_, final.whole, final.aligned, final.situated, ordered.slotted, ordered.nested, ?_,
    fun c recorded on => (ordered.capture c recorded on).grown grown,
    fun p recorded on => (ordered.splice p recorded on).grown grown, no_class place⟩
  · intro _
    change Place.outside.after (out ++ q.render options.ungreedy) = (s.skip q.length).place
    rw [after, final.outside]
  · intro a recorded
    contradiction

theorem Ordered.finds (ordered : s.Ordered mode) (nonempty : s.rest ≠ [])
    (place : s.place = .outside) {q : Quantifier} {a : Atom}
    (reads : s.atom.filter (·.stop == s.out.size) = none → ∀ unit,
      Atom.trailingUnit? s.out = some unit →
        isStray s.out unit = false ∧ holdsGroup unit = false)
    (found : s.quantified? q = some a) :
    Closing mode s.groups.declared s.frames s.out a := by
  rcases quantified_cases found with ⟨last, stop⟩ | ⟨_, recorded, unit, trailing, rfl⟩
  · exact ((ordered.atom a last).2 stop).2
  · obtain ⟨proper, single⟩ := reads recorded unit trailing
    exact (ordered.settled nonempty place).unit trailing proper single

theorem Ordered.possessed (ordered : s.Ordered mode) (nonempty : s.rest ≠ [])
    {q : Quantifier} (legible : q.amount.Legible) (place : s.place = .outside) {a : Atom}
    (closing : Closing mode s.groups.declared s.frames s.out a)
    (after : (s.skip q.length).place = .outside)
    (grown : mode.isSome = true → s.out.size < (s.possessed a q).out.size) :
    (s.possessed a q).Ordered mode := by
  have settled := ordered.settled nonempty place
  obtain ⟨wrapped, closing', _, first⟩ := settled.prepared closing
  obtain ⟨final, last⟩ := wrapped.possess closing' legible rfl
  refine ⟨?_, final.whole, final.aligned, final.situated, ordered.slotted, ordered.nested, ?_,
    fun c recorded on => (ordered.capture c recorded on).grown (grown on),
    fun p recorded on => (ordered.splice p recorded on).grown (grown on), no_class place⟩
  · intro _
    change Place.outside.after (Atom.makePossessive _ _ _ _).source = (s.skip q.length).place
    rw [after, final.outside]
  · intro b recorded
    cases recorded
    exact ⟨Nat.le_refl _, fun _ => ⟨Or.inr (escaped_of_place after), last⟩⟩

end State

end Conversion

end PatternDialect
