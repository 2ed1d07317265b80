import PatternDialect.Proofs.Cuttable
import PatternDialect.Proofs.Ledger

/-! What holds of every state of a conversion.

Numbers are text in the output as soon as they are emitted, and slots are inserted
before them later.  The invariant ties each number to the ledger, and every offset
that a later step may cut at to the groups before it.  The moves here only emit
characters; those that change the groups follow in the next module. -/

namespace PatternDialect.Conversion

open Character Source Backreference

structure Owned (ledger : Ledger) (frame : Frame) (identity : Option Nat) : Prop where
  plain : frame.kind.slot? = none → identity = none
  slotted : ∀ slot, frame.kind.slot? = some slot → slot = frame.firstGroup ∧
    ∃ held, identity = some held ∧ ledger.slots[slot - 1]? = some held

structure Fixed (out : Text) (groups : GroupTable) (frame : Frame) : Prop where
  positive : 0 < frame.firstGroup
  top : frame.top ≤ groups.size
  anchored : Anchored out frame.start frame.start frame.firstGroup

theorem Fixed.append {out : Text} {groups : GroupTable} {frame : Frame}
    (fixed : Fixed out groups frame) (text : Text) : Fixed (out ++ text) groups frame :=
  ⟨fixed.positive, fixed.top, fixed.anchored.append text⟩

theorem Fixed.lt {out : Text} {groups : GroupTable} {frame : Frame}
    (fixed : Fixed out groups frame) : frame.start < out.size := by
  obtain ⟨_, _, _, _, _, _, inside⟩ := fixed.anchored
  exact inside

def Held (ledger : Ledger) (slot : Nat) (identity : Option Nat) : Prop :=
  0 < slot ∧ ∃ held, identity = some held ∧ ledger.slots[slot - 1]? = some held

namespace State

/-- What was recorded for the end of the output holds while that is its end. -/
def Marked (s : State) (stop : Nat) (property : Prop) : Prop :=
  stop ≤ s.out.size ∧ (stop = s.out.size → (s.rest = [] ∨ s.escaped = false) ∧ property)

structure Sound (s : State) (ledger : Ledger) : Prop where
  tracks : s.rest ≠ [] → Place.outside.after s.out = s.place
  books : ledger.Books s.out s.groups
  held : (Reader.start.after s.out).digits ≠ [] → s.referenceEnd = some s.out.size
  owned : List.Forall₂ (Owned ledger) s.frames ledger.pending
  nested : s.frames.Pairwise fun inner outer =>
    outer.start ≤ inner.start ∧ outer.top ≤ inner.firstGroup
  fixed : ∀ frame ∈ s.frames, Fixed s.out s.groups frame
  atom : ∀ a, s.atom = some a → s.Marked a.stop (Repeatable s.out s.groups s.frames a)
  capture : ∀ c, s.capture = some c → s.Marked c.stop (Held ledger c.slot ledger.capture)
  splice : ∀ p, s.splice = some p → s.Marked p.stop (Held ledger p.slot ledger.splice)
  class_ : ∀ start, s.classStart = some start →
    ∃ before inner, s.out = before ++ '[' :: inner ∧ before.size = start ∧
      Place.outside.after before = .outside ∧ ∀ frame ∈ s.frames, frame.start ≤ start

theorem Sound.start (text : Text) : (State.start text).Sound {} := by
  refine ⟨fun _ => rfl, Ledger.Books.start, ?_, List.Forall₂.nil, List.Pairwise.nil, ?_, ?_, ?_,
    ?_, ?_⟩
  · exact fun held => absurd rfl held
  · intro frame member
    contradiction
  · intro a recorded
    contradiction
  · intro c recorded
    contradiction
  · intro p recorded
    contradiction
  · intro start opened
    contradiction

theorem Marked.grown {s next : State} {stop : Nat} {property property' : Prop}
    (marked : s.Marked stop property) (longer : s.out.size < next.out.size) :
    next.Marked stop property' := by
  have low := marked.1
  exact ⟨by omega, fun equality => by omega⟩

theorem Marked.kept {s next : State} {stop : Nat} {property property' : Prop}
    (marked : s.Marked stop property) (same : next.out = s.out)
    (still : next.rest = [] ∨ next.escaped = false) (keep : property → property') :
    next.Marked stop property' := by
  rw [Marked, same]
  exact ⟨marked.1, fun equality => ⟨still, keep (marked.2 equality).2⟩⟩

theorem Marked.extended {s next : State} {text : Text} {stop : Nat} {property property' : Prop}
    (marked : s.Marked stop property) (out : next.out = s.out ++ text)
    (still : text = [] → next.rest = [] ∨ next.escaped = false)
    (keep : text = [] → property → property') : next.Marked stop property' := by
  by_cases empty : text = []
  · have same : next.out = s.out := by rw [out, empty, List.append_nil]
    exact marked.kept same (still empty) (keep empty)
  · apply marked.grown
    rw [out, Text.size_append]
    have positive := Text.size_pos empty
    omega

theorem references_silent {out text : Text} (nonempty : text ≠ [])
    (apart : (Reader.start.after out).digits ≠ [] → text.head?.all (!isDigit ·) = true)
    (silent : Reader.passed ⟨Place.outside.after out, []⟩ text = [] ∧
      (Reader.after ⟨Place.outside.after out, []⟩ text).digits = []) :
    references (out ++ text) = references out ∧
      (Reader.start.after (out ++ text)).digits = [] := by
  obtain ⟨passed, after⟩ :=
    Reader.reads_apart (Reader.Proper.start.after out) nonempty apart
  rw [Reader.place_start] at passed after
  rw [silent.1, List.append_nil] at passed
  have nothing : (Reader.after ⟨Place.outside.after out, []⟩ text).held = [] := by
    simp [Reader.held, silent.2]
  constructor
  · rw [references, Reader.read_append, Reader.read, passed, after, nothing, List.append_nil]
    rfl
  · rw [Reader.after_append, after]
    exact silent.2

theorem references_flat {out text : Text} (outside : Place.outside.after out = .outside)
    (nonempty : text ≠ []) (head : text.head?.all (!isDigit ·) = true)
    (flat : Place.isFlat text = true) :
    references (out ++ text) = references out ∧
      Reader.start.after (out ++ text) = ⟨.outside, []⟩ := by
  obtain ⟨flatAfter, flatPassed, _⟩ := Place.reads_of_flat flat []
  obtain ⟨same, _⟩ := references_silent nonempty (fun _ => head)
    (by rw [outside, flatAfter, flatPassed]; exact ⟨rfl, rfl⟩)
  refine ⟨same, ?_⟩
  obtain ⟨_, after⟩ :=
    Reader.reads_apart (Reader.Proper.start.after out) nonempty (fun _ => head)
  rw [Reader.after_append, after, Reader.place_start, outside, flatAfter]

variable {s : State} {ledger : Ledger}

theorem Sound.extend (sound : s.Sound ledger) (next : State) (text : Text)
    (out : next.out = s.out ++ text)
    (groups : next.groups = s.groups) (frames : next.frames = s.frames)
    (atom : next.atom = s.atom) (capture : next.capture = s.capture)
    (splice : next.splice = s.splice) (class_ : next.classStart = s.classStart)
    (tracks : next.rest ≠ [] → Place.outside.after next.out = next.place)
    (references : Source.references next.out = Source.references s.out)
    (held : (Reader.start.after next.out).digits ≠ [] → next.referenceEnd = some next.out.size)
    (still : text = [] → next.rest = [] ∨ next.escaped = false) : next.Sound ledger := by
  refine ⟨tracks, ?_, held, ?_, ?_, ?_, ?_, ?_, ?_, ?_⟩
  · rw [groups]
    exact sound.books.same references
  · rw [frames]
    exact sound.owned
  · rw [frames]
    exact sound.nested
  · intro frame member
    rw [frames] at member
    rw [out, groups]
    exact (sound.fixed frame member).append text
  · intro a recorded
    rw [atom] at recorded
    apply (sound.atom a recorded).extended out still
    intro empty repeatable
    rw [out, empty, List.append_nil, groups, frames]
    exact repeatable
  · intro c recorded
    rw [capture] at recorded
    exact (sound.capture c recorded).extended out still fun _ held => held
  · intro p recorded
    rw [splice] at recorded
    exact (sound.splice p recorded).extended out still fun _ held => held
  · intro start opened
    rw [class_] at opened
    obtain ⟨before, inner, parts, size, outside, starts⟩ := sound.class_ start opened
    refine ⟨before, inner ++ text, ?_, size, outside, ?_⟩
    · rw [out, parts]
      simp
    · rw [frames]
      exact starts

theorem Sound.place (sound : s.Sound ledger) (nonempty : s.rest ≠ []) {place : Place}
    (here : s.place = place) : Place.outside.after s.out = place :=
  (sound.tracks nonempty).trans here

theorem Sound.write (sound : s.Sound ledger) (nonempty : s.rest ≠ []) {count : Nat} {text : Text}
    (quiet : s.Quiet count text) : ((s.emit text).skip count).Sound ledger := by
  have place := sound.tracks nonempty
  have reads : text ≠ [] → references (s.out ++ text) = references s.out ∧
      (Reader.start.after (s.out ++ text)).digits = [] := by
    intro filled
    apply references_silent filled
    · intro digits
      apply quiet.apart (sound.held digits)
      rw [← place, ← Reader.place_start]
      exact (Reader.Proper.start.after s.out).outside digits
    · rw [place]
      exact quiet.silent
  apply sound.extend ((s.emit text).skip count) text rfl rfl rfl rfl rfl rfl rfl
  · intro left
    have after := quiet.place left
    change Place.outside.after (s.out ++ text) = (s.skip count).place
    rw [Place.after_append, place, after]
  · change references (s.out ++ text) = references s.out
    by_cases empty : text = []
    · rw [empty, List.append_nil]
    · exact (reads empty).1
  · intro digits
    by_cases empty : text = []
    · subst empty
      have same : ((s.emit []).skip count).out = s.out := by simp
      rw [same] at digits ⊢
      exact sound.held digits
    · exact absurd (reads empty).2 digits
  · intro empty
    by_cases done : ((s.emit text).skip count).rest = []
    · exact Or.inl done
    · right
      cases escape : ((s.emit text).skip count).escaped with
      | false => rfl
      | true => exact absurd empty (quiet.grows done escape)

theorem classStart_of_place (place : s.place = .outside) : s.classStart = none := by
  have class_ := inClass_of_place place
  simpa [inClass] using class_

theorem no_class (place : s.place = .outside) {property : Nat → Prop} (start : Nat)
    (opened : s.classStart = some start) : property start := by
  rw [classStart_of_place place] at opened
  contradiction

theorem restore_spec {c : Char} {more : Text} (rest : s.rest = c :: more)
    (here : Place.outside.after s.out = .escape) (place : s.place = .escape)
    (kept : isBlank c = true ∨ c = '#') :
    ∃ front, s.out = front ++ ['\\'] ∧ Place.outside.after front = .outside ∧
      s.dropEscape.copy 1 = { s.skip 1 with out := front ++ [c] } ∧
        (s.skip 1).place = .outside ∧
          ∀ {stop : Nat} {property property' : Prop}, s.Marked stop property →
            State.Marked { s.skip 1 with out := front ++ [c] } stop property' := by
  have escaped : s.escaped = true := by
    rw [← isEscape_place, place]
    rfl
  have class_ : s.inClass = false := by
    rw [← inside_place, place]
    rfl
  obtain ⟨front, out, outside⟩ := Place.split_of_escape here
  have dropped : s.dropEscape = { s with out := front } := by
    unfold dropEscape
    rw [out]
    simp
  refine ⟨front, out, outside, ?_, ?_, ?_⟩
  · rw [dropped]
    simp [copy, emit, State.skip, rest]
  · refine place_eq_outside (s := s.skip 1) class_ ?_
    have notSlash : c ≠ '\\' := by
      rintro rfl
      revert kept
      decide
    rw [escaped_skip_one rest, beq_eq_false_iff_ne.mpr notSlash, Bool.false_and]
  · intro stop property property' marked
    have low := marked.1
    have other : stop ≠ s.out.size := by
      intro equality
      rcases (marked.2 equality).1 with empty | unescaped
      · rw [rest] at empty
        contradiction
      · rw [escaped] at unescaped
        contradiction
    have one : '\\'.utf8Size = 1 := by decide
    have positive := c.utf8Size_pos
    have size : s.out.size = front.size + 1 := by
      rw [out]
      simp [one]
    have after : Text.size (front ++ [c]) = front.size + c.utf8Size := by simp
    refine ⟨?_, ?_⟩
    · change stop ≤ Text.size (front ++ [c])
      omega
    · intro equality
      change stop = Text.size (front ++ [c]) at equality
      omega

theorem Sound.restore (sound : s.Sound ledger) {c : Char} {more : Text} (rest : s.rest = c :: more)
    (place : s.place = .escape) (kept : isBlank c = true ∨ c = '#') :
    (s.dropEscape.copy 1).Sound ledger := by
  have here := sound.place (by simp [rest]) place
  obtain ⟨front, out, frontPlace, copied, after, marks⟩ := restore_spec rest here place kept
  have ne : c ≠ '\\' ∧ c ≠ '[' ∧ isDigit c = false := by
    rcases kept with blank | rfl
    · refine ⟨?_, ?_, isDigit_of_isBlank blank⟩
      · rintro rfl
        exact absurd blank (by decide)
      · rintro rfl
        exact absurd blank (by decide)
    · decide
  obtain ⟨notSlash, notBracket, noDigit⟩ := ne
  have backslash : references (front ++ ['\\']) = references front :=
    (references_silent (by simp) (fun _ => rfl) (by rw [frontPlace]; decide)).1
  obtain ⟨same, digits⟩ : references (front ++ [c]) = references front ∧
      (Reader.start.after (front ++ [c])).digits = [] := by
    apply references_silent (by simp) (fun _ => by simp [noDigit])
    rw [frontPlace]
    simp [Reader.passed_cons, Reader.next, Reader.takes, Reader.held]
  rw [copied]
  refine ⟨?_, ?_, ?_, sound.owned, sound.nested, ?_, ?_, ?_, ?_, ?_⟩
  · intro _
    change Place.outside.after (front ++ [c]) = (s.skip 1).place
    rw [Place.after_append, frontPlace, after]
    simp [Place.next, notSlash, notBracket]
  · apply sound.books.same
    change references (front ++ [c]) = references s.out
    rw [out, same, backslash]
  · intro held
    exact absurd digits held
  · intro frame member
    obtain ⟨positive, top, anchored⟩ := sound.fixed frame member
    rw [out] at anchored here
    exact ⟨positive, top, anchored.exchange here noDigit⟩
  · exact fun a recorded => marks (sound.atom a recorded)
  · exact fun c' recorded => marks (sound.capture c' recorded)
  · exact fun p recorded => marks (sound.splice p recorded)
  · exact no_class after

theorem Sound.below (sound : s.Sound ledger) : ∀ n ∈ references s.out, n < s.groups.size :=
  fun _ member => (sound.books.bounds member).2

theorem repeatable_class {before inner : Text} {groups : GroupTable} {frames : List Frame}
    (fixed : ∀ frame ∈ frames, Fixed (before ++ '[' :: inner) groups frame)
    (outside : Place.outside.after before = .outside)
    (below : ∀ n ∈ references before, n < groups.size)
    (starts : ∀ frame ∈ frames, frame.start ≤ before.size) (stop : Nat) :
    Repeatable (before ++ '[' :: inner) groups frames
      ⟨before.size, stop, groups.size, false⟩ := by
  refine ⟨by simp [GroupTable.size], Nat.le_refl _, ?_, ?_⟩
  · refine ⟨before, [], '[' :: inner, ?_, Nat.le_refl _, by simp, ?_⟩
    · refine ⟨rfl, rfl, ?_, by simpa using outside, rfl, below⟩
      rw [outside]
      rfl
    · have positive := '['.utf8Size_pos
      change before.size < (before ++ '[' :: inner).size
      rw [Text.size_append, Text.size_cons]
      omega
  · intro frame member
    have anchored := (fixed frame member).anchored
    refine ⟨(fixed frame member).top, ?_⟩
    rw [Nat.min_eq_right (starts frame member)]
    exact anchored

theorem Sound.openClass (sound : s.Sound ledger) {more : Text} (rest : s.rest = '[' :: more)
    (place : s.place = .outside) :
    ({ s with classStart := some s.out.size }.copy 1).Sound ledger := by
  have nonempty : s.rest ≠ [] := by simp [rest]
  have here := sound.place nonempty place
  have copied : { s with classStart := some s.out.size }.copy 1 =
      { s.skip 1 with classStart := some s.out.size, out := s.out ++ ['['] } := by
    simp [copy, emit, State.skip, rest]
  obtain ⟨same, digits⟩ : references (s.out ++ ['[']) = references s.out ∧
      (Reader.start.after (s.out ++ ['['])).digits = [] :=
    references_silent (by simp) (fun _ => rfl) (by rw [here]; decide)
  have longer : s.out.size < (s.out ++ ['[']).size := by
    rw [Text.size_append]
    have positive : 0 < Text.size ['['] := Text.size_pos (by simp)
    omega
  rw [copied]
  refine ⟨?_, sound.books.same same, ?_, sound.owned, sound.nested, ?_, ?_, ?_, ?_, ?_⟩
  · intro _
    have unescaped : (s.skip 1).escaped = false := by
      rw [escaped_skip_one rest]
      rfl
    have inside : State.place
        { s.skip 1 with classStart := some s.out.size, out := s.out ++ ['['] } = .inClass :=
      place_of_inClass rfl unescaped
    rw [inside]
    change Place.outside.after (s.out ++ ['[']) = .inClass
    rw [Place.after_append, here]
    rfl
  · exact fun held => absurd digits held
  · exact fun frame member => (sound.fixed frame member).append ['[']
  · exact fun a recorded => (sound.atom a recorded).grown longer
  · exact fun c recorded => (sound.capture c recorded).grown longer
  · exact fun p recorded => (sound.splice p recorded).grown longer
  · intro start opened
    cases opened
    exact ⟨s.out, [], rfl, rfl, here, fun frame member =>
      Nat.le_of_lt (sound.fixed frame member).lt⟩

theorem Sound.closeClass (sound : s.Sound ledger) {start : Nat} {more : Text}
    (rest : s.rest = ']' :: more) (class_ : s.classStart = some start)
    (unescaped : s.escaped = false) :
    ({ s.copy 1 with classStart := none }.recordAtom start).Sound ledger := by
  have nonempty : s.rest ≠ [] := by simp [rest]
  have inside : s.inClass = true := by simp [inClass, class_]
  have here := sound.place nonempty (place_of_inClass inside unescaped)
  obtain ⟨before, inner, parts, size, outside, starts⟩ := sound.class_ start class_
  have copied : { s.copy 1 with classStart := none }.recordAtom start =
      { s.skip 1 with
        classStart := none
        out := s.out ++ [']']
        atom := some ⟨start, (s.out ++ [']']).size, s.groups.size, false⟩ } := by
    simp [recordAtom, rest]
  obtain ⟨same, digits⟩ : references (s.out ++ [']']) = references s.out ∧
      (Reader.start.after (s.out ++ [']'])).digits = [] :=
    references_silent (by simp) (fun _ => rfl) (by rw [here]; decide)
  have longer : s.out.size < (s.out ++ [']']).size := by
    rw [Text.size_append]
    have positive : 0 < Text.size [']'] := Text.size_pos (by simp)
    omega
  have free : (s.skip 1).escaped = false := by
    rw [escaped_skip_one rest]
    rfl
  have fixed : ∀ frame ∈ s.frames, Fixed (s.out ++ [']']) s.groups frame := fun frame member =>
    (sound.fixed frame member).append [']']
  rw [copied]
  refine ⟨?_, sound.books.same same, ?_, sound.owned, sound.nested, fixed, ?_, ?_, ?_, ?_⟩
  · intro _
    have outer : State.place { s.skip 1 with
        classStart := none
        out := s.out ++ [']']
        atom := some ⟨start, (s.out ++ [']']).size, s.groups.size, false⟩ } = .outside :=
      place_eq_outside rfl free
    rw [outer]
    change Place.outside.after (s.out ++ [']']) = .outside
    rw [Place.after_append, here]
    rfl
  · exact fun held => absurd digits held
  · intro a recorded
    cases recorded
    refine ⟨Nat.le_refl _, fun _ => ⟨Or.inr free, ?_⟩⟩
    have below : ∀ n ∈ references before, n < s.groups.size := by
      intro n member
      apply sound.below n
      rw [parts]
      exact references_subset rfl n member
    have shape : s.out ++ [']'] = before ++ '[' :: (inner ++ [']']) := by
      rw [parts]
      simp
    rw [← size] at starts ⊢
    change Repeatable (s.out ++ [']']) s.groups s.frames _
    rw [shape] at fixed ⊢
    exact repeatable_class fixed outside below starts _
  · exact fun c recorded => (sound.capture c recorded).grown longer
  · exact fun p recorded => (sound.splice p recorded).grown longer
  · intro start opened
    contradiction

theorem Sound.anything (sound : s.Sound ledger) {more : Text} (rest : s.rest = '.' :: more)
    (place : s.place = .outside) :
    (((s.emit ['[', '^', ']']).skip 1).recordAtom s.out.size).Sound ledger := by
  have nonempty : s.rest ≠ [] := by simp [rest]
  have here := sound.place nonempty place
  obtain ⟨same, digits⟩ : references (s.out ++ ['[', '^', ']']) = references s.out ∧
      (Reader.start.after (s.out ++ ['[', '^', ']'])).digits = [] :=
    references_silent (by simp) (fun _ => rfl) (by rw [here]; decide)
  have longer : s.out.size < (s.out ++ ['[', '^', ']']).size := by
    rw [Text.size_append]
    have positive : 0 < Text.size ['[', '^', ']'] := Text.size_pos (by simp)
    omega
  have free : (s.skip 1).escaped = false := by
    rw [escaped_skip_one rest]
    rfl
  have fixed : ∀ frame ∈ s.frames, Fixed (s.out ++ ['[', '^', ']']) s.groups frame :=
    fun frame member => (sound.fixed frame member).append _
  refine ⟨?_, sound.books.same same, ?_, sound.owned, sound.nested, fixed, ?_, ?_, ?_, ?_⟩
  · intro _
    have outer : (s.skip 1).place = .outside := place_skip place free
    change Place.outside.after (s.out ++ ['[', '^', ']']) = (s.skip 1).place
    rw [Place.after_append, here, outer]
    rfl
  · exact fun held => absurd digits held
  · intro a recorded
    cases recorded
    refine ⟨Nat.le_refl _, fun _ => ⟨Or.inr free, ?_⟩⟩
    exact repeatable_class fixed here sound.below (fun frame member =>
      Nat.le_of_lt (sound.fixed frame member).lt) _
  · exact fun c recorded => (sound.capture c recorded).grown longer
  · exact fun p recorded => (sound.splice p recorded).grown longer
  · exact no_class place

theorem fixed_of_clear {out out' : Text} {groups groups' : GroupTable} {frames : List Frame}
    {a : Atom} (fixed : ∀ frame ∈ frames, Fixed out groups frame) (clear : Clear out' frames a)
    (grown : groups.size ≤ groups'.size) : ∀ frame ∈ frames, Fixed out' groups' frame := by
  intro frame member
  obtain ⟨positive, top, _⟩ := fixed frame member
  obtain ⟨_, anchored⟩ := clear frame member
  exact ⟨positive, Nat.le_trans top grown, anchored.mono (Nat.min_le_right _ _)⟩

theorem prepared_reads {out : Text} {groups : GroupTable} {frames : List Frame} {a : Atom}
    (cuttable : Cuttable out groups frames a) (outside : Place.outside.after out = .outside) :
    references (a.prepared out).1 = references out ∧
      Place.outside.after (a.prepared out).1 = .outside ∧
        Cuttable (a.prepared out).1 groups frames (a.prepared out).2 ∧
          out.size ≤ (a.prepared out).1.size ∧
            (a.prepared out).2.firstGroup = a.firstGroup := by
  unfold Atom.prepared
  cases a.emulated with
  | false => exact ⟨rfl, outside, cuttable, Nat.le_refl _, rfl⟩
  | true =>
      obtain ⟨same, after, repeatable, longer⟩ := cuttable.wrap outside
      refine ⟨same, ?_, repeatable.cuttable, Nat.le_of_lt longer, rfl⟩
      rw [if_pos rfl, ← Reader.place_start, after]

theorem render_spec {q : Quantifier} (legible : q.amount.Legible) (ungreedy : Bool) :
    q.render ungreedy ≠ [] ∧ (q.render ungreedy).head?.all (!isDigit ·) = true ∧
      Place.isFlat (q.render ungreedy) = true := by
  obtain ⟨c, rest, written, noDigit⟩ := legible.head
  have flat : Place.isFlat q.amount.text = true := by
    simp only [Place.isFlat, List.all_eq_true, Bool.and_eq_true, bne_iff_ne]
    intro d member
    have ne := Repeat.ne_of_isAmount (legible.all d member)
    exact ⟨⟨ne.1, ne.2.1⟩, ne.2.2.2⟩
  unfold Quantifier.render
  split
  · refine ⟨by simp, by simp [written, noDigit], ?_⟩
    simp only [Place.isFlat, List.all_append, Bool.and_eq_true] at flat ⊢
    exact ⟨flat, by decide⟩
  · exact ⟨by simp [written], by simp [written, noDigit], flat⟩

theorem Sound.repeated (sound : s.Sound ledger) (nonempty : s.rest ≠ []) {options : Options}
    {q : Quantifier} (legible : q.amount.Legible) (place : s.place = .outside)
    (after : (s.skip q.length).place = .outside) :
    ({ s with
      out := s.prepared (s.atom.filter (·.stop == s.out.size)) ++ q.render options.ungreedy
      atom := none }.skip q.length).Sound ledger := by
  have here := sound.place nonempty place
  obtain ⟨filled, head, flat⟩ := render_spec legible options.ungreedy
  obtain ⟨out, prepared⟩ :
      ∃ out, out = s.prepared (s.atom.filter (·.stop == s.out.size)) := ⟨_, rfl⟩
  have base : references out = references s.out ∧ Place.outside.after out = .outside ∧
      s.out.size ≤ out.size ∧ ∀ frame ∈ s.frames, Fixed out s.groups frame := by
    rw [prepared]
    cases recorded : s.atom.filter (·.stop == s.out.size) with
    | none => exact ⟨rfl, here, Nat.le_refl _, sound.fixed⟩
    | some a =>
        obtain ⟨last, stop⟩ := Option.filter_eq_some_iff.mp recorded
        have repeatable := ((sound.atom a last).2 (by simpa using stop)).2
        obtain ⟨same, outside, cuttable, longer, _⟩ := prepared_reads repeatable.cuttable here
        exact ⟨same, outside, longer, fixed_of_clear sound.fixed cuttable.clear (Nat.le_refl _)⟩
  obtain ⟨same, outside, longer, fixed⟩ := base
  obtain ⟨quiet, reader⟩ := references_flat outside filled head flat
  rw [← prepared]
  have grown : s.out.size < (out ++ q.render options.ungreedy).size := by
    have positive := Text.size_pos filled
    rw [Text.size_append]
    omega
  refine ⟨?_, sound.books.same (quiet.trans same), ?_, sound.owned, sound.nested, ?_, ?_, ?_, ?_,
    ?_⟩
  · intro _
    change Place.outside.after (out ++ q.render options.ungreedy) = (s.skip q.length).place
    rw [after, ← Reader.place_start, reader]
  · intro held
    change (Reader.start.after (out ++ q.render options.ungreedy)).digits ≠ [] at held
    rw [reader] at held
    exact absurd rfl held
  · exact fun frame member => (fixed frame member).append _
  · intro a recorded
    contradiction
  · exact fun c recorded => (sound.capture c recorded).grown grown
  · exact fun p recorded => (sound.splice p recorded).grown grown
  · exact no_class place

end State

end PatternDialect.Conversion
