import PatternDialect.Proofs.Order
import PatternDialect.Proofs.Progress
import PatternDialect.Proofs.Tails

/-! Offsets into the output.

Where groups, classes and units start is remembered as offsets into an output that is
written on, cut and put together again.  They stay between characters as long as no unit
that is searched for reaches back over the start of an open group. -/

namespace PatternDialect

open Character

namespace Text

/-- Offsets between two characters, before the end of the text. -/
def Inside (text : Text) (offset : Nat) : Prop :=
  ∃ front back, text = front ++ back ∧ back ≠ [] ∧ front.size = offset

variable {text w : Text} {offset : Nat}

theorem Inside.splitAt? (inside : text.Inside offset) : (text.splitAt? offset).isSome = true := by
  obtain ⟨front, back, rfl, _, rfl⟩ := inside
  rw [splitAt?_size_append]
  rfl

theorem Inside.lt (inside : text.Inside offset) : offset < text.size := by
  obtain ⟨front, back, rfl, filled, rfl⟩ := inside
  have positive := size_pos filled
  rw [size_append]
  omega

theorem inside_size (text : Text) (filled : w ≠ []) : Inside (text ++ w) text.size :=
  ⟨text, w, rfl, filled, rfl⟩

theorem Inside.append (inside : text.Inside offset) (w : Text) : Inside (text ++ w) offset := by
  obtain ⟨front, back, rfl, filled, size⟩ := inside
  exact ⟨front, back ++ w, List.append_assoc _ _ _, by simp [filled], size⟩

theorem Inside.dropLast (inside : text.Inside offset) (filled : w ≠ []) :
    Inside (text.dropLast ++ w) offset := by
  obtain ⟨front, back, rfl, other, size⟩ := inside
  refine ⟨front, back.dropLast ++ w, ?_, by simp [filled], size⟩
  rw [List.dropLast_append_of_ne_nil other, List.append_assoc]

theorem Inside.size_takeBytes (inside : text.Inside offset) :
    (text.takeBytes offset).size = offset := by
  obtain ⟨front, back, rfl, _, rfl⟩ := inside
  rw [takeBytes_size_append]

theorem Inside.takeBytes {cut : Nat} (inside : text.Inside offset) (later : text.Inside cut)
    (le : offset ≤ cut) (filled : w ≠ []) : Inside (text.takeBytes cut ++ w) offset := by
  obtain ⟨front, back, rfl, _, rfl⟩ := inside
  obtain ⟨front', back', same, _, rfl⟩ := later
  rw [same, takeBytes_size_append]
  rcases List.append_eq_append_iff.mp same with ⟨middle, rfl, _⟩ | ⟨middle, rfl, _⟩
  · exact ⟨front, middle ++ w, List.append_assoc _ _ _, by simp [filled], rfl⟩
  · have empty : middle = [] := by
      by_contra other
      have positive := size_pos other
      rw [size_append] at le
      omega
    subst empty
    exact ⟨front', w, rfl, filled, by simp⟩

end Text

/-! ### Constructs -/

namespace Construct

theorem size_quantifier (q : Quantifier) : Text.size q.text = q.size := by
  have mark : '?'.utf8Size = 1 ∧ '+'.utf8Size = 1 := by decide
  unfold Quantifier.text Quantifier.size
  cases q.lazy <;> cases q.possessive <;> simp [mark]

theorem size_opener (form : Opener) : Text.size form.text = form.length := by
  cases form with
  | lookahead negative | lookbehind negative => cases negative <;> decide
  | capture | plain | named | atomic | unknown => decide

theorem utf8Size_of_isLetter {c : Char} (letter : isLetter c = true) : c.utf8Size = 1 := by
  apply Char.utf8Size_eq_one_iff.mpr
  simp only [isLetter, Bool.or_eq_true, Bool.and_eq_true, decide_eq_true_eq] at letter
  rcases letter with lower | upper
  · exact UInt32.le_trans lower.2 (by decide)
  · exact UInt32.le_trans upper.2 (by decide)

theorem exists_text_of_at? {delimiter : Option Char} {before after : Text} {construct : Construct}
    (found : at? delimiter before after = some construct) :
    ∃ text more, after = text ++ more ∧ text.length = construct.length ∧
      text.size = construct.size := by
  have stands := stands_of_at? found
  have single : ∀ {c : Char}, c.utf8Size = 1 → Text.size [c] = 1 := by simp
  have pair : ∀ {c d : Char}, c.utf8Size = 1 → d.utf8Size = 1 → Text.size [c, d] = 2 := by simp_all
  have digits : ∀ {d : Char}, isDigit d = true → d.utf8Size = 1 := by
    intro d digit
    have size : Text.size [d] = 1 := Text.size_digits (List.forall_mem_singleton.mpr digit)
    simpa using size
  cases construct with
  | blank c =>
      obtain ⟨_, more, rfl⟩ := stands
      exact ⟨[c], more, rfl, rfl, by simp [Construct.size]⟩
  | flagsDelimiter c =>
      obtain ⟨_, more, rfl⟩ := stands
      exact ⟨[c], more, rfl, rfl, by simp [Construct.size]⟩
  | quantifier q =>
      obtain ⟨_, more, rfl⟩ := stands
      exact ⟨q.text, more, rfl, Quantifier.length_text q, size_quantifier q⟩
  | openGroup form =>
      obtain ⟨more, rfl, rfl⟩ := stands
      have taken := Opener.take_length more
      refine ⟨(Opener.read more).text, ('(' :: more).drop (Opener.read more).length, ?_, ?_,
        size_opener _⟩
      · rw [← taken, List.take_append_drop]
      · generalize Opener.read more = form
        cases form <;> rfl
  | nameReference form =>
      obtain ⟨_, more, rfl⟩ := stands
      exact ⟨form.opener, more, rfl, rfl, by cases form <;> decide⟩
  | numberReference =>
      obtain ⟨d, more, rfl, digit⟩ := stands
      exact ⟨['$', d], more, rfl, rfl, pair (by decide) (digits digit)⟩
  | escapedDigit d =>
      obtain ⟨_, digit, more, rfl⟩ := stands
      exact ⟨['\\', d], more, rfl, rfl, pair (by decide) (digits digit)⟩
  | escapedLetter l =>
      obtain ⟨_, letter, more, rfl⟩ := stands
      exact ⟨['\\', l], more, rfl, rfl, pair (by decide) (utf8Size_of_isLetter letter)⟩
  | openClass =>
      obtain ⟨more, rfl⟩ := stands
      exact ⟨['['], more, rfl, rfl, single (by decide)⟩
  | closeClass =>
      obtain ⟨_, more, rfl⟩ := stands
      exact ⟨[']'], more, rfl, rfl, single (by decide)⟩
  | dot =>
      obtain ⟨more, rfl⟩ := stands
      exact ⟨['.'], more, rfl, rfl, single (by decide)⟩
  | closeGroup =>
      obtain ⟨more, rfl⟩ := stands
      exact ⟨[')'], more, rfl, rfl, single (by decide)⟩
  | comment =>
      obtain ⟨more, rfl⟩ := stands
      exact ⟨['#'], more, rfl, rfl, single (by decide)⟩

theorem splitAt?_of_at? {delimiter : Option Char} {before after : Text} {construct : Construct}
    (found : at? delimiter before after = some construct) :
    Text.splitAt? (before.size + construct.size) (before.reverse ++ after) =
      some (before.reverse ++ after.take construct.length, after.drop construct.length) := by
  obtain ⟨text, more, rfl, length, size⟩ := exists_text_of_at? found
  have whole : before.size + construct.size = Text.size (before.reverse ++ text) := by
    rw [Text.size_append, Text.size_reverse, size]
  rw [← length, List.take_left, List.drop_left, whole, ← List.append_assoc,
    Text.splitAt?_size_append]

end Construct

/-! ### States -/

namespace Conversion

namespace State

variable {options : Options} {delimiter : Option Char} {s next : State}

/-- A state whose offsets lie between the characters of its output, with the open groups
around each other and around the open class, and the last atom in or behind each. -/
structure Grounded (s : State) : Prop where
  frames : ∀ frame ∈ s.frames, s.out.Inside frame.start
  nested : s.frames.Pairwise fun inner outer => outer.start ≤ inner.start
  class_ : ∀ start, s.classStart = some start →
    s.out.Inside start ∧ ∀ frame ∈ s.frames, frame.start ≤ start
  atom : ∀ a, s.atom = some a → s.out.Inside a.start ∧ a.stop ≤ s.out.size ∧
    ∀ frame ∈ s.frames, frame.start ≤ a.start ∨ a.stop ≤ frame.start

theorem grounded_start (text : Text) : (start text).Grounded :=
  ⟨by simp [start], List.Pairwise.nil, fun _ none_ => by contradiction,
    fun _ none_ => by contradiction⟩

namespace Grounded

theorem grown (grounded : s.Grounded)
    (keeps : ∀ offset, s.out.Inside offset → next.out.Inside offset)
    (size : s.out.size ≤ next.out.size) (frames : next.frames = s.frames)
    (class_ : next.classStart = s.classStart) (atom : next.atom = s.atom) : next.Grounded := by
  refine ⟨?_, ?_, ?_, ?_⟩
  · rw [frames]
    exact fun frame member => keeps _ (grounded.frames frame member)
  · rw [frames]
    exact grounded.nested
  · rw [frames, class_]
    intro start opened
    obtain ⟨inside, around⟩ := grounded.class_ start opened
    exact ⟨keeps _ inside, around⟩
  · rw [frames, atom]
    intro a recorded
    obtain ⟨inside, stop, around⟩ := grounded.atom a recorded
    exact ⟨keeps _ inside, Nat.le_trans stop size, around⟩

theorem emit (grounded : s.Grounded) (text : Text) : (s.emit text).Grounded :=
  grounded.grown (fun _ inside => inside.append text) (by simp) rfl rfl rfl

theorem skip (grounded : s.Grounded) (count : Nat) : (s.skip count).Grounded :=
  ⟨grounded.frames, grounded.nested, grounded.class_, grounded.atom⟩

theorem copy (grounded : s.Grounded) (count : Nat) : (s.copy count).Grounded :=
  (grounded.emit _).skip count

theorem emitReference (grounded : s.Grounded) (slot : Nat) : (s.emitReference slot).Grounded := by
  have written := grounded.emit (Backreference.render slot)
  exact ⟨written.frames, written.nested, written.class_, written.atom⟩

theorem dropEscape (grounded : s.Grounded) (nonempty : s.rest ≠ []) :
    (s.dropEscape.copy 1).Grounded := by
  unfold State.dropEscape
  split
  · rename_i last
    obtain ⟨c, more, rest⟩ := List.exists_cons_of_ne_nil nonempty
    have out : (State.copy { s with out := s.out.dropLast } 1).out = s.out.dropLast ++ [c] := by
      simp [rest]
    obtain ⟨front, whole⟩ := List.getLast?_eq_some_iff.mp last
    have size : s.out.size ≤ Text.size (s.out.dropLast ++ [c]) := by
      have slash : '\\'.utf8Size = 1 := by decide
      have positive := c.utf8Size_pos
      simp [whole, slash]
      omega
    exact grounded.grown (fun _ inside => out ▸ inside.dropLast (by simp)) (out ▸ size) rfl rfl rfl
  · exact grounded.copy 1

theorem recordAtom (grounded : s.Grounded) {start : Nat} (inside : s.out.Inside start)
    (around : ∀ frame ∈ s.frames, frame.start ≤ start) : (s.recordAtom start).Grounded := by
  refine ⟨grounded.frames, grounded.nested, grounded.class_, fun a recorded => ?_⟩
  obtain rfl := Option.some.inj recorded
  exact ⟨inside, Nat.le_refl _, fun frame member => Or.inl (around frame member)⟩

theorem openClass (grounded : s.Grounded) (nonempty : s.rest ≠ []) : s.openClass.Grounded := by
  unfold State.openClass
  split
  · exact grounded.copy 1
  · have taken : s.rest.take 1 ≠ [] := by simp [nonempty]
    have copied := grounded.copy 1
    refine ⟨copied.frames, copied.nested, fun start opened => ?_, copied.atom⟩
    obtain rfl := Option.some.inj opened
    exact ⟨Text.inside_size s.out taken,
      fun frame member => Nat.le_of_lt (grounded.frames frame member).lt⟩

theorem closeClass (grounded : s.Grounded) : s.closeClass.Grounded := by
  unfold State.closeClass
  split
  · rename_i start opened
    split
    · exact grounded.copy 1
    · obtain ⟨inside, around⟩ := grounded.class_ start opened
      have copied := grounded.copy 1
      have shut : ({ s.copy 1 with classStart := none } : State).Grounded :=
        ⟨copied.frames, copied.nested, fun _ none_ => by contradiction, copied.atom⟩
      exact shut.recordAtom (inside.append _) around
  · exact grounded.copy 1

theorem dot (grounded : s.Grounded) (options : Options) : (s.dot options).Grounded := by
  unfold State.dot
  split
  · exact grounded.copy 1
  · exact ((grounded.emit _).skip 1).recordAtom (Text.inside_size s.out (by simp))
      fun frame member => Nat.le_of_lt (grounded.frames frame member).lt

theorem openFrame (grounded : s.Grounded) {text : Text} (filled : text ≠ []) (kind : FrameKind)
    (firstGroup : Nat) (groups : GroupTable) (count : Nat) (outside : s.inClass = false) :
    ((({ s with groups }.emit text).skip count).openFrame kind s.out.size firstGroup).Grounded := by
  have written := grounded.emit text
  refine ⟨?_, ?_, ?_, ?_⟩
  · intro frame member
    rcases List.mem_cons.mp member with rfl | member
    · exact Text.inside_size s.out filled
    · exact written.frames frame member
  · refine List.pairwise_cons.mpr ⟨fun frame member => ?_, grounded.nested⟩
    exact Nat.le_of_lt (grounded.frames frame member).lt
  · intro start opened
    rw [State.inClass, Option.isSome_eq_false_iff, Option.isNone_iff_eq_none] at outside
    exact absurd (outside.symm.trans opened) (by simp)
  · intro a recorded
    obtain ⟨inside, stop, around⟩ := written.atom a recorded
    refine ⟨inside, stop, fun frame member => ?_⟩
    rcases List.mem_cons.mp member with rfl | member
    · exact Or.inr (grounded.atom a recorded).2.1
    · exact around frame member

theorem closed (grounded : s.Grounded) {frame : Frame} {outer : List Frame} {more : Text}
    (frames : s.frames = frame :: outer) (rest : s.rest = ')' :: more) :
    (s.closed frame outer).Grounded := by
  obtain ⟨out, _, _, class_, _⟩ := closed_eq frame outer rest
  have kept := grounded.frames
  have nested := grounded.nested
  rw [frames] at kept nested
  obtain ⟨around, nested⟩ := List.pairwise_cons.mp nested
  refine ⟨?_, nested, ?_, ?_⟩
  · intro other member
    rw [out]
    exact (kept other (List.mem_cons_of_mem frame member)).append _
  · intro start opened
    rw [class_] at opened
    obtain ⟨inside, before⟩ := grounded.class_ start opened
    rw [frames] at before
    rw [out]
    exact ⟨inside.append _, fun other member => before other (List.mem_cons_of_mem frame member)⟩
  · intro a recorded
    obtain rfl := Option.some.inj recorded
    refine ⟨?_, Nat.le_refl _, fun other member => Or.inl (around other member)⟩
    rw [out]
    exact (kept frame List.mem_cons_self).append _

/-- The output may be put together again from a cut on that lies behind the starts of all
open groups. -/
theorem rebuilt (grounded : s.Grounded) {cut : Nat} {text : Text} (inside : s.out.Inside cut)
    (around : ∀ frame ∈ s.frames, frame.start ≤ cut) (filled : text ≠ [])
    (outside : s.inClass = false) (out : next.out = s.out.takeBytes cut ++ text)
    (frames : next.frames = s.frames) (class_ : next.classStart = s.classStart)
    (atom : ∀ a, next.atom = some a → a.start = cut ∧ a.stop = next.out.size) : next.Grounded := by
  refine ⟨?_, ?_, ?_, ?_⟩
  · rw [frames, out]
    exact fun frame member =>
      (grounded.frames frame member).takeBytes inside (around frame member) filled
  · rw [frames]
    exact grounded.nested
  · intro start opened
    rw [State.inClass, Option.isSome_eq_false_iff, Option.isNone_iff_eq_none] at outside
    rw [class_, outside] at opened
    contradiction
  · intro a recorded
    obtain ⟨start, stop⟩ := atom a recorded
    rw [frames, start, stop, out]
    exact ⟨inside.takeBytes inside (Nat.le_refl _) filled, Nat.le_refl _,
      fun frame member => Or.inl (around frame member)⟩

end Grounded

/-- Whether the next quantifier repeats a unit that begins before the start of an open
group. -/
def overreaches (s : State) (delimiter : Option Char) : Bool :=
  (s.searched? delimiter).any fun unit =>
    s.frames.any fun frame => s.out.size - unit.size < frame.start

theorem inside_of_trailingUnit? {out unit : Text} (trailing : Atom.trailingUnit? out = some unit) :
    out.Inside (out.size - unit.size) := by
  obtain ⟨front, rfl, kinds⟩ := Atom.trailingUnit?_sound trailing
  have filled : unit ≠ [] := by
    rcases kinds with ⟨body, rfl, _⟩ | ⟨c, rfl, _⟩ <;> simp
  have start : (front ++ unit).size - unit.size = front.size := by
    rw [Text.size_append]
    omega
  rw [start]
  exact Text.inside_size front filled

theorem prepared_parts {out : Text} {a : Atom} (inside : out.Inside a.start) :
    ∃ text, text ≠ [] ∧ (a.prepared out).1 = out.takeBytes a.start ++ text ∧
      (a.prepared out).2.start = a.start := by
  unfold Atom.prepared
  split
  · exact ⟨['(', '?', ':'] ++ out.dropBytes a.start ++ [')'], by simp, by simp [Atom.wrap], rfl⟩
  · refine ⟨out.dropBytes a.start, ?_, (Text.takeBytes_append_dropBytes _ _).symm, rfl⟩
    obtain ⟨front, back, out, filled, size⟩ := inside
    rw [out, ← size, Text.dropBytes_size_append]
    exact filled

namespace Grounded

theorem quantified (grounded : s.Grounded) {q : Quantifier} {a : Atom}
    (known : s.quantified? q = some a) : s.out.Inside a.start := by
  rcases quantified_cases known with ⟨recorded, _⟩ | ⟨_, _, unit, trailing, rfl⟩
  · exact (grounded.atom a recorded).1
  · exact inside_of_trailingUnit? trailing

theorem around (grounded : s.Grounded) {q : Quantifier}
    (found : s.next? delimiter = some (.quantifier q))
    (place : s.place = .outside) (modest : s.overreaches delimiter = false) {a : Atom}
    (known : s.quantified? q = some a) : ∀ frame ∈ s.frames, frame.start ≤ a.start := by
  intro frame member
  rcases quantified_cases known with ⟨recorded, stop⟩ | ⟨mark, none_, unit, trailing, rfl⟩
  · have below := (grounded.frames frame member).lt
    rcases (grounded.atom a recorded).2.2 frame member with before | behind
    · exact before
    · omega
  · have searched : s.searched? delimiter = some unit := by
      simp [searched?, found, place, mark, none_, trailing]
    rw [overreaches, searched, Option.any_some, List.any_eq_false] at modest
    have reach := modest frame member
    simp only [decide_eq_true_eq, Nat.not_lt] at reach
    omega

theorem brokenCut? (grounded : s.Grounded) (q : Quantifier) : s.brokenCut? q = none := by
  unfold State.brokenCut?
  cases known : s.quantified? q with
  | none => rfl
  | some a =>
      have whole : (s.out.splitAt? a.start).isNone = false := by
        rw [← Option.not_isSome, (grounded.quantified known).splitAt?]
        rfl
      rw [Option.filter_some, whole, Bool.and_false]
      rfl

theorem repeated (grounded : s.Grounded) {q : Quantifier}
    (found : s.next? delimiter = some (.quantifier q)) (mark : q.possessive = false)
    (place : s.place = .outside) (modest : s.overreaches delimiter = false) :
    (s.repeated options q).Grounded := by
  have looked := s.quantified?_plain mark
  cases last : s.atom.filter (·.stop == s.out.size) with
  | none =>
      have written := grounded.emit (q.render options.ungreedy)
      have out : (s.repeated options q).out = s.out ++ q.render options.ungreedy := by
        simp [State.repeated, last, State.prepared]
      refine ⟨?_, written.nested, ?_, fun _ none_ => by contradiction⟩
      · rw [out]
        exact written.frames
      · rw [out]
        exact written.class_
  | some a =>
      rw [last] at looked
      have inside := grounded.quantified looked
      obtain ⟨text, filled, parts, _⟩ := prepared_parts inside
      have shape : (s.repeated options q).out =
          s.out.takeBytes a.start ++ (text ++ q.render options.ungreedy) := by
        rw [← List.append_assoc, ← parts]
        simp [State.repeated, last, State.prepared]
      exact grounded.rebuilt inside (grounded.around found place modest looked) (by simp [filled])
        (inClass_of_place place) shape rfl rfl fun _ none_ => by contradiction

theorem possessed (grounded : s.Grounded) {q : Quantifier}
    (found : s.next? delimiter = some (.quantifier q)) (place : s.place = .outside)
    (modest : s.overreaches delimiter = false) {a : Atom} (known : s.quantified? q = some a) :
    (s.possessed a q).Grounded := by
  have inside := grounded.quantified known
  obtain ⟨text, _, parts, start⟩ := prepared_parts inside
  have cut : (a.prepared s.out).1.takeBytes a.start = s.out.takeBytes a.start := by
    have whole := Text.takeBytes_size_append (s.out.takeBytes a.start) text
    rw [inside.size_takeBytes, ← parts] at whole
    exact whole
  obtain ⟨behind, shape⟩ : ∃ behind,
      (s.possessed a q).out = s.out.takeBytes a.start ++ (Atom.atomicOpen ++ behind) := by
    simp only [State.possessed, Atom.makePossessive, start, cut, markReference, State.skip,
      List.append_assoc]
    exact ⟨_, rfl⟩
  refine grounded.rebuilt inside (grounded.around found place modest known) ?_
    (inClass_of_place place) shape rfl rfl fun b recorded => ?_
  · simp [Atom.atomicOpen]
  · obtain rfl := Option.some.inj recorded
    exact ⟨start, rfl⟩

theorem copyPlain (grounded : s.Grounded) : s.copyPlain.Grounded := by
  unfold State.copyPlain
  split
  · exact grounded
  split
  · exact (grounded.emit separator).copy 1
  · exact grounded.copy 1

theorem blank (grounded : s.Grounded) (nonempty : s.rest ≠ []) : s.blank.Grounded := by
  unfold State.blank
  split
  · exact grounded.copy 1
  split
  · exact grounded.dropEscape nonempty
  unfold dropBlank
  dsimp only
  split
  · exact (grounded.skip 1).emit separator
  · exact grounded.skip 1

theorem closeGroup (grounded : s.Grounded) {more : Text} (rest : s.rest = ')' :: more) :
    s.closeGroup.Grounded := by
  unfold State.closeGroup
  split
  · exact grounded.copy 1
  split
  · exact grounded.copy 1
  · rename_i frame outer frames
    exact grounded.closed frames rest

theorem comment (grounded : s.Grounded) (nonempty : s.rest ≠ []) : s.comment.Grounded := by
  unfold State.comment
  split
  · exact grounded.copy 1
  split
  · exact grounded.dropEscape nonempty
  · exact grounded.skip _

theorem nul (grounded : s.Grounded) : s.nul.Grounded := by
  unfold State.nul
  dsimp only
  split
  · exact (grounded.copy 2).emit separator
  · exact grounded.copy 2

end Grounded

/-! ### Outcomes -/

def Sturdy {α : Type} (outcome : Except Fault α) : Prop :=
  ∀ offset, outcome ≠ .error (.insideCharacter offset)

theorem sturdy_resolveNumber (groups : GroupTable) (number : Nat) :
    Sturdy (groups.resolveNumber number) := by
  unfold GroupTable.resolveNumber
  split <;> simp [Sturdy]

theorem sturdy_resolveDigits (s : State) (digits : Text) : Sturdy (s.resolveDigits digits) := by
  unfold resolveDigits
  split
  · exact sturdy_resolveNumber _ _
  · simp [Sturdy]

theorem sturdy_resolveName (groups : GroupTable) (name : Text) :
    Sturdy (groups.resolveName name) := by
  unfold GroupTable.resolveName
  split <;> simp [Sturdy]

theorem sturdy_pushNamed (groups : GroupTable) (name : Text) : Sturdy (groups.pushNamed name) := by
  unfold GroupTable.pushNamed
  split
  · simp [Sturdy]
  split
  · simp [Sturdy]
  split <;> simp [Sturdy]

theorem sturdy_checkEscape (unicode : Bool) (letter : Char) (after : Text) :
    Sturdy (checkEscape unicode letter after) := by
  unfold checkEscape
  repeat' split
  all_goals simp [Sturdy]

def Stays : Except Fault State → Prop
  | .ok next => next.Grounded
  | .error fault => ∀ offset, fault ≠ .insideCharacter offset

theorem Stays.bind {α : Type} {outcome : Except Fault α} {then_ : α → State}
    (sturdy : Sturdy outcome) (grounded : ∀ value, (then_ value).Grounded) :
    Stays (outcome >>= fun value => pure (then_ value)) := by
  cases outcome with
  | ok value => exact grounded value
  | error fault => exact fun offset cut => sturdy offset (congrArg Except.error cut)

theorem Stays.grounded {outcome : Except Fault State} (stays : Stays outcome)
    (ok : outcome = .ok next) :
    next.Grounded := by
  subst ok
  exact stays

theorem Stays.sturdy {outcome : Except Fault State} (stays : Stays outcome) : Sturdy outcome := by
  rintro offset rfl
  exact stays offset rfl

namespace Grounded

theorem openCapture (grounded : s.Grounded) (nonempty : s.rest ≠ []) (outside : s.inClass = false) :
    Stays (s.openCapture options) := by
  have taken : s.rest.take 1 ≠ [] := by simp [nonempty]
  unfold State.openCapture
  split
  · simp [Stays]
  dsimp only
  split
  · exact grounded.openFrame taken _ _ _ 1 outside
  split
  · exact grounded.openFrame taken _ _ _ 1 outside
  · exact grounded.openFrame (by simp) _ _ s.groups 1 outside

theorem openNamed (grounded : s.Grounded) (outside : s.inClass = false) : Stays s.openNamed := by
  unfold State.openNamed
  split
  · exact Stays.bind (sturdy_pushNamed _ _) fun groups =>
      grounded.openFrame (by simp) _ _ groups _ outside
  · simp [Stays]

theorem openGroup (grounded : s.Grounded) (nonempty : s.rest ≠ []) (form : Opener) :
    Stays (s.openGroup options form) := by
  have taken : ∀ form : Opener, s.rest.take form.length ≠ [] := by
    intro form
    cases form <;> simp [Opener.length, nonempty]
  unfold State.openGroup
  split
  · exact grounded.copy 1
  split
  · exact grounded.copy _
  rename_i outside
  rw [Bool.not_eq_true] at outside
  have native (form : Opener) (kind : FrameKind) : (s.openNative form kind).Grounded :=
    grounded.openFrame (taken form) kind _ s.groups _ outside
  cases form with
  | capture => exact grounded.openCapture nonempty outside
  | plain => exact native .plain .plain
  | lookbehind negative => exact native (.lookbehind negative) .plain
  | lookahead negative => exact native (.lookahead negative) (.lookahead negative)
  | named => exact grounded.openNamed outside
  | atomic => exact grounded.openFrame (by simp [Atom.atomicOpen]) _ _ _ 3 outside
  | unknown => simp [Stays]

theorem quantifier (grounded : s.Grounded) {q : Quantifier}
    (found : s.next? delimiter = some (.quantifier q)) (modest : s.overreaches delimiter = false) :
    Stays (s.quantifier options q) := by
  unfold State.quantifier
  split
  · exact grounded.copy 1
  rename_i unescaped
  split
  · exact grounded.copy _
  rename_i outside
  rw [Bool.not_eq_true] at unescaped outside
  have place := place_eq_outside outside unescaped
  rw [grounded.brokenCut? q]
  cases mark : q.possessive with
  | false =>
      rw [quantify_repeated mark]
      exact grounded.repeated found mark place modest
  | true =>
      cases known : s.quantified? q with
      | none =>
          rw [quantify_nothing mark known]
          simp [Stays]
      | some a =>
          rw [quantify_possessed mark known]
          exact grounded.possessed found place modest known

theorem numberReference (grounded : s.Grounded) : Stays s.numberReference := by
  unfold State.numberReference
  split
  · exact grounded.copy 1
  · exact Stays.bind (sturdy_resolveDigits _ _) fun slot => (grounded.skip _).emitReference slot

theorem nameReference (grounded : s.Grounded) (form : NameReference) :
    Stays (s.nameReference form) := by
  unfold State.nameReference
  split
  · exact grounded.copy 1
  split
  · exact grounded.copy _
  split
  · split
    · exact Stays.bind (sturdy_resolveDigits _ _) fun slot => (grounded.skip _).emitReference slot
    · exact Stays.bind (sturdy_resolveName _ _) fun slot => (grounded.skip _).emitReference slot
  · simp [Stays]

theorem escapedDigit (grounded : s.Grounded) (digit : Char) : Stays (s.escapedDigit digit) := by
  unfold State.escapedDigit
  split
  · exact grounded.copy 2
  dsimp only
  split
  · rename_i splice _
    have referred := (grounded.skip (1 + (Text.digits (s.rest.drop 1)).length)).emitReference
        splice.slot
    exact ⟨referred.frames, referred.nested, referred.class_, referred.atom⟩
  split
  · exact grounded.nul
  · simp [Stays]

theorem escapedLetter (grounded : s.Grounded) (letter : Char) :
    Stays (s.escapedLetter options letter) := by
  unfold State.escapedLetter
  dsimp only
  split
  · exact Stays.bind (sturdy_checkEscape _ _ _) fun _ => grounded.copy _
  · exact grounded.copy _

theorem flagsDelimiter (grounded : s.Grounded) (c : Char) : Stays (s.flagsDelimiter c) := by
  unfold State.flagsDelimiter
  split
  · exact grounded.copy 1
  dsimp only
  split
  · simp [Stays]
  · have skipped := (grounded.skip 1).skip (s.skip 1).rest.length
    exact ⟨skipped.frames, skipped.nested, skipped.class_, skipped.atom⟩

theorem step (grounded : s.Grounded) (nonempty : s.rest ≠ [])
    (modest : s.overreaches delimiter = false) :
    Stays (s.step options delimiter) := by
  unfold State.step
  cases found : s.next? delimiter with
  | none => exact grounded.copyPlain
  | some construct =>
      cases construct with
      | blank c => exact grounded.blank nonempty
      | openClass => exact grounded.openClass nonempty
      | closeClass => exact grounded.closeClass
      | dot => exact grounded.dot options
      | quantifier q => exact grounded.quantifier found modest
      | numberReference => exact grounded.numberReference
      | nameReference form => exact grounded.nameReference form
      | openGroup form => exact grounded.openGroup nonempty form
      | closeGroup =>
          obtain ⟨more, rest⟩ := Construct.stands_of_at? found
          exact grounded.closeGroup rest
      | comment => exact grounded.comment nonempty
      | escapedDigit digit => exact grounded.escapedDigit digit
      | escapedLetter letter => exact grounded.escapedLetter letter
      | flagsDelimiter c => exact grounded.flagsDelimiter c

end Grounded

/-- The offsets of the output that a state remembers or would cut it at. -/
def offsets (s : State) : List Nat :=
  s.frames.map Frame.start ++ s.classStart.toList ++ (s.atom.map Atom.start).toList ++
    ((Atom.trailingUnit? s.out).map fun unit => s.out.size - unit.size).toList

theorem Grounded.offsets (grounded : s.Grounded) :
    ∀ offset ∈ s.offsets, (s.out.splitAt? offset).isSome = true := by
  intro offset member
  simp only [State.offsets, List.mem_append, List.mem_map, Option.mem_toList,
    Option.map_eq_some_iff]
    at member
  rcases member with ((⟨frame, open_, rfl⟩ | opened) | ⟨a, recorded, rfl⟩) | ⟨unit, trailing, rfl⟩
  · exact (grounded.frames frame open_).splitAt?
  · exact (grounded.class_ offset opened).1.splitAt?
  · exact (grounded.atom a recorded).1.splitAt?
  · exact (inside_of_trailingUnit? trailing).splitAt?

end State

theorem sturdy_finish (s : State) : State.Sturdy (finish s) := by
  unfold finish
  split
  · simp [State.Sturdy]
  split <;> simp [State.Sturdy]

/-- Every conversion moves on through its text and stays between characters.  So do the
offsets into its output, and it cuts no character, unless a unit that is searched for
begins before an open group. -/
theorem convert_between_characters (options : Options) (delimiter : Option Char) (text : Text) :
    (∀ s ∈ visited options delimiter text.length (.start text),
      text.splitAt? s.position = some (s.before.reverse, s.rest) ∧
        ∀ next, s.step options delimiter = .ok next → s.position < next.position) ∧
    (∀ final, run options delimiter text.length (.start text) = .ok final → final.rest = []) ∧
    (∀ before after construct, before.reverse ++ after = text →
      Construct.at? delimiter before after = some construct →
        text.splitAt? (before.size + construct.size) =
          some (before.reverse ++ after.take construct.length, after.drop construct.length)) ∧
    ((∀ s ∈ visited options delimiter text.length (.start text), s.overreaches delimiter = false) →
      (∀ s ∈ visited options delimiter text.length (.start text), ∀ offset ∈ s.offsets,
        (s.out.splitAt? offset).isSome = true) ∧
      ∀ offset, convert options delimiter text ≠ .error (.insideCharacter offset)) := by
  refine ⟨fun s member => ?_, fun final ok => ?_, ?_, fun modest => ?_⟩
  · obtain ⟨⟨states, trace⟩, nonempty⟩ := trace_of_visited member
    have whole : s.before.reverse ++ s.rest = text := trace.text_eq
    refine ⟨?_, fun next ok => State.position_lt_step nonempty ok⟩
    rw [← whole, State.position, ← Text.size_reverse, Text.splitAt?_size_append]
  · exact rest_of_run (s := .start text) (Nat.le_refl _) ok
  · rintro before after construct rfl found
    exact Construct.splitAt?_of_at? found
  · have grounded := visited_holds
      (fun nonempty modest grounded ok => (grounded.step nonempty modest).grounded ok)
      (State.grounded_start text) modest
    refine ⟨fun s member => (grounded s member).offsets, fun offset failed => ?_⟩
    unfold convert at failed
    cases ran : run options delimiter text.length (.start text) with
    | ok final =>
        rw [ran] at failed
        exact sturdy_finish final offset failed
    | error fault =>
        rw [ran] at failed
        obtain rfl := Except.error.inj failed
        obtain ⟨t, member, faulty⟩ := step_of_run_error ran
        obtain ⟨_, nonempty⟩ := trace_of_visited member
        exact ((grounded t member).step nonempty (modest t member)).sturdy offset faulty

theorem convert_between_characters_group :
    (∀ s ∈ visited {} none "(é\\p\x7bL\x7d++)++".toList.length
      (.start "(é\\p\x7bL\x7d++)++".toList), s.overreaches none = false) ∧
      ∀ offset, convert {} none "(é\\p\x7bL\x7d++)++".toList ≠ .error
        (.insideCharacter offset) := by
  have modest : ∀ s ∈ visited {} none "(é\\p\x7bL\x7d++)++".toList.length
      (.start "(é\\p\x7bL\x7d++)++".toList),
      s.overreaches none = false := by decide +kernel
  exact ⟨modest, ((convert_between_characters {} none "(é\\p\x7bL\x7d++)++".toList).2.2.2 modest).2⟩

-- The unit begins before the group, so the start of the group is not where it was.
example :
    convert {} none "\\p\x7b😀a(\x7d++)++".toList = .error (.insideCharacter 8) := by decide +kernel

end Conversion

end PatternDialect
