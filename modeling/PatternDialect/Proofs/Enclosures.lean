import PatternDialect.Proofs.Turns

/-! Lookaheads that hold a single capture.

The conversion knows one by the offsets of its parts in the output.  Here it is told
from the pattern alone: by the parentheses that are open, and the gaps between them. -/

namespace PatternDialect

open Character Source

theorem Opener.read_closing (text more : Text) : read (text ++ ')' :: more) = read text := by
  cases text with
  | nil => rfl
  | cons c rest =>
      by_cases marked : c = '?'
      · subst marked
        cases rest with
        | nil => rfl
        | cons d rest =>
            by_cases angle : d = '<'
            · subst angle
              cases rest with
              | nil => rfl
              | cons e rest => simp only [List.cons_append, read_angle e]
            · simp only [List.cons_append, read_pair angle]
      · simp only [List.cons_append, read_other marked]

theorem Text.size_lt_append {front text : Text} (filled : text ≠ []) :
    front.size < (front ++ text).size := by
  rw [size_append]
  exact Nat.lt_add_of_pos_right (size_pos filled)

namespace Region

/-- A text that ends in a parenthesis outside classes and comments, and what holds of the
text before it. -/
def ClosedBy (property : Text → Prop) (text : Text) : Prop :=
  ∃ inner, text = inner ++ [')'] ∧ of inner = pattern .outside ∧ property inner

/-- Nothing is open but a positive lookahead that has just been begun, in whatever groups
it stands. -/
def Begins : Text → Prop :=
  Trails fun text => ∃ front, text = front ++ ['(', '?', '='] ∧ (unclosed text).head? = some front

/-- All that the innermost open group holds, which is a positive lookahead, is one capture. -/
def Encloses : Text → Prop :=
  Trails (ClosedBy fun inner => ∃ front, (unclosed inner).head? = some front ∧ Begins front ∧
    (Opener.read (inner.drop (front.length + 1))).captures = true)

/-- A positive lookahead whose whole content is one capture ends the text. -/
def Behind : Text → Prop := Trails (ClosedBy Encloses)

theorem tight_closing (property : Text → Prop) : Tight (ClosedBy property) := by
  rintro _ ⟨inner, rfl, outside, _⟩
  exact ⟨inner, ')', rfl, by rw [outside]; rfl⟩

theorem tight_begins : Tight fun text =>
    ∃ front, text = front ++ ['(', '?', '='] ∧ (unclosed text).head? = some front := by
  rintro _ ⟨front, rfl, last⟩
  obtain ⟨outside, _⟩ := of_unclosed (List.mem_of_head? last)
  refine ⟨front ++ ['(', '?'], '=', by simp, ?_⟩
  rw [of_append, outside]
  rfl

theorem trails_close {property : Text → Prop} {text : Text} (outside : of text = pattern .outside) :
    Trails (ClosedBy property) (text ++ [')']) ↔ property text := by
  constructor
  · intro trails
    rcases trails.split with ⟨_, dropped⟩ | ⟨first, second, filled, word, inner, parts, _, holds⟩
    · rw [outside] at dropped
      contradiction
    · obtain ⟨rfl, rfl⟩ : first = [')'] ∧ second = [] := by
        cases first with
        | nil => contradiction
        | cons c first => simp_all
      obtain ⟨rfl, _⟩ := List.append_inj' parts rfl
      exact holds
  · intro holds
    refine Trails.of_core ?_ ⟨text, rfl, outside, holds⟩
    rw [of_append, outside]
    rfl

variable {text : Text} {c : Char} {tail : Text}

theorem Trails.of_kept {core : Text → Prop} (trails : Trails core (text ++ c :: tail))
    (kept : (of text).drops c = false) :
    ∃ first second, c :: tail = c :: (first ++ second) ∧ core (text ++ c :: first) := by
  rcases trails.split with ⟨_, dropped⟩ | ⟨first, second, filled, word, holds⟩
  · simp [dropsAll, kept] at dropped
  · cases first with
    | nil => contradiction
    | cons d first =>
        obtain ⟨rfl, rfl⟩ := List.cons.inj word
        exact ⟨first, second, rfl, holds⟩

theorem not_trails_closing {property : Text → Prop} (tame : (of text).Tame (c :: tail))
    (kept : (of text).drops c = false) (open_ : of text = pattern .outside → c ≠ ')') :
    ¬ Trails (ClosedBy property) (text ++ c :: tail) := by
  intro trails
  obtain ⟨first, second, word, inner, parts, outside, _⟩ := trails.of_kept kept
  obtain ⟨front, last, split⟩ := List.eq_nil_or_concat (c :: first) |>.resolve_left (by simp)
  rw [List.concat_eq_append] at split
  rw [split, ← List.append_assoc] at parts
  obtain ⟨rfl, ends⟩ := List.append_inj' parts rfl
  obtain rfl : last = ')' := by simpa using ends
  cases front with
  | nil =>
      obtain ⟨rfl, _⟩ := List.cons.inj split
      rw [List.append_nil] at outside
      exact open_ outside rfl
  | cons d front =>
      rw [of_append] at outside
      have inner := tame (d :: front) ')' second (by
        rw [word, ← List.cons_append, split]
        simp) (by simp) outside
      exact absurd inner (by decide)

theorem unclosed_opening (outside : of text = pattern .outside)
    (tame : (of text).Tame ('(' :: tail)) :
    unclosed (text ++ '(' :: tail) = text :: unclosed text := by
  rw [tame.unclosed, outside]
  rfl

theorem begins_opening (outside : of text = pattern .outside) :
    Begins (text ++ ['(', '?', '=']) := by
  refine Trails.of_core ?_ ⟨text, rfl, ?_⟩
  · rw [of_append, outside]
    rfl
  · rw [unclosed_opening outside (Tame.of_inner (List.all_eq_true.mp rfl))]
    rfl

theorem mark_of_begins (outside : of text = pattern .outside)
    (tame : (of text).Tame ('(' :: tail)) (begins : Begins (text ++ '(' :: tail)) :
    ∃ more, tail = '?' :: '=' :: more := by
  obtain ⟨first, second, word, opened, mark, last⟩ := begins.of_kept (by rw [outside]; rfl)
  rw [word, ← List.cons_append] at tame
  rw [unclosed_opening outside tame.left] at last
  cases last
  obtain rfl : first = ['?', '='] := by simpa using mark
  exact ⟨second, (List.cons.inj word).2⟩

theorem not_begins_closing (outside : of text = pattern .outside) : ¬ Begins (text ++ [')']) := by
  intro begins
  obtain ⟨first, second, word, opened, mark, _⟩ := begins.of_kept (by rw [outside]; rfl)
  have empty := List.append_eq_nil_iff.mp (List.cons.inj word).2.symm
  rw [empty.1] at mark
  have last := congrArg List.getLast? mark
  simp at last

end Region

namespace Conversion

open Region

def startsAt (offset : Nat) : List Frame → Bool
  | frame :: _ => frame.kind == .lookahead false && frame.start + 3 == offset
  | [] => false

/-- The open groups with what stands before each in a text, when so much of it has been
read and so much was emitted. -/
inductive Stacked (text : Text) (read : Nat) : Nat → List Frame → List Text → Prop where
  | nil (size : Nat) : Stacked text read size [] []
  | cons {size : Nat} {frame : Frame} {frames : List Frame} {front : Text} {fronts : List Text}
      (outer : Stacked text read frame.start frames fronts)
      (begins : startsAt frame.start frames = true ↔ Begins front)
      (captures : startsAt frame.start frames = true → ((∃ slot, frame.kind = .capture slot) ↔
        (Opener.read (text.drop (front.length + 1))).captures = true))
      (whole : Opener.read (text.drop (front.length + 1)) = .lookahead false →
        front.length + 3 ≤ read)
      (grown : frame.start < size)
      (ahead : frame.kind = .lookahead false → frame.start + 3 ≤ size) :
      Stacked text read size (frame :: frames) (front :: fronts)

theorem Stacked.mono {text : Text} {read later size larger : Nat} {frames : List Frame}
    {fronts : List Text} (stacked : Stacked text read size frames fronts) (onward : read ≤ later)
    (growing : size ≤ larger) : Stacked text later larger frames fronts := by
  induction stacked generalizing larger with
  | nil => exact .nil _
  | cons outer begins captures whole grown ahead ih =>
      refine .cons (ih (Nat.le_refl _)) begins captures (fun mark => ?_) (by omega) (fun kind => ?_)
      · exact Nat.le_trans (whole mark) onward
      · exact Nat.le_trans (ahead kind) growing

theorem Stacked.startsAt_lt {text : Text} {read size larger : Nat} {frames : List Frame}
    {fronts : List Text} (stacked : Stacked text read size frames fronts) (grown : size < larger) :
    startsAt larger frames = false := by
  cases stacked with
  | nil => rfl
  | cons outer begins captures whole grown ahead =>
      by_contra starts
      simp only [startsAt, Bool.not_eq_false, Bool.and_eq_true, beq_iff_eq] at starts
      have low := ahead starts.1
      omega

theorem Stacked.marked {text : Text} {read size : Nat} {frames : List Frame} {fronts : List Text}
    (stacked : Stacked text read size frames fronts) {front : Text}
    (last : fronts.head? = some front) (mark : front ++ ['(', '?', '='] <+: text) :
    front.length + 3 ≤ read := by
  obtain ⟨more, rfl⟩ := mark
  cases stacked with
  | nil => contradiction
  | cons outer begins captures whole grown ahead =>
      cases last
      apply whole
      rw [List.append_assoc, List.drop_length_add_append]
      rfl

namespace State

variable {options : Options} {s next : State}

theorem atLookaheadStart_eq (s : State) : s.atLookaheadStart = startsAt s.out.size s.frames := by
  unfold atLookaheadStart startsAt
  cases s.frames <;> rfl

def CaptureLast (s : State) : Prop :=
  ∃ k, s.capture = some k ∧ k.stop = s.out.size ∧ startsAt k.start s.frames = true

def SpliceLast (s : State) : Prop := ∃ p, s.splice = some p ∧ p.stop = s.out.size

/-- What the state records of lookaheads is what the pattern tells. -/
structure Aligned (s : State) : Prop where
  stacked : Stacked s.text s.front.length s.out.size s.frames (unclosed s.front)
  begins : s.atLookaheadStart = true ↔ Begins s.front
  capture : ∀ k, s.capture = some k → k.stop ≤ s.out.size
  encloses : s.CaptureLast ↔ Encloses s.front
  splice : ∀ p, s.splice = some p → p.stop ≤ s.out.size
  behind : s.SpliceLast ↔ Behind s.front
  flush : Begins s.front ∨ Encloses s.front ∨ Behind s.front → ∀ after, s.parts after = false

theorem Aligned.start (text : Text) : (State.start text).Aligned where
  stacked := .nil _
  begins := by
    refine ⟨fun start => by contradiction, ?_⟩
    rintro ⟨front, gap, parts, _, _, inner, rfl, _⟩
    simp [front, State.start] at parts
  capture := fun k recorded => by contradiction
  encloses := by
    constructor
    · rintro ⟨_, recorded, _⟩
      contradiction
    · rintro ⟨front, gap, parts, _, _, inner, rfl, _⟩
      simp [State.front, State.start] at parts
  splice := fun p recorded => by contradiction
  behind := by
    constructor
    · rintro ⟨_, recorded, _⟩
      contradiction
    · rintro ⟨front, gap, parts, _, _, inner, rfl, _⟩
      simp [State.front, State.start] at parts
  flush := by
    rintro (⟨front, gap, parts, _, _, inner, rfl, _⟩ | ⟨front, gap, parts, _, _, inner, rfl, _⟩ |
      ⟨front, gap, parts, _, _, inner, rfl, _⟩) <;> simp [State.front, State.start] at parts

theorem Aligned.outside (aligned : s.Aligned) {place : Place} (here : of s.front = .pattern place)
    (active : s.atLookaheadStart = true ∨ s.CaptureLast ∨ s.SpliceLast) : place = .outside := by
  rcases active with begins | captured | spliced
  · exact (aligned.begins.mp begins).outside here
  · exact (aligned.encloses.mp captured).outside here
  · exact (aligned.behind.mp spliced).outside here

theorem Aligned.inactive (aligned : s.Aligned) (nonempty : s.rest ≠ []) (reached : s.Reached)
    (frames : next.frames = s.frames) (capture : next.capture = s.capture)
    (splice : next.splice = s.splice ∨ next.splice = none) (grows : s.out.size ≤ next.out.size)
    (strictly : s.place ≠ .escape → s.out.size < next.out.size) :
    next.atLookaheadStart = false ∧ ¬ next.CaptureLast ∧ ¬ next.SpliceLast := by
  have region := reached.region nonempty
  -- where nothing was added to the output, nothing was recorded for its end
  have active : s.out.size = next.out.size →
      ¬ (s.atLookaheadStart = true ∨ s.CaptureLast ∨ s.SpliceLast) := by
    intro same active
    have outside := aligned.outside region active
    have longer := strictly (by rw [outside]; decide)
    omega
  refine ⟨?_, ?_, ?_⟩
  · rw [atLookaheadStart_eq, frames]
    rcases Nat.eq_or_lt_of_le grows with same | longer
    · rw [← same, ← atLookaheadStart_eq, Bool.eq_false_iff]
      exact fun start => active same (Or.inl start)
    · exact aligned.stacked.startsAt_lt longer
  · rintro ⟨k, recorded, stop, start⟩
    rw [capture] at recorded
    rw [frames] at start
    have low := aligned.capture k recorded
    have same : s.out.size = next.out.size := by omega
    exact active same (Or.inr (Or.inl ⟨k, recorded, by omega, start⟩))
  · rintro ⟨p, recorded, stop⟩
    rcases splice with kept | none_
    · rw [kept] at recorded
      have low := aligned.splice p recorded
      have same : s.out.size = next.out.size := by omega
      exact active same (Or.inr (Or.inr ⟨p, recorded, by omega⟩))
    · rw [none_] at recorded
      contradiction

theorem Turn.text_eq {word : Text} (turn : Turn options s word next) : next.text = s.text := by
  obtain ⟨front, rest⟩ := turn.reads
  rw [State.text, State.text, rest, ← List.append_assoc]
  exact congrArg (· ++ next.rest) front

theorem Aligned.other (aligned : s.Aligned) (reached : s.Reached) (nonempty : s.rest ≠ [])
    {c : Char} {tail : Text} (turn : Turn options s (c :: tail) next)
    (head : s.place = .outside → isBreak c = false ∧ c ≠ '(' ∧ c ≠ ')')
    (frames : next.frames = s.frames) (capture : next.capture = s.capture)
    (splice : next.splice = s.splice ∨ next.splice = none) (grows : s.out.size ≤ next.out.size)
    (strictly : s.place ≠ .escape → s.out.size < next.out.size) : next.Aligned := by
  have region := reached.region nonempty
  obtain ⟨front, rest⟩ := turn.reads
  have tame : (of s.front).Tame (c :: tail) := by
    rw [region]
    exact turn.tame
  have kept : (of s.front).drops c = false := by
    rw [region, drops, Bool.and_eq_false_iff, beq_eq_false_iff_ne]
    by_cases outside : s.place = .outside
    · exact Or.inr (head outside).1
    · exact Or.inl outside
  have outside : of s.front = .pattern .outside → s.place = .outside := by
    rw [region]
    exact pattern.inj
  have level : ∀ {first : Text}, (of s.front).Tame (c :: first) →
      unclosed (s.front ++ c :: first) = unclosed s.front := by
    intro first tame
    rw [tame.unclosed, nest]
    split
    · rename_i here
      rw [if_neg (head (outside here)).2.1, if_neg (head (outside here)).2.2]
    · rfl
  have closes : ∀ property, ¬ Trails (ClosedBy property) next.front := by
    intro property
    rw [front]
    exact not_trails_closing tame kept fun here => (head (outside here)).2.2
  have stacked : Stacked next.text next.front.length next.out.size next.frames
      (unclosed next.front) := by
    rw [turn.text_eq, frames, front, level tame]
    exact aligned.stacked.mono (by simp) grows
  -- the mark of a lookahead is read as a whole, so none is begun by this word
  have begins : ¬ Begins next.front := by
    rw [front]
    intro begins
    obtain ⟨first, second, word, opened, mark, last⟩ := begins.of_kept kept
    rw [word, ← List.cons_append] at tame
    rw [level tame.left] at last
    have whole := aligned.stacked.marked last ⟨second ++ next.rest, by
      rw [← mark, State.text, rest, word]
      simp [State.front]⟩
    have lengths := congrArg List.length mark
    simp only [List.length_append, List.length_cons, List.length_nil] at lengths
    omega
  obtain ⟨start, captured, spliced⟩ :=
    aligned.inactive nonempty reached frames capture splice grows strictly
  refine ⟨stacked, ?_, ?_, ?_, ?_, ?_, ?_⟩
  · rw [start]
    exact ⟨fun never => by contradiction, fun holds => absurd holds begins⟩
  · intro k recorded
    rw [capture] at recorded
    exact Nat.le_trans (aligned.capture k recorded) grows
  · exact ⟨fun holds => absurd holds captured, fun holds => absurd holds (closes _)⟩
  · intro p recorded
    rcases splice with kept | none_
    · rw [kept] at recorded
      exact Nat.le_trans (aligned.splice p recorded) grows
    · rw [none_] at recorded
      contradiction
  · exact ⟨fun holds => absurd holds spliced, fun holds => absurd holds (closes _)⟩
  · rintro (holds | holds | holds)
    · exact absurd holds begins
    · exact absurd holds (closes _)
    · exact absurd holds (closes _)

theorem Aligned.gap (aligned : s.Aligned) {word : Text} (turn : Turn options s word next)
    (outside : of s.front = .pattern .outside) (dropped : isGap word = true)
    (frames : next.frames = s.frames) (grows : s.out.size ≤ next.out.size) :
    Stacked next.text next.front.length next.out.size next.frames (unclosed next.front) ∧
      (Begins next.front ↔ Begins s.front) ∧ (Encloses next.front ↔ Encloses s.front) ∧
        (Behind next.front ↔ Behind s.front) := by
  obtain ⟨front, _⟩ := turn.reads
  have same : unclosed next.front = unclosed s.front := by
    rw [front, unclosed_append, outside]
    exact unclosedFrom_dropped dropped _ _
  refine ⟨?_, ?_, ?_, ?_⟩
  · rw [turn.text_eq, frames, same]
    exact aligned.stacked.mono (by rw [front]; simp) grows
  · rw [front]
    exact trails_gap tight_begins outside dropped
  · rw [front]
    exact trails_gap (tight_closing _) outside dropped
  · rw [front]
    exact trails_gap (tight_closing _) outside dropped

theorem continuesBody_outer {d : Char} (outer : isHexDigit d = false)
    (other : d ≠ 'c' ∧ d ≠ 'x' ∧ d ≠ 'u' ∧ d ≠ '{') (next : Char) (body : Text) :
    continuesBody next (body ++ [d]) = false := by
  have foreign : ∀ {text : Text}, d ∈ text → text.all isHexDigit = false := fun member => by
    rw [List.all_eq_false]
    exact ⟨d, member, by simp [outer]⟩
  have last : d ∈ body ++ [d] := by simp
  unfold continuesBody
  split
  · rename_i rest written
    rw [written] at last
    have member := (List.mem_cons.mp last).resolve_left other.1
    simp [List.isEmpty_eq_false_iff.mpr (List.ne_nil_of_mem member)]
  · rename_i rest written
    rw [written] at last
    simp [foreign ((List.mem_cons.mp last).resolve_left other.2.1)]
  · rename_i rest written
    rw [written] at last
    have member := (List.mem_cons.mp last).resolve_left other.2.2.1
    simp [foreign ((List.mem_cons.mp member).resolve_left other.2.2.2)]
  · rename_i rest _ written
    rw [written] at last
    simp [foreign ((List.mem_cons.mp last).resolve_left other.2.2.1)]
  · rfl

theorem continuesEscape_outer {front : Text} {d : Char} (out : s.out = front ++ [d])
    (outer : isHexDigit d = false) (other : d ≠ 'c' ∧ d ≠ 'x' ∧ d ≠ 'u' ∧ d ≠ '{' ∧ d ≠ '\\')
    (next : Char) : s.continuesEscape next = false := by
  have body : ∃ body, (s.out.reverse.takeWhile (· != '\\')).reverse = body ++ [d] := by
    rw [out, List.reverse_concat, List.takeWhile_cons_of_pos (by simp [other.2.2.2.2])]
    exact ⟨_, List.reverse_cons⟩
  obtain ⟨body, written⟩ := body
  unfold continuesEscape
  rw [written, continuesBody_outer outer ⟨other.1, other.2.1, other.2.2.1, other.2.2.2.1⟩]
  split <;> simp

theorem parts_outer (braces : s.inOpenBraces = false) {front : Text} {d : Char}
    (out : s.out = front ++ [d]) (outer : isHexDigit d = false)
    (other : d ≠ 'c' ∧ d ≠ 'x' ∧ d ≠ 'u' ∧ d ≠ '{' ∧ d ≠ '\\') (after : Text) :
    s.parts after = false := by
  unfold parts
  rw [braces, Bool.false_or]
  cases Text.firstSignificant? after with
  | none => rfl
  | some c => exact continuesEscape_outer out outer other c

theorem parts_closing {front : Text} (out : s.out = front ++ [')']) :
    ∀ after, s.parts after = false := by
  refine parts_outer ?_ out (by decide) (by decide)
  unfold inOpenBraces
  rw [out, List.reverse_concat, List.dropWhile_cons_of_neg (by decide)]
  rfl

theorem parts_mark {front : Text} (out : s.out = front ++ ['(', '?', '=']) :
    ∀ after, s.parts after = false := by
  have last : s.out = (front ++ ['(', '?']) ++ ['='] := by simp [out]
  refine parts_outer ?_ last (by decide) (by decide)
  unfold inOpenBraces
  rw [last, List.reverse_concat, List.dropWhile_cons_of_pos (by decide), List.reverse_append]
  rfl

theorem Aligned.drop (aligned : s.Aligned) {word : Text}
    (turn : Turn options s word (s.skip word.length)) (outside : of s.front = .pattern .outside)
    (dropped : isGap word = true) : (s.skip word.length).Aligned := by
  obtain ⟨stacked, begins, encloses, behind⟩ :=
    aligned.gap turn outside dropped rfl (Nat.le_refl _)
  refine ⟨stacked, ?_, aligned.capture, ?_, aligned.splice, ?_, ?_⟩
  · exact aligned.begins.trans begins.symm
  · exact aligned.encloses.trans encloses.symm
  · exact aligned.behind.trans behind.symm
  · rw [begins, encloses, behind]
    exact aligned.flush

theorem Aligned.part (aligned : s.Aligned) (reached : s.Reached) (nonempty : s.rest ≠ []) {c : Char}
    {more : Text} (turn : Turn options s [c] ((s.skip 1).emit separator))
    (place : s.place = .outside) (blank : isBlank c = true) (parts : s.parts more = true) :
    ((s.skip 1).emit separator).Aligned := by
  have outside : of s.front = .pattern .outside := by rw [reached.region nonempty, place]
  have frames : ((s.skip 1).emit separator).frames = s.frames := rfl
  have dropped : isGap [c] = true := by simp [isGap, dropsAll, drops, isBreak, blank]
  have longer : s.out.size < ((s.skip 1).emit separator).out.size :=
    Text.size_lt_append (by decide : separator ≠ [])
  obtain ⟨stacked, begins, encloses, behind⟩ :=
    aligned.gap turn outside dropped frames (Nat.le_of_lt longer)
  obtain ⟨start, captured, spliced⟩ :=
    aligned.inactive nonempty reached frames rfl (Or.inl rfl) (Nat.le_of_lt longer) fun _ => longer
  -- where two pieces have to be kept apart, no lookahead is begun or just filled
  have idle : ¬ (Begins s.front ∨ Encloses s.front ∨ Behind s.front) := fun active => by
    rw [aligned.flush active more] at parts
    contradiction
  rw [← begins, ← encloses, ← behind] at idle
  refine ⟨stacked, ?_, ?_, ?_, ?_, ?_, fun active => absurd active idle⟩
  · rw [start]
    exact ⟨fun never => by contradiction, fun holds => absurd (Or.inl holds) idle⟩
  · exact fun k recorded => Nat.le_trans (aligned.capture k recorded) (Nat.le_of_lt longer)
  · exact ⟨fun holds => absurd holds captured, fun holds => absurd (Or.inr (Or.inl holds)) idle⟩
  · exact fun p recorded => Nat.le_trans (aligned.splice p recorded) (Nat.le_of_lt longer)
  · exact ⟨fun holds => absurd holds spliced, fun holds => absurd (Or.inr (Or.inr holds)) idle⟩

theorem Opening.text_ne_nil {kind : FrameKind} {text : Text} {slot : Option Slot}
    (opening : s.Opening options kind text slot) : text ≠ [] := by
  cases opening <;> simp [Atom.atomicOpen]

theorem Opening.text_ahead {text : Text} {slot : Option Slot}
    (opening : s.Opening options (.lookahead false) text slot) : text = ['(', '?', '='] := by
  cases opening
  rfl

theorem Aligned.enter (aligned : s.Aligned) (reached : s.Reached) (nonempty : s.rest ≠ [])
    {inner more text : Text} {kind : FrameKind} {slot : Option Slot}
    (rest : s.rest = '(' :: (inner ++ more)) (place : s.place = .outside)
    (turn : Turn options s ('(' :: inner) next)
    (out : next.out = s.out ++ text) (capture : next.capture = s.capture)
    (splice : next.splice = none)
    (frames : next.frames = ⟨kind, s.out.size, s.groups.size⟩ :: s.frames)
    (opening : s.Opening options kind text slot)
    (ahead : kind = .lookahead false ↔ inner = ['?', '='])
    (marked : Opener.read (inner ++ more) = .lookahead false → kind = .lookahead false)
    (captures : s.atLookaheadStart = true →
      ((∃ slot, kind = .capture slot) ↔ (Opener.read (inner ++ more)).captures = true)) :
    next.Aligned := by
  have outside : of s.front = .pattern .outside := by rw [reached.region nonempty, place]
  obtain ⟨front, _⟩ := turn.reads
  have tame : (of s.front).Tame ('(' :: inner) := by
    rw [outside, ← place]
    exact turn.tame
  have kept : (of s.front).drops '(' = false := by
    rw [outside]
    rfl
  have longer : s.out.size < next.out.size := by
    rw [out]
    exact Text.size_lt_append opening.text_ne_nil
  have size : kind = .lookahead false → next.out.size = s.out.size + 3 := by
    rintro rfl
    rw [out, Text.size_append, opening.text_ahead]
    rfl
  have behind : s.text.drop (s.front.length + 1) = inner ++ more := by
    rw [State.text, rest]
    change (s.front ++ _).drop _ = _
    rw [List.drop_length_add_append]
    rfl
  have closes : ∀ property, ¬ Trails (ClosedBy property) next.front := by
    intro property
    rw [front]
    exact not_trails_closing tame kept fun _ => by decide
  have begins : Begins next.front ↔ kind = .lookahead false := by
    constructor
    · rw [front]
      intro begins
      obtain ⟨more', rfl⟩ := mark_of_begins outside tame begins
      exact marked rfl
    · intro mark
      rw [front, ahead.mp mark]
      exact begins_opening outside
  have start : next.atLookaheadStart = true ↔ kind = .lookahead false := by
    rw [atLookaheadStart_eq, frames]
    simp only [startsAt, Bool.and_eq_true, beq_iff_eq]
    exact ⟨fun holds => holds.1, fun mark => ⟨mark, (size mark).symm⟩⟩
  refine ⟨?_, start.trans begins.symm, ?_, ?_, ?_, ?_, ?_⟩
  · rw [turn.text_eq, frames, front, unclosed_opening outside tame]
    refine .cons (aligned.stacked.mono (by simp) (Nat.le_refl _)) ?_ ?_ ?_ longer fun mark => ?_
    · rw [← atLookaheadStart_eq]
      exact aligned.begins
    · rw [← atLookaheadStart_eq, behind]
      exact captures
    · intro mark
      rw [behind] at mark
      rw [ahead.mp (marked mark)]
      simp
    · exact Nat.le_of_eq (size mark).symm
  · intro k recorded
    rw [capture] at recorded
    exact Nat.le_trans (aligned.capture k recorded) (Nat.le_of_lt longer)
  · refine ⟨?_, fun holds => absurd holds (closes _)⟩
    rintro ⟨k, recorded, stop, _⟩
    rw [capture] at recorded
    have low := aligned.capture k recorded
    omega
  · intro p recorded
    rw [splice] at recorded
    contradiction
  · refine ⟨?_, fun holds => absurd holds (closes _)⟩
    rintro ⟨p, recorded, _⟩
    rw [splice] at recorded
    contradiction
  · rintro (holds | holds | holds)
    · obtain rfl := begins.mp holds
      rw [opening.text_ahead] at out
      exact parts_mark out
    · exact absurd holds (closes _)
    · exact absurd holds (closes _)

theorem closed_capture (s : State) (frame : Frame) (frames : List Frame) :
    (∃ slot, frame.kind = .capture slot ∧ (s.closed frame frames).capture =
        some ⟨slot, frame.start, (s.closed frame frames).out.size⟩) ∨
      (∀ slot, frame.kind ≠ .capture slot) ∧ (s.closed frame frames).capture = s.capture := by
  unfold closed captureOf emitClose
  cases frame.kind with
  | capture slot => exact Or.inl ⟨slot, rfl, rfl⟩
  | plain => exact Or.inr ⟨by simp, rfl⟩
  | lookahead negative => exact Or.inr ⟨by simp, rfl⟩
  | atomic slot => exact Or.inr ⟨by simp, rfl⟩

theorem size_closed_lt (frame : Frame) (frames : List Frame) {more : Text}
    (rest : s.rest = ')' :: more) : s.out.size < (s.closed frame frames).out.size := by
  rw [(closed_eq frame frames rest).1]
  apply Text.size_lt_append
  unfold closing
  split <;> simp [Atom.atomicClose]

theorem Aligned.captureLast_closed (aligned : s.Aligned) {frame : Frame} {frames : List Frame}
    (longer : s.out.size < (s.closed frame frames).out.size) :
    (s.closed frame frames).CaptureLast ↔
      startsAt frame.start frames = true ∧ ∃ slot, frame.kind = .capture slot := by
  rcases closed_capture s frame frames with ⟨slot, kind, last⟩ | ⟨other, kept⟩
  · constructor
    · rintro ⟨k, recorded, _, starts⟩
      cases last.symm.trans recorded
      exact ⟨starts, slot, kind⟩
    · exact fun ⟨starts, _⟩ => ⟨_, last, rfl, starts⟩
  · constructor
    · rintro ⟨k, recorded, stop, _⟩
      have low := aligned.capture k (kept ▸ recorded)
      omega
    · exact fun ⟨_, slot, kind⟩ => absurd kind (other slot)

theorem spliceLast_closed {frame : Frame} {frames : List Frame}
    (open_ : s.frames = frame :: frames) :
    (s.closed frame frames).SpliceLast ↔ s.CaptureLast := by
  constructor
  · rintro ⟨p, recorded, _⟩
    obtain ⟨kind, k, last, start, stop, _⟩ := closed_splice recorded
    refine ⟨k, last, stop, ?_⟩
    rw [open_]
    simp [startsAt, kind, start]
  · rintro ⟨k, last, stop, starts⟩
    rw [open_] at starts
    simp only [startsAt, Bool.and_eq_true, beq_iff_eq] at starts
    exact ⟨_, closed_splice_eq starts.1 last starts.2 stop, rfl⟩

theorem Aligned.leave (aligned : s.Aligned) (reached : s.Reached) {frame : Frame}
    {frames : List Frame} {more : Text} (rest : s.rest = ')' :: more) (place : s.place = .outside)
    (open_ : s.frames = frame :: frames) (turn : Turn options s [')'] (s.closed frame frames)) :
    (s.closed frame frames).Aligned := by
  have outside : of s.front = .pattern .outside := by
    rw [reached.region (by simp [rest]), place]
  obtain ⟨front, _⟩ := turn.reads
  obtain ⟨out, _, _, _, _⟩ := closed_eq frame frames rest
  have longer := size_closed_lt frame frames rest
  obtain ⟨fronts, unclosed_⟩ : ∃ fronts, unclosed s.front = fronts := ⟨_, rfl⟩
  have stacked := aligned.stacked
  rw [open_, unclosed_] at stacked
  obtain _ | @⟨_, _, _, opened, fronts, outer, begins, captures, _, grown, _⟩ := stacked
  have later : unclosed (s.closed frame frames).front = fronts := by
    rw [front, unclosed_concat, outside, unclosed_]
    rfl
  have form : Opener.read (s.text.drop (opened.length + 1)) =
      Opener.read (s.front.drop (opened.length + 1)) := by
    have member : opened ∈ unclosed s.front := by simp [unclosed_]
    obtain ⟨_, inner, parts⟩ := of_unclosed member
    have whole : s.text = s.front ++ ')' :: more := by rw [State.text, rest]; rfl
    rw [whole, List.drop_append_of_le_length (by rw [parts]; simp), Opener.read_closing]
  have encloses : Encloses (s.closed frame frames).front ↔
      startsAt frame.start frames = true ∧ ∃ slot, frame.kind = .capture slot := by
    rw [front, Encloses, trails_close outside, unclosed_]
    constructor
    · rintro ⟨_, last, starts, form'⟩
      cases last
      rw [← begins] at starts
      exact ⟨starts, (captures starts).mpr (by rwa [form])⟩
    · rintro ⟨starts, kind⟩
      exact ⟨opened, rfl, begins.mp starts, by rw [← form]; exact (captures starts).mp kind⟩
  have behind : Behind (s.closed frame frames).front ↔ Encloses s.front := by
    rw [front]
    exact trails_close outside
  have plain : (∀ slot, frame.kind ≠ .atomic slot) →
      ∀ after, (s.closed frame frames).parts after = false := by
    intro native
    apply parts_closing
    rw [out, closing]
    split
    · rename_i slot kind
      exact absurd kind (native slot)
    · rfl
  refine ⟨?_, ?_, ?_, (aligned.captureLast_closed longer).trans encloses.symm, ?_, ?_, ?_⟩
  · rw [turn.text_eq, later]
    exact outer.mono (by rw [front]; simp) (by omega)
  · have idle : (s.closed frame frames).atLookaheadStart = false := by
      rw [atLookaheadStart_eq]
      exact outer.startsAt_lt (by omega)
    rw [idle, front]
    exact ⟨fun never => by contradiction, fun holds => absurd holds (not_begins_closing outside)⟩
  · intro k recorded
    rcases closed_capture s frame frames with ⟨slot, kind, last⟩ | ⟨_, kept⟩
    · cases last.symm.trans recorded
      exact Nat.le_refl _
    · exact Nat.le_trans (aligned.capture k (kept ▸ recorded)) (Nat.le_of_lt longer)
  · intro p recorded
    obtain ⟨_, k, _, _, _, rfl⟩ := closed_splice recorded
    exact Nat.le_refl _
  · exact (spliceLast_closed open_).trans (aligned.encloses.trans behind.symm)
  · rintro (holds | holds | holds)
    · rw [front] at holds
      exact absurd holds (not_begins_closing outside)
    · obtain ⟨_, slot, kind⟩ := encloses.mp holds
      exact plain (by simp [kind])
    · obtain ⟨k, _, _, starts⟩ := aligned.encloses.mpr (behind.mp holds)
      rw [open_] at starts
      simp only [startsAt, Bool.and_eq_true, beq_iff_eq] at starts
      exact plain (by simp [starts.1])

theorem Aligned.stray (aligned : s.Aligned) (reached : s.Reached) {more : Text}
    (rest : s.rest = ')' :: more) (place : s.place = .outside) (open_ : s.frames = [])
    (turn : Turn options s [')'] (s.copy 1)) : (s.copy 1).Aligned := by
  have nonempty : s.rest ≠ [] := by simp [rest]
  have outside : of s.front = .pattern .outside := by rw [reached.region nonempty, place]
  obtain ⟨front, _⟩ := turn.reads
  have frames : (s.copy 1).frames = s.frames := rfl
  have longer : s.out.size < (s.copy 1).out.size := by
    apply Text.size_lt_append
    simp [rest]
  have stacked := aligned.stacked
  obtain ⟨fronts, none_⟩ : ∃ fronts, unclosed s.front = fronts := ⟨_, rfl⟩
  rw [open_, none_] at stacked
  obtain _ | _ := stacked
  have encloses : ¬ Encloses (s.copy 1).front := by
    rw [front, Encloses, trails_close outside, none_]
    rintro ⟨_, last, _⟩
    contradiction
  have behind : ¬ Behind (s.copy 1).front := by
    rw [front, Behind, trails_close outside, ← aligned.encloses]
    rintro ⟨_, _, _, starts⟩
    rw [open_] at starts
    contradiction
  have begins : ¬ Begins (s.copy 1).front := by
    rw [front]
    exact not_begins_closing outside
  obtain ⟨start, captured, spliced⟩ :=
    aligned.inactive nonempty reached frames rfl (Or.inl rfl) (Nat.le_of_lt longer) fun _ => longer
  refine ⟨?_, ?_, ?_, ?_, ?_, ?_, ?_⟩
  · rw [frames, open_, front, unclosed_concat, outside, none_]
    exact .nil _
  · rw [start]
    exact ⟨fun never => by contradiction, fun holds => absurd holds begins⟩
  · exact fun k recorded => Nat.le_trans (aligned.capture k recorded) (Nat.le_of_lt longer)
  · exact ⟨fun holds => absurd holds captured, fun holds => absurd holds encloses⟩
  · exact fun p recorded => Nat.le_trans (aligned.splice p recorded) (Nat.le_of_lt longer)
  · exact ⟨fun holds => absurd holds spliced, fun holds => absurd holds behind⟩
  · rintro (holds | holds | holds)
    · exact absurd holds begins
    · exact absurd holds encloses
    · exact absurd holds behind

theorem Aligned.turn (aligned : s.Aligned) (reached : s.Reached)
    (short : s.text.length < Atom.searchReach) (nonempty : s.rest ≠ []) {word : Text}
    (turn : Turn options s word next) : next.Aligned := by
  have taken := turn
  have grown : ∀ {c : Char} {tail : Text}, Turn options s (c :: tail) next →
      (s.place = .outside → isBreak c = false ∧ c ≠ '(' ∧ c ≠ ')') → next.frames = s.frames →
        next.capture = s.capture → (next.splice = s.splice ∨ next.splice = none) →
          s.out.size < next.out.size → next.Aligned := by
    intro c tail turn head frames capture splice longer
    exact aligned.other reached nonempty turn head frames capture splice (Nat.le_of_lt longer)
      fun _ => longer
  cases turn with
  | drop _ more rest place filled gap =>
      exact aligned.drop taken (by rw [reached.region nonempty, place]) gap
  | part c more rest place blank parts =>
      exact aligned.part reached nonempty taken place blank parts
  | plain c more rest place kept other =>
      rw [copyPlain_eq rest] at taken grown ⊢
      refine grown taken (fun _ => ⟨kept, other.1, other.2.1⟩) rfl rfl (Or.inl rfl) ?_
      apply Text.size_lt_append
      split <;> simp
  | letter l tail more rest =>
      exact grown taken (fun _ => by decide) rfl rfl (Or.inl rfl)
        (Text.size_lt_append (by simp [rest]))
  | nul more rest =>
      exact grown taken (fun _ => by decide) rfl rfl (Or.inl rfl)
        (Text.size_lt_append (by simp [nulText]))
  | splice digits more splice rest =>
      exact grown taken (fun _ => by decide) rfl rfl (Or.inr rfl)
        (Text.size_lt_append (by simp [Backreference.render]))
  | refer c tail more slot rest place head =>
      refine grown taken (fun _ => ?_) rfl rfl (Or.inl rfl)
        (Text.size_lt_append (by simp [Backreference.render]))
      rcases head with rfl | ⟨rfl, _⟩ <;> decide
  | openClass more rest =>
      exact grown taken (fun _ => by decide) rfl rfl (Or.inl rfl)
        (Text.size_lt_append (by simp [rest]))
  | anything more rest =>
      exact grown taken (fun _ => by decide) rfl rfl (Or.inl rfl) (Text.size_lt_append (by simp))
  | repeat_ q more rest legible place =>
      obtain ⟨c, tail, written, head, _⟩ := text_quantifier legible
      rw [written] at taken
      exact grown taken (fun _ => solid_of_isInner head) rfl rfl (Or.inl rfl)
        (Nat.lt_of_le_of_lt (s.size_prepared _)
          (Text.size_lt_append (render_spec legible options.ungreedy).1))
  | possess q atom more rest legible place mark found =>
      obtain ⟨ledger, sound⟩ := reached.sound
      obtain ⟨_, _, _, _, longer⟩ :=
        sound.repeats nonempty (reached.reach short) legible place found
      obtain ⟨c, tail, written, head, _⟩ := text_quantifier legible
      rw [written] at taken
      exact grown taken (fun _ => solid_of_isInner head) rfl rfl (Or.inl rfl) longer
  | enter inner more kind text slot rest place tail opening ahead marked captures =>
      exact aligned.enter reached nonempty rest place taken rfl rfl rfl rfl opening ahead marked
        captures
  | leave frame frames more rest place open_ => exact aligned.leave reached rest place open_ taken
  | stray more rest place open_ => exact aligned.stray reached rest place open_ taken
  | within _ more rest filled stays =>
      obtain ⟨c, tail, rfl⟩ := List.exists_cons_of_ne_nil filled
      have other := Place.ne_outside_of_inside (Place.inside_of_within stays)
      refine grown taken (fun outside => absurd outside other) rfl rfl (Or.inl rfl) ?_
      exact Text.size_lt_append (by simp [rest])
  | closeClass start more rest place =>
      exact grown taken (fun outside => by rw [outside] at place; contradiction) rfl rfl
        (Or.inl rfl) (Text.size_lt_append (by simp [rest]))
  | escaped c more rest place =>
      exact grown taken (fun outside => by rw [outside] at place; contradiction) rfl rfl
        (Or.inl rfl) (Text.size_lt_append (by simp [rest]))
  | restore c more rest place =>
      have kept : s.dropEscape.frames = s.frames ∧ s.dropEscape.capture = s.capture ∧
          s.dropEscape.splice = s.splice := by
        unfold dropEscape
        split <;> exact ⟨rfl, rfl, rfl⟩
      refine aligned.other reached nonempty taken
        (fun outside => by rw [outside] at place; contradiction) kept.1 kept.2.1
        (Or.inl kept.2.2) ?_
        fun other => absurd place other
      have large := s.size_le_restored c
      rwa [out_copy, rest_dropEscape, rest]

/-- What a conversion records of lookaheads is what the pattern tells. -/
theorem aligned_of_trace {text : Text} {states : List State}
    (trace : Trace options none (.start text) states s) (short : text.length < Atom.searchReach) :
    s.Aligned :=
  (trace.turns Aligned (fun reached short nonempty turn aligned =>
    aligned.turn reached short nonempty turn) short (.start text) (.start text)).2

end State

end Conversion

end PatternDialect
