import PatternDialect.Proofs.Order
import PatternDialect.Proofs.Rereading
import PatternDialect.Proofs.Turns

/-! The outline of what a conversion writes.

A conversion adds to its output at the end, or rewrites the unit that it ends in.  While no
step writes what would be taken for something else, the output of every state has a whole
outline, with an opened group for each frame. -/

namespace PatternDialect

open Character Source Syntax

def Slot.unnamed : Slot → Slot
  | .named _ => .anonymous
  | slot => slot

theorem Slot.isVisible_unnamed (slot : Slot) : slot.unnamed.isVisible = slot.isVisible := by
  cases slot <;> rfl

/-- Whether a text ends within what opens a group. -/
def endsOpener (text : Text) : Bool :=
  (Place.outside.tails text).any fun tail => tail == ['(', '?'] || tail == ['(', '?', '<']

/-- Whether a unit is neither a reference nor holds a parenthesis that is not escaped. -/
def isPlainUnit : Text → Bool
  | ['\\', c] => !isDigit c || c == '0'
  | '\\' :: c :: rest => !isDigit c && rest.all fun d => d != '(' && d != ')'
  | unit => unit != [')']

namespace Conversion

namespace State

/-- Whether a reference comes next. -/
def refers (s : State) : Bool :=
  s.place == .outside && (s.next? none).any Construct.isReference

/-- Whether a character comes next that loses its backslash. -/
def restores (s : State) : Bool := s.place == .escape && s.rest.head?.any isBreak

/-- Whether what comes next joins with what was written last. -/
def merges (s : State) : Bool :=
  s.place == .outside &&
    match s.next? none with
    | some (.quantifier q) =>
        q.amount == .plus &&
          if q.possessive then (s.searched? none).any endsAmount else endsAmount s.out
    | none => s.rest.head?.any (goesOn s.out)
    | _ => false

/-- Whether digits come next that are taken for the reference to a group with a name. -/
def hides (s : State) : Bool :=
  s.place == .outside && s.rest.head? == some '\\' && (s.rest.drop 1).head?.any isDigit &&
    (s.splice.filter (·.stop == s.out.size)).any fun p => s.groups.get? p.slot != some .anonymous

/-- Whether the unit that the next quantifier is found to repeat is part of something else. -/
def splits (s : State) : Bool :=
  (s.searched? none).any fun unit =>
    !isPlainUnit unit || endsOpener (s.out.takeBytes (s.out.size - unit.size))

/-- Whether the next step writes what is taken for the same when it is read again. -/
def isFaithful (s : State) : Bool :=
  !(s.refers || s.restores || s.merges || s.hides || s.splits || s.misreads none)

theorem isFaithful_iff (s : State) :
    s.isFaithful = true ↔ s.refers = false ∧ s.restores = false ∧ s.merges = false ∧
      s.hides = false ∧ s.splits = false ∧ s.misreads none = false := by
  simp [isFaithful, and_assoc]

end State

/-! ### Layers -/

def Frame.isBare (frame : Frame) : Bool :=
  match frame.kind with
  | .capture _ | .atomic _ => true
  | .plain | .lookahead _ => false

theorem Frame.isBare_kindOf (form : Form) (start own : Nat) :
    Frame.isBare ⟨kindOf false false own form, start, own⟩ = form.isBare := by
  cases form <;> rfl

/-- The innermost open group: the output and the slots before it, and what is in it. -/
structure Layer where
  before : Text
  slots : List Slot
  outline : Outline

namespace Layer

def index (layer : Layer) : Nat := layer.slots.length + 1

def text (layer : Layer) : Text := layer.before ++ layer.outline.source layer.index

def declared (layer : Layer) : List Slot := layer.slots ++ layer.outline.slots

def own (layer : Layer) : Nat := layer.index + layer.outline.slots.length

theorem index_pos (layer : Layer) : 0 < layer.index := Nat.succ_pos _

theorem own_eq (layer : Layer) : layer.own = layer.declared.length + 1 := by
  simp only [own, index, declared, List.length_append]
  omega

end Layer

/-- A layer that a second reading finds again within the given frames. -/
structure Layer.Sound (layer : Layer) (frames : List Frame) : Prop where
  whole : layer.outline.Whole frames.isEmpty
  unmarked : frames.head?.any Frame.isBare = true → layer.outline.isMarked = false

/-- The open groups, with the output and the slots up to the innermost one. -/
inductive Layers : List Frame → Text → List Slot → Prop where
  | base : Layers [] [] []
  | inner {frames : List Frame} (layer : Layer) (form : Form) (visible : form.isNamed = false)
      (sound : layer.Sound frames) (layers : Layers frames layer.before layer.slots) :
      Layers (⟨kindOf false false layer.own form, layer.text.size, layer.own⟩ :: frames)
        (layer.text ++ form.opening false false) (layer.declared ++ form.slots false false)

theorem Layers.outer {frame : Frame} {frames : List Frame} {before : Text} {slots : List Slot}
    (layers : Layers (frame :: frames) before slots) :
    ∃ (layer : Layer) (form : Form), form.isNamed = false ∧ layer.Sound frames ∧
      Layers frames layer.before layer.slots ∧
        frame = ⟨kindOf false false layer.own form, layer.text.size, layer.own⟩ ∧
          before = layer.text ++ form.opening false false ∧
            slots = layer.declared ++ form.slots false false := by
  cases layers with
  | inner layer form visible sound layers =>
      exact ⟨layer, form, visible, sound, layers, rfl, rfl, rfl⟩

theorem Layers.closed {frames : List Frame} {before : Text} {slots : List Slot}
    (layers : Layers frames before slots) : Place.outside.after before = .outside := by
  induction layers with
  | base => rfl
  | inner layer form visible sound layers ih =>
      have opened := (Reader.start.after_ordinary form.ordinary_opening.1
        form.ordinary_opening.2).1
      have place := Reader.place_start (form.opening false false)
      rw [opened] at place
      rw [Layer.text, Place.after_append, Place.after_append, ih,
        sound.whole.closed layer.index_pos, ← place]
      rfl

theorem Layers.closed_layer {frames : List Frame} {layer : Layer}
    (layers : Layers frames layer.before layer.slots) (sound : layer.Sound frames) :
    Place.outside.after layer.text = .outside := by
  rw [Layer.text, Place.after_append, layers.closed, sound.whole.closed layer.index_pos]

/-- A token that is written only in part. -/
inductive State.Unfinished (s : State) (stop : Nat) : Text → Prop where
  | none (class_ : s.classStart = none) : Unfinished s stop []
  | escape (class_ : s.classStart = none) : Unfinished s stop ['\\']
  | class_ (body : Text) (start : s.classStart = some stop)
      (within : Place.inClass.within body = true) : Unfinished s stop ('[' :: body)

/-- A unit that a recorded atom spans, at the end of a layer. -/
def Layer.Spans (layer : Layer) (frames : List Frame) (a : Atom) : Prop :=
  ∃ front unit, layer.outline.Ends frames.isEmpty front unit ∧ endsAmount unit.last = false ∧
    a.start = (layer.before ++ front.source layer.index).size ∧
      a.firstGroup = layer.index + front.slots.length

/-- The output of a state as a layer with an unfinished token behind it. -/
structure State.Outlined (s : State) (layer : Layer) (left : Text) : Prop where
  layers : Layers s.frames layer.before layer.slots
  sound : layer.Sound s.frames
  out : s.out = layer.text ++ left
  groups : s.groups.declared.map Slot.unnamed = layer.declared
  recalls : s.Recalls layer.before.size layer.index layer.text.size layer.outline
  mark : Recorded id s.referenceEnd layer.text.size
    (if layer.outline.refers then some layer.text.size else none)
  atom : ∀ a, s.atom = some a → a.stop ≤ layer.text.size ∧
    (a.stop = layer.text.size → layer.Spans s.frames a)
  token : s.Unfinished layer.text.size left

variable {s next : State} {layer : Layer} {left word : Text}

theorem State.Outlined.start (text : Text) :
    (State.start text).Outlined ⟨[], [], .empty⟩ [] where
  layers := .base
  sound := ⟨trivial, by simp [State.start]⟩
  out := rfl
  groups := rfl
  recalls := ⟨Recorded.nothing _ _, Recorded.nothing _ _⟩
  mark := Recorded.nothing _ _
  atom := nofun
  token := .none rfl

namespace State.Outlined

theorem closed (outlined : s.Outlined layer left) : Place.outside.after layer.text = .outside :=
  outlined.layers.closed_layer outlined.sound

theorem after (outlined : s.Outlined layer left) :
    Place.outside.after s.out = Place.outside.after left := by
  rw [outlined.out, Place.after_append, outlined.closed]

theorem size (outlined : s.Outlined layer left) : s.groups.size = layer.own := by
  rw [layer.own_eq, ← outlined.groups, List.length_map]
  rfl

theorem classStart (outlined : s.Outlined layer []) : s.classStart = none := by
  cases outlined.token with
  | none class_ => exact class_

theorem finished (outlined : s.Outlined layer left) (place : Place.outside.after s.out = .outside) :
    left = [] := by
  have here := outlined.after.symm.trans place
  cases outlined.token with
  | none => rfl
  | escape => contradiction
  | class_ body start within =>
      have inside := Place.inside_after_of_within within
      change Place.inClass.after body = .outside at here
      rw [here] at inside
      contradiction

theorem pending (outlined : s.Outlined layer left) (place : Place.outside.after s.out = .escape) :
    left = ['\\'] ∧ s.classStart = none := by
  have here := outlined.after.symm.trans place
  cases outlined.token with
  | none => contradiction
  | escape class_ => exact ⟨rfl, class_⟩
  | class_ body start within =>
      have inside := Place.inside_after_of_within within
      change Place.inClass.after body = .escape at here
      rw [here] at inside
      contradiction

theorem bracket (outlined : s.Outlined layer left)
    (inside : (Place.outside.after s.out).inside = true) :
    ∃ body, left = '[' :: body ∧ s.classStart = some layer.text.size ∧
      Place.inClass.within body = true ∧ Place.outside.after s.out = Place.inClass.after body := by
  have here := outlined.after
  rw [here] at inside ⊢
  cases outlined.token with
  | none => contradiction
  | escape => contradiction
  | class_ body start within => exact ⟨body, rfl, start, within, rfl⟩

end State.Outlined

/-! ### Texts behind the output -/

/-- An outline that ends in nothing that the conversion remembers. -/
structure Silent (outline : Outline) : Prop where
  capture : ∀ start index stop, outline.capture? start index stop = none
  splice : ∀ index stop, outline.splice? index stop = none

theorem silent_add (outline : Outline) (word : Text) : Silent (outline.add word) := by
  cases outline <;> exact ⟨fun _ _ _ => rfl, fun _ _ => rfl⟩

theorem silent_group {form : Form} (capture : form ≠ .capture) (ahead : form ≠ .lookahead false)
    (front body : Outline) : Silent (.group front form body) :=
  ⟨Outline.capture?_group capture, Outline.splice?_group ahead⟩

/-- The output grows, and what the innermost group holds is another outline. -/
theorem State.Outlined.rewrite (outlined : s.Outlined layer left) {outline : Outline}
    (silent : Silent outline) (sound : Layer.Sound { layer with outline } s.frames)
    (out : next.out = layer.before ++ outline.source layer.index)
    (grown : layer.text.size < next.out.size)
    (groups : next.groups.declared.map Slot.unnamed = layer.slots ++ outline.slots)
    (frames : next.frames = s.frames) (capture : next.capture = s.capture)
    (splice : next.splice = s.splice ∨ next.splice = none)
    (mark : next.referenceEnd = if outline.refers then some next.out.size else s.referenceEnd)
    (atom : ∀ a, next.atom = some a → s.atom = some a ∨
      a.stop = next.out.size ∧ Layer.Spans { layer with outline } s.frames a)
    (class_ : next.classStart = none) : next.Outlined { layer with outline } [] := by
  have text : next.out = Layer.text { layer with outline } := out
  rw [text] at grown
  constructor
  · rw [frames]
    exact outlined.layers
  · rw [frames]
    exact sound
  · rw [text, List.append_nil]
  · exact groups
  · constructor
    · rw [capture, silent.capture]
      exact outlined.recalls.capture.outgrown grown
    · rw [silent.splice]
      rcases splice with same | none_
      · rw [same]
        exact outlined.recalls.splice.outgrown grown
      · rw [none_]
        exact Recorded.nothing _ _
  · rw [mark, text]
    cases refers : outline.refers with
    | false => exact outlined.mark.outgrown grown
    | true => exact Recorded.last id _
  · rw [frames]
    intro a recorded
    rcases atom a recorded with before | ⟨stop, spans⟩
    · have bound := (outlined.atom a before).1
      exact ⟨by omega, fun same => by omega⟩
    · rw [text] at stop
      exact ⟨Nat.le_of_eq stop, fun _ => spans⟩
  · exact .none class_

/-- What a state keeps when a text is written behind its output. -/
structure State.Retains (s next : State) : Prop where
  frames : next.frames = s.frames
  groups : next.groups = s.groups
  capture : next.capture = s.capture
  splice : next.splice = s.splice
  referenceEnd : next.referenceEnd = s.referenceEnd

theorem Layer.Sound.add {frames : List Frame} (sound : layer.Sound frames)
    (whole : (layer.outline.add word).Whole frames.isEmpty)
    (mark : layer.outline = .empty → frames.head?.any Frame.isBare = true → word.head? ≠ some '?') :
    Layer.Sound { layer with outline := layer.outline.add word } frames where
  whole := whole
  unmarked := by
    intro bare
    by_cases nothing : layer.outline = .empty
    · change (layer.outline.add word).isMarked = false
      rw [nothing]
      simpa [Outline.add, Outline.isMarked] using mark nothing bare
    · exact (Outline.isMarked_add sound.whole nothing).trans (sound.unmarked bare)

theorem Layer.Sound.part {frames : List Frame} (sound : layer.Sound frames) :
    Layer.Sound { layer with outline := .group layer.outline .plain .empty } frames :=
  ⟨⟨sound.whole, trivial, rfl, by simp [Form.isBare]⟩, sound.unmarked⟩

theorem State.Outlined.write (outlined : s.Outlined layer left) (retains : s.Retains next)
    (filled : word ≠ []) (whole : (layer.outline.add word).Whole s.frames.isEmpty)
    (mark : layer.outline = .empty → s.frames.head?.any Frame.isBare = true →
      word.head? ≠ some '?')
    (out : next.out = layer.text ++ word)
    (atom : ∀ a, next.atom = some a → s.atom = some a ∨ a.stop = next.out.size ∧
      Layer.Spans { layer with outline := layer.outline.add word } s.frames a)
    (class_ : next.classStart = none) :
    next.Outlined { layer with outline := layer.outline.add word } [] := by
  have refers : (layer.outline.add word).refers = false := by cases layer.outline <;> rfl
  refine outlined.rewrite (silent_add _ _) (outlined.sound.add whole mark) ?_ ?_ ?_ retains.frames
    retains.capture (Or.inl retains.splice) ?_ atom class_
  · rw [out, Outline.source_add, ← List.append_assoc]
    rfl
  · rw [out]
    exact State.size_lt_append filled
  · rw [retains.groups, outlined.groups, Outline.slots_add]
    rfl
  · rw [refers, retains.referenceEnd]
    rfl

/-- A separator is written as an empty group. -/
theorem State.Outlined.part (outlined : s.Outlined layer left) (retains : s.Retains next)
    (out : next.out = layer.text ++ separator) (atom : next.atom = s.atom)
    (class_ : next.classStart = none) :
    next.Outlined { layer with outline := .group layer.outline .plain .empty } [] := by
  refine outlined.rewrite (silent_group (by simp) (by simp) _ _) outlined.sound.part ?_ ?_ ?_
    retains.frames retains.capture (Or.inl retains.splice) retains.referenceEnd
    (fun a recorded => Or.inl (atom ▸ recorded)) class_
  · rw [out, Outline.source, ← List.append_assoc]
    rfl
  · rw [out]
    exact State.size_lt_append (by simp [separator])
  · rw [retains.groups, outlined.groups]
    simp [Outline.slots, Form.slots, Layer.declared]

/-- The output goes on with a token that is not finished, or not at all. -/
theorem State.Outlined.hold (outlined : s.Outlined layer left) (retains : s.Retains next)
    (out : next.out = layer.text ++ word) (atom : ∀ a, next.atom = some a → s.atom = some a)
    (token : next.Unfinished layer.text.size word) : next.Outlined layer word := by
  obtain ⟨frames, groups, capture, splice, referenceEnd⟩ := retains
  refine ⟨?_, ?_, out, ?_, ⟨?_, ?_⟩, ?_, ?_, token⟩
  · rw [frames]
    exact outlined.layers
  · rw [frames]
    exact outlined.sound
  · rw [groups]
    exact outlined.groups
  · rw [capture]
    exact outlined.recalls.capture
  · rw [splice]
    exact outlined.recalls.splice
  · rw [referenceEnd]
    exact outlined.mark
  · rw [frames]
    exact fun a recorded => outlined.atom a (atom a recorded)

theorem Layer.tails_last {frames : List Frame} (layers : Layers frames layer.before layer.slots)
    (sound : layer.Sound frames) {tail : Text}
    (member : tail ∈ Place.outside.tails layer.outline.last) :
    tail ∈ Place.outside.tails layer.text := by
  obtain ⟨before, slots, outline⟩ := layer
  cases outline with
  | empty => contradiction
  | group front form body => contradiction
  | words front text =>
      change tail ∈ Place.outside.tails (before ++ (front.source (slots.length + 1) ++ text))
      rw [← List.append_assoc]
      refine Place.tails_right ?_ member
      rw [Place.after_append, layers.closed]
      exact sound.whole.1.closed (Nat.succ_pos _)

theorem State.Outlined.goesOn_last (outlined : s.Outlined layer []) {c : Char}
    (none_ : goesOn s.out c = false) : goesOn layer.outline.last c = false := by
  rw [outlined.out, List.append_nil] at none_
  simp only [goesOn, List.any_eq_false] at none_ ⊢
  exact fun tail member => none_ tail (layer.tails_last outlined.layers outlined.sound member)

theorem State.Outlined.endsAmount_last (outlined : s.Outlined layer [])
    (none_ : endsAmount s.out = false) : endsAmount layer.outline.last = false := by
  rw [outlined.out, List.append_nil] at none_
  simp only [endsAmount, List.any_eq_false] at none_ ⊢
  exact fun tail member => none_ tail (layer.tails_last outlined.layers outlined.sound member)

theorem State.Outlined.refers_eq (outlined : s.Outlined layer []) :
    (s.referenceEnd == some s.out.size) = layer.outline.refers := by
  have here := outlined.mark.here
  rw [outlined.out, List.append_nil]
  cases marked : s.referenceEnd with
  | none =>
      rw [marked] at here
      cases refers : layer.outline.refers with
      | false => rfl
      | true => simp [refers] at here
  | some stop =>
      rw [marked] at here
      cases refers : layer.outline.refers <;> simp_all [Option.filter]

theorem State.Outlined.isSingle_eq (outlined : s.Outlined layer [])
    (free : s.splice.filter (·.stop == s.out.size) = none) : layer.outline.isSingle = false := by
  have here := outlined.recalls.splice.here
  rw [outlined.out, List.append_nil] at free
  rw [free] at here
  cases single : layer.outline.isSingle with
  | false => rfl
  | true =>
      unfold Outline.isSingle at single
      split at single
      · rename_i shape
        rw [shape] at here
        contradiction
      · contradiction

section Turns

variable {c : Char} {more : Text}

theorem State.Outlined.plain (outlined : s.Outlined layer []) (rest : s.rest = c :: more)
    (place : s.place = .outside) (kept : isBreak c = false) (other : c ≠ '(' ∧ c ≠ ')' ∧ c ≠ '[')
    (found : s.next? none = none ∨ c = ']' ∨ c = '.')
    (merges : s.merges = false) : ∃ layer left, s.copyPlain.Outlined layer left := by
  have class_ := outlined.classStart
  have idle : s.next? none = none → Construct.Idle s.before c more := by
    intro nothing
    rw [State.next?, rest] at nothing
    exact Construct.idle_of_at? nothing
  have sign : c ≠ '*' ∧ c ≠ '+' ∧ c ≠ '?' := by
    rcases found with nothing | rfl | rfl
    · obtain ⟨_, _, _, star, plus, mark, _⟩ := (idle nothing).other
      exact ⟨star, plus, mark⟩
    · decide
    · decide
  by_cases backslash : c = '\\'
  · subst backslash
    rw [State.copyPlain_of_not_digit rest rfl]
    refine ⟨layer, ['\\'], outlined.hold ⟨rfl, rfl, rfl, rfl, rfl⟩ ?_ (fun _ => id)
      (.escape class_)⟩
    simp [outlined.out, rest]
  · have starts : startsVerbatim s.frames.isEmpty [c] = true := by
      by_cases brace : c = '{'
      · subst brace
        rfl
      · simp [startsVerbatim, sign, backslash, other, kept, brace]
    have join : goesOn layer.outline.last c = false := by
      rcases found with nothing | rfl | rfl
      · apply outlined.goesOn_last
        simpa [State.merges, place, nothing, rest] using merges
      · exact goesOn_eq_false rfl (by decide) _
      · exact goesOn_eq_false rfl (by decide) _
    rw [State.copyPlain_eq rest, outlined.refers_eq]
    split
    · rename_i joins
      have parted : (s.emit separator).Outlined
          { layer with outline := .group layer.outline .plain .empty } [] :=
        outlined.part ⟨rfl, rfl, rfl, rfl, rfl⟩ (by simp [outlined.out]) rfl class_
      have out : ((s.emit (separator ++ [c])).skip 1).out = (s.emit separator).out ++ [c] := by simp
      rw [parted.out, List.append_nil] at out
      exact ⟨_, [], parted.write ⟨rfl, rfl, rfl, rfl, rfl⟩ (by simp)
        (parted.sound.whole.add_one starts ⟨backslash, other.2.2⟩ sign.2.1 (fun _ => rfl) rfl)
        (by simp) out (fun a recorded => Or.inl recorded) class_⟩
    · rename_i apart
      have whole : (layer.outline.add [c]).Whole s.frames.isEmpty := by
        refine outlined.sound.whole.add_one starts ⟨backslash, other.2.2⟩ sign.2.1 ?_ join
        exact fun digit => by simpa [digit] using apart
      exact ⟨_, [], outlined.write ⟨rfl, rfl, rfl, rfl, rfl⟩ (by simp) whole (by simp [sign])
        (by simp [outlined.out]) (fun a recorded => Or.inl recorded) class_⟩

theorem State.Outlined.letter (outlined : s.Outlined layer [])
    (rest : s.rest = '\\' :: c :: more) (letter : isLetter c = true) :
    ∃ layer left, (s.copy 2).Outlined layer left := by
  have digit : isDigit c = false := by
    by_contra number
    simp only [isDigit, isLetter, Bool.not_eq_false, Bool.or_eq_true, Bool.and_eq_true,
      decide_eq_true_eq] at number letter
    rcases letter with ⟨low, _⟩ | ⟨low, _⟩ <;>
      exact absurd (Char.le_trans low number.2) (by decide)
  have kept : isBreak c = false := by
    cases breaks : isBreak c with
    | false => rfl
    | true =>
        rw [isLetter_of_isBreak breaks] at letter
        contradiction
  exact ⟨_, [], outlined.write ⟨rfl, rfl, rfl, rfl, rfl⟩ (by simp)
    (outlined.sound.whole.add_escape digit kept) (by simp) (by simp [outlined.out, rest])
    (fun a recorded => Or.inl recorded) outlined.classStart⟩

theorem State.Outlined.nul (outlined : s.Outlined layer []) (more : Text)
    (free : s.splice.filter (·.stop == s.out.size) = none) :
    ∃ layer left, ((s.emit (State.nulText more)).skip 2).Outlined layer left := by
  have class_ := outlined.classStart
  have written : (s.emit ['\\', '0']).Outlined
      { layer with outline := layer.outline.add ['\\', '0'] } [] := by
    have whole := outlined.sound.whole.add_of_head (verbatim_escape (c := '0') rfl) (by decide)
      (by simp [outlined.isSingle_eq free])
    exact outlined.write ⟨rfl, rfl, rfl, rfl, rfl⟩ (by simp) whole (by simp)
      (by simp [outlined.out]) (fun a recorded => Or.inl recorded) class_
  unfold State.nulText
  split
  · have out : ((s.emit ('\\' :: '0' :: separator)).skip 2).out =
        (s.emit ['\\', '0']).out ++ separator := by simp
    rw [written.out, List.append_nil] at out
    exact ⟨_, [], written.part ⟨rfl, rfl, rfl, rfl, rfl⟩ out rfl class_⟩
  · exact ⟨_, [], written.hold ⟨rfl, rfl, rfl, rfl, rfl⟩ written.out (fun _ => id)
      (.none class_)⟩

theorem State.Outlined.escaped (outlined : s.Outlined layer left) (rest : s.rest = c :: more)
    (place : Place.outside.after s.out = .escape) (digit : isDigit c = false)
    (kept : isBreak c = false) : ∃ layer left, (s.copy 1).Outlined layer left := by
  obtain ⟨rfl, class_⟩ := outlined.pending place
  exact ⟨_, [], outlined.write ⟨rfl, rfl, rfl, rfl, rfl⟩ (by simp)
    (outlined.sound.whole.add_escape digit kept) (by simp) (by simp [outlined.out, rest])
    (fun a recorded => Or.inl recorded) class_⟩

theorem State.Outlined.stray (outlined : s.Outlined layer []) (rest : s.rest = ')' :: more)
    (open_ : s.frames = []) : ∃ layer left, (s.copy 1).Outlined layer left := by
  have verbatim : Verbatim s.frames.isEmpty [')'] := by
    rw [open_]
    exact verbatim_one rfl (by decide)
  exact ⟨_, [], outlined.write ⟨rfl, rfl, rfl, rfl, rfl⟩ (by simp)
    (outlined.sound.whole.add_of_head verbatim (by decide) (by simp)) (by simp)
    (by simp [outlined.out, rest]) (fun a recorded => Or.inl recorded) outlined.classStart⟩

theorem State.Outlined.within (outlined : s.Outlined layer left) (rest : s.rest = word ++ more)
    (stays : (Place.outside.after s.out).within word = true) :
    ∃ layer left, (s.copy word.length).Outlined layer left := by
  obtain ⟨body, rfl, start, within, here⟩ := outlined.bracket (Place.inside_of_within stays)
  rw [here] at stays
  refine ⟨layer, '[' :: (body ++ word), outlined.hold ⟨rfl, rfl, rfl, rfl, rfl⟩ ?_
    (fun _ => id) (.class_ _ start ?_)⟩
  · simp [outlined.out, rest]
  · rw [Place.within_append, within, stays, Bool.and_self]

theorem State.Outlined.closeClass (outlined : s.Outlined layer left) {start : Nat}
    (rest : s.rest = ']' :: more) (place : Place.outside.after s.out = .inClass)
    (open_ : s.classStart = some start) :
    ∃ layer left, ({ s.copy 1 with classStart := none }.recordAtom start).Outlined layer left := by
  obtain ⟨body, rfl, opened, within, here⟩ := outlined.bracket (by rw [place]; rfl)
  obtain rfl : layer.text.size = start := Option.some.inj (opened.symm.trans open_)
  have inner : isClassBody body = true := by
    rw [place] at here
    simp [isClassBody, within, ← here]
  have whole : (layer.outline.add ('[' :: body ++ [']'])).Whole s.frames.isEmpty :=
    outlined.sound.whole.add_of_head (verbatim_bracket inner) (by decide) (by simp)
  have single : endsAmount ('[' :: body ++ [']']) = false := by
    rw [endsAmount, List.any_eq_false]
    intro tail member
    rw [tails_bracket within member]
    exact Bool.false_ne_true
  have out : (s.copy 1).out = layer.text ++ ('[' :: body ++ [']']) := by simp [outlined.out, rest]
  obtain ⟨front, ends, slots, source⟩ := whole.ends_add (verbatim_bracket inner)
    (by simp) (by simp) outlined.sound.whole.closed_last
  refine ⟨_, [], outlined.write ⟨rfl, rfl, rfl, rfl, rfl⟩ (by simp) whole (by simp) out
    (fun a recorded => Or.inr ?_) rfl⟩
  obtain rfl := Option.some.inj recorded
  refine ⟨rfl, front, _, ends, single, ?_, ?_⟩
  · rw [source]
    rfl
  · rw [slots]
    exact outlined.size

/-! ### Groups -/

theorem form_of_opening {kind : FrameKind} {text : Text} {slot : Option Slot}
    (opening : s.Opening {} kind text slot) :
    ∃ form : Form, form.isNamed = false ∧ kind = kindOf false false s.groups.size form ∧
      text = form.opening false false ∧ (s.opened slot).declared.map Slot.unnamed =
        s.groups.declared.map Slot.unnamed ++ form.slots false false := by
  cases opening with
  | capture slot visible =>
      refine ⟨.capture, rfl, rfl, rfl, ?_⟩
      cases slot with
      | suppressed => contradiction
      | anonymous | named => exact List.map_append
  | hidden noCapture => contradiction
  | atomic => exact ⟨.atomic, rfl, rfl, rfl, List.map_append⟩
  | plain => exact ⟨.plain, rfl, rfl, rfl, (List.append_nil _).symm⟩
  | lookahead negative =>
      exact ⟨.lookahead negative, rfl, rfl, by cases negative <;> rfl, (List.append_nil _).symm⟩
  | lookbehind negative =>
      exact ⟨.lookbehind negative, rfl, rfl, by cases negative <;> rfl, (List.append_nil _).symm⟩

theorem State.Outlined.enter (outlined : s.Outlined layer []) {kind : FrameKind} {text : Text}
    {slot : Option Slot} (opening : s.Opening {} kind text slot) (count : Nat) :
    ∃ layer left, ((({ s with groups := s.opened slot }.emit text).skip count).openFrame kind
      s.out.size s.groups.size).Outlined layer left := by
  obtain ⟨form, visible, rfl, rfl, slots⟩ := form_of_opening opening
  have text_ : s.out = layer.text := by rw [outlined.out, List.append_nil]
  have filled : form.opening false false ≠ [] := form.ordinary_opening.1
  have grown : layer.text.size < (layer.text ++ form.opening false false).size :=
    State.size_lt_append filled
  have inner : Layer.text ⟨layer.text ++ form.opening false false,
      layer.declared ++ form.slots false false, .empty⟩ = layer.text ++ form.opening false false :=
    List.append_nil _
  refine ⟨⟨layer.text ++ form.opening false false, layer.declared ++ form.slots false false,
    .empty⟩, [], ?_, ⟨trivial, fun _ => rfl⟩, ?_, ?_, ?_, ?_, ?_, .none outlined.classStart⟩
  · have layers := Layers.inner layer form visible outlined.sound outlined.layers
    rw [← outlined.size] at layers
    rw [text_]
    exact layers
  · rw [inner, List.append_nil, ← text_]
    rfl
  · change (s.opened slot).declared.map Slot.unnamed = _
    rw [slots, outlined.groups]
    exact (List.append_nil _).symm
  · rw [inner]
    exact ⟨outlined.recalls.capture.outgrown grown, Recorded.nothing _ _⟩
  · rw [inner]
    exact outlined.mark.outgrown grown
  · rw [inner]
    intro a recorded
    have bound := (outlined.atom a recorded).1
    exact ⟨by omega, fun same => by omega⟩

theorem State.Outlined.leave (outlined : s.Outlined layer []) {frame : Frame}
    {frames : List Frame} (rest : s.rest = ')' :: more) (open_ : s.frames = frame :: frames) :
    ∃ layer left, (s.closed frame frames).Outlined layer left := by
  obtain ⟨before, slots, body⟩ := layer
  have layers := outlined.layers
  have inside := outlined.sound
  rw [open_] at layers inside
  obtain ⟨outer, form, visible, sound, below, known, rfl, rfl⟩ := layers.outer
  have index : Layer.index ⟨outer.text ++ form.opening false false,
      outer.declared ++ form.slots false false, body⟩ =
        outer.own + (form.slots false false).length := by
    rw [outer.own_eq]
    simp only [Layer.index, List.length_append]
    omega
  have out := outlined.out
  have recalls := outlined.recalls
  have mark := outlined.mark
  rw [List.append_nil] at out
  rw [← out] at recalls mark
  rw [index, Text.size_append] at recalls
  rw [Layer.text, index] at out
  have closing : State.closing frame = form.closing outer.own := by
    rw [known]
    cases form <;> rfl
  have marked : (s.closed frame frames).referenceEnd =
      if form.isAtomic then some (s.closed frame frames).out.size else s.referenceEnd := by
    rw [known]
    cases form <;> rfl
  obtain ⟨written, _, _, class_, groups⟩ := State.closed_eq frame frames rest
  have grown := State.size_lt_closed frame frames rest
  have text : (s.closed frame frames).out =
      Layer.text { outer with outline := .group outer.outline form body } := by
    rw [written, out, closing]
    simp [Layer.text, Outline.source, Layer.own, Layer.index]
  have whole : (Outline.group outer.outline form body).Whole frames.isEmpty := by
    refine ⟨sound.whole, inside.whole, visible, fun bare => inside.unmarked ?_⟩
    rw [known]
    exact (Frame.isBare_kindOf form _ _).trans bare
  refine ⟨{ outer with outline := .group outer.outline form body }, [], below,
    ⟨whole, sound.unmarked⟩, ?_, ?_, ?_, ?_, ?_, .none (class_.trans outlined.classStart)⟩
  · rw [text, List.append_nil]
  · rw [groups, outlined.groups]
    simp [Layer.declared, Outline.slots]
  · rw [← text]
    subst known
    exact recalls.closed frames inside.whole visible rest rfl rfl (Text.size_append _ _)
  · rw [marked, ← text]
    cases atomic : form.isAtomic with
    | true => simpa [Outline.refers, atomic] using Recorded.last id _
    | false => simpa [Outline.refers, atomic] using mark.outgrown grown
  · intro a recorded
    obtain rfl := Option.some.inj recorded
    subst known
    exact ⟨Nat.le_of_eq (congrArg Text.size text), fun _ =>
      ⟨outer.outline, _, whole.ends_group, rfl, rfl, rfl⟩⟩

theorem suppress_unnamed {table : GroupTable} {slot : Nat}
    (anonymous : table.get? slot = some .anonymous) (positive : 0 < slot) :
    (table.suppress slot).declared.map Slot.unnamed =
      (GroupTable.suppress ⟨table.declared.map Slot.unnamed⟩ slot).declared := by
  cases slot with
  | zero => contradiction
  | succ index =>
      have found : table.declared[index]? = some .anonymous := anonymous
      simp [GroupTable.suppress, found, List.map_set, Slot.unnamed]

theorem State.Outlined.splice (outlined : s.Outlined layer []) {p : Splice}
    (last : s.splice = some p) (stop : p.stop = s.out.size)
    (anonymous : s.groups.get? p.slot = some .anonymous) (count : Nat) :
    ∃ layer left, State.Outlined { ({ s with groups := s.groups.suppress p.slot }.skip
      count).emitReference p.slot with splice := none } layer left := by
  obtain ⟨before, slots, outline⟩ := layer
  have out := outlined.out
  have found := outlined.recalls.splice.here
  rw [List.append_nil] at out
  rw [← out, last, Option.filter_some, stop, beq_self_eq_true, if_pos rfl] at found
  obtain ⟨front, body, rfl, rfl⟩ := Outline.splice?_eq_some found.symm
  obtain ⟨first, ⟨_, inner, _, unmarked⟩, _⟩ := outlined.sound.whole
  have index : Layer.index ⟨before, slots, .group front (.lookahead false)
      (.group .empty .capture body)⟩ + front.slots.length = (slots ++ front.slots).length + 1 := by
    simp only [Layer.index, List.length_append]
    omega
  have sound : Layer.Sound ⟨before, slots, .group front .atomic body⟩ s.frames :=
    ⟨⟨first, inner, rfl, unmarked⟩, outlined.sound.unmarked⟩
  refine ⟨_, [], outlined.rewrite (silent_group (by simp) (by simp) _ _) sound ?_ ?_ ?_ rfl rfl
    (Or.inr rfl) rfl (fun a recorded => Or.inl recorded) outlined.classStart⟩
  · change s.out ++ Backreference.render _ = _
    rw [out]
    simp [Layer.text, Outline.source, Outline.slots, Form.opening, Form.slots, Form.closing,
      Backreference.render]
  · change _ < (s.out ++ Backreference.render _).size
    rw [← out]
    exact State.size_lt_append (by simp [Backreference.render])
  · change (s.groups.suppress _).declared.map Slot.unnamed = _
    have declared : s.groups.declared.map Slot.unnamed =
        (slots ++ front.slots) ++ .anonymous :: body.slots := by
      rw [outlined.groups]
      simp [Layer.declared, Outline.slots, Form.slots]
    have positive := Nat.succ_pos (slots ++ front.slots).length
    rw [suppress_unnamed anonymous (index ▸ positive), declared, index, suppress_between]
    simp [Outline.slots, Form.slots]

end Turns

end Conversion

end PatternDialect
