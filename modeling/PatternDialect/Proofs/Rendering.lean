import PatternDialect.Native.Escape
import PatternDialect.Proofs.Translation
import PatternDialect.Substitution

/-! Values that are put into a pattern.

A value made of texts, lists and maps is rendered and converted to alternatives of what
it holds, where its texts are spelled out.  Each entry of a map is a group of its own. -/

namespace PatternDialect

open Character Conversion Syntax

/-- Native source that spells a text.  A character with a meaning stands behind a
backslash, and in unicode mode no other one does. -/
inductive Spells (unicode : Bool) : Text → Text → Prop where
  | nil : Spells unicode [] []
  | bare {c : Char} {source text : Text} (plain : Native.isSyntaxCharacter c = false)
      (rest : Spells unicode source text) : Spells unicode (c :: source) (c :: text)
  | escaped {c : Char} {source text : Text}
      (kept : unicode = true → Native.isSyntaxCharacter c = true)
      (rest : Spells unicode source text) : Spells unicode ('\\' :: c :: source) (c :: text)

namespace Substitution

mutual

/-- Values that hold texts, lists and maps only. -/
def Plain : Substitution → Prop
  | .text _ => True
  | .list items => PlainItems items
  | .map entries => PlainEntries entries
  | .source _ | .other _ => False

def PlainItems : List Substitution → Prop
  | [] => True
  | item :: rest => Plain item ∧ PlainItems rest

def PlainEntries : List (Text × Substitution) → Prop
  | [] => True
  | (_, value) :: rest => Plain value ∧ PlainEntries rest

end

mutual

def keys : Substitution → List Text
  | .list items => itemKeys items
  | .map entries => entryKeys entries
  | .text _ | .source _ | .other _ => []

def itemKeys : List Substitution → List Text
  | [] => []
  | item :: rest => keys item ++ itemKeys rest

def entryKeys : List (Text × Substitution) → List Text
  | [] => []
  | (name, value) :: rest => name :: (keys value ++ entryKeys rest)

end

mutual

/-- The native source of a value, given how its texts are written. -/
def print (write : Text → Text) : Substitution → Text
  | .text content => write content
  | .list items => ['(', '?', ':'] ++ ['|'].intercalate (printItems write items) ++ [')']
  | .map entries => ['(', '?', ':'] ++ ['|'].intercalate (printEntries write entries) ++ [')']
  | .source content => content
  | .other _ => []

def printItems (write : Text → Text) : List Substitution → List Text
  | [] => []
  | item :: rest => print write item :: printItems write rest

def printEntries (write : Text → Text) : List (Text × Substitution) → List Text
  | [] => []
  | (_, value) :: rest => ('(' :: (print write value ++ [')'])) :: printEntries write rest

end

end Substitution

/-! ### Texts -/

namespace Escape

variable {unicode : Bool} {c : Char}

def literalForm (unicode : Bool) (c : Char) : Text :=
  if needsEscape unicode c then ['\\', c] else [c]

theorem literal_cons (unicode : Bool) (c : Char) (rest : Text) :
    literal unicode (c :: rest) = literalForm unicode c ++ literal unicode rest := by
  rw [literal, literalForm]
  split <;> rfl

/-- What a character of a literal text becomes.  A blank needs no backslash in native
source, nor does the sign of a comment. -/
def nativeForm (unicode : Bool) (c : Char) : Text :=
  if Native.isSyntaxCharacter c || ((c == '-' || c == ',') && !unicode) then ['\\', c] else [c]

def nativeText (unicode : Bool) (content : Text) : Text := content.flatMap (nativeForm unicode)

theorem isMeta_eq (c : Char) : isMeta c = (Native.isSyntaxCharacter c || c == '#') := by
  rw [Bool.eq_iff_iff]
  simp only [isMeta, Native.isSyntaxCharacter, List.contains_eq_mem, List.mem_cons,
    List.not_mem_nil, or_false, decide_eq_true_eq, Bool.or_eq_true, beq_iff_eq]
  grind

theorem isSyntaxCharacter_of_isBlank (blank : isBlank c = true) :
    Native.isSyntaxCharacter c = false := by
  have visible : ∀ d ∈ ['^', '$', '\\', '.', '*', '+', '?', '(', ')', '[', ']', '{', '}', '|', '/'],
      isBlank d = false := by
    simp only [List.forall_mem_cons, List.not_mem_nil, false_imp_iff, implies_true, and_true]
    decide
  rw [Bool.eq_false_iff]
  intro special
  have other := visible c (List.contains_iff_mem.mp special)
  exact absurd (blank.symm.trans other) (by decide)

theorem nativeForm_of_bare (bare : needsEscape unicode c = false) : nativeForm unicode c = [c] := by
  rw [needsEscape, isMeta_eq] at bare
  simp only [Bool.or_eq_false_iff] at bare
  rw [nativeForm, bare.1.1.1, bare.1.2]
  rfl

theorem nativeForm_of_needsEscape (needed : needsEscape unicode c = true) :
    nativeForm unicode c = if isBlank c || c == '#' then [c] else ['\\', c] := by
  cases blank : isBlank c with
  | true =>
      have other : ((c == '-' || c == ',') && !unicode) = false := by
        have marks : (c == '-' || c == ',') = false := by
          rw [Bool.eq_false_iff]
          intro mark
          simp only [Bool.or_eq_true, beq_iff_eq] at mark
          rcases mark with rfl | rfl <;> contradiction
        rw [marks, Bool.false_and]
      rw [nativeForm, isSyntaxCharacter_of_isBlank blank, other]
      rfl
  | false =>
      cases sign : c == '#' with
      | true =>
          obtain rfl := beq_iff_eq.mp sign
          rfl
      | false =>
          rw [needsEscape, isMeta_eq, sign, blank, Bool.or_false, Bool.or_false] at needed
          rw [nativeForm, if_pos needed]
          rfl

theorem isLiteral_of_bare (bare : needsEscape unicode c = false) : isLiteral c = true := by
  simp only [needsEscape, Bool.or_eq_false_iff] at bare
  obtain ⟨⟨plain, _⟩, visible⟩ := bare
  simp only [isMeta, List.contains_eq_mem, decide_eq_false_iff_not, List.mem_cons, List.not_mem_nil,
    or_false, not_or] at plain
  simp [isLiteral, visible, plain]

theorem kept_of_needsEscape (needed : needsEscape unicode c = true) :
    (isPunctuation c || isBlank c) = true := by
  simp only [needsEscape, Bool.or_eq_true, Bool.and_eq_true, beq_iff_eq] at needed
  rcases needed with (special | ⟨mark, _⟩) | blank
  · have punctuation :
        ∀ d ∈ ['[', ']', '{', '}', '(', ')', '*', '+', '?', '.', '\\', '/', '^', '$', '|',
        '#'], isPunctuation d = true := List.all_eq_true.mp (by decide)
    rw [punctuation c (List.contains_iff_mem.mp special), Bool.true_or]
  · rcases mark with rfl | rfl <;> rfl
  · rw [blank, Bool.or_true]

theorem spells_nativeText (unicode : Bool) (content : Text) :
    Spells unicode (nativeText unicode content) content := by
  induction content with
  | nil => exact .nil
  | cons c rest ih =>
      have parts : nativeText unicode (c :: rest) =
          nativeForm unicode c ++ nativeText unicode rest := rfl
      cases special : Native.isSyntaxCharacter c with
      | true =>
          rw [parts, nativeForm, special, Bool.true_or, if_pos rfl]
          exact .escaped (fun _ => special) ih
      | false =>
          rw [parts, nativeForm, special, Bool.false_or]
          split
          · rename_i dash
            refine .escaped (fun on => ?_) ih
            rw [on] at dash
            simp at dash
          · exact .bare special ih

end Escape

/-! ### Pieces of rendered text -/

namespace Conversion

variable {options : Options} {s : State} {read written tail : Text} {keys : List Text}

def Free (table : GroupTable) (keys : List Text) : Prop :=
  keys.Nodup ∧ ∀ key ∈ keys, key ∉ table.names

theorem free_append {table : GroupTable} {first second : List Text} :
    Free table (first ++ second) ↔
      Free table first ∧ Free ⟨table.declared ++ first.map .named⟩ second := by
  have names :
      (GroupTable.mk (table.declared ++ first.map .named)).names = table.names ++ first := by
    have own : (first.map Slot.named).filterMap Slot.name? = first := by
      rw [List.filterMap_map]
      exact List.filterMap_some
    rw [GroupTable.names_eq, GroupTable.names_eq, List.filterMap_append, own]
  simp only [Free, names, List.nodup_append, List.mem_append]
  constructor
  · rintro ⟨⟨one, two, apart⟩, free⟩
    exact ⟨⟨one, fun key member => free key (Or.inl member)⟩, two, fun key member =>
      not_or.mpr ⟨free key (Or.inr member), fun both => apart key both key member rfl⟩⟩
  · rintro ⟨⟨one, free⟩, two, free'⟩
    refine ⟨⟨one, two, ?_⟩, ?_⟩
    · rintro key member other later rfl
      exact (not_or.mp (free' key later)).2 member
    · rintro key (member | member)
      · exact free key member
      · exact (not_or.mp (free' key member)).1

/-- A text that is read as native source which declares the given names, unless one of
them is taken. -/
def Renders (options : Options) (read written : Text) (keys : List Text) : Prop :=
  ∀ (s : State) (tail : Text), s.Pause false → Sealed false s.out → s.rest = read ++ tail →
    (Free s.groups keys ∧ ∃ next, s.Translates options tail written (keys.map .named) false next ∧
        Sealed false next.out) ∨
      (¬Free s.groups keys ∧ ∃ name, conclude options none s = .error (.duplicateGroupName name))

theorem Renders.trans {read' written' : Text} {keys' : List Text}
    (first : Renders options read written keys) (second : Renders options read' written' keys') :
    Renders options (read ++ read') (written ++ written') (keys ++ keys') := by
  intro s tail pause whole rest
  rw [List.append_assoc] at rest
  rcases first s _ pause whole rest with ⟨free, t, run, sealed_⟩ | ⟨taken, failed⟩
  · have groups :
        t.groups = ⟨s.groups.declared ++ keys.map .named⟩ := congrArg GroupTable.mk run.groups
    rcases second t tail run.pause sealed_ run.keeps.rest with
      ⟨free', next, run', sealed'⟩ | ⟨taken, name, failed⟩
    · rw [groups] at free'
      have both := run.trans run'
      rw [← List.map_append] at both
      exact Or.inl ⟨free_append.mpr ⟨free, free'⟩, next, both, sealed'⟩
    · rw [groups] at taken
      exact Or.inr ⟨fun all => taken (free_append.mp all).2, name, run.outcome.trans failed⟩
  · exact Or.inr ⟨fun all => taken (free_append.mp all).1, failed⟩

theorem renders_of_translates
    (runs : ∀ (s : State) (tail : Text), s.Pause false → Sealed false s.out →
      s.rest = read ++ tail →
      ∃ next, s.Translates options tail written [] false next ∧ Sealed false next.out) :
    Renders options read written [] :=
  fun s tail pause whole rest => Or.inl ⟨⟨List.nodup_nil, by simp⟩, runs s tail pause whole rest⟩

theorem renders_nil : Renders options [] [] [] :=
  renders_of_translates fun s _ pause whole rest =>
    ⟨s, ⟨rfl, ⟨rest, rfl, rfl⟩, (List.append_nil _).symm, (List.append_nil _).symm, pause⟩, whole⟩

theorem renders_bar : Renders options ['|'] ['|'] [] :=
  renders_of_translates fun s tail pause whole rest => by
    obtain ⟨t, run⟩ : ∃ t, s.Translates options tail ['|'] [] false t := translates_bar rest pause
    refine ⟨t, run, ?_⟩
    rw [run.out]
    exact whole.char (by decide) (by simp)

theorem renders_char (c : Char) :
    Renders options (Escape.literalForm options.unicode c)
    (Escape.nativeForm options.unicode c) [] := by
  apply renders_of_translates
  intro s tail pause whole rest
  cases needed : Escape.needsEscape options.unicode c with
  | true =>
      have kept := Escape.kept_of_needsEscape needed
      rw [Escape.literalForm, needed, if_pos rfl] at rest
      obtain ⟨u, outcome, keeps, groups, unit⟩ : ∃ u, conclude options none s = _ ∧ _ :=
        conclude_escaped kept rest pause whole
      have same :
          Leaf.source options s.groups (.escaped c kept) = Escape.nativeForm options.unicode c :=
        (Escape.nativeForm_of_needsEscape needed).symm
      rw [same] at unit
      refine ⟨u, ⟨outcome, keeps, unit.out, by rw [groups, List.append_nil], unit.toPause⟩, ?_⟩
      rw [unit.out, ← same]
      exact (Leaf.escaped c kept).seals options s.groups false _ whole (by simp)
  | false =>
      have plain := Escape.isLiteral_of_bare needed
      rw [Escape.literalForm, needed, if_neg (by decide)] at rest
      obtain ⟨u, outcome, keeps, groups, unit⟩ : ∃ u, conclude options none s = _ ∧ _ :=
        conclude_literal plain rest pause whole
      have out : u.out = s.out ++ [c] := by simpa [Leaf.parted] using unit.out
      rw [Escape.nativeForm_of_bare needed]
      refine ⟨u, ⟨outcome, keeps, out, by rw [groups, List.append_nil], unit.toPause⟩, ?_⟩
      rw [out]
      exact (Leaf.literal c plain).seals options s.groups false _ whole (by simp)

theorem renders_text (content : Text) :
    Renders options (Escape.literal options.unicode content)
    (Escape.nativeText options.unicode content) [] := by
  induction content with
  | nil => exact renders_nil
  | cons c rest ih =>
      rw [Escape.literal_cons]
      exact (renders_char c).trans ih

theorem translates_enclosed {form : Form} {first : Bool} (inner : Renders options read written keys)
    (closing : form.isAtomic = false)
    (opening : s.step options none = .ok (s.entered options first form))
    (pause : s.Pause false) (whole : Sealed false s.out)
    (rest : s.rest = form.text ++ (read ++ ')' :: tail)) :
    (Free (s.entered options first form).groups keys ∧ ∃ next,
        s.Translates options tail (form.opening options.noCapture first ++ (written ++ [')']))
          (form.slots options.noCapture first ++ keys.map .named) false next ∧
          Sealed false next.out) ∨
      (¬Free (s.entered options first form).groups keys ∧
        ∃ name, conclude options none s = .error (.duplicateGroupName name)) := by
  have filled : s.rest ≠ [] := by
    rw [rest]
    simp
  have behind : (s.entered options first form).rest = read ++ ')' :: tail := by
    change s.rest.drop form.text.length = _
    rw [rest, List.drop_left]
  have opened : Sealed false (s.entered options first form).out := by
    obtain ⟨⟨left, opens⟩, plain⟩ := form.opening_spec options.noCapture first
    exact whole.text (by simp [opens]) plain (by simp)
  have closes : form.closing s.groups.size = [')'] := by
    cases form with
    | atomic => contradiction
    | _ => rfl
  rcases inner _ _ (pause.entered rest first) opened behind with
    ⟨free, v, run, sealed_⟩ | ⟨taken, name, failed⟩
  · left
    refine ⟨free, ?_⟩
    have frames : v.frames = ⟨kindOf options.noCapture first s.groups.size form, s.out.size,
        s.groups.size⟩ :: s.frames := run.keeps.frames
    have out : v.out = s.out ++ (form.opening options.noCapture first ++ written) :=
      run.out.trans (List.append_assoc _ _ _)
    have groups : v.groups.declared =
        s.groups.declared ++ (form.slots options.noCapture first ++ keys.map .named) :=
      run.groups.trans (List.append_assoc _ _ _)
    obtain ⟨u, closed, rest', frames', flags, groups', unit⟩ :
        ∃ u, conclude options none v = _ ∧ _ :=
      conclude_close run.keeps.rest run.pause frames out (Nat.le_add_left 1 _) (by
        simp [GroupTable.size, groups])
    have source := unit.out
    rw [closes, List.append_assoc] at source
    refine ⟨u, ⟨?_, ⟨rest', frames', flags.trans run.keeps.flags⟩, source, ?_, ?_⟩, ?_⟩
    · rw [conclude_ok filled opening, run.outcome, closed]
    · rw [groups', groups]
    · rw [← closing]
      exact unit.toPause
    · rw [source, ← List.append_assoc, ← List.append_assoc, List.append_assoc s.out, ← out]
      exact sealed_.char (by decide) (by simp)
  · exact Or.inr ⟨taken, name, by rw [conclude_ok filled opening, failed]⟩

theorem Renders.plainGroup (inner : Renders options read written keys) :
    Renders options (['(', '?', ':'] ++ read ++ [')'])
    (['(', '?', ':'] ++ written ++ [')']) keys := by
  intro s tail pause whole rest
  have parts : s.rest = Form.plain.text ++ (read ++ ')' :: tail) := by
    simpa [Form.text] using rest
  have opening : s.step options none = .ok (s.entered options s.atLookaheadStart .plain) :=
    step_form parts pause.place rfl (by simp) (by simp)
  have same : (s.entered options s.atLookaheadStart .plain).groups = s.groups :=
    congrArg GroupTable.mk (List.append_nil _)
  have through := translates_enclosed inner rfl opening pause whole parts
  rw [same] at through
  exact through

theorem Renders.namedGroup {name : Text} (identifier : isIdentifier name = true)
    (inner : Renders options read written keys) :
    Renders options (Substitution.namedGroup name read) ('(' :: (written ++ [')']))
    (name :: keys) := by
  intro s tail pause whole rest
  have parts : s.rest = (Form.named name identifier).text ++ (read ++ ')' :: tail) := by
    simpa [Substitution.namedGroup, Form.text] using rest
  have split : Free s.groups (name :: keys) ↔
      Free s.groups [name] ∧ Free ⟨s.groups.declared ++ [.named name]⟩ keys :=
    @free_append s.groups [name] keys
  by_cases declared : name ∈ s.groups.names
  · right
    refine ⟨fun free => free.2 name (by simp) declared, name, ?_⟩
    obtain ⟨read, found⟩ : s.step options none = _ ∧ _ := step_named parts pause.place
    have refused : s.groups.pushNamed name = .error (.duplicateGroupName name) := by
      rw [GroupTable.pushNamed_of_isIdentifier _ identifier, if_pos declared]
    apply conclude_error (by simp [parts, Form.text])
    rw [read]
    simp only [State.openNamed, found, refused]
    rfl
  · have opening : s.step options none =
        .ok (s.entered options s.atLookaheadStart (.named name identifier)) :=
      step_form parts pause.place rfl (by simp) (by
        rintro other _ equality
        cases equality
        exact declared)
    rcases translates_enclosed inner rfl opening pause whole parts with ⟨free,
      run⟩ | ⟨taken, failed⟩
    · exact Or.inl ⟨split.mpr ⟨⟨by simp, by simpa using declared⟩, free⟩, run⟩
    · exact Or.inr ⟨fun all => taken (split.mp all).2, failed⟩

inductive RendersAll (options : Options) : List Text → List Text → List Text → Prop where
  | nil : RendersAll options [] [] []
  | cons {part source : Text} {parts sources : List Text} {own keys : List Text}
      (first : Renders options part source own) (rest : RendersAll options parts sources keys) :
      RendersAll options (part :: parts) (source :: sources) (own ++ keys)

theorem RendersAll.alternatives {parts sources : List Text}
    (all : RendersAll options parts sources keys) :
    Renders options (Substitution.alternatives parts) (['|'].intercalate sources) keys := by
  induction all with
  | nil => exact renders_nil
  | cons first rest ih =>
      cases rest with
      | nil => simpa [Substitution.alternatives] using first
      | cons _ _ => exact first.trans (renders_bar.trans ih)

theorem RendersAll.alternation {parts sources : List Text}
    (all : RendersAll options parts sources keys) :
    Renders options (Substitution.alternation parts)
      (['(', '?', ':'] ++ ['|'].intercalate sources ++ [')']) keys :=
  all.alternatives.plainGroup

end Conversion

/-! ### Values -/

namespace Substitution

variable {options : Options} {position : Nat}

mutual

theorem renders_render : ∀ (value : Substitution), value.Plain →
    (∀ key ∈ value.keys, isIdentifier key = true) → ∃ text,
      value.render position options = .ok text ∧
      Renders options text (value.print (Escape.nativeText options.unicode)) value.keys
  | .text content, _, _ => ⟨_, rfl, renders_text content⟩
  | .list items, plain, identifiers => by
      obtain ⟨parts, rendered, all⟩ := rendersAll_renderItems items plain identifiers
      exact ⟨alternation parts, by rw [render, rendered], all.alternation⟩
  | .map entries, plain, identifiers => by
      obtain ⟨parts, rendered, all⟩ := rendersAll_renderEntries entries plain identifiers
      exact ⟨alternation parts, by rw [render, rendered], all.alternation⟩

theorem rendersAll_renderItems : ∀ (items : List Substitution), PlainItems items →
    (∀ key ∈ itemKeys items, isIdentifier key = true) →
      ∃ parts, renderItems position options items = .ok parts ∧
        RendersAll options parts (printItems (Escape.nativeText options.unicode) items)
          (itemKeys items)
  | [], _, _ => ⟨[], rfl, .nil⟩
  | item :: rest, ⟨plain, others⟩, identifiers => by
      rw [itemKeys, List.forall_mem_append] at identifiers
      obtain ⟨text, rendered, first⟩ := renders_render item plain identifiers.1
      obtain ⟨parts, rendered', all⟩ := rendersAll_renderItems rest others identifiers.2
      exact ⟨text :: parts, by rw [renderItems, rendered, rendered'], .cons first all⟩

theorem rendersAll_renderEntries : ∀ (entries : List (Text × Substitution)), PlainEntries entries →
    (∀ key ∈ entryKeys entries, isIdentifier key = true) →
      ∃ parts, renderEntries position options entries = .ok parts ∧
        RendersAll options parts (printEntries (Escape.nativeText options.unicode) entries)
          (entryKeys entries)
  | [], _, _ => ⟨[], rfl, .nil⟩
  | (name, value) :: rest, ⟨plain, others⟩, identifiers => by
      rw [entryKeys, List.forall_mem_cons, List.forall_mem_append] at identifiers
      obtain ⟨identifier, own, later⟩ := identifiers
      obtain ⟨text, rendered, first⟩ := renders_render value plain own
      obtain ⟨parts, rendered', all⟩ := rendersAll_renderEntries rest others later
      refine ⟨namedGroup name text :: parts, ?_, .cons (first.namedGroup identifier) all⟩
      rw [renderEntries, identifier, rendered, rendered']
      rfl

end

mutual

theorem identifiers_of_render : ∀ (value : Substitution) {text : Text},
    value.render position options = .ok text → ∀ key ∈ value.keys, isIdentifier key = true
  | .text _, _, _ => by simp [keys]
  | .source _, _, _ => by simp [keys]
  | .other _, _, _ => by simp [keys]
  | .list items, _, ok => by
      rw [render] at ok
      split at ok
      · rename_i parts rendered
        exact identifiers_of_renderItems items rendered
      · contradiction
  | .map entries, _, ok => by
      rw [render] at ok
      split at ok
      · rename_i parts rendered
        exact identifiers_of_renderEntries entries rendered
      · contradiction

theorem identifiers_of_renderItems : ∀ (items : List Substitution) {parts : List Text},
    renderItems position options items = .ok parts → ∀ key ∈ itemKeys items, isIdentifier key = true
  | [], _, _ => by simp [itemKeys]
  | item :: rest, _, ok => by
      rw [renderItems] at ok
      split at ok
      · rename_i part rendered
        split at ok
        · rename_i parts rendered'
          rw [itemKeys, List.forall_mem_append]
          exact ⟨identifiers_of_render item rendered, identifiers_of_renderItems rest rendered'⟩
        · contradiction
      · contradiction

theorem identifiers_of_renderEntries : ∀ (entries : List (Text × Substitution)) {parts : List Text},
    renderEntries position options entries = .ok parts →
      ∀ key ∈ entryKeys entries, isIdentifier key = true
  | [], _, _ => by simp [entryKeys]
  | (name, value) :: rest, _, ok => by
      rw [renderEntries] at ok
      split at ok
      · contradiction
      · rename_i identifier
        split at ok
        · rename_i body rendered
          split at ok
          · rename_i parts rendered'
            rw [entryKeys, List.forall_mem_cons, List.forall_mem_append]
            exact ⟨by simpa using identifier, identifiers_of_render value rendered,
              identifiers_of_renderEntries rest rendered'⟩
          · contradiction
        · contradiction

end

theorem convert_of_renders {text written : Text} {keys : List Text}
    (renders : Renders options text written keys) :
    (keys.Nodup ∧ convert options none text = .ok ⟨written, ⟨keys.map .named⟩, none⟩) ∨
      (¬keys.Nodup ∧ ∃ fault, convert options none text = .error fault) := by
  have free : Free (State.start text).groups keys ↔ keys.Nodup :=
    ⟨And.left, fun distinct => ⟨distinct, fun key _ => List.not_mem_nil⟩⟩
  rcases renders _ [] (State.pause_start text) .nil (List.append_nil _).symm with
    ⟨open_, last, run, _⟩ | ⟨taken, name, failed⟩
  · exact Or.inl ⟨free.mp open_, convert_of_translates run⟩
  · exact Or.inr ⟨fun distinct => taken (free.mpr distinct), _, failed⟩

/-- Rendering and converting a value succeeds exactly where its keys are distinct
identifiers, with the value's own source and the groups of its keys. -/
theorem convert_rendered (options : Options) (position : Nat) {value : Substitution}
    (plain : value.Plain) :
    ((∃ text result, value.render position options = .ok text ∧
        convert options none text = .ok result) ↔
      (∀ key ∈ value.keys, isIdentifier key = true) ∧ value.keys.Nodup) ∧
    ∀ text result, value.render position options = .ok text →
      convert options none text = .ok result →
      result.groups.slots = .anonymous :: value.keys.map .named ∧
        ∃ write : Text → Text, (∀ content, Spells options.unicode (write content) content) ∧
          result.source = value.print write := by
  constructor
  · constructor
    · rintro ⟨text, result, rendered, converted⟩
      have identifiers := identifiers_of_render value rendered
      obtain ⟨text', rendered', renders⟩ := renders_render value plain identifiers
      obtain rfl := Except.ok.inj (rendered.symm.trans rendered')
      rcases convert_of_renders renders with ⟨distinct, _⟩ | ⟨_, fault, failed⟩
      · exact ⟨identifiers, distinct⟩
      · rw [failed] at converted
        contradiction
    · rintro ⟨identifiers, distinct⟩
      obtain ⟨text, rendered, renders⟩ := renders_render value plain identifiers
      rcases convert_of_renders renders with ⟨_, converted⟩ | ⟨taken, _⟩
      · exact ⟨text, _, rendered, converted⟩
      · exact absurd distinct taken
  · intro text result rendered converted
    obtain ⟨text', rendered', renders⟩ :=
      renders_render value plain (identifiers_of_render value rendered)
    obtain rfl := Except.ok.inj (rendered.symm.trans rendered')
    rcases convert_of_renders renders with ⟨_, ok⟩ | ⟨_, fault, failed⟩
    · obtain rfl := Except.ok.inj (ok.symm.trans converted)
      exact ⟨rfl, Escape.nativeText options.unicode, Escape.spells_nativeText _, rfl⟩
    · rw [failed] at converted
      contradiction

theorem convert_rendered_nested :
    let value : Substitution := .list [.text "a.b #".toList,
      .map [("k".toList, .map [("l".toList, .text "-".toList)]), ("m".toList, .list [])]]
    value.Plain ∧ ∃ text result, value.render 0 {} = .ok text ∧ convert {} none text = .ok result ∧
      result.groups.slots = [.anonymous, .named "k".toList, .named "l".toList, .named "m".toList] ∧
        result.source = "(?:a\\.b #|(?:((?:(\\-)))|((?:))))".toList ∧
          ∃ write : Text → Text, (∀ content, Spells false (write content) content) ∧
            "(?:a\\.b #|(?:((?:(\\-)))|((?:))))".toList = value.print write := by
  intro value
  have plain : value.Plain := by simp [value, Plain, PlainItems, PlainEntries]
  obtain ⟨succeeds, exact_⟩ := convert_rendered {} 0 plain
  obtain ⟨text, result, rendered, converted⟩ := succeeds.mpr (by decide)
  obtain ⟨slots, write, spells, printed⟩ := exact_ text result rendered converted
  have source : result.source = "(?:a\\.b #|(?:((?:(\\-)))|((?:))))".toList := by
    have evaluated : ((value.render 0 {}).toOption.bind fun text =>
        (convert {} none text).toOption.map (·.source)) =
          some "(?:a\\.b #|(?:((?:(\\-)))|((?:))))".toList := by decide +kernel
    rw [rendered] at evaluated
    change (convert {} none text).toOption.map (·.source) = _ at evaluated
    rw [converted] at evaluated
    exact Option.some.inj evaluated
  exact ⟨plain, text, result, rendered, converted, slots, source, write, spells, source ▸ printed⟩

end Substitution

end PatternDialect
