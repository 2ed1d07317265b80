import Mathlib.Data.List.Basic
import PatternDialect.Proofs.Sealing
import PatternDialect.Proofs.Tables

/-! The native source of a tree: it is made of whole pieces, and it moves up when a slot is
put in before its own. -/

namespace PatternDialect.Syntax

open Character Source Backreference Conversion

/-! ### Targets -/

namespace Target

/-- The position of a target among the slots that are declared. -/
def find? (slots : List Slot) : Target → Option Nat
  | number _ n => GroupTable.visibleIndex? slots (n - 1)
  | name word _ => slots.findIdx? (· == .named word)

def Counts : Target → Prop
  | number _ n => 0 < n
  | name _ _ => True

variable {target : Target} {slots : List Slot} {position : Nat}

theorem Known.find (known : target.Known slots) :
    target.Counts ∧ ∃ position, target.find? slots = some position := by
  cases target with
  | number angled n =>
      obtain ⟨positive, bound⟩ := known
      obtain ⟨index, _, found, _⟩ :=
        GroupTable.visibleIndex?_of_lt (by omega : n - 1 < slots.countP Slot.isVisible)
      exact ⟨positive, index, found⟩
  | name word identifier =>
      have found : (slots.findIdx? (· == .named word)).isSome := by
        rw [List.findIdx?_isSome, List.any_eq_true]
        exact ⟨_, known, by simp⟩
      obtain ⟨index, first⟩ := Option.isSome_iff_exists.mp found
      exact ⟨trivial, index, first⟩

theorem Known.mono {more : List Slot} (known : target.Known slots) (sublist : slots.Sublist more) :
    target.Known more := by
  cases target with
  | number angled n => exact ⟨known.1, Nat.le_trans known.2 sublist.countP_le⟩
  | name word identifier => exact sublist.subset known

theorem getElem?_visibleIndices (slots : List Slot) (n : Nat) :
    (visibleIndices slots)[n]? = GroupTable.visibleIndex? slots n := by
  induction slots generalizing n with
  | nil => rfl
  | cons slot rest ih =>
      have split : visibleIndices (slot :: rest) =
          (if slot.isVisible then [0] else []) ++ (visibleIndices rest).map (· + 1) := by
        have first : (slot :: rest)[0]?.any Slot.isVisible = slot.isVisible := rfl
        simp only [visibleIndices, List.length_cons, List.range_succ_eq_map, List.filter_cons,
          List.filter_map, first]
        split <;> rfl
      rw [split]
      cases seen : slot.isVisible with
      | false => simp [GroupTable.visibleIndex?, seen, ih]
      | true =>
          cases n with
          | zero => simp [GroupTable.visibleIndex?, seen]
          | succ n => simp [GroupTable.visibleIndex?, seen, ih]

theorem index_of_find (counts : target.Counts) (found : target.find? slots = some position) :
    target.index ⟨slots⟩ = position + 1 := by
  cases target with
  | number angled n =>
      obtain ⟨m, rfl⟩ : ∃ m, n = m + 1 := ⟨n - 1, by have positive : 0 < n := counts; omega⟩
      have inner : GroupTable.visibleIndex? slots m = some position := found
      have whole :
          GroupTable.visibleIndex? (.anonymous :: slots) (m + 1) = some (position + 1) := by
        simp [GroupTable.visibleIndex?, Slot.isVisible, inner]
      rw [Target.index, getElem?_visibleIndices]
      exact congrArg (Option.getD · 0) whole
  | name word identifier =>
      have inner : slots.findIdx? (· == .named word) = some position := found
      have whole : (Slot.anonymous :: slots).findIdx? (· == .named word) = some (position + 1) := by
        simp [List.findIdx?_cons, inner]
      exact (List.findIdx?_eq_some_iff_findIdx_eq.mp whole).2

theorem find?_lt (found : target.find? slots = some position) : position < slots.length := by
  cases target with
  | number angled n => exact GroupTable.visibleIndex?_lt found
  | name word identifier => exact (List.findIdx?_eq_some_iff_getElem.mp found).1

theorem find?_append (found : target.find? slots = some position) (more : List Slot) :
    target.find? (slots ++ more) = some position := by
  cases target with
  | number angled n => exact GroupTable.visibleIndex?_append found more
  | name word identifier =>
      have inner : slots.findIdx? (· == .named word) = some position := found
      change (slots ++ more).findIdx? (· == .named word) = _
      rw [List.findIdx?_append, inner]
      rfl

theorem find?_insertIdx {place : Nat} (bound : place ≤ slots.length) (target : Target) :
    target.find? (slots.insertIdx place .suppressed) = (target.find? slots).map (bump place) := by
  cases target with
  | number angled n => exact GroupTable.visibleIndex?_insertIdx bound (n - 1)
  | name word identifier => exact GroupTable.findIdx?_insertIdx bound word

theorem Known.index_append (known : target.Known slots) (more : List Slot) :
    target.index ⟨slots ++ more⟩ = target.index ⟨slots⟩ := by
  obtain ⟨counts, position, found⟩ := known.find
  rw [index_of_find counts found, index_of_find counts (find?_append found more)]

theorem Known.index_bounds (known : target.Known slots) :
    0 < target.index ⟨slots⟩ ∧ target.index ⟨slots⟩ ≤ slots.length := by
  obtain ⟨counts, position, found⟩ := known.find
  rw [index_of_find counts found]
  exact ⟨Nat.succ_pos _, find?_lt found⟩

theorem Known.index_insertIdx (known : target.Known slots) {place : Nat}
    (bound : place ≤ slots.length) :
    target.index ⟨slots.insertIdx place .suppressed⟩ = bump (place + 1) (target.index ⟨slots⟩) := by
  obtain ⟨counts, position, found⟩ := known.find
  have moved := find?_insertIdx bound target
  rw [found, Option.map_some] at moved
  rw [index_of_find counts found, index_of_find counts moved, bump_succ]

end Target

theorem Tree.Known.target {noCapture first : Bool} {slots : List Slot} {tree : Tree}
    (known : tree.Known noCapture slots first) {target : Target} (member : target ∈ tree.targets) :
    target.Known (slots ++ tree.slots noCapture first) := by
  induction tree generalizing slots first with
  | empty => contradiction
  | bar next ih => exact ih known member
  | item leaf suffix next ih =>
      rcases List.mem_append.mp member with here | later
      · cases leaf with
        | reference other =>
            obtain rfl := List.mem_singleton.mp here
            exact known.1.mono (List.sublist_append_left _ _)
        | _ => contradiction
      · refine (ih known.2 later).mono ?_
        exact (List.Sublist.refl slots).append (List.sublist_append_right _ _)
  | group form body suffix next inner ih =>
      rcases List.mem_append.mp member with here | later
      · refine (inner known.1 here).mono ?_
        rw [List.append_assoc]
        refine (List.Sublist.refl slots).append ?_
        refine List.Sublist.trans ?_ (List.sublist_append_right _ _)
        exact (List.Sublist.refl _).append (List.sublist_append_left _ _)
      · refine (ih known.2 later).mono ?_
        rw [List.append_assoc, List.append_assoc]
        exact (List.Sublist.refl slots).append (List.sublist_append_right _ _)

theorem Leaf.source_congr {options : Options} {table other : GroupTable} {leaf : Leaf}
    (same : ∀ target ∈ leaf.targets, target.index table = target.index other) :
    leaf.source options table = leaf.source options other := by
  cases leaf with
  | reference target => exact congrArg render (same target (by simp [Leaf.targets]))
  | _ => rfl

theorem Tree.source_congr {options : Options} {table other : GroupTable} {tree : Tree}
    (same : ∀ target ∈ tree.targets, target.index table = target.index other) (index : Nat)
    (first joined : Bool) :
    tree.source options table index first joined =
      tree.source options other index first joined := by
  induction tree generalizing index first joined with
  | empty => rfl
  | bar next ih => rw [Tree.source, Tree.source, ih same]
  | item leaf suffix next ih =>
      rw [Tree.source, Tree.source,
        Leaf.source_congr fun target member => same target (List.mem_append_left _ member),
        ih fun target member => same target (List.mem_append_right _ member)]
  | group form body suffix next inner ih =>
      rw [Tree.source, Tree.source, inner fun target member =>
        same target (List.mem_append_left _ member),
        ih fun target member => same target (List.mem_append_right _ member)]

/-! ### Pieces -/

theorem Sealed.text {joined : Bool} {out w : Text} (whole : Sealed joined out) (nonempty : w ≠ [])
    (plain : ∀ c ∈ w, c ≠ '\\' ∧ c ≠ '[' ∧ c ≠ '{')
    (apart : joined = true → w.head?.all (!isDigit ·) = true) : Sealed false (out ++ w) := by
  induction w generalizing joined out with
  | nil => exact absurd rfl nonempty
  | cons c rest ih =>
      have first := whole.char (plain c (by simp)) (fun on => by simpa using apart on)
      cases rest with
      | nil => exact first
      | cons d more =>
          rw [List.append_cons]
          exact ih first (by simp) (fun e member => plain e (by simp [member]))
            (fun on => by contradiction)

/-- A unit that is made of whole pieces, and whether the last one is a reference. -/
def Seals (refers : Bool) (unit : Text) : Prop :=
  ∀ joined out, Sealed joined out → (joined = true → unit.head?.all (!isDigit ·) = true) →
    Sealed refers (out ++ unit)

theorem head_of_append {front back : Text}
    (apart : (front ++ back).head?.all (!isDigit ·) = true) :
    front.head?.all (!isDigit ·) = true := by
  cases front with
  | nil => rfl
  | cons c rest => exact apart

theorem isLiteral_spec {c : Char} (plain : isLiteral c = true) :
    isBlank c = false ∧
      ∀ d ∈ ['\\', '[', ']', '{', '}', '(', ')', '*', '+', '?', '.', '#', '$', '|'], c ≠ d := by
  rw [isLiteral, Bool.and_eq_true, Bool.not_eq_true', Bool.not_eq_true'] at plain
  refine ⟨plain.1, ?_⟩
  rintro d member rfl
  rw [List.contains_iff_mem.mpr member] at plain
  exact absurd plain.2 (by decide)

theorem ne_of_isBlank {c d : Char} (blank : isBlank c = true) (visible : isBlank d = false) :
    c ≠ d := by
  rintro rfl
  rw [blank] at visible
  contradiction

theorem isComplete_of_letter {body : Text} (known : isLetterEscape body = true) :
    isComplete body = true := by
  unfold isComplete
  split
  · rename_i c
    exact Bool.or_eq_true_iff.mpr (Or.inr known)
  · exact known

theorem Leaf.seals (options : Options) (table : GroupTable) (leaf : Leaf) :
    Seals leaf.refers (leaf.source options table) := by
  intro joined out whole apart
  cases leaf with
  | literal c plain =>
      have other := (isLiteral_spec plain).2
      exact whole.text (by simp [Leaf.source]) (by simp [Leaf.source, other]) apart
  | dot =>
      simp only [Leaf.source]
      split
      · have inner : isClassBody ['^'] = true := by decide
        exact whole.bracket inner
      · exact whole.text (by simp) (by simp) (fun _ => rfl)
  | bracket body inner => exact whole.bracket inner
  | letter body known => exact whole.escape (isComplete_of_letter known)
  | escaped c kept =>
      simp only [Leaf.source] at apart ⊢
      split
      · rename_i bare
        rw [if_pos bare] at apart
        rw [Bool.or_eq_true, beq_iff_eq] at bare
        refine whole.text (by simp) (fun d member => ?_) apart
        obtain rfl := List.mem_singleton.mp member
        rcases bare with blank | rfl
        · exact ⟨ne_of_isBlank blank (by decide), ne_of_isBlank blank (by decide),
            ne_of_isBlank blank (by decide)⟩
        · decide
      · rename_i visible
        simp only [Bool.or_eq_true, not_or] at visible
        rw [Bool.or_eq_true] at kept
        have punctuation := kept.resolve_right visible.1
        have complete : isComplete [c] = true := by simp [isComplete, punctuation]
        exact whole.escape complete
  | reference target => exact whole.reference _

theorem Suffix.sealed_amount {joined : Bool} {out : Text} (suffix : Suffix)
    (whole : Sealed joined out) : Sealed false (out ++ suffix.amount.text) := by
  cases amount : suffix.amount with
  | counted braces => exact whole.count (suffix.count braces amount)
  | _ => exact whole.text (by simp [Repeat.text]) (by simp [Repeat.text]) (fun _ => rfl)

theorem Seals.enclosed {refers : Bool} {unit : Text} (seals : Seals refers unit) (emulated : Bool) :
    ∃ last, Seals last (Syntax.enclosed emulated unit) := by
  cases emulated with
  | false => exact ⟨refers, seals⟩
  | true =>
      refine ⟨false, fun joined out whole _ => ?_⟩
      have opened : Sealed false (out ++ ['(', '?', ':']) :=
        whole.text (by simp) (by simp) (fun _ => rfl)
      have filled := seals _ _ opened (fun on => by contradiction)
      have closed : Sealed false (out ++ ['(', '?', ':'] ++ unit ++ [')']) :=
        filled.text (by simp) (by simp) (fun _ => rfl)
      simpa [Syntax.enclosed] using closed

theorem Leaf.source_reference (options : Options) (table : GroupTable) (target : Target) :
    (Leaf.reference target).source options table = render (target.index table) := rfl

theorem repeated_possessive {suffix : Suffix} (greed : suffix.greed = .possessive)
    (ungreedy emulated : Bool) (index : Nat) (unit : Text) :
    repeated ungreedy emulated index (some suffix) unit =
      Atom.atomicOpen ++ enclosed emulated unit ++ suffix.amount.text ++
        Atom.atomicClose index := by
  rw [repeated, greed]
  rfl

theorem Sealed.atomicClose {joined : Bool} {out : Text} (whole : Sealed joined out) (index : Nat) :
    Sealed true (out ++ Atom.atomicClose index) := by
  have closed : Sealed false (out ++ [')', ')']) := whole.text (by simp) (by simp) (fun _ => rfl)
  have complete := closed.reference index
  rwa [List.append_assoc] at complete

theorem Seals.repeated {refers : Bool} {unit : Text} (seals : Seals refers unit)
    (ungreedy emulated : Bool) (index : Nat) (suffix : Option Suffix) :
    Seals (Syntax.refers refers suffix) (Syntax.repeated ungreedy emulated index suffix unit) := by
  intro joined out whole apart
  cases suffix with
  | none => exact seals _ _ whole apart
  | some suffix =>
      obtain ⟨last, ready⟩ := seals.enclosed emulated
      have plain : ∀ mark : Text, (mark = [] ∨ mark = ['?']) →
          (joined = true → (Syntax.enclosed emulated unit ++ suffix.amount.text ++ mark).head?.all
            (!isDigit ·) = true) →
          Sealed false (out ++ (Syntax.enclosed emulated unit ++ suffix.amount.text ++ mark)) := by
        intro mark marks apart
        have amount := suffix.sealed_amount
          (ready _ _ whole fun on => head_of_append (head_of_append (apart on)))
        rcases marks with rfl | rfl
        · rwa [List.append_nil, ← List.append_assoc]
        · rw [← List.append_assoc, ← List.append_assoc]
          exact amount.text (by simp) (by simp) (fun _ => rfl)
      cases greed : suffix.greed with
      | greedy =>
          simp only [Syntax.repeated, Syntax.refers, greed] at apart ⊢
          exact plain _ (by cases ungreedy <;> simp) apart
      | lazy =>
          simp only [Syntax.repeated, Syntax.refers, greed] at apart ⊢
          exact plain _ (by cases ungreedy <;> simp) apart
      | possessive =>
          simp only [repeated_possessive greed, Syntax.refers, greed]
          have opened : Sealed false (out ++ Atom.atomicOpen) :=
            whole.text (by simp [Atom.atomicOpen]) (by simp [Atom.atomicOpen]) (fun _ => rfl)
          have amount := suffix.sealed_amount (ready _ _ opened fun on => by contradiction)
          have closed := amount.atomicClose index
          simpa [List.append_assoc] using closed

theorem Form.opening_spec (form : Form) (noCapture first : Bool) :
    (∃ more, form.opening noCapture first = '(' :: more) ∧
      ∀ c ∈ form.opening noCapture first, c ≠ '\\' ∧ c ≠ '[' ∧ c ≠ '{' := by
  cases form with
  | capture =>
      simp only [Form.opening]
      split <;> exact ⟨⟨_, rfl⟩, by simp⟩
  | lookahead negative => cases negative <;> exact ⟨⟨_, rfl⟩, by simp [Form.opening]⟩
  | lookbehind negative => cases negative <;> exact ⟨⟨_, rfl⟩, by simp [Form.opening]⟩
  | _ => exact ⟨⟨_, rfl⟩, by simp [Form.opening]⟩

theorem Form.seals {text : Text} {last : Bool} (form : Form) (noCapture first : Bool) (own : Nat)
    (inner : ∀ out, Sealed false out → Sealed last (out ++ text)) :
    Seals form.isAtomic (form.opening noCapture first ++ (text ++ form.closing own)) := by
  intro joined out whole _
  obtain ⟨⟨more, head⟩, plain⟩ := form.opening_spec noCapture first
  have opened : Sealed false (out ++ form.opening noCapture first) :=
    whole.text (by simp [head]) plain (fun _ => by rw [head]; rfl)
  have filled := inner _ opened
  rw [← List.append_assoc, ← List.append_assoc]
  cases form with
  | atomic => exact filled.atomicClose own
  | _ => exact filled.text (by simp [Form.closing]) (by simp [Form.closing]) (fun _ => rfl)

theorem Leaf.source_ne_nil (options : Options) (table : GroupTable) (leaf : Leaf) :
    leaf.source options table ≠ [] := by
  cases leaf with
  | dot => simp only [Leaf.source]; split <;> simp
  | escaped c kept => simp only [Leaf.source]; split <;> simp
  | _ => simp [Leaf.source]

/-- Only a literal digit joins the reference before it, and it is kept apart. -/
theorem Leaf.parted_cases (options : Options) (table : GroupTable) (joined : Bool) (leaf : Leaf) :
    leaf.parted joined = separator ∨ leaf.parted joined = [] ∧
      (joined = true → (leaf.source options table).head?.all (!isDigit ·) = true) := by
  cases leaf with
  | literal c plain =>
      cases parted : joined && isDigit c with
      | true => exact Or.inl (by simp [Leaf.parted, parted])
      | false =>
          refine Or.inr ⟨by simp [Leaf.parted, parted], ?_⟩
          rintro rfl
          have noDigit : isDigit c = false := by simpa using parted
          simp [Leaf.source, noDigit]
  | dot =>
      refine Or.inr ⟨rfl, fun _ => ?_⟩
      simp only [Leaf.source]
      split <;> rfl
  | escaped c kept =>
      refine Or.inr ⟨rfl, fun _ => ?_⟩
      simp only [Leaf.source]
      split
      · rename_i bare
        rw [Bool.or_eq_true, beq_iff_eq] at bare
        rcases bare with blank | rfl
        · simp [isDigit_of_isBlank blank]
        · rfl
      · rfl
  | bracket body inner => exact Or.inr ⟨rfl, fun _ => rfl⟩
  | letter body known => exact Or.inr ⟨rfl, fun _ => rfl⟩
  | reference target => exact Or.inr ⟨rfl, fun _ => rfl⟩

theorem Leaf.sealed_parted {joined : Bool} {out : Text} (whole : Sealed joined out) (leaf : Leaf)
    (options : Options) (table : GroupTable) :
    ∃ before, Sealed before (out ++ leaf.parted joined) ∧
      (before = true → (leaf.source options table).head?.all (!isDigit ·) = true) := by
  rcases leaf.parted_cases options table joined with parted | ⟨nothing, head⟩
  · refine ⟨false, ?_, fun on => by contradiction⟩
    rw [parted]
    exact whole.text (by simp [separator]) (by simp [separator]) (fun _ => rfl)
  · rw [nothing, List.append_nil]
    exact ⟨joined, whole, head⟩

theorem head_repeated {unit : Text} (nonempty : unit ≠ [])
    (head : unit.head?.all (!isDigit ·) = true) (ungreedy emulated : Bool) (index : Nat)
    (suffix : Option Suffix) :
    (repeated ungreedy emulated index suffix unit).head?.all (!isDigit ·) = true := by
  have ready : ∀ more, (enclosed emulated unit ++ more).head?.all (!isDigit ·) = true := by
    intro more
    cases emulated with
    | true => rfl
    | false =>
        cases unit with
        | nil => exact absurd rfl nonempty
        | cons c rest => exact head
  unfold repeated
  split
  · exact head
  · split
    · rw [List.append_assoc]
      exact ready _
    · rw [List.append_assoc]
      exact ready _
    · rfl

theorem Tree.sealed_source (options : Options) (table : GroupTable) (tree : Tree) {joined : Bool}
    {out : Text} (whole : Sealed joined out) (index : Nat) (first : Bool) :
    Sealed (tree.refers joined) (out ++ tree.source options table index first joined) := by
  induction tree generalizing joined out index first with
  | empty =>
      rw [Tree.source, List.append_nil]
      exact whole
  | bar next ih =>
      have bar : Sealed false (out ++ ['|']) := whole.text (by simp) (by simp) (fun _ => rfl)
      rw [Tree.source, List.append_cons]
      exact ih bar index false
  | item leaf suffix next ih =>
      obtain ⟨before, parted, apart⟩ := leaf.sealed_parted whole options table
      rw [Tree.source, ← List.append_assoc, ← List.append_assoc]
      refine ih ((leaf.seals options table).repeated _ _ _ suffix _ _ parted fun on => ?_) _ _
      exact head_repeated (leaf.source_ne_nil options table) (apart on) _ _ _ _
  | group form body suffix next inner ih =>
      have unit := form.seals options.noCapture first (index + (Suffix.slots suffix).length)
        fun _ whole => inner whole (index + (Suffix.slots suffix).length +
          (form.slots options.noCapture first).length) form.looksAhead
      obtain ⟨⟨more, head⟩, _⟩ := form.opening_spec options.noCapture first
      rw [Tree.source, ← List.append_assoc]
      refine ih (unit.repeated _ _ _ suffix _ _ whole fun _ => ?_) _ _
      exact head_repeated (by simp [head]) (by rw [head]; rfl) _ _ _ _

/-! ### Moving up -/

structure Target.Moves (position : Nat) (table moved : GroupTable) (target : Target) : Prop where
  positive : 0 < target.index table
  small : target.index table + 1 < Decimal.limit
  index : target.index moved = bump position (target.index table)

theorem renumber_plain (first amount : Nat) {text : Text} (plain : ∀ c ∈ text, c ≠ '\\') :
    renumber first amount text = text :=
  renumberFrom_plain first amount (by decide) plain

theorem renumber_opened {w : Text} (first amount : Nat) (nonempty : w ≠ [])
    (plain : ∀ c ∈ w, c ≠ '\\' ∧ c ≠ '[' ∧ c ≠ '{') (text : Text) :
    renumber first amount (w ++ text) = w ++ renumber first amount text := by
  have whole : Sealed false ([] ++ w) := Sealed.nil.text nonempty plain (fun on => by contradiction)
  rw [List.nil_append] at whole
  rw [whole.renumber_append first amount (fun on => by contradiction),
    renumber_plain first amount fun c member => (plain c member).1]

theorem renumber_escape (first amount : Nat) {body : Text} (complete : isComplete body = true) :
    renumber first amount ('\\' :: body) = '\\' :: body := by
  have letter : ∀ {c : Char} {rest : Text}, isDigit c = false → (∀ d ∈ rest, d ≠ '\\') →
      renumber first amount ('\\' :: c :: rest) = '\\' :: c :: rest := by
    intro c rest noDigit plain
    have kept : Reader.takes ⟨.escape, []⟩ c = false := by simp [Reader.takes, noDigit]
    have behind := renumberFrom_other first amount kept rest
    rw [Reader.next_of_not_digit _ noDigit] at behind
    rw [renumber, renumberFrom_copied first amount (by decide)]
    change '\\' :: renumberFrom first amount .escape [] (c :: rest) = _
    rw [behind]
    change '\\' :: (shift first amount [] ++ c :: renumberFrom first amount .outside [] rest) = _
    rw [renumberFrom_plain first amount (by decide) plain]
    rfl
  rcases isComplete_spec complete with ⟨c, rfl, noDigit, _⟩ | ⟨c, d, rfl, first, second⟩ |
      ⟨c, d, e, f, rfl, first, second, third, fourth⟩
  · exact letter noDigit (by simp)
  · exact letter (by decide) (by simp [Atom.isHexDigit_ne_backslash, first, second])
  · exact letter (by decide) (by simp [Atom.isHexDigit_ne_backslash, first, second, third, fourth])

theorem renumber_bracket (first amount : Nat) {body : Text} (inner : isClassBody body = true) :
    renumber first amount ('[' :: body ++ [']']) = '[' :: body ++ [']'] := by
  simp only [isClassBody, Bool.and_eq_true] at inner
  rw [renumber_append first amount _ (by simp) rfl, renumber,
    renumberFrom_copied first amount (by decide)]
  change '[' :: renumberFrom first amount .inClass [] body ++ [']'] = _
  rw [renumberFrom_within first amount inner.1]

theorem Leaf.renumber_source {options : Options} {position : Nat} {table moved : GroupTable}
    {leaf : Leaf} (moves : ∀ target ∈ leaf.targets, target.Moves position table moved) :
    renumber position 1 (leaf.source options table) = leaf.source options moved := by
  cases leaf with
  | literal c plain =>
      have other := (isLiteral_spec plain).2
      exact renumber_plain position 1 (by simp [Leaf.source, other])
  | dot =>
      simp only [Leaf.source]
      split <;> exact renumber_plain position 1 (by simp)
  | bracket body inner => exact renumber_bracket position 1 inner
  | letter body known => exact renumber_escape position 1 (isComplete_of_letter known)
  | escaped c kept =>
      simp only [Leaf.source]
      split
      · rename_i bare
        rw [Bool.or_eq_true, beq_iff_eq] at bare
        apply renumber_plain position 1
        intro d member
        obtain rfl := List.mem_singleton.mp member
        rcases bare with blank | rfl
        · exact ne_of_isBlank blank (by decide)
        · decide
      · rename_i visible
        simp only [Bool.or_eq_true, not_or] at visible
        rw [Bool.or_eq_true] at kept
        have complete : isComplete [c] = true := by simp [isComplete, kept.resolve_right visible.1]
        exact renumber_escape position 1 complete
  | reference target =>
      obtain ⟨positive, small, index⟩ := moves target (by simp [Leaf.targets])
      rw [Leaf.source_reference, Leaf.source_reference,
        renumber_render position positive small, index]

theorem renumber_enclosed (position : Nat) (emulated : Bool) (unit : Text) :
    renumber position 1 (enclosed emulated unit) =
      enclosed emulated (renumber position 1 unit) := by
  cases emulated with
  | false => rfl
  | true =>
      change renumber position 1 (['(', '?', ':'] ++ unit ++ [')']) = _
      rw [renumber_append position 1 _ (by simp) rfl,
        renumber_opened position 1 (by simp) (by simp)]
      rfl

theorem Suffix.amount_spec (suffix : Suffix) :
    (∀ c ∈ suffix.amount.text, c ≠ '\\') ∧
      ∀ more, (suffix.amount.text ++ more).head?.all (!isDigit ·) = true := by
  cases amount : suffix.amount with
  | counted braces =>
      obtain ⟨flat, head⟩ := flat_of_count (suffix.count braces amount)
      obtain ⟨rest, rfl⟩ : ∃ rest, braces = '{' :: rest := List.head?_eq_some_iff.mp head
      refine ⟨fun c member => ?_, fun more => rfl⟩
      rw [Place.isFlat, List.all_eq_true] at flat
      have plain := flat c member
      simp only [Bool.and_eq_true, bne_iff_ne] at plain
      exact plain.1.1
  | _ => exact ⟨by simp [Repeat.text], fun more => rfl⟩

theorem renumber_repeated {refers : Bool} {unit : Text} (seals : Seals refers unit)
    {position index : Nat} (ungreedy emulated : Bool) (suffix : Option Suffix)
    (above : position ≤ index)
    (small : Suffix.possessive suffix = true → 0 < index ∧ index + 1 < Decimal.limit) :
    renumber position 1 (repeated ungreedy emulated index suffix unit) =
      repeated ungreedy emulated (index + 1) suffix (renumber position 1 unit) := by
  cases suffix with
  | none => rfl
  | some suffix =>
      obtain ⟨plain, head⟩ := suffix.amount_spec
      have marked : ∀ mark : Text, (∀ c ∈ mark, c ≠ '\\') →
          renumber position 1 (enclosed emulated unit ++ suffix.amount.text ++ mark) =
            enclosed emulated (renumber position 1 unit) ++ suffix.amount.text ++ mark := by
        intro mark marks
        rw [List.append_assoc, renumber_append position 1 _ ?_ (head mark), renumber_enclosed,
          List.append_assoc]
        intro c member
        rcases List.mem_append.mp member with member | member
        · exact plain c member
        · exact marks c member
      cases greed : suffix.greed with
      | greedy =>
          simp only [repeated, greed]
          exact marked _ (by cases ungreedy <;> simp)
      | lazy =>
          simp only [repeated, greed]
          exact marked _ (by cases ungreedy <;> simp)
      | possessive =>
          rw [repeated_possessive greed, repeated_possessive greed]
          obtain ⟨positive, fits⟩ := small (by simp [Suffix.possessive, greed])
          obtain ⟨last, ready⟩ := seals.enclosed emulated
          have opened : Sealed false ([] ++ Atom.atomicOpen) :=
            Sealed.nil.text (by simp [Atom.atomicOpen]) (by simp [Atom.atomicOpen])
              (fun on => by contradiction)
          have amount := suffix.sealed_amount (ready _ _ opened fun on => by contradiction)
          have closed : Sealed false ([] ++ Atom.atomicOpen ++ enclosed emulated unit ++
              suffix.amount.text ++ [')', ')']) :=
            amount.text (by simp) (by simp) (fun _ => rfl)
          have shape : ∀ (index : Nat) (unit : Text), Atom.atomicOpen ++ enclosed emulated unit ++
              suffix.amount.text ++ Atom.atomicClose index = Atom.atomicOpen ++
                (enclosed emulated unit ++ suffix.amount.text ++ [')', ')']) ++ render index := by
            simp [Atom.atomicClose]
          have whole : Sealed false (Atom.atomicOpen ++
              (enclosed emulated unit ++ suffix.amount.text ++ [')', ')'])) := by
            simpa using closed
          rw [shape, shape, whole.renumber_append position 1 (fun on => by contradiction),
            renumber_render position positive fits, bump_of_le above,
            renumber_opened position 1 (by simp [Atom.atomicOpen]) (by simp [Atom.atomicOpen]),
            marked _ (by simp)]

theorem Leaf.renumber_parted (position : Nat) (joined : Bool) (leaf : Leaf) (text : Text) :
    renumber position 1 (leaf.parted joined ++ text) =
      leaf.parted joined ++ renumber position 1 text := by
  rcases leaf.parted_cases {} {} joined with parted | ⟨nothing, _⟩
  · rw [parted]
    exact renumber_opened position 1 (by simp [separator]) (by simp [separator]) text
  · rw [nothing]
    rfl

theorem head_append {front : Text} (nonempty : front ≠ [])
    (head : front.head?.all (!isDigit ·) = true) (back : Text) :
    (front ++ back).head?.all (!isDigit ·) = true := by
  cases front with
  | nil => exact absurd rfl nonempty
  | cons c rest => exact head

theorem repeated_ne_nil {unit : Text} (nonempty : unit ≠ [])
    (ungreedy emulated : Bool) (index : Nat)
    (suffix : Option Suffix) : repeated ungreedy emulated index suffix unit ≠ [] := by
  have ready : enclosed emulated unit ≠ [] := by
    cases emulated with
    | true => simp [enclosed]
    | false => exact nonempty
  unfold repeated
  split
  · exact nonempty
  · split
    · simp [ready]
    · simp [ready]
    · simp

theorem Tree.head_source (options : Options) (table : GroupTable) (tree : Tree) (index : Nat)
    (first : Bool) :
      (tree.source options table index first true).head?.all (!isDigit ·) = true := by
  cases tree with
  | empty => rfl
  | bar next => rfl
  | item leaf suffix next =>
      rw [Tree.source]
      rcases leaf.parted_cases options table true with parted | ⟨nothing, head⟩
      · rw [parted]
        rfl
      · have filled := leaf.source_ne_nil options table
        rw [nothing, List.nil_append]
        exact head_append (repeated_ne_nil filled _ _ _ _)
          (head_repeated filled (head rfl) _ _ _ _) _
  | group form body suffix next =>
      obtain ⟨⟨more, opening⟩, _⟩ := form.opening_spec options.noCapture first
      rw [Tree.source, opening]
      exact head_append (repeated_ne_nil (by simp) _ _ _ _) (head_repeated (by simp) rfl _ _ _ _) _

theorem Form.renumber_unit {position own : Nat} {text : Text} (form : Form)
    (noCapture first : Bool) (closed : Place.outside.after text = .outside) (above : position ≤ own)
    (small : form.isAtomic = true → 0 < own ∧ own + 1 < Decimal.limit) :
    renumber position 1 (form.opening noCapture first ++ (text ++ form.closing own)) =
      form.opening noCapture first ++ (renumber position 1 text ++ form.closing (own + 1)) := by
  obtain ⟨⟨more, head⟩, plain⟩ := form.opening_spec noCapture first
  have closing : renumber position 1 (text ++ form.closing own) =
      renumber position 1 text ++ form.closing (own + 1) := by
    cases form with
    | atomic =>
        obtain ⟨positive, fits⟩ := small rfl
        have behind : Reader.start.after (text ++ [')', ')']) = ⟨.outside, []⟩ := by
          have place := Reader.place_start text
          have ordinary := (Reader.start.after text).after_ordinary (w := [')', ')']) (by simp)
            (List.all_eq_true.mp (by decide))
          rw [Reader.after_append, ordinary.1, Reader.settled, place, closed]
        have shape : ∀ (text : Text) (own : Nat),
            text ++ Form.closing own .atomic = text ++ [')', ')'] ++ render own := by
          simp [Form.closing, render]
        have parted : renumber position 1 (text ++ [')', ')'] ++ render own) =
            renumber position 1 (text ++ [')', ')']) ++ renumber position 1 (render own) :=
          renumberFrom_join position 1 behind fun held => absurd rfl held
        rw [shape, shape, parted, renumber_render position positive fits, bump_of_le above,
          renumber_append position 1 text (by simp) rfl]
    | _ => exact renumber_append position 1 text (by simp [Form.closing]) rfl
  rw [renumber_opened position 1 (by simp [head]) plain, closing]

theorem Tree.renumber_source {options : Options} {position : Nat} {table moved : GroupTable}
    {tree : Tree} (moves : ∀ target ∈ tree.targets, target.Moves position table moved) {index : Nat}
    (positive : 0 < index) (above : position ≤ index) (first : Bool)
    (small : index + (tree.slots options.noCapture first).length < Decimal.limit) (joined : Bool) :
    renumber position 1 (tree.source options table index first joined) =
      tree.source options moved (index + 1) first joined := by
  induction tree generalizing index first joined with
  | empty => rfl
  | bar next ih =>
      have bar := renumber_opened position 1 (by simp) (by simp)
        (next.source options table index false false) (w := ['|'])
      rw [Tree.source, Tree.source, ← List.singleton_append, bar,
        ih moves positive above false small]
      rfl
  | item leaf suffix next ih =>
      simp only [Tree.slots, List.length_append] at small
      have unit := (leaf.seals options table).repeated options.ungreedy false index suffix _ _
        Sealed.nil (fun on => by contradiction)
      rw [List.nil_append] at unit
      rw [Tree.source, Tree.source, leaf.renumber_parted, unit.renumber_append position 1,
        renumber_repeated (leaf.seals options table) _ _ _ above,
        Leaf.renumber_source fun target member => moves target (List.mem_append_left _ member),
        ih (fun target member => moves target (List.mem_append_right _ member))
        (by omega) (by omega) false (by omega), Nat.add_right_comm]
      · intro possessive
        simp only [Suffix.slots, possessive, ↓reduceIte, List.length_singleton] at small
        omega
      · intro on
        rw [on]
        exact next.head_source options table _ _
  | group form body suffix next inner ih =>
      simp only [Tree.slots, List.length_append] at small
      have moved := inner (fun target member => moves target (List.mem_append_left _ member))
        (by omega : 0 < index + (Suffix.slots suffix).length +
          (form.slots options.noCapture first).length)
        (by omega) form.looksAhead (by omega) false
      have whole := body.sealed_source options table Sealed.nil
        (index + (Suffix.slots suffix).length + (form.slots options.noCapture first).length)
        form.looksAhead
      rw [List.nil_append] at whole
      have seals := form.seals options.noCapture first (index + (Suffix.slots suffix).length)
        fun _ before => body.sealed_source options table before
          (index + (Suffix.slots suffix).length + (form.slots options.noCapture first).length)
          form.looksAhead
      have unit := seals.repeated options.ungreedy form.isAtomic index suffix _ _ Sealed.nil
        (fun on => by contradiction)
      rw [List.nil_append] at unit
      rw [Tree.source, Tree.source, unit.renumber_append position 1,
        renumber_repeated seals _ _ _ above, form.renumber_unit _ _ whole.outside (by omega), moved,
        ih (fun target member => moves target (List.mem_append_right _ member))
        (by omega) (by omega) false (by omega)]
      · simp only [Nat.add_right_comm _ _ 1]
      · intro atomic
        cases form with
        | atomic =>
            simp only [Form.slots, List.length_singleton] at small
            omega
        | _ => contradiction
      · intro possessive
        simp only [Suffix.slots, possessive, ↓reduceIte, List.length_singleton] at small
        omega
      · intro on
        rw [on]
        exact next.head_source options table _ _

end PatternDialect.Syntax
