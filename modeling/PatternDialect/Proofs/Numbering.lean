import Mathlib.Data.List.Nodup
import PatternDialect.Pattern
import PatternDialect.Proofs.Groups
import PatternDialect.Proofs.Text

/-! The numbers and names of groups, in references and in matches.

A reference asks the table for a native index; a match is made by dropping what
the author can not see.  Both count the visible groups in the same order. -/

namespace PatternDialect

namespace GroupTable

open Character

/-- The ways in which a table changes. -/
inductive Operation where
  | anonymous
  | named (name : Text)
  | suppressed
  | insert (index : Nat)
  | suppress (index : Nat)
  deriving DecidableEq

/-- One operation; a name that is refused leaves the table as it is. -/
def apply (table : GroupTable) : Operation → GroupTable
  | .anonymous => table.push .anonymous
  | .named name =>
      match table.pushNamed name with
      | .ok pushed => pushed
      | .error _ => table
  | .suppressed => table.push .suppressed
  | .insert index => table.insertSuppressed index
  | .suppress index => table.suppress index

/-- The table made by operations in order, from the empty one. -/
def made (operations : List Operation) : GroupTable := operations.foldl apply {}

theorem names_eq (table : GroupTable) : table.names = table.declared.filterMap Slot.name? := rfl

theorem filterMap_named (name : Text) (rest : List Slot) :
    (Slot.named name :: rest).filterMap Slot.name? = name :: rest.filterMap Slot.name? := rfl

theorem filterMap_insertIdx_suppressed (slots : List Slot) (position : Nat) :
    (slots.insertIdx position .suppressed).filterMap Slot.name? =
      slots.filterMap Slot.name? := by
  induction slots generalizing position with
  | nil => cases position <;> rfl
  | cons slot rest ih =>
      cases position with
      | zero => rfl
      | succ position => simp [List.filterMap_cons, ih]

theorem filterMap_set_suppressed {slots : List Slot} {position : Nat}
    (anonymous : slots[position]? = some .anonymous) :
    (slots.set position .suppressed).filterMap Slot.name? = slots.filterMap Slot.name? := by
  induction slots generalizing position with
  | nil => rfl
  | cons slot rest ih =>
      cases position with
      | zero =>
          cases anonymous
          rfl
      | succ position => simp [List.filterMap_cons, ih (by simpa using anonymous)]

theorem name_mem_iff (table : GroupTable) (name : Text) :
    name ∈ table.names ↔ .named name ∈ table.declared := by
  rw [names_eq, List.mem_filterMap]
  constructor
  · rintro ⟨slot, member, same⟩
    cases slot with
    | named other =>
        cases same
        exact member
    | anonymous => contradiction
    | suppressed => contradiction
  · exact fun member => ⟨_, member, rfl⟩

theorem indexOf?_isSome_iff (table : GroupTable) (name : Text) :
    (table.indexOf? name).isSome ↔ name ∈ table.names := by
  rw [name_mem_iff, indexOf?, List.findIdx?_isSome, List.any_eq_true]
  simp [slots]

theorem names_push (table : GroupTable) (slot : Slot) :
    (table.push slot).names = table.names ++ slot.name?.toList := by
  rw [names_eq, names_eq, push, List.filterMap_append]
  cases slot <;> rfl

theorem pushNamed_of_isIdentifier (table : GroupTable) {name : Text}
    (identifier : isIdentifier name = true) :
    table.pushNamed name =
      if name ∈ table.names then .error (.duplicateGroupName name)
      else .ok (table.push (.named name)) := by
  have digit : name.head?.any isDigit = false := by
    obtain ⟨c, rest, rfl, digit, _⟩ := isIdentifier_spec identifier
    exact digit
  simp [pushNamed, digit, identifier, indexOf?_isSome_iff]

theorem pushNamed_eq_ok_iff {table pushed : GroupTable} {name : Text} :
    table.pushNamed name = .ok pushed ↔
      isIdentifier name = true ∧ name ∉ table.names ∧ pushed = table.push (.named name) := by
  by_cases identifier : isIdentifier name = true
  · rw [pushNamed_of_isIdentifier table identifier]
    by_cases taken : name ∈ table.names
    · rw [if_pos taken]
      exact ⟨fun failed => by contradiction, fun both => absurd taken both.2.1⟩
    · rw [if_neg taken, Except.ok.injEq]
      exact ⟨fun same => ⟨identifier, taken, same.symm⟩, fun both => both.2.2.symm⟩
  · refine ⟨fun ok => ?_, fun both => absurd both.1 identifier⟩
    simp only [pushNamed, identifier, Bool.not_false, ↓reduceIte] at ok
    split at ok <;> contradiction

theorem names_apply (table : GroupTable) (operation : Operation) :
    (table.apply operation).names = table.names ∨
      ∃ name, isIdentifier name = true ∧ name ∉ table.names ∧
        (table.apply operation).names = table.names ++ [name] := by
  cases operation with
  | anonymous => exact Or.inl (by simp [apply, names_push, Slot.name?])
  | suppressed => exact Or.inl (by simp [apply, names_push, Slot.name?])
  | insert index => exact Or.inl (filterMap_insertIdx_suppressed table.declared _)
  | suppress index =>
      left
      cases index with
      | zero => rfl
      | succ index =>
          simp only [apply, suppress]
          split
          · rename_i anonymous
            exact filterMap_set_suppressed anonymous
          · rfl
  | named name =>
      cases ok : table.pushNamed name with
      | error fault => exact Or.inl (by rw [apply, ok])
      | ok pushed =>
          obtain ⟨identifier, fresh, rfl⟩ := pushNamed_eq_ok_iff.mp ok
          exact Or.inr ⟨name, identifier, fresh, by rw [apply, ok, names_push]; rfl⟩

theorem made_induction (holds : GroupTable → Prop) (empty : holds {})
    (step : ∀ table operation, holds table → holds (table.apply operation))
    (operations : List Operation) : holds (made operations) := by
  have run : ∀ (rest : List Operation) (table : GroupTable), holds table →
      holds (rest.foldl apply table) := by
    intro rest
    induction rest with
    | nil => exact fun _ now => now
    | cons operation rest ih => exact fun table now => ih _ (step table operation now)
  exact run operations {} empty

theorem nodup_names_made (operations : List Operation) : (made operations).names.Nodup := by
  refine made_induction (·.names.Nodup) List.nodup_nil ?_ operations
  intro table operation distinct
  rcases names_apply table operation with same | ⟨name, _, fresh, added⟩
  · rwa [same]
  · rw [added]
    exact List.nodup_append.mpr ⟨distinct, List.nodup_singleton name, by
      rintro other member _ last rfl
      exact fresh (List.mem_singleton.mp last ▸ member)⟩

theorem isIdentifier_of_mem_names_made (operations : List Operation) :
    ∀ name ∈ (made operations).names, isIdentifier name = true := by
  refine made_induction (∀ name ∈ ·.names, isIdentifier name = true) ?_ ?_ operations
  · exact fun _ member => absurd member List.not_mem_nil
  intro table operation identifiers other member
  rcases names_apply table operation with same | ⟨name, identifier, _, added⟩
  · exact identifiers other (same ▸ member)
  · rw [added, List.mem_append, List.mem_singleton] at member
    rcases member with member | rfl
    · exact identifiers other member
    · exact identifier

theorem visibleIndex?_of_lt {slots : List Slot} {number : Nat}
    (bound : number < slots.countP Slot.isVisible) :
    ∃ index slot, visibleIndex? slots number = some index ∧ slots[index]? = some slot ∧
      slot.isVisible = true := by
  induction slots generalizing number with
  | nil => contradiction
  | cons slot rest ih =>
      cases visible : slot.isVisible with
      | false =>
          rw [List.countP_cons_of_neg (by simp [visible])] at bound
          obtain ⟨index, found, deeper, here, seen⟩ := ih bound
          exact ⟨index + 1, found, by simp [visibleIndex?, visible, deeper], here, seen⟩
      | true =>
          rw [List.countP_cons_of_pos visible] at bound
          cases number with
          | zero => exact ⟨0, slot, by simp [visibleIndex?, visible], rfl, visible⟩
          | succ number =>
              obtain ⟨index, found, deeper, here, seen⟩ := ih (Nat.lt_of_succ_lt_succ bound)
              exact ⟨index + 1, found, by simp [visibleIndex?, visible, deeper], here, seen⟩

theorem resolveNumber_of_le {table : GroupTable} {number : Nat} (positive : 1 ≤ number)
    (bound : number ≤ table.visibleCount) :
    ∃ index slot, visibleIndex? table.declared (number - 1) = some index ∧
      table.resolveNumber number = .ok (index + 1) ∧ table.declared[index]? = some slot ∧
        slot.isVisible = true := by
  obtain ⟨before, rfl⟩ : ∃ before, number = before + 1 := ⟨number - 1, by omega⟩
  have inside : before < table.declared.countP Slot.isVisible := bound
  obtain ⟨index, slot, found, here, visible⟩ := visibleIndex?_of_lt inside
  refine ⟨index, slot, found, ?_, here, visible⟩
  have shifted : visibleIndex? table.slots (before + 1) = some (index + 1) := by
    simp [slots, visibleIndex?, Slot.isVisible, found]
  simp [resolveNumber, shifted]

theorem resolveName_of_mem {table : GroupTable} {name : Text} (declared : name ∈ table.names) :
    ∃ index, table.declared.findIdx? (· == .named name) = some index ∧
      table.resolveName name = .ok (index + 1) ∧
        table.declared[index]? = some (.named name) := by
  have found : (table.declared.findIdx? (· == .named name)).isSome := by
    rw [List.findIdx?_isSome, List.any_eq_true]
    exact ⟨_, (name_mem_iff table name).mp declared, by simp⟩
  obtain ⟨index, first⟩ := Option.isSome_iff_exists.mp found
  refine ⟨index, first, ?_, ?_⟩
  · have shifted : table.indexOf? name = some (index + 1) := by
      simp [indexOf?, slots, List.findIdx?_cons, first]
    rw [resolveName, shifted]
  · obtain ⟨bound, same, _⟩ := List.findIdx?_eq_some_iff_getElem.mp first
    rw [List.getElem?_eq_getElem bound, ← beq_iff_eq.mp same]

theorem shown_iff {table : GroupTable} {index : Nat} :
    index < table.size ∧ table.isSuppressed index = false ↔
      ∃ slot, table.slots[index]? = some slot ∧ slot.isVisible = true := by
  change index < table.slots.length ∧ (table.slots[index]? == some .suppressed) = false ↔ _
  constructor
  · rintro ⟨bound, shown⟩
    rw [List.getElem?_eq_getElem bound] at shown ⊢
    refine ⟨_, rfl, ?_⟩
    cases slot : table.slots[index] with
    | anonymous => rfl
    | named name => rfl
    | suppressed =>
        rw [slot] at shown
        contradiction
  · rintro ⟨slot, here, visible⟩
    refine ⟨(List.getElem?_eq_some_iff.mp here).1, ?_⟩
    rw [here]
    cases slot with
    | anonymous => rfl
    | named name => rfl
    | suppressed => contradiction

theorem isSuppressed_succ {table : GroupTable} {index : Nat} {slot : Slot}
    (here : table.declared[index]? = some slot) (visible : slot.isVisible = true) :
    table.isSuppressed (index + 1) = false :=
  (shown_iff.mpr ⟨slot, here, visible⟩).2

end GroupTable

namespace Match

open GroupTable

theorem length_visible {slots : List Slot} {spans : List (Option Span)}
    (same : spans.length = slots.length) :
    (visible slots spans).length = slots.countP Slot.isVisible := by
  induction slots generalizing spans with
  | nil => simp [visible]
  | cons slot rest ih =>
      cases spans with
      | nil => contradiction
      | cons span spans =>
          have tail := ih (Nat.succ.inj same)
          cases seen : slot.isVisible with
          | false => simp [visible, seen, tail]
          | true => simp [visible, seen, tail]

theorem getElem?_visible {slots : List Slot} {spans : List (Option Span)}
    (same : spans.length = slots.length) (number : Nat) :
    (visible slots spans)[number]? = (visibleIndex? slots number).bind (spans[·]?) := by
  induction slots generalizing spans number with
  | nil => simp [visible, visibleIndex?]
  | cons slot rest ih =>
      cases spans with
      | nil => contradiction
      | cons span spans =>
          have tail : ∀ number, (visible rest spans)[number]? =
              ((visibleIndex? rest number).map (· + 1)).bind ((span :: spans)[·]?) := by
            intro number
            rw [ih (Nat.succ.inj same)]
            cases visibleIndex? rest number <;> rfl
          cases seen : slot.isVisible with
          | false => simp [visible, visibleIndex?, seen, tail]
          | true =>
              cases number with
              | zero => simp [visible, visibleIndex?, seen]
              | succ number => simp [visible, visibleIndex?, seen, tail]

theorem mem_names_of_mem_namedSpans {slots : List Slot} {spans : List (Option Span)}
    {name : Text} {span : Span} (member : (name, span) ∈ namedSpans slots spans) :
    name ∈ slots.filterMap Slot.name? := by
  induction slots generalizing spans with
  | nil => simp [namedSpans] at member
  | cons slot rest ih =>
      cases spans with
      | nil => simp [namedSpans] at member
      | cons first spans =>
          cases slot with
          | anonymous => exact ih (by simpa [namedSpans, Slot.name?] using member)
          | suppressed => exact ih (by simpa [namedSpans, Slot.name?] using member)
          | named other =>
              rw [filterMap_named, List.mem_cons]
              cases first with
              | none => exact Or.inr (ih (by simpa [namedSpans, Slot.name?] using member))
              | some here =>
                  simp only [namedSpans, Slot.name?, List.mem_cons, Prod.mk.injEq] at member
                  exact member.imp And.left ih

theorem lookup_eq_none_of_not_mem {name : Text} {entries : List (Text × Span)}
    (absent : ∀ span, (name, span) ∉ entries) : entries.lookup name = none := by
  rw [List.lookup_eq_none_iff]
  intro entry member
  rw [bne_iff_ne]
  rintro rfl
  exact absent _ member

theorem nodup_namedSpans {slots : List Slot} {spans : List (Option Span)}
    (distinct : (slots.filterMap Slot.name?).Nodup) :
    ((namedSpans slots spans).map Prod.fst).Nodup := by
  induction slots generalizing spans with
  | nil => simp [namedSpans]
  | cons slot rest ih =>
      cases spans with
      | nil => simp [namedSpans]
      | cons first spans =>
          cases slot with
          | anonymous => exact ih distinct
          | suppressed => exact ih distinct
          | named name =>
              rw [filterMap_named, List.nodup_cons] at distinct
              cases first with
              | none => exact ih distinct.2
              | some span =>
                  simp only [namedSpans, Slot.name?, List.map_cons, List.nodup_cons]
                  refine ⟨fun member => distinct.1 ?_, ih distinct.2⟩
                  obtain ⟨⟨_, other⟩, inside, rfl⟩ := List.mem_map.mp member
                  exact mem_names_of_mem_namedSpans inside

theorem lookup_namedSpans {slots : List Slot} {spans : List (Option Span)} {name : Text}
    {index : Nat} (same : spans.length = slots.length)
    (distinct : (slots.filterMap Slot.name?).Nodup)
    (first : slots.findIdx? (· == .named name) = some index) :
    (namedSpans slots spans).lookup name = (spans[index]?).join := by
  induction slots generalizing spans index with
  | nil => contradiction
  | cons slot rest ih =>
      cases spans with
      | nil => contradiction
      | cons span spans =>
          have shorter : spans.length = rest.length := Nat.succ.inj same
          rw [List.findIdx?_cons] at first
          by_cases here : slot = .named name
          · subst here
            simp only [BEq.rfl, ↓reduceIte, Option.some.injEq] at first
            subst first
            rw [filterMap_named, List.nodup_cons] at distinct
            cases span with
            | some span => simp [namedSpans, Slot.name?]
            | none =>
                rw [List.getElem?_cons_zero]
                exact lookup_eq_none_of_not_mem fun _ member =>
                  distinct.1 (mem_names_of_mem_namedSpans member)
          · rw [if_neg (by simpa using here)] at first
            obtain ⟨inner, found, rfl⟩ := Option.map_eq_some_iff.mp first
            rw [List.getElem?_cons_succ]
            cases slot with
            | anonymous => exact ih shorter distinct found
            | suppressed => exact ih shorter distinct found
            | named other =>
                rw [filterMap_named, List.nodup_cons] at distinct
                have tail := ih shorter distinct.2 found
                cases span with
                | none => exact tail
                | some span =>
                    have apart : (name == other) = false := by
                      rw [beq_eq_false_iff_ne]
                      rintro rfl
                      exact here rfl
                    simpa [namedSpans, Slot.name?, List.lookup_cons, apart] using tail

theorem visible_of_anonymous {slots : List Slot} {spans : List (Option Span)}
    (same : spans.length = slots.length) (all : ∀ slot ∈ slots, slot = .anonymous) :
    visible slots spans = spans ∧ namedSpans slots spans = [] := by
  induction slots generalizing spans with
  | nil =>
      rw [List.length_eq_zero_iff.mp same]
      exact ⟨rfl, rfl⟩
  | cons slot rest ih =>
      cases spans with
      | nil => contradiction
      | cons span spans =>
          obtain ⟨visible_, named⟩ := ih (Nat.succ.inj same) fun slot member =>
              all slot (by simp [member])
          cases all slot (by simp)
          exact ⟨congrArg (span :: ·) visible_, named⟩

theorem ofRaw_eq_arranged {groups : GroupTable} {haystack : Text} {raw : Native.RawMatch}
    (entries : raw.captures.length = groups.declared.length) :
    ofRaw groups haystack raw = arranged groups haystack raw := by
  unfold ofRaw
  split
  · rfl
  · rename_i plain
    have all : ∀ slot ∈ groups.declared, slot = .anonymous := by
      simpa [needsAugmentation] using plain
    obtain ⟨visible_, named⟩ := visible_of_anonymous entries all
    rw [arranged, unarranged, visible_, named]

/-- The groups of a match are numbered and named as references are: there is one for
each visible number, it is what the engine captured at the index that the number
resolves to, and the same holds of the names.  The long and the short way to make
the match agree. -/
theorem numbers_of_match (operations : List Operation) (haystack : Text) (raw : Native.RawMatch)
    (entries : raw.captures.length = (made operations).size - 1) :
    (ofRaw (made operations) haystack raw).haystack = haystack ∧
    (ofRaw (made operations) haystack raw).groups.length = (made operations).visibleCount + 1 ∧
    (ofRaw (made operations) haystack raw).groups[0]? = some (some raw.span) ∧
    (∀ number, 1 ≤ number → number ≤ (made operations).visibleCount →
      ∃ index span, (made operations).resolveNumber number = .ok index ∧
        (made operations).isSuppressed index = false ∧ raw.captures[index - 1]? = some span ∧
          (ofRaw (made operations) haystack raw).groups[number]? = some span) ∧
    (∀ name ∈ (made operations).names, ∃ index span,
      (made operations).resolveName name = .ok index ∧
        (made operations).isSuppressed index = false ∧ raw.captures[index - 1]? = some span ∧
          (ofRaw (made operations) haystack raw).named.lookup name = span) ∧
    ((ofRaw (made operations) haystack raw).named.map Prod.fst).Nodup ∧
    (∀ entry ∈ (ofRaw (made operations) haystack raw).named,
      entry.1 ∈ (made operations).names) ∧
    ((made operations).needsAugmentation = false →
      unarranged haystack raw = arranged (made operations) haystack raw) := by
  have distinct := nodup_names_made operations
  generalize made operations = table at entries distinct ⊢
  have lengths : raw.captures.length = table.declared.length := entries
  rw [names_eq] at distinct
  have long : ofRaw table haystack raw = arranged table haystack raw := ofRaw_eq_arranged lengths
  rw [long]
  refine ⟨rfl, ?_, rfl, ?_, ?_, nodup_namedSpans distinct, ?_, ?_⟩
  · simp [arranged, length_visible lengths, visibleCount]
  · intro number positive bound
    obtain ⟨index, slot, found, resolved, here, seen⟩ := resolveNumber_of_le positive bound
    have inside : index < raw.captures.length := lengths ▸ visibleIndex?_lt found
    refine ⟨index + 1, raw.captures[index], resolved, isSuppressed_succ here seen,
      List.getElem?_eq_getElem inside, ?_⟩
    obtain ⟨before, rfl⟩ : ∃ before, number = before + 1 := ⟨number - 1, by omega⟩
    rw [Nat.add_sub_cancel] at found
    change (visible table.declared raw.captures)[before]? = _
    rw [getElem?_visible lengths, found, Option.bind_some, List.getElem?_eq_getElem inside]
  · intro name declared
    obtain ⟨index, first, resolved, here⟩ := resolveName_of_mem declared
    have inside : index < raw.captures.length := by
      rw [lengths]
      exact (List.getElem?_eq_some_iff.mp here).1
    refine ⟨index + 1, raw.captures[index], resolved, isSuppressed_succ here rfl,
      List.getElem?_eq_getElem inside, ?_⟩
    change (namedSpans table.declared raw.captures).lookup name = _
    rw [lookup_namedSpans lengths distinct first, List.getElem?_eq_getElem inside, Option.join_some]
  · rintro ⟨name, span⟩ member
    rw [names_eq]
    exact mem_names_of_mem_namedSpans member
  · intro plain
    rw [← long, ofRaw, plain]
    rfl

theorem numbers_of_match_hidden :
    (ofRaw (made [.named "n".toList, .anonymous, .insert 2]) "ab".toList
      ⟨⟨0, 2⟩, [some ⟨0, 1⟩, some ⟨1, 2⟩, none]⟩).groups.length = 3 ∧
    (made [.named "n".toList, .anonymous, .insert 2]).resolveNumber 2 = .ok 3 ∧
    (ofRaw (made [.named "n".toList, .anonymous, .insert 2]) "ab".toList
      ⟨⟨0, 2⟩, [some ⟨0, 1⟩, some ⟨1, 2⟩, none]⟩).groups[2]? = some none ∧
    (ofRaw (made [.named "n".toList, .anonymous, .insert 2]) "ab".toList
      ⟨⟨0, 2⟩, [some ⟨0, 1⟩, some ⟨1, 2⟩, none]⟩).named.lookup "n".toList = some ⟨0, 1⟩ := by
  obtain ⟨_, length, _, numbers, names, _⟩ :=
    numbers_of_match [.named "n".toList, .anonymous, .insert 2] "ab".toList
      ⟨⟨0, 2⟩, [some ⟨0, 1⟩, some ⟨1, 2⟩, none]⟩ (by decide)
  obtain ⟨index, span, resolved, _, captured, group⟩ := numbers 2 (by decide) (by decide)
  obtain ⟨other, text, found, _, taken, named⟩ := names "n".toList (by decide)
  have second : (made [.named "n".toList, .anonymous, .insert 2]).resolveNumber 2 = .ok 3 := by
    decide
  have first :
      (made [.named "n".toList, .anonymous, .insert 2]).resolveName "n".toList = .ok 1 := by
    decide
  cases resolved.symm.trans second
  cases found.symm.trans first
  cases captured
  cases taken
  exact ⟨length, second, group, named⟩

end Match

end PatternDialect
