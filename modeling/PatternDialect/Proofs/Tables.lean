import PatternDialect.Proofs.Numbering
import PatternDialect.Proofs.Renumbering

/-! Tables of groups after any run of operations.

Main statement: names are distinct identifiers, numbers count the groups that are not
suppressed in the order of the table, and a suppressed group that is inserted moves what every
look-up finds from there on up by one. -/

namespace PatternDialect.GroupTable

open Character Backreference

/-! ### Look-ups among slots -/

theorem visibleIndex?_hidden {slot : Slot} (hidden : slot.isVisible = false) (rest : List Slot)
    (number : Nat) : visibleIndex? (slot :: rest) number =
      (visibleIndex? rest number).map (· + 1) := by
  cases number <;> simp [visibleIndex?, hidden]

theorem visibleIndex?_visible {slot : Slot} (visible : slot.isVisible = true) (rest : List Slot)
    (number : Nat) : visibleIndex? (slot :: rest) (number + 1) =
      (visibleIndex? rest number).map (· + 1) := by
  simp [visibleIndex?, visible]

theorem visibleIndex?_append {slots : List Slot} {number index : Nat}
    (found : visibleIndex? slots number = some index) (more : List Slot) :
    visibleIndex? (slots ++ more) number = some index := by
  induction slots generalizing number index with
  | nil => contradiction
  | cons slot rest ih =>
      have deeper : ∀ number, (visibleIndex? rest number).map (· + 1) = some index →
          (visibleIndex? (rest ++ more) number).map (· + 1) = some index := by
        intro number mapped
        obtain ⟨inner, here, rfl⟩ := Option.map_eq_some_iff.mp mapped
        rw [ih here]
        rfl
      rw [List.cons_append]
      cases visible : slot.isVisible with
      | false =>
          rw [visibleIndex?_hidden visible] at found ⊢
          exact deeper number found
      | true =>
          cases number with
          | zero => simpa [visibleIndex?, visible] using found
          | succ number =>
              rw [visibleIndex?_visible visible] at found ⊢
              exact deeper number found

theorem visibleIndex?_insertIdx {slots : List Slot} {position : Nat}
    (bound : position ≤ slots.length) (number : Nat) :
    visibleIndex? (slots.insertIdx position .suppressed) number =
      (visibleIndex? slots number).map (bump position) := by
  induction slots generalizing position number with
  | nil =>
      obtain rfl : position = 0 := Nat.le_zero.mp bound
      rfl
  | cons slot rest ih =>
      cases position with
      | zero =>
          rw [List.insertIdx_zero, visibleIndex?_hidden rfl, funext bump_zero]
      | succ position =>
          have inner := fun number => ih (Nat.le_of_succ_le_succ bound) number
          rw [List.insertIdx_succ_cons]
          cases visible : slot.isVisible with
          | false =>
              rw [visibleIndex?_hidden visible, visibleIndex?_hidden visible, inner]
              simp [Function.comp_def, bump_succ]
          | true =>
              cases number with
              | zero => simp [visibleIndex?, visible, bump]
              | succ number =>
                  rw [visibleIndex?_visible visible, visibleIndex?_visible visible, inner]
                  simp [Function.comp_def, bump_succ]

theorem findIdx?_insertIdx {slots : List Slot} {position : Nat} (bound : position ≤ slots.length)
    (word : Text) :
    (slots.insertIdx position .suppressed).findIdx? (· == .named word) =
      (slots.findIdx? (· == .named word)).map (bump position) := by
  induction slots generalizing position with
  | nil =>
      obtain rfl : position = 0 := Nat.le_zero.mp bound
      rfl
  | cons slot rest ih =>
      cases position with
      | zero =>
          rw [List.insertIdx_zero, List.findIdx?_cons]
          simp [funext bump_zero]
      | succ position =>
          have inner := ih (Nat.le_of_succ_le_succ bound)
          rw [List.insertIdx_succ_cons, List.findIdx?_cons, List.findIdx?_cons]
          split
          · rfl
          · simp [inner, Function.comp_def, bump_succ]

theorem visibleIndex?_eq_some_iff {slots : List Slot} {number index : Nat} :
    visibleIndex? slots number = some index ↔
      (∃ slot, slots[index]? = some slot ∧ slot.isVisible = true) ∧
        (slots.take index).countP Slot.isVisible = number := by
  induction slots generalizing number index with
  | nil => simp [visibleIndex?]
  | cons slot rest ih =>
      cases visible : slot.isVisible with
      | false =>
          rw [visibleIndex?_hidden visible]
          cases index with
          | zero => simp [visible]
          | succ index => simp [ih, visible]
      | true =>
          cases number with
          | zero => cases index <;> simp [visibleIndex?, visible]
          | succ number =>
              rw [visibleIndex?_visible visible]
              cases index with
              | zero => simp
              | succ index => simp [ih, visible]

/-! ### Numbers -/

variable {table : GroupTable} {number index : Nat}

theorem resolveNumber_eq_ok : table.resolveNumber number = .ok index ↔
    number ≠ 0 ∧ visibleIndex? table.slots number = some index := by
  unfold resolveNumber
  by_cases zero : number = 0
  · simp [zero]
  · rw [if_neg zero]
    cases visibleIndex? table.slots number <;> simp [zero]

theorem resolveNumber_eq_ok_iff : table.resolveNumber number = .ok index ↔
    1 ≤ index ∧ (index < table.size ∧ table.isSuppressed index = false) ∧
      (table.slots.take index).countP Slot.isVisible = number := by
  rw [resolveNumber_eq_ok, visibleIndex?_eq_some_iff, ← shown_iff]
  -- The whole match is visible, so it is the only slot with nothing visible before it.
  have positive : (table.slots.take index).countP Slot.isVisible ≠ 0 ↔ 1 ≤ index := by
    cases index with
    | zero => simp
    | succ index => simp [slots, Slot.isVisible]
  constructor
  · rintro ⟨nonzero, shown, rfl⟩
    exact ⟨positive.mp nonzero, shown, rfl⟩
  · rintro ⟨group, shown, rfl⟩
    exact ⟨positive.mpr group, shown, rfl⟩

theorem countP_take_le (shown : index < table.size ∧ table.isSuppressed index = false) :
    (table.slots.take index).countP Slot.isVisible ≤ table.visibleCount := by
  obtain ⟨slot, here, visible⟩ := shown_iff.mp shown
  have next : (table.slots.take (index + 1)).countP Slot.isVisible =
      (table.slots.take index).countP Slot.isVisible + 1 := by
    rw [List.take_add_one, here, List.countP_append]
    simp [visible]
  have all : (table.slots.take (index + 1)).countP Slot.isVisible ≤
      table.slots.countP Slot.isVisible := (List.take_sublist _ _).countP_le
  have whole : table.slots.countP Slot.isVisible = table.visibleCount + 1 :=
    List.countP_cons_of_pos rfl
  omega

theorem resolveNumber_le (resolved : table.resolveNumber number = .ok index) :
    1 ≤ number ∧ number ≤ table.visibleCount := by
  refine ⟨Nat.one_le_iff_ne_zero.mpr (resolveNumber_eq_ok.mp resolved).1, ?_⟩
  obtain ⟨_, shown, rfl⟩ := resolveNumber_eq_ok_iff.mp resolved
  exact countP_take_le shown

theorem resolveNumber_fails (outside : number = 0 ∨ table.visibleCount < number) :
    table.resolveNumber number = .error (.unresolvedReference (Decimal.write number)) := by
  cases resolved : table.resolveNumber number with
  | ok index =>
      have bounds := resolveNumber_le resolved
      omega
  | error fault =>
      unfold resolveNumber at resolved
      split at resolved
      · contradiction
      · exact resolved.symm

theorem resolveNumber_lt {later further : Nat} (less : number < later)
    (first : table.resolveNumber number = .ok index)
    (second : table.resolveNumber later = .ok further) : index < further := by
  obtain ⟨_, _, rfl⟩ := resolveNumber_eq_ok_iff.mp first
  obtain ⟨_, _, rfl⟩ := resolveNumber_eq_ok_iff.mp second
  by_contra order
  have fewer : (table.slots.take further).countP Slot.isVisible ≤
      (table.slots.take index).countP Slot.isVisible :=
    (List.take_sublist_take_left (by omega)).countP_le
  omega

/-! ### Insertion -/

theorem clamp_bounds (table : GroupTable) (index : Nat) :
    1 ≤ table.clamp index ∧ table.clamp index ≤ table.slots.length := by
  change 1 ≤ max 1 (min index table.size) ∧ max 1 (min index table.size) ≤ table.size
  unfold size
  omega

theorem slots_insertSuppressed (table : GroupTable) (index : Nat) :
    (table.insertSuppressed index).slots =
      table.slots.insertIdx (table.clamp index) .suppressed := by
  obtain ⟨place, same⟩ := Nat.exists_eq_add_of_le' (table.clamp_bounds index).1
  rw [insertSuppressed, same]
  rfl

theorem resolveNumber_insertSuppressed (table : GroupTable) (index number : Nat) :
    (table.insertSuppressed index).resolveNumber number =
      (table.resolveNumber number).map (bump (table.clamp index)) := by
  unfold resolveNumber
  rw [slots_insertSuppressed, visibleIndex?_insertIdx (table.clamp_bounds index).2]
  by_cases zero : number = 0
  · rw [if_pos zero, if_pos zero]
    rfl
  · rw [if_neg zero, if_neg zero]
    cases visibleIndex? table.slots number <;> rfl

theorem resolveName_insertSuppressed (table : GroupTable) (index : Nat) (name : Text) :
    (table.insertSuppressed index).resolveName name =
      (table.resolveName name).map (bump (table.clamp index)) := by
  unfold resolveName indexOf?
  rw [slots_insertSuppressed, findIdx?_insertIdx (table.clamp_bounds index).2]
  cases table.slots.findIdx? (· == .named name) <;> rfl

theorem visibleCount_insertSuppressed (table : GroupTable) (index : Nat) :
    (table.insertSuppressed index).visibleCount = table.visibleCount := by
  have short : table.clamp index - 1 ≤ table.declared.length := by
    have bounds := table.clamp_bounds index
    rw [slots, List.length_cons] at bounds
    omega
  have same := (List.perm_insertIdx Slot.suppressed table.declared short).countP_eq Slot.isVisible
  rw [List.countP_cons_of_neg (by decide)] at same
  exact same

/-! ### Runs -/

/-- The numbers from 1 on lead to the groups that are not suppressed, one after the other. -/
structure Numbered (table : GroupTable) : Prop where
  defined : ∀ number, 1 ≤ number → number ≤ table.visibleCount →
    ∃ index, table.resolveNumber number = .ok index
  shown : ∀ number index, table.resolveNumber number = .ok index →
    1 ≤ index ∧ index < table.size ∧ table.isSuppressed index = false
  onto : ∀ index, 1 ≤ index → index < table.size → table.isSuppressed index = false →
    ∃ number, 1 ≤ number ∧ number ≤ table.visibleCount ∧ table.resolveNumber number = .ok index
  increasing : ∀ number later index further, number < later →
    table.resolveNumber number = .ok index → table.resolveNumber later = .ok further →
      index < further
  fails : ∀ number, number = 0 ∨ table.visibleCount < number →
    table.resolveNumber number = .error (.unresolvedReference (Decimal.write number))

theorem numbered (table : GroupTable) : table.Numbered where
  defined number positive bound := by
    obtain ⟨index, _, _, resolved, _⟩ := resolveNumber_of_le positive bound
    exact ⟨index + 1, resolved⟩
  shown number index resolved := by
    obtain ⟨group, shown, _⟩ := resolveNumber_eq_ok_iff.mp resolved
    exact ⟨group, shown⟩
  onto index group bound shown := by
    have resolved := resolveNumber_eq_ok_iff.mpr ⟨group, ⟨bound, shown⟩, rfl⟩
    obtain ⟨positive, small⟩ := resolveNumber_le resolved
    exact ⟨_, positive, small, resolved⟩
  increasing _ _ _ _ := resolveNumber_lt
  fails _ := resolveNumber_fails

/-- Every look-up in the second table finds what it found in the first, one place further up if
that is not before the given place. -/
structure Raised (first second : GroupTable) (place : Nat) : Prop where
  byName : ∀ name, second.resolveName name = (first.resolveName name).map (bump place)
  byNumber : ∀ number, second.resolveNumber number = (first.resolveNumber number).map (bump place)
  names : second.names = first.names
  visibleCount : second.visibleCount = first.visibleCount

theorem raised_insertSuppressed (table : GroupTable) (index : Nat) :
    Raised table (table.insertSuppressed index) (table.clamp index) where
  byName := resolveName_insertSuppressed table index
  byNumber := resolveNumber_insertSuppressed table index
  names := filterMap_insertIdx_suppressed table.declared _
  visibleCount := visibleCount_insertSuppressed table index

theorem made_concat (operations : List Operation) (last : Operation) :
    made (operations ++ [last]) = (made operations).apply last :=
  List.foldl_concat apply {} last operations

/-- After any operations the whole match is in its place, the names are distinct identifiers,
and the numbers lead to the groups that are not suppressed, in order.  A name that is refused
changes nothing, and one is refused only if it is no identifier or taken.  Inserting a
suppressed group raises every look-up from its place on. -/
theorem laws_made (operations : List Operation) :
    (made operations).get? 0 = some .anonymous ∧
    (made operations).names.Nodup ∧
    (∀ name ∈ (made operations).names, isIdentifier name = true) ∧
    (∀ name, (∃ pushed, (made operations).pushNamed name = .ok pushed) ↔
      isIdentifier name = true ∧ name ∉ (made operations).names) ∧
    (∀ name fault, (made operations).pushNamed name = .error fault →
      made (operations ++ [.named name]) = made operations) ∧
    (made operations).Numbered ∧
    (∀ index, Raised (made operations) (made (operations ++ [.insert index]))
      (max 1 (min index (made operations).size))) := by
  refine ⟨rfl, nodup_names_made operations, isIdentifier_of_mem_names_made operations, ?_, ?_,
    numbered _, ?_⟩
  · intro name
    simp only [pushNamed_eq_ok_iff, exists_and_left, exists_eq, and_true]
  · intro name fault refused
    rw [made_concat, apply, refused]
  · intro index
    rw [made_concat]
    exact raised_insertSuppressed (made operations) index

theorem laws_made_moved :
    (made [.named "n".toList, .anonymous, .suppress 2, .anonymous, .insert 0, .insert 9]).pushNamed
      "n".toList = .error (.duplicateGroupName "n".toList) ∧
    made [.named "n".toList, .anonymous, .suppress 2, .anonymous, .insert 0, .insert 9,
      .named "n".toList] =
        ⟨[.suppressed, .named "n".toList, .suppressed, .anonymous, .suppressed]⟩ ∧
    (made [.named "n".toList, .anonymous, .suppress 2, .anonymous, .insert 0, .insert 9,
      .insert 3]).resolveName "n".toList = .ok 2 ∧
    (made [.named "n".toList, .anonymous, .suppress 2, .anonymous, .insert 0, .insert 9,
      .insert 3]).resolveNumber 2 = .ok 5 := by
  obtain ⟨_, _, _, _, unchanged, _, raised⟩ := laws_made
    [.named "n".toList, .anonymous, .suppress 2, .anonymous, .insert 0, .insert 9]
  have refused : (made [.named "n".toList, .anonymous, .suppress 2, .anonymous, .insert 0,
      .insert 9]).pushNamed "n".toList = .error (.duplicateGroupName "n".toList) := rfl
  exact ⟨refused, unchanged _ _ refused, (raised 3).byName _, (raised 3).byNumber 2⟩

end PatternDialect.GroupTable
