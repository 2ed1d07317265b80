import PatternDialect.GroupTable

/-! The table of groups: the indices that references resolve to, and what the
table is after a group is opened, inserted or hidden. -/

namespace PatternDialect.GroupTable

theorem insertIdx_eq {α : Type} {list : List α} {position : Nat} (bound : position ≤ list.length)
    (a : α) : list.insertIdx position a = list.take position ++ a :: list.drop position := by
  induction list generalizing position with
  | nil =>
      cases position with
      | zero => rfl
      | succ position => simp at bound
  | cons b rest ih =>
      cases position with
      | zero => rfl
      | succ position => simp [ih (by simpa using bound)]

theorem size_push (table : GroupTable) (slot : Slot) : (table.push slot).size = table.size + 1 := by
  simp [push, size]

theorem size_insertSuppressed (table : GroupTable) (index : Nat) :
    (table.insertSuppressed index).size = table.size + 1 := by
  have short : table.clamp index - 1 ≤ table.declared.length := by
    unfold clamp size
    omega
  simp [insertSuppressed, size, List.length_insertIdx_of_le_length short]

theorem size_suppress (table : GroupTable) (index : Nat) :
    (table.suppress index).size = table.size := by
  unfold suppress
  split
  · rfl
  · split
    · simp [size]
    · rfl

theorem declared_suppress (table : GroupTable) (index : Nat) :
    (table.suppress index).declared = table.declared ∨
      (table.suppress index).declared = table.declared.set (index - 1) .suppressed := by
  unfold suppress
  split
  · exact Or.inl rfl
  · split
    · exact Or.inr rfl
    · exact Or.inl rfl

theorem visibleIndex?_lt {slots : List Slot} {number index : Nat}
    (found : visibleIndex? slots number = some index) : index < slots.length := by
  induction slots generalizing number index with
  | nil => contradiction
  | cons slot rest ih =>
      have shifted : ∀ n, (visibleIndex? rest n).map (· + 1) = some index →
          index < (slot :: rest).length := by
        intro n mapped
        obtain ⟨inner, deeper, rfl⟩ := Option.map_eq_some_iff.mp mapped
        have bound := ih deeper
        rw [List.length_cons]
        omega
      cases visible : slot.isVisible with
      | false =>
          simp only [visibleIndex?, visible, Bool.false_eq_true, ↓reduceIte] at found
          exact shifted number found
      | true =>
          simp only [visibleIndex?, visible, ↓reduceIte] at found
          cases number with
          | zero =>
              cases found
              simp
          | succ number => exact shifted number found

theorem resolveNumber_bounds {table : GroupTable} {number index : Nat}
    (resolved : table.resolveNumber number = .ok index) : 0 < index ∧ index < table.size := by
  unfold resolveNumber at resolved
  cases number with
  | zero => contradiction
  | succ number =>
      rw [if_neg (by omega)] at resolved
      cases found : visibleIndex? table.slots (number + 1) with
      | none =>
          rw [found] at resolved
          contradiction
      | some inner =>
          rw [found] at resolved
          cases resolved
          have bound := visibleIndex?_lt found
          rw [slots, visibleIndex?, if_pos (by rfl)] at found
          obtain ⟨before, _, equality⟩ := Option.map_eq_some_iff.mp found
          rw [slots, List.length_cons] at bound
          exact ⟨by omega, bound⟩

theorem resolveName_bounds {table : GroupTable} {name : Text} {index : Nat}
    (resolved : table.resolveName name = .ok index) : 0 < index ∧ index < table.size := by
  unfold resolveName at resolved
  cases found : table.indexOf? name with
  | none =>
      rw [found] at resolved
      contradiction
  | some inner =>
      rw [found] at resolved
      cases resolved
      rw [indexOf?, List.findIdx?_eq_some_iff_getElem] at found
      obtain ⟨bound, named, _⟩ := found
      refine ⟨?_, bound⟩
      cases index with
      | zero => exact absurd named (by simp [slots])
      | succ index => omega

end PatternDialect.GroupTable
