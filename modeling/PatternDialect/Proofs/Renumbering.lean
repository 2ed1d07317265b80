import PatternDialect.Proofs.Reading

/-! Renumbering moves the numbers of references and keeps everything else. -/

namespace PatternDialect

open Character Source

namespace Backreference

def bump (first number : Nat) : Nat := if first ≤ number then number + 1 else number

theorem bump_of_lt {first number : Nat} (below : number < first) : bump first number = number := by
  simp [bump, Nat.not_le.mpr below]

theorem bump_of_le {first number : Nat} (above : first ≤ number) :
    bump first number = number + 1 := by
  simp [bump, above]

theorem bump_zero (index : Nat) : bump 0 index = index + 1 := bump_of_le (Nat.zero_le index)

theorem bump_succ (position index : Nat) :
    bump (position + 1) (index + 1) = bump position index + 1 := by
  unfold bump
  split <;> split <;> omega

@[simp] theorem shift_nil (first amount : Nat) : shift first amount [] = [] := rfl

theorem shift_spec (first : Nat) {digits : Text} (nonempty : digits ≠ [])
    (all : ∀ d ∈ digits, isDigit d = true) (nonzero : digits.head? ≠ some '0')
    (small : Decimal.value digits + 1 < Decimal.limit) :
    (∃ c rest, shift first 1 digits = c :: rest ∧ c ≠ '0') ∧
      (∀ d ∈ shift first 1 digits, isDigit d = true) ∧
        Decimal.value (shift first 1 digits) = bump first (Decimal.value digits) := by
  have readable := Decimal.read?_of_lt nonempty all (by omega)
  have below : (Decimal.value digits + 1) % Decimal.limit = Decimal.value digits + 1 :=
    Nat.mod_eq_of_lt small
  unfold shift
  rw [readable]
  by_cases above : first ≤ Decimal.value digits
  · simp only [above, ↓reduceIte, below, bump_of_le]
    exact ⟨Decimal.head_write (by omega), fun _ member => Decimal.isDigit_of_mem_write member,
      Decimal.value_write _⟩
  · simp only [above, ↓reduceIte]
    refine ⟨?_, all, (bump_of_lt (by omega)).symm⟩
    cases digits with
    | nil => exact absurd rfl nonempty
    | cons c rest => exact ⟨c, rest, rfl, by simpa using nonzero⟩

/-- A reference being read is written anew from its backslash on. -/
def restart (r : Reader) : Reader := if r.digits.isEmpty then r else ⟨.escape, []⟩

theorem restart_next {r : Reader} {c : Char} (taken : r.takes c = true) :
    restart (r.next c) = restart r := by
  have next : r.next c = ⟨.outside, c :: r.digits⟩ := by simp [Reader.next, taken]
  rw [next]
  cases held : r.digits with
  | nil =>
      have escape : r.place = .escape := by
        simp only [Reader.takes, held, List.isEmpty_nil, Bool.not_true, Bool.false_or,
          Bool.and_eq_true, beq_iff_eq] at taken
        exact taken.2.1
      cases r
      simp_all [restart]
  | cons d digits => simp [restart, held]

theorem renumberFrom_taken (first amount : Nat) {r : Reader} {c : Char} (taken : r.takes c = true)
    (rest : Text) :
    renumberFrom first amount r.place r.digits (c :: rest) =
      renumberFrom first amount (r.next c).place (r.next c).digits rest := by
  have next : r.next c = ⟨.outside, c :: r.digits⟩ := by simp [Reader.next, taken]
  simp only [Reader.takes] at taken
  rw [renumberFrom, if_pos taken, next]

theorem renumberFrom_other (first amount : Nat) {r : Reader} {c : Char} (other : r.takes c = false)
    (rest : Text) :
    renumberFrom first amount r.place r.digits (c :: rest) =
      shift first amount r.digits.reverse ++
        c :: renumberFrom first amount (r.next c).place (r.next c).digits rest := by
  have next : r.next c = ⟨r.place.next c, []⟩ := by simp [Reader.next, other]
  simp only [Reader.takes] at other
  rw [renumberFrom, if_neg (by simp [other]), next]

theorem renumberFrom_copied (first amount : Nat) {place : Place}
    (other : place ≠ .escape) (c : Char) (rest : Text) :
    renumberFrom first amount place [] (c :: rest) =
      c :: renumberFrom first amount (place.next c) [] rest := by
  have kept : Reader.takes ⟨place, []⟩ c = false := by simp [Reader.takes, other]
  have next : Reader.next ⟨place, []⟩ c = ⟨place.next c, []⟩ := by simp [Reader.next, kept]
  have written := renumberFrom_other first amount kept rest
  rw [next] at written
  simpa using written

/-- What becomes of the number of a reference when one more group comes in before group
`first`.  Numbers have 64 bits: the largest one turns to zero, which is no reference. -/
def moveUp (first number : Nat) : List Nat :=
  if first ≤ number ∧ number < Decimal.limit then
    if number + 1 = Decimal.limit then [] else [number + 1]
  else [number]

theorem moveUp_of_small (first : Nat) {number : Nat} (small : number + 1 < Decimal.limit) :
    moveUp first number = [bump first number] := by
  have bound : number < Decimal.limit := by omega
  have other : number + 1 ≠ Decimal.limit := by omega
  by_cases above : first ≤ number <;> simp [moveUp, bump, above, bound, other]

theorem reads_shift (first : Nat) {digits : Text} (nonempty : digits ≠ [])
    (all : ∀ d ∈ digits, isDigit d = true) (nonzero : digits.head? ≠ some '0') :
    ∃ held, Reader.after ⟨.escape, []⟩ (shift first 1 digits) = ⟨.outside, held⟩ ∧
      Reader.passed ⟨.escape, []⟩ (shift first 1 digits) = [] ∧
        Reader.held ⟨.outside, held⟩ = moveUp first (Decimal.value digits) := by
  by_cases small : Decimal.value digits + 1 < Decimal.limit
  · obtain ⟨⟨c, rest, written, head⟩, digit, value⟩ := shift_spec first nonempty all nonzero small
    obtain ⟨after, passed⟩ := Reader.after_number written head digit
    refine ⟨_, after, passed, ?_⟩
    rw [Reader.held_number _ (by rw [written]; simp), value, moveUp_of_small first small]
  · -- a number that is kept, or the largest one
    have kept : moveUp first (Decimal.value digits) = [Decimal.value digits] →
        shift first 1 digits = digits → ∃ held,
          Reader.after ⟨.escape, []⟩ (shift first 1 digits) = ⟨.outside, held⟩ ∧
            Reader.passed ⟨.escape, []⟩ (shift first 1 digits) = [] ∧
              Reader.held ⟨.outside, held⟩ = moveUp first (Decimal.value digits) := by
      intro number same
      obtain ⟨c, rest, written⟩ := List.exists_cons_of_ne_nil nonempty
      obtain ⟨after, passed⟩ := Reader.after_number written
        (by rw [written] at nonzero; simpa using nonzero) all
      rw [same, number]
      exact ⟨_, after, passed, Reader.held_number _ nonempty⟩
    by_cases below : Decimal.value digits < Decimal.limit
    · have readable := Decimal.read?_of_lt nonempty all below
      by_cases above : first ≤ Decimal.value digits
      · have last : Decimal.value digits + 1 = Decimal.limit := by omega
        have zero : shift first 1 digits = ['0'] := by
          rw [shift, readable]
          simp only [above, ↓reduceIte, last, Nat.mod_self]
          rfl
        rw [zero]
        refine ⟨[], by decide, by decide, ?_⟩
        simp [moveUp, above, below, last, Reader.held]
      · apply kept
        · simp [moveUp, above]
        · rw [shift, readable]
          simp [above]
    · apply kept
      · simp [moveUp, below]
      · rw [shift, Decimal.read?]
        simp [below]

theorem reads_renumberFrom (first : Nat) {r : Reader} (proper : r.Proper) (text : Text) :
    (restart r).read (renumberFrom first 1 r.place r.digits text) =
        (r.read text).flatMap (moveUp first) ∧
      ((restart r).after (renumberFrom first 1 r.place r.digits text)).place =
        (r.after text).place := by
  -- the number held back is written before what follows it
  have number : ∀ {r : Reader}, r.Proper → r.digits ≠ [] → ∃ held,
      Reader.after ⟨.escape, []⟩ (shift first 1 r.digits.reverse) = ⟨.outside, held⟩ ∧
        Reader.passed ⟨.escape, []⟩ (shift first 1 r.digits.reverse) = [] ∧
          Reader.held ⟨.outside, held⟩ = r.held.flatMap (moveUp first) := by
    intro r proper filled
    obtain ⟨held, after, passed, value⟩ := reads_shift first
      (by simpa using filled : r.digits.reverse ≠ [])
      (fun d member => proper.digits d (List.mem_reverse.mp member))
      (by rw [List.head?_reverse]; exact proper.nonzero)
    refine ⟨held, after, passed, ?_⟩
    rw [value]
    simp [Reader.held, filled]
  induction text generalizing r with
  | nil =>
      by_cases filled : r.digits = []
      · simp [renumberFrom, restart, filled, Reader.read, Reader.held]
      · obtain ⟨held, after, passed, value⟩ := number proper filled
        have again : restart r = ⟨.escape, []⟩ := by simp [restart, filled]
        rw [again, renumberFrom, Reader.read, after, passed, value]
        exact ⟨rfl, (proper.outside filled).symm⟩
  | cons c rest ih =>
      cases taken : r.takes c with
      | true =>
          have reads : r.read (c :: rest) = (r.next c).read rest := by
            simp [Reader.read, Reader.passed_cons, taken]
          rw [renumberFrom_taken first 1 taken, reads, Reader.after_cons, ← restart_next taken]
          exact ih (proper.next c)
      | false =>
          have next : r.next c = ⟨r.place.next c, []⟩ := by simp [Reader.next, taken]
          have reads : r.read (c :: rest) = r.held ++ (r.next c).read rest := by
            simp [Reader.read, Reader.passed_cons, taken]
          obtain ⟨moved, place⟩ := ih (proper.next c)
          rw [reads, Reader.after_cons, List.flatMap_append, ← moved, ← place,
            renumberFrom_other first 1 taken, next]
          change _ = _ ++ Reader.read ⟨r.place.next c, []⟩ _ ∧
            _ = (Reader.after ⟨r.place.next c, []⟩ _).place
          by_cases filled : r.digits = []
          · have same : restart r = r := by simp [restart, filled]
            have nothing : r.held = [] := by simp [Reader.held, filled]
            rw [same, filled, nothing, List.reverse_nil, shift_nil, List.nil_append,
              List.flatMap_nil, List.nil_append, Reader.after_cons, next]
            refine ⟨?_, rfl⟩
            simp only [Reader.read, Reader.passed_cons, taken, next, nothing, Reader.after_cons]
            simp
          · obtain ⟨held, after, passed, value⟩ := number proper filled
            have noDigit : isDigit c = false := by simpa [Reader.takes, filled] using taken
            have again : restart r = ⟨.escape, []⟩ := by simp [restart, filled]
            have onward : Reader.next ⟨.outside, held⟩ c = ⟨r.place.next c, []⟩ := by
              rw [Reader.next_of_not_digit _ noDigit, proper.outside filled]
            rw [again, Reader.read_append, Reader.after_append, after, passed, List.nil_append,
              ← value, Reader.after_cons, onward]
            refine ⟨?_, rfl⟩
            simp only [Reader.read, Reader.passed_cons_of_not_digit _ noDigit, onward,
              Reader.after_cons, List.append_assoc]

theorem read_renumberFrom (first : Nat) {r : Reader} (proper : r.Proper) (text : Text)
    (small : ∀ n ∈ r.read text, n + 1 < Decimal.limit) :
    (restart r).read (renumberFrom first 1 r.place r.digits text) =
        (r.read text).map (bump first) ∧
      ((restart r).after (renumberFrom first 1 r.place r.digits text)).place =
        (r.after text).place := by
  obtain ⟨moved, place⟩ := reads_renumberFrom first proper text
  refine ⟨?_, place⟩
  rw [moved, List.map_eq_flatMap, List.flatMap_def, List.flatMap_def]
  exact congrArg List.flatten
    (List.map_congr_left fun n member => moveUp_of_small first (small n member))

theorem size_shift (first : Nat) {digits : Text} (all : ∀ d ∈ digits, isDigit d = true)
    (nonzero : digits.head? ≠ some '0')
    (small : digits ≠ [] → Decimal.value digits + 1 < Decimal.limit) :
    digits.size ≤ (shift first 1 digits).size := by
  by_cases empty : digits = []
  · simp [empty]
  · have bound := small empty
    obtain ⟨_, shiftedAll, moved⟩ := shift_spec first empty all nonzero bound
    rw [Text.size_digits all, Text.size_digits shiftedAll]
    unfold shift
    rw [Decimal.read?_of_lt empty all (by omega)]
    dsimp only
    split
    · rw [Nat.mod_eq_of_lt bound]
      exact Decimal.length_le_write empty nonzero all (by omega)
    · exact Nat.le_refl _

theorem size_held (first : Nat) {r : Reader} (proper : r.Proper)
    (small : ∀ n ∈ r.held, n + 1 < Decimal.limit) :
    r.digits.size ≤ (shift first 1 r.digits.reverse).size := by
  have all : ∀ d ∈ r.digits.reverse, isDigit d = true := fun d member =>
    proper.digits d (List.mem_reverse.mp member)
  have reversed : Text.size r.digits.reverse = r.digits.size := by
    rw [Text.size_digits proper.digits, Text.size_digits all, List.length_reverse]
  rw [← reversed]
  apply size_shift first all
  · rw [List.head?_reverse]
    exact proper.nonzero
  · intro nonempty
    apply small
    have filled : r.digits ≠ [] := by simpa using nonempty
    simp [Reader.held, filled]

theorem size_renumberFrom (first : Nat) {r : Reader} (proper : r.Proper) (text : Text)
    (small : ∀ n ∈ r.read text, n + 1 < Decimal.limit) :
    r.digits.size + text.size ≤ (renumberFrom first 1 r.place r.digits text).size := by
  induction text generalizing r with
  | nil =>
      rw [renumberFrom, Text.size_nil, Nat.add_zero]
      apply size_held first proper
      simpa [Reader.read] using small
  | cons c rest ih =>
      cases taken : r.takes c with
      | true =>
          have next : r.next c = ⟨.outside, c :: r.digits⟩ := by simp [Reader.next, taken]
          have further := ih (proper.next c) (by
            simpa [Reader.read, Reader.passed_cons, taken] using small)
          rw [renumberFrom_taken first 1 taken]
          rw [next] at further ⊢
          simp only [Text.size_cons] at further ⊢
          omega
      | false =>
          have next : r.next c = ⟨r.place.next c, []⟩ := by simp [Reader.next, taken]
          have parts : r.read (c :: rest) = r.held ++ (r.next c).read rest := by
            simp [Reader.read, Reader.passed_cons, taken]
          rw [parts] at small
          have further := ih (proper.next c) (fun n member =>
            small n (List.mem_append_right _ member))
          have digits := size_held first proper (fun n member =>
            small n (List.mem_append_left _ member))
          rw [renumberFrom_other first 1 taken]
          rw [next] at further ⊢
          simp only [Text.size_append, Text.size_cons, Text.size_nil] at further ⊢
          omega

end Backreference

end PatternDialect
