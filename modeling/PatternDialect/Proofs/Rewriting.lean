import PatternDialect.Proofs.Anchors
import PatternDialect.Proofs.Captures

/-! Sources rewritten from a cut on, and what becomes of their references. -/

namespace PatternDialect.Source

open Character Backreference

theorem Reader.Fits.settled_renumber {r : Reader} {text : Text} (fits : r.Fits text)
    (first amount : Nat) : r.settled.Fits (renumber first amount text) := by
  have settled := fits.settled
  cases place : r.place with
  | outside => simp [Fits, Reader.settled, place]
  | escape => simp [Fits, Reader.settled, place]
  | inClass =>
      have merged : merges text = true := by simpa [Fits, Reader.settled, place] using settled
      simpa [Fits, Reader.settled, place, renumber] using merges_renumber first amount merged
  | classEscape =>
      have merged : merges text = true := by simpa [Fits, Reader.settled, place] using settled
      simpa [Fits, Reader.settled, place, renumber] using merges_renumber first amount merged

theorem renumber_ne_nil (first amount : Nat) {text : Text} (nonempty : text ≠ []) :
    renumber first amount text ≠ [] := by
  cases text with
  | nil => exact absurd rfl nonempty
  | cons c rest =>
      rw [renumber, renumberFrom, if_neg (by simp)]
      simp

theorem reads_opened (front : Text) {w changed : Text} (filled : w ≠ [])
    (ordinary : ∀ c ∈ w, isOrdinary c = true) (nonempty : changed ≠ [])
    (fits : (Reader.start.after front).settled.Fits changed) :
    Reader.start.passed (front ++ (w ++ changed)) =
        references front ++ Reader.start.passed changed ∧
      Reader.start.after (front ++ (w ++ changed)) = Reader.start.after changed := by
  obtain ⟨opened, silent⟩ := (Reader.start.after front).after_ordinary filled ordinary
  obtain ⟨passed, after⟩ := fits.reads (Reader.settled_proper _) nonempty
  constructor
  · rw [Reader.passed_append, Reader.passed_append, opened, silent, passed, Reader.held_settled]
    simp [references, Reader.read]
  · rw [Reader.after_append, Reader.after_append, opened, after]

theorem references_append {front back : Text} (fits : (Reader.start.after front).Fits back)
    (nonempty : back ≠ []) :
    references (front ++ back) = references front ++ references back := by
  obtain ⟨passed, after⟩ := fits.reads (Reader.Proper.start.after front) nonempty
  rw [references, Reader.read_append, Reader.read, passed, after]
  simp [references, Reader.read]

namespace Severed

variable {front back : Text} {first : Nat}

theorem after_append (severed : Severed front back first) :
    Reader.start.after (front ++ back) = Reader.start.after back := by
  obtain ⟨_, after⟩ := severed.fits.reads (Reader.Proper.start.after front) severed.nonempty
  rw [Reader.after_append, after]

theorem references_wrap (severed : Severed front back first)
    (outside : Place.outside.after (front ++ back) = .outside) :
    references (front ++ (['(', '?', ':'] ++ (back ++ [')']))) = references (front ++ back) ∧
      Reader.start.after (front ++ (['(', '?', ':'] ++ (back ++ [')']))) = ⟨.outside, []⟩ := by
  have ordinary : ∀ c ∈ ['(', '?', ':'], isOrdinary c = true :=
    List.all_eq_true.mp (by decide)
  obtain ⟨passed, after⟩ :=
    reads_opened front (by decide) ordinary severed.nonempty severed.fits.settled
  have place : (Reader.start.after back).place = .outside := by
    rw [← severed.after_append, Reader.place_after Reader.Proper.start]
    exact outside
  have regrouped : front ++ (['(', '?', ':'] ++ (back ++ [')'])) =
      (front ++ (['(', '?', ':'] ++ back)) ++ [')'] := by simp
  have closed : (Reader.start.after back).after [')'] = ⟨.outside, []⟩ := by
    rw [Reader.after_cons, Reader.next_of_not_digit _ (by decide), place]
    rfl
  rw [regrouped]
  constructor
  · rw [references, Reader.read_append, passed, after, Reader.read, closed,
      Reader.passed_cons_of_not_digit _ (by decide),
      references_append severed.fits severed.nonempty]
    simp [references, Reader.read, Reader.held]
  · rw [Reader.after_append, after, closed]

/-- A part repeated possessively: its references move up, and one is added. -/
theorem references_possess (severed : Severed front back first) (positive : 0 < first)
    (outside : Place.outside.after (front ++ back) = .outside)
    (small : ∀ n ∈ references (front ++ back), n + 1 < Decimal.limit) {amount : Text}
    (filled : amount ≠ []) (flat : Place.isFlat amount = true)
    (apart : amount.head?.all (!isDigit ·) = true) :
    references (front ++ (Atom.atomicOpen ++
        (renumber first 1 back ++ (amount ++ Atom.atomicClose first)))) =
        (references (front ++ back)).map (bump first) ++ [first] ∧
      Reader.start.after (front ++ (Atom.atomicOpen ++
        (renumber first 1 back ++ (amount ++ Atom.atomicClose first)))) =
        ⟨.outside, (Decimal.write first).reverse⟩ := by
  have ordinary : ∀ c ∈ Atom.atomicOpen, isOrdinary c = true :=
    List.all_eq_true.mp (by decide)
  obtain ⟨passed, after⟩ := reads_opened front (by decide) ordinary
    (renumber_ne_nil first 1 severed.nonempty) (severed.fits.settled_renumber first 1)
  have backSmall : ∀ n ∈ Reader.start.read back, n + 1 < Decimal.limit := by
    intro n member
    apply small
    rw [references_append severed.fits severed.nonempty]
    exact List.mem_append_right _ member
  obtain ⟨moved, samePlace⟩ := read_renumberFrom first Reader.Proper.start back backSmall
  have place : (Reader.start.after (renumber first 1 back)).place = .outside := by
    have reached : (Reader.start.after back).place = .outside := by
      rw [← severed.after_append, Reader.place_after Reader.Proper.start]
      exact outside
    rw [← reached]
    exact samePlace
  -- the amount and the two parentheses complete the last reference of the part
  obtain ⟨closing, written⟩ : ∃ closing, closing = amount ++ [')', ')'] := ⟨_, rfl⟩
  have closingFlat : Place.isFlat closing = true := by
    rw [written]
    simp only [Place.isFlat, List.all_append, Bool.and_eq_true] at flat ⊢
    exact ⟨flat, by decide⟩
  have closingHead : closing.head?.all (!isDigit ·) = true := by
    rw [written]
    cases amount with
    | nil => exact absurd rfl filled
    | cons c rest => exact apart
  have closingFilled : closing ≠ [] := by simp [written]
  obtain ⟨closingPassed, closingAfter⟩ := Reader.reads_apart
    (Reader.Proper.start.after (renumber first 1 back)) closingFilled (fun _ => closingHead)
  obtain ⟨flatAfter, flatPassed, _⟩ := Place.reads_of_flat closingFlat []
  rw [place, flatPassed, List.append_nil] at closingPassed
  rw [place, flatAfter] at closingAfter
  obtain ⟨numberAfter, numberPassed⟩ :=
    Reader.after_reference (r := ⟨.outside, []⟩) rfl positive
  have regrouped : front ++ (Atom.atomicOpen ++
      (renumber first 1 back ++ (amount ++ Atom.atomicClose first))) =
      (front ++ (Atom.atomicOpen ++ renumber first 1 back)) ++ (closing ++ render first) := by
    simp [written, Atom.atomicClose]
  have unmoved : (references front).map (bump first) = references front := by
    calc (references front).map (bump first) = (references front).map id :=
          List.map_congr_left fun n member => bump_of_lt (severed.below n member)
      _ = references front := List.map_id _
  have whole : Reader.start.passed (renumber first 1 back) ++
      (Reader.start.after (renumber first 1 back)).held = (references back).map (bump first) :=
    moved
  rw [regrouped]
  constructor
  · rw [references, Reader.read_append, passed, after, Reader.read, Reader.passed_append,
      Reader.after_append, closingPassed, closingAfter, numberPassed, numberAfter,
      Reader.held_number _ (Decimal.write_ne_nil first), Decimal.value_write,
      references_append severed.fits severed.nonempty, List.map_append, unmoved, ← whole]
    simp [Reader.held]
  · rw [Reader.after_append, after, Reader.after_append, closingAfter, numberAfter]

end Severed

end PatternDialect.Source
