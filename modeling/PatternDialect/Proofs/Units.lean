import PatternDialect.Proofs.Cut
import PatternDialect.Atom

/-! The unit that a possessive quantifier finds at the end of a source. -/

namespace PatternDialect.Atom

open Character Source

theorem trailingEscape?_sound {before passed unit : Text}
    (found : trailingEscape? before passed = some unit) :
    ∃ front body, before.reverse ++ passed = front ++ unit ∧ unit = '\\' :: body ∧
      Escape.pending front.reverse = false ∧ isEscapeBody body = true := by
  induction before generalizing passed with
  | nil => contradiction
  | cons c before ih =>
      rw [trailingEscape?] at found
      split at found
      · contradiction
      split at found
      · rename_i complete
        simp only [Bool.and_eq_true, beq_iff_eq, Bool.not_eq_true'] at complete
        obtain ⟨⟨rfl, unescaped⟩, complete⟩ := complete
        cases found
        refine ⟨before.reverse, passed, by simp, rfl, ?_, complete⟩
        rw [List.reverse_reverse]
        exact unescaped
      · obtain ⟨front, body, parts, rest⟩ := ih found
        refine ⟨front, body, ?_, rest⟩
        rw [← parts]
        simp

theorem trailingEscape?_isSome {reversed front passed : Text}
    (unescaped : Escape.pending front = false)
    (complete : isEscapeBody (reversed.reverse ++ passed) = true)
    (short : Text.size ('\\' :: (reversed.reverse ++ passed)) ≤ searchWidth) :
    (trailingEscape? (reversed ++ '\\' :: front) passed).isSome = true := by
  induction reversed generalizing passed with
  | nil =>
      have fits : ¬ searchWidth < Text.size ('\\' :: passed) := Nat.not_lt.mpr short
      rw [List.nil_append, trailingEscape?, if_neg fits]
      rw [List.reverse_nil, List.nil_append] at complete
      simp [unescaped, complete]
  | cons d reversed ih =>
      rw [List.reverse_cons, List.append_assoc, List.singleton_append] at complete short
      have fits : ¬ searchWidth < Text.size (d :: passed) := by
        simp only [Text.size_cons, Text.size_append] at short ⊢
        omega
      rw [List.cons_append, trailingEscape?, if_neg fits]
      split
      · rfl
      · exact ih complete short

/-- A unit stands at the end of the source: an escape sequence, or a single
character where no escape sequence is found. -/
theorem trailingUnit?_sound {source unit : Text} (found : trailingUnit? source = some unit) :
    ∃ front, source = front ++ unit ∧
      ((∃ body, unit = '\\' :: body ∧ Escape.pending front.reverse = false ∧
          isEscapeBody body = true) ∨
        ∃ c, unit = [c] ∧ trailingEscape? source.reverse [] = none ∧ c ≠ '(' ∧ c ≠ '|') := by
  unfold trailingUnit? at found
  cases escape : trailingEscape? source.reverse [] with
  | some sequence =>
      rw [escape] at found
      cases found
      obtain ⟨front, body, parts, rest⟩ := trailingEscape?_sound escape
      rw [List.reverse_reverse, List.append_nil] at parts
      exact ⟨front, parts, Or.inl ⟨body, rest⟩⟩
  | none =>
      rw [escape] at found
      cases source using List.reverseRecOn with
      | nil => contradiction
      | append_singleton front c =>
          simp only [List.getLast?_append, List.getLast?_singleton, Option.some_or] at found
          split at found
          · contradiction
          · rename_i other
            cases found
            simp only [Bool.or_eq_true, beq_iff_eq, not_or] at other
            exact ⟨front, rfl, Or.inr ⟨c, rfl, rfl, other.1, other.2⟩⟩

theorem isEscapeBody_ne_nil {body : Text} (complete : isEscapeBody body = true) : body ≠ [] := by
  rintro rfl
  contradiction

theorem isEscapeBody_digits {text : Text} (nonempty : text ≠ [])
    (digits : ∀ c ∈ text, isDigit c = true) : isEscapeBody text = true := by
  have other : ∀ c ∈ text, c ≠ 'c' ∧ c ≠ 'x' ∧ c ≠ 'u' ∧ c ≠ 'p' ∧ c ≠ 'P' := by
    intro c member
    have digit := digits c member
    refine ⟨?_, ?_, ?_, ?_, ?_⟩ <;> rintro rfl <;> revert digit <;> decide
  match text with
  | [] => exact absurd rfl nonempty
  | [c] => rfl
  | c :: d :: rest =>
      obtain ⟨notC, notX, notU, notP, notUpper⟩ := other c (by simp)
      rw [isEscapeBody]
      · simp only [Bool.and_eq_true, List.all_eq_true]
        exact ⟨digits c (by simp), fun e member => digits e (by simp [member])⟩
      all_goals simp_all

theorem isHexDigit_ne_backslash {c : Char} (hex : isHexDigit c = true) : c ≠ '\\' := by
  rintro rfl
  revert hex
  decide

theorem isLetter_ne_backslash {c : Char} (letter : isLetter c = true) : c ≠ '\\' := by
  rintro rfl
  revert letter
  decide

theorem isEscapeBody_spec {c d : Char} {rest : Text}
    (complete : isEscapeBody (c :: d :: rest) = true) :
    (isOrdinary c = true ∨ ∀ e ∈ c :: d :: rest, isDigit e = true) ∧
      ∀ e ∈ d :: rest, e ≠ '\\' := by
  unfold isEscapeBody at complete
  split at complete
  · contradiction
  · simp_all
  · rename_i body equality
    simp only [Bool.and_eq_true, List.all_eq_true] at complete
    obtain ⟨rfl, rfl⟩ := List.cons.inj equality
    exact ⟨Or.inl (by decide), fun e member => isLetter_ne_backslash (complete.2 e member)⟩
  · rename_i body equality
    simp only [Bool.and_eq_true, List.all_eq_true] at complete
    obtain ⟨rfl, rfl⟩ := List.cons.inj equality
    exact ⟨Or.inl (by decide), fun e member => isHexDigit_ne_backslash (complete.2 e member)⟩
  · rename_i body equality
    dsimp only at complete
    simp only [Bool.and_eq_true, List.all_eq_true, beq_iff_eq] at complete
    obtain ⟨⟨closing, _⟩, hex⟩ := complete
    obtain ⟨rfl, rfl, rfl⟩ : c = 'u' ∧ d = '{' ∧ rest = body := by simpa using equality
    obtain ⟨digits, rfl⟩ := List.getLast?_eq_some_iff.mp closing
    rw [List.dropLast_concat] at hex
    refine ⟨Or.inl (by decide), ?_⟩
    intro e member
    simp only [List.mem_cons, List.mem_append, List.not_mem_nil, or_false] at member
    rcases member with rfl | member | rfl
    · decide
    · exact isHexDigit_ne_backslash (hex e member)
    · decide
  · rename_i body _ equality
    simp only [Bool.and_eq_true, List.all_eq_true] at complete
    obtain ⟨rfl, rfl⟩ := List.cons.inj equality
    exact ⟨Or.inl (by decide), fun e member => isHexDigit_ne_backslash (complete.2 e member)⟩
  · rename_i body equality
    simp only [Bool.and_eq_true, Bool.not_eq_true'] at complete
    obtain ⟨rfl, rfl⟩ := List.cons.inj equality
    refine ⟨Or.inl (by decide), ?_⟩
    rintro e member rfl
    exact absurd (List.contains_iff_mem.mpr member) (by rw [complete.2]; decide)
  · rename_i body equality
    simp only [Bool.and_eq_true, Bool.not_eq_true'] at complete
    obtain ⟨rfl, rfl⟩ := List.cons.inj equality
    refine ⟨Or.inl (by decide), ?_⟩
    rintro e member rfl
    exact absurd (List.contains_iff_mem.mpr member) (by rw [complete.2]; decide)
  · rename_i first body _ _ _ _ _ _ _ equality
    simp only [Bool.and_eq_true, List.all_eq_true] at complete
    obtain ⟨rfl, rfl⟩ := List.cons.inj equality
    have all : ∀ e ∈ c :: d :: rest, isDigit e = true := by
      intro e member
      rcases List.mem_cons.mp member with rfl | member
      · exact complete.1
      · exact complete.2 e member
    exact ⟨Or.inr all, fun e member => Reader.isDigit_ne_backslash (all e (by simp [member]))⟩

end PatternDialect.Atom
