import PatternDialect.Proofs.Offsets

/-! Quantifiers as they are read.

Main statement: a quantifier is found exactly where the text goes on with a word of the
grammar of amounts.  It holds this word and the mark behind it, and covers both and no more. -/

namespace PatternDialect

open Character

namespace Repeat

/-- The grammar of amounts: a sign, or in braces a number, a lower bound, or two bounds. -/
inductive Word : Repeat → Prop where
  | star : Word .star
  | plus : Word .plus
  | optional : Word .optional
  | exactly {n : Text} (number : n.IsNumeral) : Word (.counted ('{' :: n ++ ['}']))
  | atLeast {n : Text} (number : n.IsNumeral) : Word (.counted ('{' :: n ++ [',', '}']))
  | between {n m : Text} (low : n.IsNumeral) (high : m.IsNumeral) :
      Word (.counted ('{' :: n ++ ',' :: m ++ ['}']))

theorem word_counted_iff {braces : Text} : Word (.counted braces) ↔ IsCount braces := by
  constructor
  · intro word
    cases word with
    | exactly number => exact ⟨_, number.1, number.2, Or.inl rfl⟩
    | atLeast number => exact ⟨_, number.1, number.2, Or.inr ⟨[], by simp, by simp⟩⟩
    | between low high => exact ⟨_, low.1, low.2, Or.inr ⟨_, high.2, rfl⟩⟩
  · rintro ⟨low, nonempty, digits, rfl | ⟨high, upper, rfl⟩⟩
    · exact .exactly ⟨nonempty, digits⟩
    · by_cases empty : high = []
      · subst empty
        simpa using Word.atLeast ⟨nonempty, digits⟩
      · exact .between ⟨nonempty, digits⟩ ⟨empty, upper⟩

end Repeat

theorem Quantifier.text_withMarks (amount : Repeat) (tail : Text) :
    (withMarks amount tail).text = amount.text ++
      (if (withMarks amount tail).lazy then ['?']
        else if (withMarks amount tail).possessive then ['+'] else []) := by
  unfold withMarks
  split <;> simp [Quantifier.text]

namespace Construct

theorem afterDollar?_ne_quantifier (rest : Text) (q : Quantifier) :
    afterDollar? rest ≠ some (.quantifier q) := by
  unfold afterDollar?
  split
  · simp
  · split <;> simp
  · simp

theorem afterBackslash?_ne_quantifier (rest : Text) (q : Quantifier) :
    afterBackslash? rest ≠ some (.quantifier q) := by
  unfold afterBackslash?
  split
  · simp
  · split
    · simp
    · split <;> simp
  · simp

theorem afterBrace?_eq_quantifier_iff (rest : Text) (q : Quantifier) :
    afterBrace? rest = some (.quantifier q) ↔
      ∃ braces, Repeat.IsCount braces ∧ ∃ tail, '{' :: rest = braces ++ tail ∧
        q = .withMarks (.counted braces) tail := by
  unfold afterBrace?
  constructor
  · intro found
    obtain ⟨braces, read, same⟩ := Option.map_eq_some_iff.mp found
    obtain ⟨count, tail, rfl⟩ := (Repeat.finds_braces _ _).mp read
    obtain ⟨inner, rfl, _⟩ := Repeat.inner_of_isCount count
    refine ⟨_, count, tail, rfl, ?_⟩
    simpa using same.symm
  · rintro ⟨braces, count, tail, parts, rfl⟩
    obtain ⟨inner, rfl, _⟩ := Repeat.inner_of_isCount count
    obtain rfl : rest = inner ++ tail := by simpa using parts
    have read : Repeat.braces? (inner ++ tail) = some ('{' :: inner) :=
      (Repeat.finds_braces _ _).mpr ⟨count, List.prefix_append _ _⟩
    simp [read]

theorem plain?_eq_quantifier_iff (before text : Text) (q : Quantifier) :
    plain? before text = some (.quantifier q) ↔
      q.amount.Word ∧ ∃ tail, text = q.amount.text ++ tail ∧ q = .withMarks q.amount tail := by
  have amount : ∀ (r : Repeat) (tail : Text), (Quantifier.withMarks r tail).amount = r :=
    fun r tail => (Quantifier.withMarks_spec r tail).1
  constructor
  · intro found
    cases text with
    | nil => contradiction
    | cons c rest =>
        by_cases blank : isBlank c = true
        · simp [plain?_blank _ _ blank] at found
        by_cases head : c ∈ heads
        · simp only [heads, List.mem_cons, List.not_mem_nil, or_false] at head
          have sign : ∀ r : Repeat, r.Word → c :: rest = r.text ++ rest →
              some (quantifier (.withMarks r rest)) = some (quantifier q) →
              q.amount.Word ∧ ∃ tail, c :: rest = q.amount.text ++ tail ∧
                q = .withMarks q.amount tail := by
            intro r word written same
            obtain rfl : Quantifier.withMarks r rest = q := by simpa using same
            rw [amount]
            exact ⟨word, rest, written, rfl⟩
          rcases head with rfl | rfl | rfl | rfl | rfl | rfl | rfl | rfl | rfl | rfl | rfl | rfl
          · simp [plain?_openClass] at found
          · simp [plain?_closeClass] at found
          · simp [plain?_dot] at found
          · exact sign .star .star rfl found
          · exact sign .plus .plus rfl found
          · exact sign .optional .optional rfl found
          · rw [plain?_brace] at found
            obtain ⟨braces, count, tail, written, rfl⟩ :=
              (afterBrace?_eq_quantifier_iff _ _).mp found
            rw [amount]
            exact ⟨Repeat.word_counted_iff.mpr count, tail, written, rfl⟩
          · exact absurd found (afterDollar?_ne_quantifier rest q)
          · simp [plain?_openGroup] at found
          · simp [plain?_closeGroup] at found
          · simp [plain?_comment] at found
          · rw [plain?_backslash] at found
            split at found
            · contradiction
            · exact absurd found (afterBackslash?_ne_quantifier rest q)
        · simp [plain?_other _ _ (by simpa using blank) head] at found
  · rintro ⟨word, tail, rfl, marked⟩
    generalize q.amount = r at word marked ⊢
    subst marked
    cases r with
    | star => rfl
    | plus => rfl
    | optional => rfl
    | counted braces =>
        have count := Repeat.word_counted_iff.mp word
        obtain ⟨inner, rfl, _⟩ := Repeat.inner_of_isCount count
        change plain? before ('{' :: (inner ++ tail)) = _
        rw [plain?_brace]
        exact (afterBrace?_eq_quantifier_iff _ _).mpr ⟨_, count, tail, rfl, rfl⟩

theorem slice_quantifier {text before after tail : Text} {offset : Nat} {q : Quantifier}
    (position : text.splitAt? offset = some (before, after)) (written : after = q.text ++ tail) :
    text.slice offset (offset + (quantifier q).size) = q.text := by
  obtain ⟨rfl, rfl⟩ := Text.splitAt?_eq_some_iff.mp position
  rw [Text.slice, Nat.add_sub_cancel_left, Text.dropBytes_size_append, written, size,
    ← size_quantifier, Text.takeBytes_size_append]

/-- At a character that is not the delimiter a quantifier is found exactly if the text goes on
with an amount of the grammar.  The quantifier then has this amount, it is lazy or possessive
by the next character, and its part of the text is the amount with the mark. -/
theorem at?_quantifier {delimiter : Option Char} {text before rest : Text} {offset : Nat} {c : Char}
    (position : text.splitAt? offset = some (before, c :: rest)) (other : delimiter ≠ some c) :
    ((∃ q, at? delimiter before.reverse (c :: rest) = some (.quantifier q)) ↔
      ∃ amount : Repeat, amount.Word ∧ amount.text <+: c :: rest) ∧
    ∀ (amount : Repeat) (tail : Text), amount.Word → c :: rest = amount.text ++ tail →
      ∃ q, at? delimiter before.reverse (c :: rest) = some (.quantifier q) ∧
        q.amount = amount ∧
        (q.lazy = true ↔ tail.head? = some '?') ∧
        (q.possessive = true ↔ tail.head? = some '+') ∧
        text.slice offset (offset + (quantifier q).size) =
          amount.text ++ (if q.lazy then ['?'] else if q.possessive then ['+'] else []) := by
  rw [at?_of_ne other]
  constructor
  · constructor
    · rintro ⟨q, found⟩
      obtain ⟨word, tail, written, _⟩ := (plain?_eq_quantifier_iff _ _ _).mp found
      exact ⟨q.amount, word, tail, written.symm⟩
    · rintro ⟨amount, word, tail, written⟩
      refine ⟨.withMarks amount tail, (plain?_eq_quantifier_iff _ _ _).mpr ?_⟩
      rw [(Quantifier.withMarks_spec amount tail).1]
      exact ⟨word, tail, written.symm, rfl⟩
  · intro amount tail word written
    obtain ⟨same, left, marks⟩ := Quantifier.withMarks_spec amount tail
    have covered := slice_quantifier position (written.trans marks)
    refine ⟨.withMarks amount tail, ?_, same, ?_, ?_, ?_⟩
    · apply (plain?_eq_quantifier_iff _ _ _).mpr
      rw [same]
      exact ⟨word, tail, written, rfl⟩
    · simp [Quantifier.withMarks_eq]
    · simp [Quantifier.withMarks_eq]
    · rw [covered, Quantifier.text_withMarks]

theorem at?_quantifier_braces :
    Text.splitAt? 2 "é{10,}?+".toList = some (['é'], "{10,}?+".toList) ∧
      some '?' ≠ some '{' ∧
        ∃ q, at? (some '?') ['é'] "{10,}?+".toList = some (.quantifier q) ∧
          q.amount = .counted "{10,}".toList ∧ q.lazy = true ∧
            Text.slice 2 (2 + (quantifier q).size) "é{10,}?+".toList = "{10,}?".toList := by
  have position : Text.splitAt? 2 "é{10,}?+".toList = some (['é'], "{10,}?+".toList) := by decide
  have other : some '?' ≠ some '{' := by decide
  have word : (Repeat.counted "{10,}".toList).Word :=
    .atLeast (n := ['1', '0']) ⟨by simp, List.all_eq_true.mp (by decide)⟩
  obtain ⟨q, found, amount, lazy, _, covered⟩ :=
    (at?_quantifier position other).2 _ ['?', '+'] word rfl
  have marked : q.lazy = true := lazy.mpr rfl
  rw [if_pos marked] at covered
  exact ⟨position, other, q, found, amount, marked, covered⟩

end Construct

end PatternDialect
