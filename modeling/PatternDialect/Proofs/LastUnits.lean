import Mathlib.Data.List.Basic
import PatternDialect.Proofs.Units

/-! The last unit of a source.

Main statement: where no span is recorded, the search at the end of a source finds the
unit that stands there exactly when the unit fits into the searched width, and no older
property escape is taken to reach to the end. -/

namespace PatternDialect.Atom

open Character

inductive Sequence : Text → Prop
  | single (c : Char) : Sequence [c]
  | control {c : Char} (letter : isLetter c = true) : Sequence ['c', c]
  | byte {digits : Text} (two : digits.length = 2) (hex : ∀ c ∈ digits, isHexDigit c = true) :
      Sequence ('x' :: digits)
  | codeUnit {digits : Text} (four : digits.length = 4) (hex : ∀ c ∈ digits, isHexDigit c = true) :
      Sequence ('u' :: digits)
  | codePoint {digits : Text} (filled : digits ≠ []) (hex : ∀ c ∈ digits, isHexDigit c = true) :
      Sequence ('u' :: '{' :: (digits ++ ['}']))
  | property {letter : Char} {name : Text} (marks : letter = 'p' ∨ letter = 'P')
      (free : ∀ c ∈ name, c ≠ '{' ∧ c ≠ '}' ∧ c ≠ '\\') :
      Sequence (letter :: '{' :: (name ++ ['}']))
  | number {digits : Text} (filled : digits ≠ []) (all : ∀ c ∈ digits, isDigit c = true) :
      Sequence digits

/-- What begins as a property and ends in a brace, but not in the first one. -/
inductive Overlong : Text → Prop
  | mk {letter : Char} {name : Text} (marks : letter = 'p' ∨ letter = 'P') (plain : '\\' ∉ name)
      (brace : '{' ∈ name ∨ '}' ∈ name) : Overlong (letter :: '{' :: (name ++ ['}']))

theorem isEscapeBody_property {letter : Char} {rest : Text} (marks : letter = 'p' ∨ letter = 'P')
    (filled : rest ≠ []) : isEscapeBody (letter :: rest) =
      (rest.head? == some '{' && rest.getLast? == some '}' && !rest.contains '\\') := by
  cases rest with
  | nil => exact absurd rfl filled
  | cons d more => rcases marks with rfl | rfl <;> rfl

theorem property_cases {letter : Char} {rest : Text} (marks : letter = 'p' ∨ letter = 'P')
    (closed : (rest.head? == some '{' && rest.getLast? == some '}' && !rest.contains '\\') = true) :
    Sequence (letter :: rest) ∨ Overlong (letter :: rest) := by
  simp only [Bool.and_eq_true, beq_iff_eq, Bool.not_eq_true', List.contains_eq_mem,
    decide_eq_false_iff_not] at closed
  obtain ⟨⟨first, last⟩, plain⟩ := closed
  cases rest with
  | nil => contradiction
  | cons d more =>
      obtain rfl : d = '{' := by simpa using first
      cases more using List.reverseRecOn with
      | nil => contradiction
      | append_singleton name e =>
          obtain rfl : e = '}' := by simpa [List.getLast?_cons] using last
          have inner : '\\' ∉ name := fun member => plain (by simp [member])
          by_cases brace : '{' ∈ name ∨ '}' ∈ name
          · exact Or.inr (.mk marks inner brace)
          · refine Or.inl (.property marks ?_)
            intro c member
            refine ⟨?_, ?_, ?_⟩
            · rintro rfl
              exact brace (Or.inl member)
            · rintro rfl
              exact brace (Or.inr member)
            · rintro rfl
              exact inner member

theorem isEscapeBody_iff {body : Text} :
    isEscapeBody body = true ↔ Sequence body ∨ Overlong body := by
  constructor
  · intro complete
    unfold isEscapeBody at complete
    split at complete
    · contradiction
    · exact Or.inl (.single _)
    · rename_i rest _
      simp only [Bool.and_eq_true, beq_iff_eq, List.all_eq_true] at complete
      obtain ⟨c, rfl⟩ := List.length_eq_one_iff.mp complete.1
      exact Or.inl (.control (complete.2 c (by simp)))
    · simp only [Bool.and_eq_true, beq_iff_eq, List.all_eq_true] at complete
      exact Or.inl (.byte complete.1 complete.2)
    · rename_i rest
      dsimp only at complete
      simp only [Bool.and_eq_true, beq_iff_eq, List.all_eq_true, Bool.not_eq_true'] at complete
      obtain ⟨⟨closing, filled⟩, hex⟩ := complete
      obtain ⟨digits, rfl⟩ := List.getLast?_eq_some_iff.mp closing
      rw [List.dropLast_concat] at hex filled
      exact Or.inl (.codePoint (by simpa using filled) hex)
    · simp only [Bool.and_eq_true, beq_iff_eq, List.all_eq_true] at complete
      exact Or.inl (.codeUnit complete.1 complete.2)
    · exact property_cases (Or.inl rfl) complete
    · exact property_cases (Or.inr rfl) complete
    · simp only [Bool.and_eq_true, List.all_eq_true] at complete
      refine Or.inl (.number (by simp) ?_)
      intro d member
      rcases List.mem_cons.mp member with rfl | member
      · exact complete.1
      · exact complete.2 d member
  · rintro (sequence | overlong)
    · cases sequence with
      | single c => rfl
      | control letter => simp [isEscapeBody, letter]
      | @byte digits two hex =>
          obtain ⟨a, b, rfl⟩ := List.length_eq_two.mp two
          simpa [isEscapeBody] using hex
      | @codeUnit digits four hex =>
          cases digits with
          | nil => contradiction
          | cons a digits =>
              obtain ⟨b, c, d, rfl⟩ := List.length_eq_three.mp (Nat.succ.inj four)
              have other : a ≠ '{' := by
                rintro rfl
                exact absurd (hex '{' (by simp)) (by decide)
              simpa [isEscapeBody, other] using hex
      | codePoint filled hex => simpa [isEscapeBody, filled] using hex
      | property marks free =>
          rw [isEscapeBody_property marks (by simp)]
          simpa [List.getLast?_cons] using fun member => (free '\\' member).2.2 rfl
      | number filled all => exact isEscapeBody_digits filled all
    · cases overlong with
      | mk marks plain _ =>
          rw [isEscapeBody_property marks (by simp)]
          simpa [List.getLast?_cons] using plain

theorem Sequence.plain {body : Text} (sequence : Sequence body) : body = ['\\'] ∨ '\\' ∉ body := by
  cases sequence with
  | single c =>
      by_cases slash : c = '\\'
      · exact Or.inl (by rw [slash])
      · exact Or.inr (by simpa using Ne.symm slash)
  | control letter => exact Or.inr (by simpa using (isLetter_ne_backslash letter).symm)
  | byte _ hex =>
      exact Or.inr (by simpa using fun member => isHexDigit_ne_backslash (hex _ member) rfl)
  | codeUnit _ hex =>
      exact Or.inr (by simpa using fun member => isHexDigit_ne_backslash (hex _ member) rfl)
  | codePoint _ hex =>
      exact Or.inr (by simpa using fun member => isHexDigit_ne_backslash (hex _ member) rfl)
  | property marks free =>
      right
      intro member
      simp only [List.mem_cons, List.mem_append, List.not_mem_nil, or_false] at member
      rcases member with rfl | brace | member | brace
      · exact absurd marks (by decide)
      · exact absurd brace (by decide)
      · exact (free '\\' member).2.2 rfl
      · exact absurd brace (by decide)
  | number _ all => exact Or.inr fun member => absurd (all _ member) (by decide)

theorem Overlong.plain {body : Text} (overlong : Overlong body) : '\\' ∉ body := by
  cases overlong with
  | mk marks plain _ =>
      intro member
      simp only [List.mem_cons, List.mem_append, List.not_mem_nil, or_false] at member
      rcases member with rfl | brace | member | brace
      · exact absurd marks (by decide)
      · exact absurd brace (by decide)
      · exact plain member
      · exact absurd brace (by decide)

theorem Sequence.not_overlong {body : Text} (sequence : Sequence body) : ¬ Overlong body := by
  intro overlong
  cases overlong with
  | @mk letter name marks _ brace =>
      generalize written : letter :: '{' :: (name ++ ['}']) = body at sequence
      cases sequence with
      | single c => simp at written
      | control _ => simp at written
      | byte two _ =>
          obtain ⟨rfl, _⟩ := List.cons.inj written
          exact absurd marks (by decide)
      | codeUnit _ _ =>
          obtain ⟨rfl, _⟩ := List.cons.inj written
          exact absurd marks (by decide)
      | codePoint _ _ =>
          obtain ⟨rfl, _⟩ := List.cons.inj written
          exact absurd marks (by decide)
      | property _ free =>
          obtain ⟨_, same⟩ : _ ∧ name = _ := by simpa using written
          rcases brace with member | member
          · exact (free _ (same ▸ member)).1 rfl
          · exact (free _ (same ▸ member)).2.1 rfl
      | number _ all =>
          have digit := all '{' (by simp [← written])
          exact absurd digit (by decide)

/-! ### The search -/

theorem trailingEscape?_fits {before passed unit : Text}
    (found : trailingEscape? before passed = some unit) : unit.size ≤ searchWidth := by
  induction before generalizing passed with
  | nil => contradiction
  | cons c before ih =>
      rw [trailingEscape?] at found
      split at found
      · contradiction
      · rename_i fits
        split at found
        · cases found
          exact Nat.not_lt.mp fits
        · exact ih found

theorem trailingEscape?_pass {skipped before passed : Text}
    (fits : Text.size (skipped.reverse ++ passed) ≤ searchWidth)
    (open_ : ∀ inner outer, skipped = inner ++ '\\' :: outer →
      isEscapeBody (inner.reverse ++ passed) = false) :
    trailingEscape? (skipped ++ before) passed =
      trailingEscape? before (skipped.reverse ++ passed) := by
  induction skipped generalizing passed with
  | nil => rfl
  | cons c skipped ih =>
      rw [List.reverse_cons, List.append_assoc, List.singleton_append] at fits ⊢
      have width : ¬ searchWidth < Text.size (c :: passed) := by
        rw [Text.size_append] at fits
        omega
      have incomplete : ¬ (c == '\\' && !Escape.pending (skipped ++ before) &&
          isEscapeBody passed) = true := by
        simp only [Bool.and_eq_true, beq_iff_eq]
        rintro ⟨⟨rfl, _⟩, complete⟩
        have missed := open_ [] skipped rfl
        rw [List.reverse_nil, List.nil_append, complete] at missed
        contradiction
      rw [List.cons_append, trailingEscape?, if_neg width, if_neg incomplete]
      apply ih fits
      rintro inner outer rfl
      have missed := open_ (c :: inner) outer rfl
      rwa [List.reverse_cons, List.append_assoc, List.singleton_append] at missed

theorem trailingEscape?_eq_none {source : Text}
    (long : ∀ front body, source = front ++ '\\' :: body → Escape.pending front.reverse = false →
      isEscapeBody body = true → searchWidth < Text.size ('\\' :: body)) :
    trailingEscape? source.reverse [] = none := by
  cases found : trailingEscape? source.reverse [] with
  | none => rfl
  | some unit =>
      have fits := trailingEscape?_fits found
      obtain ⟨front, body, parts, rfl, unescaped, complete⟩ := trailingEscape?_sound found
      rw [List.reverse_reverse, List.append_nil] at parts
      exact absurd (long front body parts unescaped complete) (Nat.not_lt.mpr fits)

theorem trailing?_eq_iff (front unit : Text) (groups : GroupTable) :
    trailing? (front ++ unit) none groups = some
        { start := front.size
          stop := (front ++ unit).size
          firstGroup := groups.size
          emulated := false } ↔
      trailingUnit? (front ++ unit) = some unit := by
  unfold trailing?
  rw [Option.filter_none]
  cases found : trailingUnit? (front ++ unit) with
  | none => simp
  | some last =>
      obtain ⟨before, parts, _⟩ := trailingUnit?_sound found
      simp only [Option.map_some, Option.some.injEq, Atom.mk.injEq, and_true]
      constructor
      · intro start
        have same : before.size = front.size := by
          rw [← start, parts, Text.size_append, Nat.add_sub_cancel]
        have left : Text.dropBytes before.size (before ++ last) = last :=
          Text.dropBytes_size_append ..
        rw [← left, ← parts, same, Text.dropBytes_size_append]
      · rintro rfl
        rw [Text.size_append, Nat.add_sub_cancel]

/-! ### Units -/

/-- Whether a property escape in the searched part is taken to reach to the end of the
source, past the brace that closes it. -/
def Overreads (source : Text) : Prop :=
  ∃ front body, source = front ++ '\\' :: body ∧ Escape.pending front.reverse = false ∧
    Overlong body ∧ Text.size ('\\' :: body) ≤ searchWidth

/-- A unit behind a text: a character that completes no escape sequence begun in the
text, or an escape sequence. -/
inductive Unit (front : Text) : Text → Prop
  | character {c : Char} (quantifiable : c ≠ '(' ∧ c ≠ '|') (slash : c ≠ '\\')
      (alone : ∀ outer inner, front = outer ++ '\\' :: inner →
        Escape.pending outer.reverse = false → ¬ Sequence (inner ++ [c])) : Unit front [c]
  | escape {body : Text} (unescaped : Escape.pending front.reverse = false)
      (sequence : Sequence body) : Unit front ('\\' :: body)

theorem trailingUnit?_escape {front body : Text} (unescaped : Escape.pending front.reverse = false)
    (sequence : Sequence body) :
    trailingUnit? (front ++ '\\' :: body) = some ('\\' :: body) ↔
      Text.size ('\\' :: body) ≤ searchWidth := by
  have complete := isEscapeBody_iff.mpr (Or.inl sequence)
  constructor
  · intro found
    unfold trailingUnit? at found
    split at found
    · rename_i escape searched
      cases found
      exact trailingEscape?_fits searched
    · split at found
      · split at found
        · contradiction
        · cases found
          exact absurd rfl (isEscapeBody_ne_nil complete)
      · contradiction
  · intro fits
    have width : '\\'.utf8Size = 1 := rfl
    have passes : trailingEscape? (body.reverse ++ '\\' :: front.reverse) [] =
        trailingEscape? ('\\' :: front.reverse) (body.reverse.reverse ++ []) := by
      apply trailingEscape?_pass
      · rw [Text.size_cons] at fits
        rw [List.reverse_reverse, List.append_nil]
        omega
      · intro inner outer parts
        rcases sequence.plain with rfl | plain
        · cases inner with
          | nil => rfl
          | cons d inner => simp at parts
        · exact absurd (List.mem_reverse.mp (parts ▸ by simp)) plain
    have reversed : (front ++ '\\' :: body).reverse = body.reverse ++ '\\' :: front.reverse := by
      simp
    rw [trailingUnit?, reversed, passes, List.reverse_reverse, List.append_nil, trailingEscape?,
      if_neg (Nat.not_lt.mpr fits)]
    simp [unescaped, complete]

theorem trailingUnit?_character {front : Text} {c : Char} (quantifiable : c ≠ '(' ∧ c ≠ '|')
    (alone : ∀ outer inner, front = outer ++ '\\' :: inner → Escape.pending outer.reverse = false →
      ¬ Sequence (inner ++ [c])) :
    trailingUnit? (front ++ [c]) = some [c] ↔ ¬ Overreads (front ++ [c]) := by
  constructor
  · rintro found ⟨outer, body, parts, unescaped, overlong, fits⟩
    have complete := isEscapeBody_iff.mpr (Or.inr overlong)
    have reversed : (front ++ [c]).reverse = body.reverse ++ '\\' :: outer.reverse := by
      rw [parts]
      simp
    have found' : (trailingEscape? (body.reverse ++ '\\' :: outer.reverse) []).isSome = true :=
      trailingEscape?_isSome unescaped (by simpa using complete) (by simpa using fits)
    obtain ⟨unit, searched⟩ := Option.isSome_iff_exists.mp found'
    obtain ⟨_, body', _, written, _, complete'⟩ := trailingEscape?_sound searched
    rw [trailingUnit?, reversed, searched, written] at found
    simp only [Option.some.injEq, List.cons.injEq] at found
    exact isEscapeBody_ne_nil complete' found.2
  · intro reads
    have missed : trailingEscape? (front ++ [c]).reverse [] = none := by
      apply trailingEscape?_eq_none
      intro outer body parts unescaped complete
      cases body using List.reverseRecOn with
      | nil => contradiction
      | append_singleton inner d =>
          rw [← List.cons_append, ← List.append_assoc] at parts
          obtain ⟨begun, last⟩ := List.append_inj' parts rfl
          obtain rfl : c = d := by simpa using last
          rcases isEscapeBody_iff.mp complete with sequence | overlong
          · exact absurd sequence (alone outer inner begun unescaped)
          · by_contra short
            exact reads ⟨outer, inner ++ [c], by simp [begun], unescaped, overlong,
              Nat.not_lt.mp short⟩
    rw [trailingUnit?, missed]
    simp [quantifiable.1, quantifiable.2]

theorem not_overreads_escape {front body : Text} (sequence : Sequence body) :
    ¬ Overreads (front ++ '\\' :: body) := by
  rintro ⟨outer, taken, parts, _, overlong, _⟩
  rcases List.append_eq_append_iff.mp parts with ⟨between, _, later⟩ | ⟨between, _, earlier⟩
  · cases between with
    | nil => exact sequence.not_overlong ((List.cons.inj later).2 ▸ overlong)
    | cons d between =>
        have inner := (List.cons.inj later).2
        rcases sequence.plain with rfl | plain
        · have empty : taken = [] := by cases between <;> simp_all
          rw [empty] at overlong
          contradiction
        · exact plain (inner ▸ by simp)
  · cases between with
    | nil => exact sequence.not_overlong ((List.cons.inj earlier).2 ▸ overlong)
    | cons d between => exact overlong.plain ((List.cons.inj earlier).2 ▸ by simp)

/-- The search at the end of a source finds the unit that stands there exactly when it fits
into the searched width and no older property escape is taken to reach to the end. -/
theorem trailing?_unit {front unit : Text} (stands : Unit front unit) (groups : GroupTable) :
    trailing? (front ++ unit) none groups = some
        { start := front.size
          stop := (front ++ unit).size
          firstGroup := groups.size
          emulated := false } ↔
      unit.size ≤ searchWidth ∧ ¬ Overreads (front ++ unit) := by
  rw [trailing?_eq_iff]
  cases stands with
  | @character c quantifiable _ alone =>
      rw [trailingUnit?_character quantifiable alone]
      have fits : Text.size [c] ≤ searchWidth := Nat.le_trans c.utf8Size_le_four (by decide)
      exact (and_iff_right fits).symm
  | escape unescaped sequence =>
      rw [trailingUnit?_escape unescaped sequence]
      exact (and_iff_left (not_overreads_escape sequence)).symm

theorem trailing?_unit_property :
    trailing? "a\\p{Greek}".toList none {} = some ⟨1, 10, 1, false⟩ ∧
      trailing? "a\\p{Script_Extensions=Greek}".toList none {} ≠ some ⟨1, 28, 1, false⟩ := by
  have greek : Sequence ('p' :: '{' :: ("Greek".toList ++ ['}'])) :=
    .property (Or.inl rfl) (by simp)
  have short : Unit ['a'] _ := .escape rfl greek
  have long : Unit ['a'] ('\\' :: 'p' :: '{' :: ("Script_Extensions=Greek".toList ++ ['}'])) :=
    .escape rfl (.property (Or.inl rfl) (by simp))
  constructor
  · exact (trailing?_unit short {}).mpr ⟨by decide, not_overreads_escape greek⟩
  · intro found
    exact absurd ((trailing?_unit long {}).mp found).1 (by decide)

end PatternDialect.Atom
