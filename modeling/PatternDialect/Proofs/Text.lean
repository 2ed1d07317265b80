import Mathlib.Data.List.Induction
import PatternDialect.Text.Decimal
import PatternDialect.Text.Escape

/-! Texts cut at byte offsets, classes of characters that are apart, runs of backslashes, and
the digits of numbers. -/

namespace PatternDialect

namespace Text

theorem size_pos {text : Text} (nonempty : text ≠ []) : 0 < text.size := by
  cases text with
  | nil => exact absurd rfl nonempty
  | cons c rest =>
      have positive := c.utf8Size_pos
      simp only [size_cons]
      omega

@[simp] theorem size_reverse (text : Text) : size text.reverse = size text := by
  induction text with
  | nil => rfl
  | cons c rest ih => simp [ih, Nat.add_comm]

@[simp] theorem takeBytes_zero (text : Text) : takeBytes 0 text = [] := by
  cases text with
  | nil => rfl
  | cons c rest => simp [takeBytes, Nat.not_le.mpr c.utf8Size_pos]

@[simp] theorem dropBytes_zero (text : Text) : dropBytes 0 text = text := by
  cases text with
  | nil => rfl
  | cons c rest => simp [dropBytes, Nat.not_le.mpr c.utf8Size_pos]

theorem splitAt?_size_append (first second : Text) :
    splitAt? first.size (first ++ second) = some (first, second) := by
  induction first with
  | nil => cases second <;> rfl
  | cons c rest ih =>
      have positive := c.utf8Size_pos
      obtain ⟨n, whole⟩ : ∃ n, c.utf8Size + size rest = n + 1 :=
        ⟨c.utf8Size + size rest - 1, by omega⟩
      have behind : n + 1 - c.utf8Size = size rest := by omega
      rw [List.cons_append, size_cons, whole, splitAt?, if_pos (by omega), behind, ih]
      rfl

theorem splitAt?_eq_some_iff {offset : Nat} {text before after : Text} :
    splitAt? offset text = some (before, after) ↔ text = before ++ after ∧
      before.size = offset := by
  constructor
  · intro cut
    fun_induction splitAt? offset text generalizing before with
    | case1 text =>
        obtain ⟨rfl, rfl⟩ : [] = before ∧ text = after := by simpa using cut
        exact ⟨rfl, rfl⟩
    | case2 n => contradiction
    | case3 n c rest fits ih =>
        obtain ⟨⟨front, back⟩, inner, same⟩ := Option.map_eq_some_iff.mp cut
        obtain ⟨rfl, rfl⟩ : c :: front = before ∧ back = after := by simpa using same
        obtain ⟨rfl, size⟩ := ih inner
        refine ⟨rfl, ?_⟩
        rw [size_cons]
        omega
    | case4 n c rest wide => contradiction
  · rintro ⟨rfl, rfl⟩
    exact splitAt?_size_append before after

theorem isBoundary_iff {text : Text} {offset : Nat} :
    text.isBoundary offset = true ↔ ∃ before after, text = before ++ after ∧
      before.size = offset := by
  simp only [isBoundary, Option.isSome_iff_exists, Prod.exists, splitAt?_eq_some_iff]

theorem exists_of_isBoundary {before after : Text} {offset : Nat}
    (between : (before ++ after).isBoundary offset = true) (behind : before.size ≤ offset) :
    ∃ skipped rest, after = skipped ++ rest ∧ (before ++ skipped).size = offset := by
  obtain ⟨front, rest, parts, size⟩ := isBoundary_iff.mp between
  rcases List.append_eq_append_iff.mp parts with ⟨skipped, rfl, same⟩ | ⟨more, rfl, same⟩
  · exact ⟨skipped, rest, same, size⟩
  · cases more with
    | nil => exact ⟨[], after, rfl, by simpa using size⟩
    | cons c more =>
        have positive := size_pos (List.cons_ne_nil c more)
        rw [size_append] at behind
        omega

theorem takeBytes_append {offset : Nat} {first : Text} (inside : offset ≤ first.size)
    (second : Text) : takeBytes offset (first ++ second) = takeBytes offset first := by
  induction first generalizing offset with
  | nil =>
      have : offset = 0 := by simpa using inside
      subst this
      simp
  | cons c rest ih =>
      simp only [size_cons] at inside
      simp only [List.cons_append, takeBytes]
      split
      · rw [ih (by omega)]
      · rfl

theorem dropBytes_append {offset : Nat} {first : Text} (inside : offset ≤ first.size)
    (second : Text) :
    dropBytes offset (first ++ second) = dropBytes offset first ++ second := by
  induction first generalizing offset with
  | nil =>
      have : offset = 0 := by simpa using inside
      subst this
      simp
  | cons c rest ih =>
      simp only [size_cons] at inside
      simp only [List.cons_append, dropBytes]
      split
      · rw [ih (by omega)]
      · rfl

theorem takeBytes_add (first second : Text) (offset : Nat) :
    takeBytes (first.size + offset) (first ++ second) =
      first ++ takeBytes offset second := by
  induction first with
  | nil => simp
  | cons c rest ih =>
      have inside : c.utf8Size ≤ c.utf8Size + size rest + offset := by omega
      have left : c.utf8Size + size rest + offset - c.utf8Size = size rest + offset := by omega
      simp only [size_cons, List.cons_append, takeBytes, if_pos inside, left, ih]

theorem dropBytes_add (first second : Text) (offset : Nat) :
    dropBytes (first.size + offset) (first ++ second) = dropBytes offset second := by
  induction first with
  | nil => simp
  | cons c rest ih =>
      have inside : c.utf8Size ≤ c.utf8Size + size rest + offset := by omega
      have left : c.utf8Size + size rest + offset - c.utf8Size = size rest + offset := by omega
      simp only [size_cons, List.cons_append, dropBytes, if_pos inside, left, ih]

theorem size_takeBytes_le (offset : Nat) (text : Text) :
    (takeBytes offset text).size ≤ offset := by
  induction text generalizing offset with
  | nil => simp [takeBytes]
  | cons c rest ih =>
      simp only [takeBytes]
      split
      · have := ih (offset - c.utf8Size)
        simp only [size_cons]
        omega
      · simp

theorem dropBytes_ne_nil {offset : Nat} {text : Text} (inside : offset < text.size) :
    dropBytes offset text ≠ [] := by
  intro empty
  have parts := takeBytes_append_dropBytes offset text
  rw [empty, List.append_nil] at parts
  have := size_takeBytes_le offset text
  rw [parts] at this
  omega

theorem size_digits {text : Text} (digits : ∀ c ∈ text, Character.isDigit c = true) :
    text.size = text.length := by
  induction text with
  | nil => rfl
  | cons c rest ih =>
      have digit := digits c (by simp)
      have one : c.utf8Size = 1 := by
        simp only [Character.isDigit, Bool.and_eq_true, decide_eq_true_eq] at digit
        apply Char.utf8Size_eq_one_iff.mpr
        exact UInt32.le_trans digit.2 (by decide)
      rw [size_cons, ih fun d member => digits d (by simp [member]), one, List.length_cons]
      omega

def IsNumeral (text : Text) : Prop := text ≠ [] ∧ ∀ c ∈ text, Character.isDigit c = true

end Text

namespace Character

theorem isDigit_of_isBlank {c : Char} (blank : isBlank c = true) :
    isDigit c = false := by
  cases digit : isDigit c with
  | false => rfl
  | true =>
      simp only [isDigit, Bool.and_eq_true, decide_eq_true_eq] at digit
      have low : '0'.toNat ≤ c.toNat := digit.1
      have high : c.toNat ≤ '9'.toNat := digit.2
      have range : ¬ '\u2000' ≤ c := fun above => by
        have bound : '\u2000'.toNat ≤ c.toNat := above
        have apart : '9'.toNat < '\u2000'.toNat := by decide
        omega
      simp only [isBlank, range, decide_false, Bool.false_and, Bool.or_false,
        Bool.or_eq_true, beq_iff_eq] at blank
      rcases blank with (((((((((((((rfl | rfl) | rfl) | rfl) | rfl) | rfl) | rfl) | rfl) | rfl) |
        rfl) | rfl) | rfl) | rfl) | rfl) <;> revert low high <;> decide

theorem isDigit_of_isLetter {c : Char} (letter : isLetter c = true) : isDigit c = false := by
  rw [Bool.eq_false_iff]
  simp only [isLetter, isDigit, ne_eq, Bool.or_eq_true, Bool.and_eq_true,
    decide_eq_true_eq, Char.le_def, UInt32.le_iff_toNat_le] at letter ⊢
  simp at *
  omega

theorem isIdentifier_spec {word : Text} (identifier : isIdentifier word = true) :
    ∃ c rest, word = c :: rest ∧ isDigit c = false ∧ ∀ d ∈ word, isWord d = true := by
  cases word with
  | nil => contradiction
  | cons c rest =>
      simp only [isIdentifier, Bool.and_eq_true, Bool.or_eq_true, beq_iff_eq] at identifier
      refine ⟨c, rest, rfl, ?_, ?_⟩
      · rcases identifier.1 with letter | rfl
        · exact isDigit_of_isLetter letter
        · decide
      · intro d member
        rcases List.mem_cons.mp member with rfl | member
        · rcases identifier.1 with letter | rfl
          · simp [isWord, letter]
          · decide
        · exact List.all_eq_true.mp identifier.2 d member

end Character

namespace Escape

@[simp] theorem pending_nil : pending [] = false := rfl

theorem odd_takeWhile_cons {α : Type} (p : α → Bool) (x : α) (xs : List α) :
    (((x :: xs).takeWhile p).length % 2 == 1) = (p x && !((xs.takeWhile p).length % 2 == 1)) := by
  cases holds : p x with
  | false => simp [holds]
  | true =>
      rw [List.takeWhile_cons_of_pos holds, List.length_cons, Bool.true_and]
      rcases Nat.mod_two_eq_zero_or_one (xs.takeWhile p).length with even | odd
      · simp [Nat.add_mod, even]
      · simp [Nat.add_mod, odd]

theorem pending_cons (c : Char) (before : Text) :
    pending (c :: before) = (c == '\\' && !pending before) :=
  odd_takeWhile_cons (· == '\\') c before

theorem pending_append {first second : Text} (same : pending first = pending second)
    (text : Text) : pending (text ++ first) = pending (text ++ second) := by
  induction text with
  | nil => exact same
  | cons c rest ih => rw [List.cons_append, List.cons_append, pending_cons, pending_cons, ih]

end Escape

namespace Decimal

theorem write_ne_nil (n : Nat) : write n ≠ [] := Nat.toDigits_ne_nil

theorem isDigit_of_mem_write {n : Nat} {c : Char} (member : c ∈ write n) :
    Character.isDigit c = true := by
  have digit : c.isDigit = true :=
    Nat.isDigit_of_mem_toDigits (by decide) (by decide) member
  simp only [Char.isDigit, Bool.and_eq_true, decide_eq_true_eq] at digit
  simp only [Character.isDigit, Bool.and_eq_true, decide_eq_true_eq, Char.le_def]
  exact digit

theorem all_isDigit_write (n : Nat) : (write n).all Character.isDigit = true :=
  List.all_eq_true.mpr fun _ member => isDigit_of_mem_write member

@[simp] theorem value_write (n : Nat) : value (write n) = n :=
  Nat.ofDigitChars_ten_toDigits

theorem read?_of_lt {digits : Text} (nonempty : digits ≠ [])
    (all : ∀ c ∈ digits, Character.isDigit c = true) (small : value digits < limit) :
    read? digits = some (value digits) := by
  have allDigits : digits.all Character.isDigit = true := List.all_eq_true.mpr all
  simp [read?, nonempty, allDigits, small]

theorem read?_write {n : Nat} (small : n < limit) : read? (write n) = some n := by
  rw [read?_of_lt (write_ne_nil n) (fun _ member => isDigit_of_mem_write member)
    (by simpa using small), value_write]

theorem value_concat (front : Text) (c : Char) :
    value (front ++ [c]) = 10 * value front + digitValue c := by
  simp [value, List.foldl_append]

theorem le_value {digits : Text} (nonempty : digits ≠ []) (nonzero : digits.head? ≠ some '0')
    (all : ∀ c ∈ digits, Character.isDigit c = true) :
    Nat.pow 10 (digits.length - 1) ≤ value digits := by
  induction digits using List.reverseRecOn with
  | nil => exact absurd rfl nonempty
  | append_singleton front c ih =>
      rw [value_concat]
      cases front with
      | nil =>
          have digit := all c (by simp)
          have other : c ≠ '0' := by simpa using nonzero
          have positive : 1 ≤ digitValue c := by
            simp only [Character.isDigit, Bool.and_eq_true, decide_eq_true_eq] at digit
            have low : '0'.toNat ≤ c.toNat := digit.1
            have apart : c.toNat ≠ '0'.toNat := fun equality => other (Char.toNat_inj.mp equality)
            unfold digitValue
            omega
          simpa [value] using positive
      | cons d rest =>
          have lower := ih (by simp) (by simpa using nonzero)
            (fun e member => all e (by simp only [List.mem_append]; exact Or.inl member))
          simp only [List.length_append, List.length_cons, List.length_nil] at lower ⊢
          have power : Nat.pow 10 (rest.length + 1) = 10 * Nat.pow 10 rest.length :=
            Nat.mul_comm (Nat.pow 10 rest.length) 10
          simp only [Nat.zero_add, Nat.add_sub_cancel] at lower ⊢
          rw [power]
          omega

theorem value_pos {digits : Text} (nonempty : digits ≠ []) (nonzero : digits.head? ≠ some '0')
    (all : ∀ c ∈ digits, Character.isDigit c = true) : 0 < value digits :=
  Nat.lt_of_lt_of_le (Nat.pow_pos (by decide)) (le_value nonempty nonzero all)

theorem length_write_le {n k : Nat} (positive : 0 < k) (small : n < Nat.pow 10 k) :
    (write n).length ≤ k :=
  (Nat.length_toDigits_le_iff (by decide) positive).mpr small

theorem length_le_write {digits : Text} (nonempty : digits ≠ [])
    (nonzero : digits.head? ≠ some '0') (all : ∀ c ∈ digits, Character.isDigit c = true) {n : Nat}
    (above : value digits ≤ n) : digits.length ≤ (write n).length := by
  have low := Nat.le_trans (le_value nonempty nonzero all) above
  have filled := List.length_pos_iff.mpr (write_ne_nil n)
  by_contra longer
  have positive : 0 < digits.length - 1 := by omega
  have small : n < Nat.pow 10 (digits.length - 1) :=
    (Nat.length_toDigits_le_iff (by decide) positive).mp (by unfold write at longer; omega)
  omega

theorem digitChar_digitValue {c : Char} (digit : Character.isDigit c = true) :
    digitValue c < 10 ∧ (digitValue c).digitChar = c := by
  simp only [Character.isDigit, Bool.and_eq_true, decide_eq_true_eq] at digit
  have low : '0'.toNat ≤ c.toNat := digit.1
  have high : c.toNat ≤ '9'.toNat := digit.2
  have zero : '0'.toNat = 48 := rfl
  have nine : '9'.toNat = 57 := rfl
  have small : digitValue c < 10 := by
    unfold digitValue
    omega
  have chars : ∀ n, n < 10 → n.digitChar = Char.ofNat (n + 48) := by decide
  refine ⟨small, ?_⟩
  have number : digitValue c + 48 = c.toNat := by
    unfold digitValue
    omega
  rw [chars _ small, number, Char.ofNat_toNat]

theorem write_value {digits : Text} (nonempty : digits ≠ []) (nonzero : digits.head? ≠ some '0')
    (all : ∀ c ∈ digits, Character.isDigit c = true) : write (value digits) = digits := by
  induction digits using List.reverseRecOn with
  | nil => exact absurd rfl nonempty
  | append_singleton front c ih =>
      obtain ⟨small, char⟩ := digitChar_digitValue (all c (by simp))
      rw [value_concat]
      cases front with
      | nil =>
          have alone : 10 * value [] + digitValue c = digitValue c := by simp [value]
          rw [alone, write, Nat.toDigits_of_lt_base small, char, List.nil_append]
      | cons d rest =>
          have filled : (d :: rest) ≠ [] := by simp
          have head : (d :: rest).head? ≠ some '0' := by simpa using nonzero
          have digits : ∀ e ∈ d :: rest, Character.isDigit e = true := fun e member =>
            all e (List.mem_append_left _ member)
          have positive := value_pos filled head digits
          have quotient :
              (10 * value (d :: rest) + digitValue c) / 10 = value (d :: rest) := by omega
          have remainder : (10 * value (d :: rest) + digitValue c) % 10 = digitValue c := by omega
          rw [write, Nat.toDigits_of_base_le (by decide) (by omega), quotient, remainder, char]
          exact congrArg (· ++ [c]) (ih filled head digits)

theorem head_write {n : Nat} (positive : 0 < n) :
    ∃ c rest, write n = c :: rest ∧ c ≠ '0' := by
  induction n using Nat.strongRecOn with
  | ind n ih =>
      by_cases small : n < 10
      · refine ⟨n.digitChar, [], Nat.toDigits_of_lt_base small, ?_⟩
        have nonzero : ∀ m, m < 10 → 0 < m → m.digitChar ≠ '0' := by decide
        exact nonzero n small positive
      · have split : write n = write (n / 10) ++ [(n % 10).digitChar] :=
          Nat.toDigits_of_base_le (by decide) (by omega)
        obtain ⟨c, rest, written, nonzero⟩ := ih (n / 10) (by omega) (by omega)
        exact ⟨c, rest ++ [(n % 10).digitChar], by rw [split, written]; rfl, nonzero⟩

end Decimal

/-- A computation that ends well, seen through a view of what it gives. -/
theorem exists_of_evaluated {ε α β : Type} {outcome : Except ε α} {view : α → β}
    {value : β} (evaluated : outcome.toOption.map view = some value) :
    ∃ a, outcome = .ok a ∧ view a = value := by
  cases outcome with
  | error fault => contradiction
  | ok a => exact ⟨a, rfl, Option.some.inj evaluated⟩

end PatternDialect
