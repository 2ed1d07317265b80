import Mathlib.Data.List.Induction
import PatternDialect.Backreference
import PatternDialect.Proofs.Text

/-! Native source read from left to right, with the references met on the way.

The reader stands at a place and holds back the digits of the reference that it
is in, so that a text may be read in parts. -/

namespace PatternDialect.Source

open Character

namespace Place

@[simp] theorem after_nil (place : Place) : place.after [] = place := rfl

@[simp] theorem after_cons (place : Place) (c : Char) (rest : Text) :
    place.after (c :: rest) = (place.next c).after rest := rfl

@[simp] theorem after_append (place : Place) (first second : Text) :
    place.after (first ++ second) = (place.after first).after second := by
  simp [after, List.foldl_append]

def isEscape : Place → Bool
  | escape | classEscape => true
  | outside | inClass => false

theorem isEscape_next (place : Place) (c : Char) :
    (place.next c).isEscape = (c == '\\' && !place.isEscape) := by
  cases place with
  | outside =>
      by_cases backslash : c = '\\'
      · simp [next, isEscape, backslash]
      · by_cases bracket : c = '[' <;> simp [next, isEscape, backslash, bracket]
  | inClass =>
      by_cases backslash : c = '\\'
      · simp [next, isEscape, backslash]
      · by_cases bracket : c = ']' <;> simp [next, isEscape, backslash, bracket]
  | escape => simp [next, isEscape]
  | classEscape => simp [next, isEscape]

theorem isEscape_after (text : Text) :
    (outside.after text).isEscape = Escape.pending text.reverse := by
  induction text using List.reverseRecOn with
  | nil => rfl
  | append_singleton text c ih =>
      rw [after_append, List.reverse_append]
      change ((outside.after text).next c).isEscape = Escape.pending (c :: text.reverse)
      rw [isEscape_next, Escape.pending_cons, ih]

theorem split_of_escape {text : Text} (here : outside.after text = .escape) :
    ∃ front, text = front ++ ['\\'] ∧ outside.after front = .outside := by
  cases text using List.reverseRecOn with
  | nil => contradiction
  | append_singleton front c =>
      rw [after_append] at here
      change (outside.after front).next c = .escape at here
      cases inner : outside.after front with
      | outside =>
          rw [inner, next] at here
          split at here
          · exact ⟨front, by simp_all, inner⟩
          · split at here <;> contradiction
      | inClass =>
          rw [inner, next] at here
          split at here
          · contradiction
          · split at here <;> contradiction
      | escape =>
          rw [inner] at here
          contradiction
      | classEscape =>
          rw [inner] at here
          contradiction

end Place

/-- A reader of native source. -/
structure Reader where
  place : Place := .outside
  digits : Text := []
  deriving DecidableEq

namespace Reader

def start : Reader := {}

def takes (r : Reader) (c : Char) : Bool :=
  isDigit c && (!r.digits.isEmpty || (r.place == .escape && c != '0'))

def next (r : Reader) (c : Char) : Reader :=
  if r.takes c then ⟨.outside, c :: r.digits⟩ else ⟨r.place.next c, []⟩

def after (r : Reader) (text : Text) : Reader := text.foldl next r

def held (r : Reader) : List Nat :=
  if r.digits.isEmpty then [] else [Decimal.value r.digits.reverse]

def passed (r : Reader) : Text → List Nat
  | [] => []
  | c :: rest => (if r.takes c then [] else r.held) ++ (r.next c).passed rest

def read (r : Reader) (text : Text) : List Nat := r.passed text ++ (r.after text).held

end Reader

/-- The numbers of the references outside classes: of the longest runs of digits
behind a backslash that do not begin with a zero. -/
def references (source : Text) : List Nat := Reader.start.read source

namespace Reader

@[simp] theorem after_nil (r : Reader) : r.after [] = r := rfl

@[simp] theorem after_cons (r : Reader) (c : Char) (rest : Text) :
    r.after (c :: rest) = (r.next c).after rest := rfl

@[simp] theorem after_append (r : Reader) (first second : Text) :
    r.after (first ++ second) = (r.after first).after second := by
  simp [after, List.foldl_append]

@[simp] theorem passed_nil (r : Reader) : r.passed [] = [] := rfl

theorem passed_cons (r : Reader) (c : Char) (rest : Text) :
    r.passed (c :: rest) = (if r.takes c then [] else r.held) ++ (r.next c).passed rest :=
  rfl

theorem passed_append (r : Reader) (first second : Text) :
    r.passed (first ++ second) = r.passed first ++ (r.after first).passed second := by
  induction first generalizing r with
  | nil => rfl
  | cons c rest ih =>
      simp only [List.cons_append, passed_cons, ih, after_cons, List.append_assoc]

theorem read_append (r : Reader) (first second : Text) :
    r.read (first ++ second) = r.passed first ++ (r.after first).read second := by
  simp only [read, passed_append, after_append, List.append_assoc]

@[simp] theorem held_start : start.held = [] := rfl

/-- What holds of a reader at every point: it holds digits only outside classes,
and they begin with no zero. -/
structure Proper (r : Reader) : Prop where
  outside : r.digits ≠ [] → r.place = .outside
  digits : ∀ c ∈ r.digits, isDigit c = true
  nonzero : r.digits.getLast? ≠ some '0'

theorem Proper.start : start.Proper :=
  ⟨fun nonempty => absurd rfl nonempty, by simp [Reader.start], by simp [Reader.start]⟩

theorem Proper.of_place (place : Place) : Proper ⟨place, []⟩ :=
  ⟨fun nonempty => absurd rfl nonempty, by simp, by simp⟩

theorem Proper.next {r : Reader} (proper : r.Proper) (c : Char) : (r.next c).Proper := by
  unfold Reader.next
  split
  · rename_i taken
    simp only [takes, Bool.and_eq_true, Bool.or_eq_true, Bool.not_eq_true', bne_iff_ne,
      beq_iff_eq] at taken
    refine ⟨fun _ => rfl, ?_, ?_⟩
    · intro d member
      rcases List.mem_cons.mp member with rfl | member
      · exact taken.1
      · exact proper.digits d member
    · cases held : r.digits with
      | nil =>
          have : c ≠ '0' := by
            rcases taken.2 with nonempty | ⟨_, nonzero⟩
            · simp [held] at nonempty
            · exact nonzero
          simpa using this
      | cons d rest =>
          have nonzero := proper.nonzero
          rw [held] at nonzero
          rw [List.getLast?_cons_cons]
          exact nonzero
  · exact Proper.of_place _

theorem Proper.after {r : Reader} (proper : r.Proper) (text : Text) :
    (r.after text).Proper := by
  induction text generalizing r with
  | nil => exact proper
  | cons c rest ih => exact ih (proper.next c)

theorem isDigit_ne_backslash {c : Char} (digit : isDigit c = true) : c ≠ '\\' := by
  rintro rfl
  revert digit
  decide

theorem isDigit_ne_bracket {c : Char} (digit : isDigit c = true) : c ≠ '[' := by
  rintro rfl
  revert digit
  decide

theorem place_next {r : Reader} (proper : r.Proper) (c : Char) :
    (r.next c).place = r.place.next c := by
  unfold Reader.next
  split
  · rename_i taken
    simp only [takes, Bool.and_eq_true, Bool.or_eq_true, Bool.not_eq_true', bne_iff_ne,
      beq_iff_eq] at taken
    obtain ⟨digit, behind⟩ := taken
    rcases behind with nonempty | ⟨escape, _⟩
    · have outside : r.place = .outside := by
        apply proper.outside
        rintro empty
        simp [empty] at nonempty
      simp [outside, Place.next, isDigit_ne_backslash digit, isDigit_ne_bracket digit]
    · simp [escape, Place.next]
  · rfl

theorem place_after {r : Reader} (proper : r.Proper) (text : Text) :
    (r.after text).place = r.place.after text := by
  induction text generalizing r with
  | nil => rfl
  | cons c rest ih =>
      rw [after_cons, ih (proper.next c), place_next proper, Place.after_cons]

theorem place_start (text : Text) : (start.after text).place = Place.outside.after text :=
  place_after Proper.start text

theorem next_of_not_digit (r : Reader) {c : Char} (other : isDigit c = false) :
    r.next c = ⟨r.place.next c, []⟩ := by
  simp [Reader.next, takes, other]

theorem passed_cons_of_not_digit (r : Reader) {c : Char} (other : isDigit c = false)
    (rest : Text) :
    r.passed (c :: rest) = r.held ++ (r.next c).passed rest := by
  simp [passed_cons, takes, other]

theorem after_number {digits : Text} {c : Char} {rest : Text} (written : digits = c :: rest)
    (nonzero : c ≠ '0') (all : ∀ d ∈ digits, isDigit d = true) :
    Reader.after ⟨.escape, []⟩ digits = ⟨.outside, digits.reverse⟩ ∧
      Reader.passed ⟨.escape, []⟩ digits = [] := by
  subst written
  have first : Reader.next ⟨.escape, []⟩ c = ⟨.outside, [c]⟩ := by
    have digit := all c (by simp)
    simp [Reader.next, takes, digit, nonzero]
  have further : ∀ (held more : Text), held ≠ [] → (∀ d ∈ more, isDigit d = true) →
      Reader.after ⟨.outside, held⟩ more = ⟨.outside, more.reverse ++ held⟩ ∧
        Reader.passed ⟨.outside, held⟩ more = [] := by
    intro held more
    induction more generalizing held with
    | nil => intro _ _; exact ⟨rfl, rfl⟩
    | cons d more ih =>
        intro nonempty all
        have digit := all d (by simp)
        have taken : takes ⟨.outside, held⟩ d = true := by
          cases held with
          | nil => exact absurd rfl nonempty
          | cons _ _ => simp [takes, digit]
        have next : Reader.next ⟨.outside, held⟩ d = ⟨.outside, d :: held⟩ := by
          simp [Reader.next, taken]
        obtain ⟨after, passed⟩ :=
          ih (d :: held) (by simp) (fun e member => all e (by simp [member]))
        constructor
        · rw [after_cons, next, after]
          simp
        · rw [passed_cons, next, passed]
          simp [taken]
  obtain ⟨after, passed⟩ :=
    further [c] rest (by simp) (fun d member => all d (by simp [member]))
  constructor
  · rw [after_cons, first, after]
    simp
  · have taken : takes ⟨.escape, []⟩ c = true := by
      have digit := all c (by simp)
      simp [takes, digit, nonzero]
    rw [passed_cons, first, passed]
    simp [taken]

theorem after_reference {r : Reader} (unescaped : r.place = .outside) {index : Nat}
    (positive : 0 < index) :
    r.after (Backreference.render index) = ⟨.outside, (Decimal.write index).reverse⟩ ∧
      r.passed (Backreference.render index) = r.held := by
  obtain ⟨c, rest, written, nonzero⟩ := Decimal.head_write positive
  obtain ⟨after, passed⟩ :=
    after_number written nonzero (fun d member => Decimal.isDigit_of_mem_write member)
  have next : r.next '\\' = ⟨.escape, []⟩ := by
    rw [next_of_not_digit r (by decide), unescaped]
    rfl
  unfold Backreference.render
  constructor
  · rw [after_cons, next, after]
  · rw [passed_cons_of_not_digit r (by decide), next, passed, List.append_nil]

theorem reads_apart {r : Reader} (proper : r.Proper) {text : Text} (nonempty : text ≠ [])
    (apart : r.digits ≠ [] → text.head?.all (!isDigit ·) = true) :
    r.passed text = r.held ++ passed ⟨r.place, []⟩ text ∧
      r.after text = after ⟨r.place, []⟩ text := by
  cases text with
  | nil => exact absurd rfl nonempty
  | cons c rest =>
      cases digits : r.digits with
      | nil =>
          have same : r = ⟨r.place, []⟩ := by
            cases r
            simp_all
          have nothing : r.held = [] := by simp [held, digits]
          rw [nothing, List.nil_append, ← same]
          exact ⟨rfl, rfl⟩
      | cons d more =>
          have other : isDigit c = false := by
            simpa using apart (by simp [digits])
          have first : r.next c = next ⟨r.place, []⟩ c := by
            rw [next_of_not_digit r other, next_of_not_digit _ other]
          rw [passed_cons_of_not_digit r other, passed_cons_of_not_digit _ other, after_cons,
            after_cons, first]
          exact ⟨rfl, rfl⟩

theorem held_number (digits : Text) (nonempty : digits ≠ []) :
    held ⟨.outside, digits.reverse⟩ = [Decimal.value digits] := by
  simp [held, nonempty]

end Reader

end PatternDialect.Source
