import PatternDialect.Proofs.Cuttable

/-! The `\0`s of a source, and the digits that follow them.

A reader knows after each character whether a `\0` has just ended outside classes; a
digit that comes next joins it.  Groups that are put around the end of a source and
numbers that are moved change nothing about that. -/

namespace PatternDialect

open Character Source Backreference

/-- Where a reader of a source stands, and whether a `\0` has just ended there. -/
structure NulReader where
  place : Place
  zero : Bool
  deriving DecidableEq

namespace NulReader

/-- What there is to be noted of a source: a `\0` outside classes, or a digit right behind
one. -/
inductive Mark where
  | nul
  | joined
  deriving DecidableEq

def start : NulReader := ⟨.outside, false⟩

def next (n : NulReader) (c : Char) : NulReader := ⟨n.place.next c, n.place == .escape && c == '0'⟩

def after (n : NulReader) (text : Text) : NulReader := text.foldl next n

def mark (n : NulReader) (c : Char) : List Mark :=
  if n.zero && isDigit c then [.joined] else if (n.next c).zero then [.nul] else []

def marks (n : NulReader) : Text → List Mark
  | [] => []
  | c :: rest => n.mark c ++ (n.next c).marks rest

@[simp] theorem after_nil (n : NulReader) : n.after [] = n := rfl

@[simp] theorem after_cons (n : NulReader) (c : Char) (rest : Text) :
    n.after (c :: rest) = (n.next c).after rest := rfl

@[simp] theorem after_append (n : NulReader) (first second : Text) :
    n.after (first ++ second) = (n.after first).after second := List.foldl_append

@[simp] theorem marks_append (n : NulReader) (first second : Text) :
    n.marks (first ++ second) = n.marks first ++ (n.after first).marks second := by
  induction first generalizing n with
  | nil => rfl
  | cons c rest ih => simp only [List.cons_append, marks, ih, after_cons, List.append_assoc]

theorem place_after (n : NulReader) (text : Text) : (n.after text).place = n.place.after text := by
  induction text generalizing n with
  | nil => rfl
  | cons c rest ih => exact ih (n.next c)

def Proper (n : NulReader) : Prop := n.zero = true → n.place = .outside

theorem Proper.next {n : NulReader} (c : Char) : (n.next c).Proper := by
  intro zero
  simp only [NulReader.next, Bool.and_eq_true, beq_iff_eq] at zero
  change n.place.next c = .outside
  rw [zero.1]
  rfl

theorem Proper.after {n : NulReader} (proper : n.Proper) (text : Text) : (n.after text).Proper := by
  induction text generalizing n with
  | nil => exact proper
  | cons c rest ih => exact ih (.next c)

theorem proper_start : start.Proper := fun _ => rfl

theorem zero_of_place {n : NulReader} (proper : n.Proper) (place : n.place ≠ .outside) :
    n.zero = false := by
  cases zero : n.zero with
  | false => rfl
  | true => exact absurd (proper zero) place

variable {n : NulReader}

theorem place_next_ne_escape (n : NulReader) {c : Char} (other : c ≠ '\\') :
    (n.next c).place ≠ .escape := by
  change n.place.next c ≠ .escape
  cases n.place with
  | escape => simp [Place.next]
  | outside => by_cases open_ : c = '[' <;> simp [Place.next, other, open_]
  | inClass => by_cases closes : c = ']' <;> simp [Place.next, other, closes]
  | classEscape => simp [Place.next]

theorem mark_eq_nil {c : Char} (idle : (n.zero && isDigit c) = false)
    (plain : (n.next c).zero = false) :
    n.mark c = [] := by
  simp [mark, idle, plain]

theorem marks_plain (place : n.place ≠ .escape) (zero : n.zero = false) {text : Text}
    (plain : ∀ c ∈ text, c ≠ '\\') : n.marks text = [] ∧ (n.after text).zero = false := by
  induction text generalizing n with
  | nil => exact ⟨rfl, zero⟩
  | cons c rest ih =>
      have idle : (n.next c).zero = false := by simp [next, place]
      obtain ⟨silent, after⟩ := ih (n.place_next_ne_escape (plain c (by simp))) idle
        fun d member => plain d (by simp [member])
      rw [marks, silent, mark_eq_nil (by simp [zero]) idle]
      exact ⟨rfl, after⟩

theorem reads_single (place : n.place ≠ .escape) (c : Char) :
    n.marks [c] = (if n.zero && isDigit c then [.joined] else []) ∧ (n.after [c]).zero = false := by
  simp [marks, mark, next, place]

/-- A text that has no part in a `\0`, wherever it stands. -/
def Inert (text : Text) : Prop := ∀ n : NulReader, n.marks text = [] ∧ (n.after text).zero = false

theorem Inert.append {first second : Text} (inert : Inert first) (inert' : Inert second) :
    Inert (first ++ second) := by
  intro n
  rw [marks_append, after_append, (inert n).1, (inert' _).1, (inert' _).2]
  exact ⟨rfl, rfl⟩

theorem Inert.reads {text : Text} (inert : Inert text) (n : NulReader) (front : Text) :
    n.marks (front ++ text) = n.marks front ∧ (n.after (front ++ text)).zero = false := by
  rw [marks_append, after_append, (inert _).1, (inert _).2, List.append_nil]
  exact ⟨rfl, rfl⟩

theorem inert_begun {c : Char} {rest : Text} (noDigit : isDigit c = false)
    (plain : ∀ d ∈ c :: rest, d ≠ '\\') : Inert (c :: rest) := by
  intro n
  have zero : (n.next c).zero = false := by
    have other : c ≠ '0' := by
      rintro rfl
      contradiction
    simp [next, other]
  obtain ⟨silent, after⟩ := marks_plain (n.place_next_ne_escape (plain c (by simp))) zero
    fun d (member : d ∈ rest) => plain d (by simp [member])
  rw [marks, silent, mark_eq_nil (by simp [noDigit]) zero]
  exact ⟨rfl, after⟩

theorem inert_ordinary {w : Text} (filled : w ≠ []) (ordinary : ∀ c ∈ w, isOrdinary c = true) :
    Inert w := by
  obtain ⟨c, rest, rfl⟩ := List.exists_cons_of_ne_nil filled
  exact inert_begun (isDigit_of_ordinary (ordinary c (by simp))) fun d member =>
    isOrdinary_ne_backslash (ordinary d member)

theorem inert_backslash {d : Char} (other : d ≠ '0' ∧ d ≠ '\\') {rest : Text}
    (plain : ∀ c ∈ rest, c ≠ '\\') : Inert ('\\' :: d :: rest) := by
  intro n
  have first : (n.next '\\').zero = false := by simp [next]
  have second : ((n.next '\\').next d).zero = false := by simp [next, other.1]
  obtain ⟨silent, after⟩ :=
    marks_plain ((n.next '\\').place_next_ne_escape other.2) second plain
  rw [marks, marks, silent, mark_eq_nil (by simp [isDigit]) first,
    mark_eq_nil (by simp [first]) second]
  exact ⟨rfl, after⟩

theorem inert_reference {index : Nat} (positive : 0 < index) : Inert (render index) := by
  obtain ⟨c, rest, written, nonzero⟩ := Decimal.head_write positive
  have slash : ∀ d ∈ c :: rest, d ≠ '\\' := fun d member =>
    Reader.isDigit_ne_backslash (Decimal.isDigit_of_mem_write (by rwa [written]))
  rw [render, written]
  exact inert_backslash ⟨nonzero, slash c (by simp)⟩ fun d member => slash d (by simp [member])

theorem marks_number (proper : n.Proper) (place : n.place = .escape) {digits : Text}
    (filled : digits ≠ []) (all : ∀ d ∈ digits, isDigit d = true)
    (nonzero : digits.head? ≠ some '0') :
    n.marks digits = [] ∧ n.after digits = ⟨.outside, false⟩ := by
  cases digits with
  | nil => exact absurd rfl filled
  | cons d rest =>
      have other : d ≠ '0' := by simpa using nonzero
      have plain : ∀ c ∈ rest, c ≠ '\\' := fun c member =>
        Reader.isDigit_ne_backslash (all c (by simp [member]))
      have zero := zero_of_place proper (by rw [place]; decide)
      have next : n.next d = ⟨.outside, false⟩ := by simp [NulReader.next, place, Place.next, other]
      obtain ⟨silent, ended⟩ :=
        @marks_plain (n.next d) (by rw [next]; decide) (by rw [next]) rest plain
      refine ⟨by rw [marks, silent, mark_eq_nil (by simp [zero]) (by rw [next])]; rfl, ?_⟩
      have outside : (n.after (d :: rest)).place = .outside := by
        obtain ⟨number, _⟩ := Reader.after_number rfl other all
        rw [place_after, place, ← Reader.place_after (Reader.Proper.of_place .escape), number]
      rw [after_cons] at outside ⊢
      cases whole : (n.next d).after rest
      rw [whole] at outside ended
      cases outside
      cases ended
      rfl

theorem marks_within (proper : n.Proper) {text : Text} (stays : n.place.within text = true) :
    n.marks text = [] ∧ (n.after text).zero = false := by
  induction text generalizing n with
  | nil => exact ⟨rfl, zero_of_place proper (Place.ne_outside_of_inside stays)⟩
  | cons c rest ih =>
      have zero := zero_of_place proper
        (Place.ne_outside_of_inside (Place.inside_of_within stays))
      simp only [Place.within, Bool.and_eq_true] at stays
      have idle : (n.next c).zero = false :=
        zero_of_place (.next c) (Place.ne_outside_of_inside (Place.inside_of_within stays.2))
      obtain ⟨silent, after⟩ := ih (.next c) stays.2
      rw [marks, silent, mark_eq_nil (by simp [zero]) idle]
      exact ⟨rfl, after⟩

theorem marks_held (first : Nat) {r : Reader} (wellformed : r.Proper)
    (small : ∀ k ∈ r.held, k + 1 < Decimal.limit) (proper : n.Proper)
    (place : n.place = (restart r).place) (filled : r.digits ≠ []) (more : Text) :
    n.marks (shift first 1 r.digits.reverse ++ more) = marks ⟨.outside, false⟩ more ∧
      n.marks (r.digits.reverse ++ more) = marks ⟨.outside, false⟩ more := by
  have escape : n.place = .escape := by simpa [restart, filled] using place
  have nonempty : r.digits.reverse ≠ [] := by simpa using filled
  have all : ∀ d ∈ r.digits.reverse, isDigit d = true := fun d member =>
    wellformed.digits d (List.mem_reverse.mp member)
  have nonzero : r.digits.reverse.head? ≠ some '0' := by
    rw [List.head?_reverse]
    exact wellformed.nonzero
  obtain ⟨⟨c, rest, written, head⟩, digits, _⟩ :=
    shift_spec first nonempty all nonzero (small _ (by simp [Reader.held, filled]))
  obtain ⟨same, after⟩ := marks_number proper escape nonempty all nonzero
  obtain ⟨same', after'⟩ := marks_number proper escape (by simp [written]) digits
    (by simpa [written] using head)
  rw [marks_append, marks_append, same, same', after, after']
  exact ⟨rfl, rfl⟩

theorem marks_renumberFrom (first : Nat) {r : Reader} (wellformed : r.Proper) (text : Text)
    (small : ∀ k ∈ r.read text, k + 1 < Decimal.limit) (proper : n.Proper)
    (place : n.place = (restart r).place) :
    n.marks (renumberFrom first 1 r.place r.digits text) = n.marks (r.digits.reverse ++ text) := by
  induction text generalizing r n with
  | nil =>
      by_cases filled : r.digits = []
      · simp [filled, renumberFrom]
      · obtain ⟨moved, kept⟩ :=
          marks_held first wellformed (by simpa [Reader.read] using small) proper
          place filled []
        rw [renumberFrom, kept]
        simpa using moved
  | cons c rest ih =>
      cases taken : r.takes c with
      | true =>
          have next : r.next c = ⟨.outside, c :: r.digits⟩ := by simp [Reader.next, taken]
          have further := ih (wellformed.next c)
            (by simpa [Reader.read, Reader.passed_cons, taken] using small) proper
            (by rw [restart_next taken, place])
          rw [renumberFrom_taken first 1 taken, further, next]
          simp
      | false =>
          have next : r.next c = ⟨r.place.next c, []⟩ := by simp [Reader.next, taken]
          have parts : r.read (c :: rest) = r.held ++ (r.next c).read rest := by
            simp [Reader.read, Reader.passed_cons, taken]
          rw [parts] at small
          -- behind the number, if there is one, both texts go on alike
          have onward : ∀ {m : NulReader}, m.place = r.place →
              m.marks (c :: renumberFrom first 1 (r.next c).place (r.next c).digits rest) =
                m.marks (c :: rest) := by
            intro m here
            have further := ih (n := m.next c) (wellformed.next c)
              (fun k member => small k (List.mem_append_right _ member)) (.next c)
              (by rw [next]; simp [restart, NulReader.next, here])
            rw [marks, marks, further, next]
            rfl
          rw [renumberFrom_other first 1 taken]
          by_cases filled : r.digits = []
          · rw [filled]
            exact onward (by simpa [restart, filled] using place)
          · have outside := wellformed.outside filled
            obtain ⟨moved, _⟩ := marks_held first wellformed
              (fun k member => small k (List.mem_append_left _ member)) proper place filled
              (c :: renumberFrom first 1 (r.next c).place (r.next c).digits rest)
            obtain ⟨_, kept⟩ := marks_held first wellformed
              (fun k member => small k (List.mem_append_left _ member)) proper place filled
              (c :: rest)
            rw [moved, kept]
            exact onward outside.symm

theorem marks_renumber_inClass (first : Nat) {text : Text} (merged : merges text = true)
    (small : ∀ k ∈ Reader.start.read text, k + 1 < Decimal.limit) :
    marks ⟨.inClass, false⟩ (renumberFrom first 1 .outside [] text) =
      marks ⟨.inClass, false⟩ text := by
  fun_induction merges text with
  | case1 => contradiction
  | case2 => contradiction
  | case3 d rest ih =>
      simp only [Bool.and_eq_true, Bool.or_eq_true, Bool.not_eq_true', beq_iff_eq] at merged
      have noTake : Reader.takes ⟨.escape, []⟩ d = false := by
        rcases merged.1 with other | rfl <;> simp [Reader.takes, *]
      have slash : Reader.start.next '\\' = ⟨.escape, []⟩ := by decide
      have behind : Reader.next ⟨.escape, []⟩ d = Reader.start := by
        simp [Reader.next, noTake, Place.next, Reader.start]
      have read : Reader.start.read ('\\' :: d :: rest) = Reader.start.read rest := by
        have quiet : Reader.held ⟨.escape, []⟩ = [] := rfl
        simp [Reader.read, Reader.passed_cons, slash, behind, quiet]
      have passed : ∀ more,
          marks ⟨.inClass, false⟩ ('\\' :: d :: more) = marks ⟨.inClass, false⟩ more := by
        intro more
        rfl
      rw [renumberFrom_kept first 1 merged.1, passed, passed]
      exact ih merged.2 (by rwa [read] at small)
  | case4 c rest notLast notEscape ih =>
      have unescaped : c ≠ '\\' := by
        intro backslash
        cases rest with
        | nil => exact notLast backslash rfl
        | cons d more => exact notEscape d more backslash rfl
      have fresh : Reader.start.takes c = false := by simp [Reader.takes, Reader.start]
      have step : Reader.start.next c = ⟨Place.outside.next c, []⟩ := by
        rw [Reader.next, fresh]
        rfl
      have read : Reader.start.read (c :: rest) = Reader.read ⟨Place.outside.next c, []⟩ rest := by
        simp [Reader.read, Reader.passed_cons, fresh, step]
      rw [read] at small
      rw [renumberFrom_copied first 1 (by decide), marks, marks]
      congr 1
      by_cases closing : c = ']'
      · subst closing
        exact marks_renumberFrom first (.of_place .outside) rest small (.next ']') rfl
      by_cases opening : c = '['
      · subst opening
        exact marks_renumberFrom first (.of_place .inClass) rest small (.next '[') rfl
      · have stays : Place.outside.next c = .outside := by simp [Place.next, unescaped, opening]
        have inside : next ⟨.inClass, false⟩ c = ⟨.inClass, false⟩ := by
          simp [NulReader.next, Place.next, unescaped, closing]
        rw [stays] at small ⊢
        rw [inside]
        exact ih (by simpa [closing, opening] using merged) small

theorem after_ordinary (n : NulReader) {w : Text} (filled : w ≠ [])
    (ordinary : ∀ c ∈ w, isOrdinary c = true) :
    n.marks w = [] ∧ n.after w = ⟨(Reader.settled ⟨n.place, []⟩).place, false⟩ := by
  obtain ⟨same, zero⟩ := inert_ordinary filled ordinary n
  refine ⟨same, ?_⟩
  have place : (n.after w).place = (Reader.settled ⟨n.place, []⟩).place := by
    rw [place_after, ← (Reader.after_ordinary ⟨n.place, []⟩ filled ordinary).1,
      Reader.place_after (.of_place n.place)]
  cases whole : n.after w
  rw [whole] at place zero
  cases place
  cases zero
  rfl

theorem marks_fits {r : Reader} {back : Text} (fits : r.Fits back)
    (place : n.place = r.place) (apart : n.zero = true → back.head?.any isDigit = false) :
    n.marks back = marks ⟨r.settled.place, false⟩ back := by
  cases back with
  | nil => rfl
  | cons c rest =>
      have first : (n.zero && isDigit c) = false := by
        cases zero : n.zero with
        | false => rfl
        | true => simpa using apart zero
      have same : n.next c = next ⟨r.settled.place, false⟩ c := by
        cases here : r.place with
        | outside => simp [NulReader.next, place, here, Reader.settled]
        | inClass => simp [NulReader.next, place, here, Reader.settled]
        | escape =>
            have ordinary : isOrdinary c = true := by simpa [Reader.Fits, here] using fits
            have other : c ≠ '0' := by
              rintro rfl
              contradiction
            simp [NulReader.next, place, here, Reader.settled, other,
              Source.next_of_ordinary ordinary]
            rfl
        | classEscape =>
            have fit : isOrdinary c = true ∧ merges (c :: rest) = true := by
              simpa [Reader.Fits, here] using fits
            simp [NulReader.next, place, here, Reader.settled, Source.next_of_ordinary fit.1]
            exact ⟨rfl, rfl⟩
      simp [marks, mark, first, same]

theorem marks_renumber_settled (first : Nat) {r : Reader} {back : Text} (fits : r.Fits back)
    (small : ∀ k ∈ references back, k + 1 < Decimal.limit) :
    marks ⟨r.settled.place, false⟩ (renumber first 1 back) =
      marks ⟨r.settled.place, false⟩ back := by
  have settled := fits.settled
  have cases_ : r.settled.place = .outside ∨ r.settled.place = .inClass := by
    cases here : r.place <;> simp [Reader.settled, here]
  rcases cases_ with place | place
  · rw [place]
    exact marks_renumberFrom first Reader.Proper.start back small proper_start rfl
  · rw [place]
    exact marks_renumber_inClass first (by simpa [Reader.Fits, place] using settled) small

/-- Whether no digit of the second part joins a `\0` of the first. -/
def Apart (front back : Text) : Prop :=
  (start.after front).zero = true → back.head?.any isDigit = false

theorem marks_opened {front back changed w : Text} (fits : (Reader.start.after front).Fits back)
    (apart : Apart front back) (filled : w ≠ []) (ordinary : ∀ c ∈ w, isOrdinary c = true)
    (same : marks ⟨(Reader.start.after front).settled.place, false⟩ changed =
      marks ⟨(Reader.start.after front).settled.place, false⟩ back) :
    start.marks (front ++ (w ++ changed)) = start.marks (front ++ back) := by
  have place : (start.after front).place = (Reader.start.after front).place := by
    rw [place_after, Reader.place_start]
    rfl
  obtain ⟨silent, opened⟩ := (start.after front).after_ordinary filled ordinary
  have settled : (Reader.settled ⟨(start.after front).place, []⟩).place =
      (Reader.start.after front).settled.place := by
    rw [place]
    simp [Reader.settled]
  rw [marks_append, marks_append, marks_append, silent, opened, settled, same,
    marks_fits fits place apart, List.nil_append]

theorem ended_of_zero {text : Text} (zero : (start.after text).zero = true) :
    ∃ front, text = front ++ ['\\', '0'] ∧ Place.outside.after front = .outside := by
  cases text using List.reverseRecOn with
  | nil => contradiction
  | append_singleton text c =>
      rw [after_append, after_cons, after_nil] at zero
      simp only [next, Bool.and_eq_true, beq_iff_eq, place_after] at zero
      obtain ⟨front, rfl, outside⟩ := Place.split_of_escape zero.1
      exact ⟨front, by simp [zero.2], outside⟩

theorem zero_of_calm {text more : Text} (filled : text ≠ [])
    (calm : calmFrom n.place.isEscape (text ++ more) = true) : (n.after text).zero = false := by
  induction text generalizing n with
  | nil => exact absurd rfl filled
  | cons c rest ih =>
      cases rest with
      | nil =>
          cases here : n.place with
          | escape =>
              rw [here, Place.isEscape, List.cons_append, calmFrom, Bool.and_eq_true] at calm
              have other : c ≠ '0' := by
                rintro rfl
                exact absurd calm.1 (by decide)
              simp [next, other]
          | outside => simp [next, here]
          | inClass => simp [next, here]
          | classEscape => simp [next, here]
      | cons d tail => exact ih (n := n.next c) (by simp) (calmFrom_next calm)

theorem apart_of_anchored {source : Text} {offset first : Nat}
    (anchored : Anchored source offset offset first) :
    Apart (source.takeBytes offset) (source.dropBytes offset) := by
  obtain ⟨base, zone, rest, seam, low, high, _⟩ := anchored
  obtain ⟨more, rfl⟩ := Nat.exists_eq_add_of_le low
  have short : more ≤ zone.size := by
    rw [Text.size_append] at high
    omega
  have zoneParts := Text.takeBytes_append_dropBytes more zone
  rw [seam.parts, Text.takeBytes_add, Text.takeBytes_append short, Text.dropBytes_add,
    Text.dropBytes_append short]
  cases kept : zone.takeBytes more with
  | nil =>
      have apart := seam.apart
      rw [kept, List.nil_append] at zoneParts
      rw [zoneParts]
      intro _
      cases whole : zone ++ rest with
      | nil => rfl
      | cons c tail =>
          rw [whole] at apart
          simpa using apart
  | cons c tail =>
      intro zero
      have calm : calmFrom (start.after base).place.isEscape
          (zone.takeBytes more ++ zone.dropBytes more) = true := by
        rw [zoneParts, place_after]
        change calmFrom (Place.outside.after base).isEscape zone = true
        rw [seam.unescaped]
        exact seam.calm
      rw [after_append, ← kept, zero_of_calm (by simp [kept]) calm] at zero
      contradiction

theorem apart_of_unit {source unit front : Text} (found : Atom.trailingUnit? source = some unit)
    (parts : source = front ++ unit) : Apart front unit := by
  intro zero
  obtain ⟨front', parts', kind⟩ := Atom.trailingUnit?_sound found
  obtain rfl : front = front' := List.append_cancel_right (parts.symm.trans parts')
  rcases kind with ⟨body, rfl, _, _⟩ | ⟨c, rfl, missed, _⟩
  · rfl
  · obtain ⟨before, rfl, outside⟩ := ended_of_zero zero
    have unescaped : Escape.pending before.reverse = false := by
      rw [← Place.isEscape_after, outside]
      rfl
    cases digit : isDigit c with
    | false => simpa using digit
    | true =>
        have all : ∀ d ∈ ['0', c], isDigit d = true := by
          simp [digit, show isDigit '0' = true from rfl]
        have short : Text.size ('\\' :: ([c, '0'].reverse ++ [])) ≤ Atom.searchWidth := by
          rw [List.append_nil, Text.size_cons]
          change _ + Text.size ['0', c] ≤ _
          rw [Text.size_digits all]
          exact show '\\'.utf8Size + 2 ≤ Atom.searchWidth by decide
        have seen :=
          Atom.trailingEscape?_isSome unescaped (Atom.isEscapeBody_digits (by simp) all) short
        have reversed : source.reverse = [c, '0'] ++ '\\' :: before.reverse := by simp [parts]
        rw [← reversed, missed] at seen
        contradiction

section Atoms

open Conversion

variable {out : Text} {groups : GroupTable} {frames : List Frame} {a : Atom}

theorem marks_wrap (cuttable : Cuttable out groups frames a)
    (apart : Apart (out.takeBytes a.start) (out.dropBytes a.start)) :
    start.marks (a.wrap out).1 = start.marks out ∧ (start.after (a.wrap out).1).zero = false := by
  have ordinary : ∀ c ∈ ['(', '?', ':'], isOrdinary c = true := List.all_eq_true.mp (by decide)
  have opened := marks_opened cuttable.severed.fits apart (by decide) ordinary rfl
  rw [Text.takeBytes_append_dropBytes] at opened
  have shape : (a.wrap out).1 =
      (out.takeBytes a.start ++ (['(', '?', ':'] ++ out.dropBytes a.start)) ++ [')'] := by
    simp [Cuttable.wrap_shape]
  have closing : Inert [')'] := inert_begun (by decide) (by simp)
  rw [shape, ← opened]
  exact closing.reads start _

theorem marks_prepared (cuttable : Cuttable out groups frames a)
    (outside : Place.outside.after out = .outside)
    (apart : Apart (out.takeBytes a.start) (out.dropBytes a.start)) :
    start.marks (a.prepared out).1 = start.marks out ∧
      Apart ((a.prepared out).1.takeBytes (a.prepared out).2.start)
        ((a.prepared out).1.dropBytes (a.prepared out).2.start) := by
  unfold Atom.prepared
  cases a.emulated with
  | false => exact ⟨rfl, apart⟩
  | true =>
      obtain ⟨_, _, repeatable, _⟩ := cuttable.wrap outside
      exact ⟨(marks_wrap cuttable apart).1, apart_of_anchored repeatable.anchored⟩

theorem marks_possess (cuttable : Cuttable out groups frames a)
    (apart : Apart (out.takeBytes a.start) (out.dropBytes a.start))
    (small : ∀ k ∈ references out, k + 1 < Decimal.limit) {amount : Repeat}
    (legible : amount.Legible) :
    start.marks (Atom.makePossessive out groups a amount.text).source = start.marks out ∧
      (start.after (Atom.makePossessive out groups a amount.text).source).zero = false := by
  have ordinary : ∀ c ∈ Atom.atomicOpen, isOrdinary c = true := List.all_eq_true.mp (by decide)
  have opened := marks_opened cuttable.severed.fits apart (by decide) ordinary
    (marks_renumber_settled a.firstGroup cuttable.severed.fits fun k member =>
      small k (cuttable.references_behind member))
  rw [Text.takeBytes_append_dropBytes] at opened
  have shape : (Atom.makePossessive out groups a amount.text).source =
      (out.takeBytes a.start ++ (Atom.atomicOpen ++
        renumber a.firstGroup 1 (out.dropBytes a.start))) ++
        ((amount.text ++ [')', ')']) ++ render a.firstGroup) := by
    simp [cuttable.possess_shape, Atom.atomicClose]
  obtain ⟨c, rest, written, noDigit⟩ := legible.head
  have plain : ∀ d ∈ c :: rest, d ≠ '\\' := fun d member =>
    (Repeat.ne_of_isAmount (legible.all d (by rwa [written]))).1
  have closing : Inert [')', ')'] := inert_begun (by decide) (by simp)
  have amount : Inert amount.text := by
    rw [written]
    exact inert_begun noDigit plain
  rw [shape, ← opened]
  exact ((amount.append closing).append (inert_reference cuttable.positive)).reads start _

end Atoms

end NulReader

end PatternDialect
