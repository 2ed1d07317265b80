import PatternDialect.Proofs.Classes
import PatternDialect.Proofs.Gaps

/-! Where the characters of a pattern stand.

A pattern is read as its source is, with comments on top.  From the reading follow
the gaps, which the conversion drops, and the parentheses that are still open. -/

namespace PatternDialect

open Character Source Conversion

/-- Where a reader of a pattern stands: where a reader of a source does, or in a
comment. -/
inductive Region where
  | pattern (place : Place)
  | comment
  deriving DecidableEq

namespace Region

def next : Region → Char → Region
  | pattern place, c =>
      if place = .outside ∧ c = '#' then comment else pattern (place.next c)
  | comment, c => if isLineEnd c then pattern .outside else comment

def after (region : Region) (text : Text) : Region := text.foldl next region

def of (text : Text) : Region := (pattern .outside).after text

@[simp] theorem after_nil (region : Region) : region.after [] = region := rfl

@[simp] theorem after_cons (region : Region) (c : Char) (rest : Text) :
    region.after (c :: rest) = (region.next c).after rest := rfl

@[simp] theorem after_append (region : Region) (first second : Text) :
    region.after (first ++ second) = (region.after first).after second :=
  List.foldl_append

@[simp] theorem of_append (first second : Text) : of (first ++ second) = (of first).after second :=
  after_append _ first second

theorem next_pattern {place : Place} {c : Char} (visible : place = .outside → c ≠ '#') :
    (pattern place).next c = pattern (place.next c) := by
  rw [next, if_neg]
  rintro ⟨outside, hash⟩
  exact visible outside hash

theorem after_pattern (place : Place) {text : Text} (visible : ∀ c ∈ text, c ≠ '#') :
    (pattern place).after text = pattern (place.after text) := by
  induction text generalizing place with
  | nil => rfl
  | cons c rest ih =>
      rw [after_cons, next_pattern fun _ => visible c (by simp), Place.after_cons]
      exact ih _ fun d member => visible d (by simp [member])

theorem after_within {place : Place} {text : Text} (stays : place.within text = true) :
    (pattern place).after text = pattern (place.after text) := by
  induction text generalizing place with
  | nil => rfl
  | cons c rest ih =>
      have inside := Place.ne_outside_of_inside (Place.inside_of_within stays)
      simp only [Place.within, Bool.and_eq_true] at stays
      rw [after_cons, next_pattern fun outside => absurd outside inside, Place.after_cons]
      exact ih stays.2

def drops : Region → Char → Bool
  | pattern place, c => place == .outside && isBreak c
  | comment, _ => true

def dropsAll (region : Region) : Text → Bool
  | [] => true
  | c :: rest => region.drops c && (region.next c).dropsAll rest

/-- Blanks and comments. -/
def isGap (text : Text) : Bool := (pattern .outside).dropsAll text

theorem dropsAll_append (region : Region) (first second : Text) :
    region.dropsAll (first ++ second) =
      (region.dropsAll first && (region.after first).dropsAll second) := by
  induction first generalizing region with
  | nil => rfl
  | cons c rest ih => simp only [List.cons_append, dropsAll, ih, after_cons, Bool.and_assoc]

theorem after_of_dropsAll {region : Region} (begins : region = pattern .outside ∨ region = comment)
    {text : Text} (dropped : region.dropsAll text = true) :
    region.after text = pattern .outside ∨ region.after text = comment := by
  induction text generalizing region with
  | nil => exact begins
  | cons c rest ih =>
      simp only [dropsAll, Bool.and_eq_true] at dropped
      refine ih ?_ dropped.2
      rcases begins with rfl | rfl
      · by_cases hash : c = '#'
        · simp [next, hash]
        · have blank : isBlank c = true := by
            simpa [drops, isBreak, hash] using dropped.1
          have plain : c ≠ '\\' ∧ c ≠ '[' := by
            constructor <;> rintro rfl <;> exact absurd blank (by decide)
          simp [next, hash, Place.next, plain]
      · by_cases ends : isLineEnd c = true <;> simp [next, ends]

theorem outside_of_gap {text gap : Text} (outside : of text = pattern .outside)
    (dropped : isGap gap = true) {place : Place} (here : of (text ++ gap) = pattern place) :
    place = .outside := by
  rw [of_append, outside] at here
  rcases after_of_dropsAll (Or.inl rfl) dropped with ends | ends <;> rw [ends] at here <;>
    simp_all

/-- What stands before each parenthesis that is still open, the innermost first, when one
more character is read. -/
def nest (region : Region) (front : Text) (open_ : List Text) (c : Char) : List Text :=
  if region = pattern .outside then
    if c = '(' then front :: open_ else if c = ')' then open_.tail else open_
  else open_

def unclosedFrom (region : Region) (front : Text) (open_ : List Text) : Text → List Text
  | [] => open_
  | c :: rest => unclosedFrom (region.next c) (front ++ [c]) (region.nest front open_ c) rest

/-- What stands before each parenthesis of a text that is still open, the innermost
first. -/
def unclosed (text : Text) : List Text := unclosedFrom (pattern .outside) [] [] text

theorem unclosedFrom_append (region : Region) (front : Text) (open_ : List Text)
    (first second : Text) :
    unclosedFrom region front open_ (first ++ second) =
      unclosedFrom (region.after first) (front ++ first) (unclosedFrom region front open_ first)
        second := by
  induction first generalizing region front open_ with
  | nil => simp [unclosedFrom]
  | cons c rest ih => simp [unclosedFrom, ih]

theorem unclosed_append (first second : Text) :
    unclosed (first ++ second) = unclosedFrom (of first) first (unclosed first) second :=
  unclosedFrom_append _ _ _ first second

theorem unclosed_concat (text : Text) (c : Char) :
    unclosed (text ++ [c]) = (of text).nest text (unclosed text) c :=
  unclosed_append text [c]

theorem unclosedFrom_dropped {region : Region} {gap : Text} (dropped : region.dropsAll gap = true)
    (front : Text) (open_ : List Text) : unclosedFrom region front open_ gap = open_ := by
  induction gap generalizing region front with
  | nil => rfl
  | cons c rest ih =>
      simp only [dropsAll, Bool.and_eq_true] at dropped
      have same : region.nest front open_ c = open_ := by
        rw [nest]
        split
        · rename_i outside
          rw [outside] at dropped
          have other : c ≠ '(' ∧ c ≠ ')' := by
            constructor <;> rintro rfl <;> exact absurd dropped.1 (by decide)
          rw [if_neg other.1, if_neg other.2]
        · rfl
      rw [unclosedFrom, same]
      exact ih dropped.2 _

theorem of_unclosed {text front : Text} (member : front ∈ unclosed text) :
    of front = pattern .outside ∧ ∃ more, text = front ++ '(' :: more := by
  induction text using List.reverseRecOn with
  | nil => contradiction
  | append_singleton text c ih =>
      have earlier : front ∈ unclosed text →
          of front = pattern .outside ∧ ∃ more, text ++ [c] = front ++ '(' :: more := by
        intro member
        obtain ⟨outside, more, parts⟩ := ih member
        exact ⟨outside, more ++ [c], by rw [parts]; simp⟩
      rw [unclosed_concat, nest] at member
      split at member
      · rename_i outside
        split at member
        · rename_i opens
          rcases List.mem_cons.mp member with rfl | member
          · exact ⟨outside, [], by rw [opens]⟩
          · exact earlier member
        split at member
        · exact earlier (List.mem_of_mem_tail member)
        · exact earlier member
      · exact earlier member

/-- A text of which nothing but the first character may open or close a group. -/
def Tame (region : Region) (text : Text) : Prop :=
  ∀ front c back, text = front ++ c :: back → front ≠ [] →
    region.after front = pattern .outside → Construct.isInner c = true

theorem Tame.of_inner {region : Region} {c : Char} {rest : Text}
    (inner : ∀ d ∈ rest, Construct.isInner d = true) : region.Tame (c :: rest) := by
  intro front d back parts filled _
  cases front with
  | nil => exact absurd rfl filled
  | cons e front =>
      apply inner
      rw [(List.cons.inj parts).2]
      simp

theorem Tame.of_within {place : Place} {text : Text} (stays : place.within text = true) :
    (pattern place).Tame text := by
  intro front c back parts _ outside
  rw [parts, Place.within_append, Bool.and_eq_true] at stays
  rw [after_within stays.1] at outside
  exact absurd (pattern.inj outside)
    (Place.ne_outside_of_inside (Place.inside_after_of_within stays.1))

theorem Tame.left {region : Region} {first second : Text} (tame : region.Tame (first ++ second)) :
    region.Tame first := by
  intro front c back parts
  apply tame front c (back ++ second)
  rw [parts]
  simp

theorem Tame.unclosedFrom {region : Region} {c : Char} {rest : Text}
    (tame : region.Tame (c :: rest)) (front : Text) (open_ : List Text) :
    unclosedFrom region front open_ (c :: rest) = region.nest front open_ c := by
  induction rest using List.reverseRecOn with
  | nil => rfl
  | append_singleton rest d ih =>
      have split : c :: (rest ++ [d]) = (c :: rest) ++ [d] := rfl
      rw [split] at tame ⊢
      rw [unclosedFrom_append, ih tame.left]
      change nest _ _ _ d = _
      rw [nest]
      split
      · rename_i outside
        have inner := tame (c :: rest) d [] rfl (by simp) outside
        have other : d ≠ '(' ∧ d ≠ ')' := by
          constructor <;> rintro rfl <;> exact absurd inner (by decide)
        rw [if_neg other.1, if_neg other.2]
      · rfl

theorem Tame.unclosed {text : Text} {c : Char} {rest : Text} (tame : (of text).Tame (c :: rest)) :
    Region.unclosed (text ++ c :: rest) = (of text).nest text (Region.unclosed text) c := by
  rw [unclosed_append]
  exact tame.unclosedFrom _ _

/-- A text with the given property, and behind it a gap. -/
def Trails (core : Text → Prop) (text : Text) : Prop :=
  ∃ front gap, text = front ++ gap ∧ of front = pattern .outside ∧ isGap gap = true ∧ core front

def Tight (core : Text → Prop) : Prop :=
  ∀ text, core text → ∃ front c, text = front ++ [c] ∧ (of front).drops c = false

theorem Trails.of_core {core : Text → Prop} {text : Text} (outside : of text = pattern .outside)
    (holds : core text) : Trails core text :=
  ⟨text, [], by simp, outside, rfl, holds⟩

theorem Trails.outside {core : Text → Prop} {text : Text} (trails : Trails core text)
    {place : Place} (here : of text = pattern place) : place = .outside := by
  obtain ⟨front, gap, rfl, outside, dropped, _⟩ := trails
  exact outside_of_gap outside dropped here

theorem Trails.split {core : Text → Prop} {text word : Text} (trails : Trails core (text ++ word)) :
    Trails core text ∧ (of text).dropsAll word = true ∨
      ∃ first second, first ≠ [] ∧ word = first ++ second ∧ core (text ++ first) := by
  obtain ⟨front, gap, parts, outside, dropped, holds⟩ := trails
  rcases List.append_eq_append_iff.mp parts with ⟨first, rfl, added⟩ | ⟨later, rfl, added⟩
  · cases first with
    | nil =>
        rw [List.append_nil] at outside holds
        rw [List.nil_append] at added
        subst added
        exact Or.inl ⟨Trails.of_core outside holds, by rw [outside]; exact dropped⟩
    | cons c first => exact Or.inr ⟨c :: first, gap, by simp, added, holds⟩
  · subst added
    rw [isGap, dropsAll_append, Bool.and_eq_true] at dropped
    refine Or.inl ⟨⟨front, later, rfl, outside, dropped.1, holds⟩, ?_⟩
    rw [of_append, outside]
    exact dropped.2

theorem trails_gap {core : Text → Prop} (tight : Tight core) {text gap : Text}
    (outside : of text = pattern .outside) (dropped : isGap gap = true) :
    Trails core (text ++ gap) ↔ Trails core text := by
  constructor
  · intro trails
    rcases trails.split with ⟨earlier, _⟩ | ⟨first, second, filled, rfl, holds⟩
    · exact earlier
    · -- the last character of the property would be dropped
      exfalso
      obtain ⟨front, c, parts, kept⟩ := tight _ holds
      obtain ⟨inner, last, rfl⟩ := List.eq_nil_or_concat first |>.resolve_left filled
      rw [List.concat_eq_append, ← List.append_assoc] at parts
      obtain ⟨rfl, ends⟩ := List.append_inj' parts rfl
      cases ends
      rw [of_append] at kept
      rw [List.concat_eq_append, isGap, dropsAll_append, dropsAll_append, ← outside] at dropped
      simp [dropsAll, kept] at dropped
  · rintro ⟨front, early, rfl, begins, dropped', holds⟩
    refine ⟨front, early ++ gap, by simp, begins, ?_, holds⟩
    rw [of_append, begins] at outside
    rw [isGap, dropsAll_append, outside, Bool.and_eq_true]
    exact ⟨dropped', dropped⟩

end Region

end PatternDialect
