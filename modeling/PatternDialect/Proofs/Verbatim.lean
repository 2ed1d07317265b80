import PatternDialect.Proofs.Direct
import PatternDialect.Proofs.Gaps

/-! Text that is copied as it stands.

A text is verbatim if no part of it that starts outside classes and escapes is something
that a conversion changes.  What its parts are depends on what follows them, so verbatim
texts do not join where the first ends in an amount and the second begins with a plus, or
where a digit or an angle makes a reference of what stands before it. -/

namespace PatternDialect

open Character

namespace Source

/-- The tails of a text that start outside classes and escapes. -/
def Place.tails : Place → Text → List Text
  | _, [] => []
  | place, c :: rest =>
      if place == .outside then (c :: rest) :: (place.next c).tails rest
      else (place.next c).tails rest

theorem Place.mem_tails {place : Place} {text tail : Text} :
    tail ∈ place.tails text ↔
      tail ≠ [] ∧ ∃ front, text = front ++ tail ∧ place.after front = .outside := by
  induction text generalizing place with
  | nil =>
      refine ⟨fun member => by contradiction, ?_⟩
      rintro ⟨filled, front, parts, _⟩
      exact absurd (List.append_eq_nil_iff.mp parts.symm).2 filled
  | cons c rest ih =>
      have later : tail ∈ (place.next c).tails rest ↔ tail ≠ [] ∧
          ∃ front, c :: rest = c :: front ++ tail ∧ place.after (c :: front) = .outside := by
        simp [ih]
      have first : (∃ front, c :: rest = front ++ tail ∧ place.after front = .outside) ↔
          (c :: rest = tail ∧ place = .outside) ∨
            ∃ front, c :: rest = c :: front ++ tail ∧ place.after (c :: front) = .outside := by
        constructor
        · rintro ⟨front, parts, outside⟩
          cases front with
          | nil => exact Or.inl ⟨parts, outside⟩
          | cons d front =>
              obtain rfl : c = d := (List.cons.inj parts).1
              exact Or.inr ⟨front, parts, outside⟩
        · rintro (⟨parts, outside⟩ | ⟨front, parts, outside⟩)
          · exact ⟨[], parts, outside⟩
          · exact ⟨c :: front, parts, outside⟩
      rw [first, and_or_left, ← later, Place.tails]
      split
      · rename_i outside
        simp only [beq_iff_eq] at outside
        rw [List.mem_cons]
        refine or_congr ⟨?_, fun whole => whole.2.1.symm⟩ Iff.rfl
        rintro rfl
        exact ⟨by simp, rfl, outside⟩
      · rename_i inside
        simp only [beq_iff_eq] at inside
        simp [inside]

theorem Place.tails_right {place : Place} {front back tail : Text}
    (outside : place.after front = .outside) (member : tail ∈ Place.outside.tails back) :
    tail ∈ place.tails (front ++ back) := by
  obtain ⟨filled, middle, rfl, here⟩ := Place.mem_tails.mp member
  refine Place.mem_tails.mpr ⟨filled, front ++ middle, by simp, ?_⟩
  rw [Place.after_append, outside, here]

end Source

open Source Backreference Conversion

/-- An amount and nothing else. -/
def isAmount : Text → Bool
  | [] => false
  | c :: rest =>
      if c = '{' then Repeat.braces? rest == some (c :: rest)
      else ['*', '+', '?'].contains c && rest.isEmpty

/-- Whether a backslash before a text is copied with what it escapes. -/
def escapesVerbatim : Text → Bool
  | [] => false
  | c :: rest =>
      if isDigit c then c == '0' && rest.head?.all (!isDigit ·)
      else !isBreak c && (c != 'k' || rest.head? != some '<')

/-- Whether what stands at the start of a text is copied, a closing parenthesis only where
no group is open. -/
def startsVerbatim (top : Bool) : Text → Bool
  | [] => true
  | c :: rest =>
      if ['*', '+', '?'].contains c then rest.head? != some '+'
      else if c = '{' then
        (Repeat.braces? rest).all fun braces => (rest.drop (braces.length - 1)).head? != some '+'
      else if c = '\\' then escapesVerbatim rest
      else if c = '$' then rest.head?.all fun d => !isDigit d && d != '<'
      else if c = ')' then top
      else !isBreak c && c != '('

structure Verbatim (top : Bool) (text : Text) : Prop where
  closed : Place.outside.after text = .outside
  starts : ∀ tail ∈ Place.outside.tails text, startsVerbatim top tail = true

variable {top : Bool} {front back : Text}

theorem Verbatim.right (verbatim : Verbatim top (front ++ back))
    (outside : Place.outside.after front = .outside) : Verbatim top back where
  closed := by
    have closed := verbatim.closed
    rwa [Place.after_append, outside] at closed
  starts tail member := verbatim.starts tail (Place.tails_right outside member)

/-! ### Cutting -/

theorem escapesVerbatim_left (starts : escapesVerbatim (front ++ back) = true)
    (filled : front ≠ []) : escapesVerbatim front = true := by
  cases front with
  | nil => contradiction
  | cons c rest =>
      simp only [List.cons_append, escapesVerbatim] at starts ⊢
      split at starts
      · rename_i digit
        rw [if_pos digit]
        cases rest with
        | nil => simp_all
        | cons d rest => exact starts
      · rename_i digit
        rw [if_neg digit]
        cases rest with
        | nil => simp_all
        | cons d rest => exact starts

theorem startsVerbatim_left (starts : startsVerbatim top (front ++ back) = true)
    (closed : Place.outside.after front = .outside) : startsVerbatim top front = true := by
  have head : ∀ rest : Text, ((rest ++ back).head? != some '+') = true →
      (rest.head? != some '+') = true := by
    intro rest other
    cases rest with
    | nil => rfl
    | cons d rest => exact other
  cases front with
  | nil => rfl
  | cons c rest =>
      simp only [List.cons_append, startsVerbatim] at starts ⊢
      split at starts
      · rename_i sign
        rw [if_pos sign]
        exact head _ starts
      rename_i sign
      rw [if_neg sign]
      split at starts
      · rename_i brace
        rw [if_pos brace]
        cases found : Repeat.braces? rest with
        | none => rfl
        | some braces =>
            obtain ⟨_, short⟩ := (Repeat.finds_braces _ _).mp found
            have fits : braces.length - 1 ≤ rest.length := by simpa using short.length_le
            simp only [Repeat.finds_braces.append found, Option.all_some,
              List.drop_append_of_le_length fits] at starts
            exact head _ starts
      rename_i brace
      rw [if_neg brace]
      split at starts
      · rename_i backslash
        rw [if_pos backslash]
        refine escapesVerbatim_left starts ?_
        rintro rfl
        subst backslash
        contradiction
      rename_i backslash
      rw [if_neg backslash]
      split at starts
      · rename_i dollar
        rw [if_pos dollar]
        cases rest with
        | nil => rfl
        | cons d rest => exact starts
      · rename_i dollar
        rwa [if_neg dollar]

theorem Verbatim.left (verbatim : Verbatim top (front ++ back))
    (outside : Place.outside.after front = .outside) : Verbatim top front := by
  refine ⟨outside, fun tail member => ?_⟩
  obtain ⟨filled, before, rfl, here⟩ := Place.mem_tails.mp member
  have whole : tail ++ back ∈ Place.outside.tails (before ++ tail ++ back) :=
    Place.mem_tails.mpr ⟨by simp [filled], before, by simp, here⟩
  refine startsVerbatim_left (verbatim.starts _ whole) ?_
  rwa [Place.after_append, here] at outside

/-! ### Joining -/

def endsAmount (text : Text) : Bool := (Place.outside.tails text).any isAmount

/-- Whether a character behind a text makes something else of it. -/
def completes (text : Text) (c : Char) : Bool :=
  (text == ['\\', '0'] || text == ['$']) && isDigit c ||
    (text == ['\\', 'k'] || text == ['$']) && c == '<'

/-- Whether a character goes on with what a text ends in. -/
def goesOn (text : Text) (c : Char) : Bool := (Place.outside.tails text).any (completes · c)

theorem completes_eq_false {c : Char} (digit : isDigit c = false) (angle : c ≠ '<') (text : Text) :
    completes text c = false := by
  simp [completes, digit, angle]

theorem goesOn_eq_false {c : Char} (digit : isDigit c = false) (angle : c ≠ '<') (text : Text) :
    goesOn text c = false := by
  simp [goesOn, completes_eq_false digit angle]

/-- Whether a text may follow another without joining with what the other ends in. -/
structure Apart (front back : Text) : Prop where
  amount : back.head? = some '+' → endsAmount front = false
  join : ∀ c, back.head? = some c → goesOn front c = false
  /-- Only a single character may go on with a count. -/
  count : back.length ≤ 1 ∨ back.head?.all (fun c => !isDigit c && c != ',' && c != '}') = true

theorem escapesVerbatim_append (starts : escapesVerbatim front = true)
    (join : ∀ c, back.head? = some c → completes ('\\' :: front) c = false) :
    escapesVerbatim (front ++ back) = true := by
  rcases front with _ | ⟨c, _ | ⟨d, rest⟩⟩
  · contradiction
  · cases back with
    | nil => exact starts
    | cons e back =>
        have apart := join e rfl
        simp only [List.singleton_append, escapesVerbatim] at starts ⊢
        split
        · rename_i digit
          rw [if_pos digit] at starts
          obtain rfl : c = '0' := by simpa using starts
          simpa [completes] using apart
        · rename_i digit
          rw [if_neg digit] at starts
          by_cases name : c = 'k'
          · subst name
            have kept : isBreak 'k' = false := rfl
            simpa [completes, kept] using apart
          · simpa [name] using starts
  · exact starts

theorem head?_append_ne_plus {text : Text} (other : (text.head? != some '+') = true)
    (ends : text = [] → back.head? ≠ some '+') : ((text ++ back).head? != some '+') = true := by
  cases text with
  | nil => simpa using ends rfl
  | cons d rest => exact other

/-- No plus is behind a count, also where the count is completed by the second text. -/
theorem bracesVerbatim_append
    (starts : (Repeat.braces? front).all (fun braces =>
      (front.drop (braces.length - 1)).head? != some '+') = true)
    (amount : back.head? = some '+' → isAmount ('{' :: front) = false)
    (count : back.length ≤ 1 ∨
      back.head?.all (fun c => !isDigit c && c != ',' && c != '}') = true) :
    (Repeat.braces? (front ++ back)).all (fun braces =>
      ((front ++ back).drop (braces.length - 1)).head? != some '+') = true := by
  cases found : Repeat.braces? (front ++ back) with
  | none => rfl
  | some braces =>
      obtain ⟨isCount, ⟨left, parts⟩⟩ := (Repeat.finds_braces _ _).mp found
      obtain ⟨inner, rfl, all⟩ := Repeat.inner_of_isCount isCount
      change inner ++ left = front ++ back at parts
      rw [Option.all_some, List.length_cons, Nat.add_sub_cancel, ← parts, List.drop_left]
      rcases List.append_eq_append_iff.mp parts with ⟨more, rfl, rfl⟩ | ⟨more, rfl, rfl⟩
      · -- the count ends before the second text
        have early : Repeat.braces? (inner ++ more) = some ('{' :: inner) :=
          (Repeat.finds_braces _ _).mpr ⟨isCount, List.prefix_append _ _⟩
        rw [early, Option.all_some, List.length_cons, Nat.add_sub_cancel, List.drop_left] at starts
        refine head?_append_ne_plus starts ?_
        rintro rfl plus
        have none_ := amount plus
        rw [isAmount, if_pos rfl, early] at none_
        simp at none_
      · -- the count reaches into the second text, which is a single character of it
        cases more with
        | nil =>
            have whole : Repeat.braces? front = some ('{' :: front) := by
              have early : Repeat.braces? (front ++ []) = some ('{' :: (front ++ [])) :=
                (Repeat.finds_braces _ _).mpr ⟨isCount, by simp⟩
              simpa using early
            change (left.head? != some '+') = true
            rw [bne_iff_ne]
            intro plus
            have none_ := amount plus
            rw [isAmount, if_pos rfl, whole] at none_
            simp at none_
        | cons d more =>
            rcases count with short | other
            · obtain rfl : left = [] := by
                rw [List.length_append, List.length_cons] at short
                exact List.length_eq_zero_iff.mp (by omega)
              rfl
            · have inside := all d (by simp)
              simp only [List.cons_append, List.head?_cons, Option.all_some,
                Bool.and_eq_true, bne_iff_ne, Bool.not_eq_true'] at other
              rcases inside with digit | rfl | rfl <;> simp_all

theorem startsVerbatim_append (starts : startsVerbatim top front = true) (filled : front ≠ [])
    (amount : back.head? = some '+' → isAmount front = false)
    (join : ∀ c, back.head? = some c → completes front c = false)
    (count : back.length ≤ 1 ∨
      back.head?.all (fun c => !isDigit c && c != ',' && c != '}') = true) :
    startsVerbatim top (front ++ back) = true := by
  cases front with
  | nil => contradiction
  | cons c rest =>
      simp only [List.cons_append, startsVerbatim] at starts ⊢
      split
      · rename_i sign
        rw [if_pos sign] at starts
        refine head?_append_ne_plus starts ?_
        rintro rfl plus
        have brace : c ≠ '{' := by
          rintro rfl
          contradiction
        have none_ := amount plus
        rw [isAmount, if_neg brace, sign] at none_
        contradiction
      rename_i sign
      rw [if_neg sign] at starts
      split
      · rename_i brace
        subst brace
        rw [if_pos rfl] at starts
        exact bracesVerbatim_append starts amount count
      rename_i brace
      rw [if_neg brace] at starts
      split
      · rename_i backslash
        subst backslash
        rw [if_pos rfl] at starts
        exact escapesVerbatim_append starts join
      rename_i backslash
      rw [if_neg backslash] at starts
      split
      · rename_i dollar
        subst dollar
        rw [if_pos rfl] at starts
        cases rest with
        | cons d rest => exact starts
        | nil =>
            cases back with
            | nil => rfl
            | cons d back => simpa [completes] using join d rfl
      · rename_i dollar
        rwa [if_neg dollar] at starts

theorem Verbatim.append (first : Verbatim top front) (second : Verbatim top back)
    (apart : Apart front back) : Verbatim top (front ++ back) := by
  refine ⟨by rw [Place.after_append, first.closed, second.closed], fun tail member => ?_⟩
  obtain ⟨filled, before, parts, here⟩ := Place.mem_tails.mp member
  rcases List.append_eq_append_iff.mp parts with ⟨middle, rfl, rfl⟩ | ⟨middle, rfl, rfl⟩
  · apply second.starts
    rw [Place.after_append, first.closed] at here
    exact Place.mem_tails.mpr ⟨filled, middle, rfl, here⟩
  · by_cases empty : middle = []
    · subst empty
      apply second.starts
      exact Place.mem_tails.mpr ⟨filled, [], rfl, rfl⟩
    · have inner : middle ∈ Place.outside.tails (before ++ middle) :=
        Place.mem_tails.mpr ⟨empty, before, rfl, here⟩
      refine startsVerbatim_append (first.starts _ inner) empty (fun plus => ?_)
        (fun c head => ?_) apart.count
      · have none_ := apart.amount plus
        rw [endsAmount, List.any_eq_false] at none_
        simpa using none_ _ inner
      · have none_ := apart.join c head
        rw [goesOn, List.any_eq_false] at none_
        simpa using none_ _ inner

/-! ### Words -/

theorem startsVerbatim_of_head {text : Text} (other : text.head? ≠ some ')') (level : Bool)
    (starts : startsVerbatim top text = true) : startsVerbatim level text = true := by
  cases text with
  | nil => rfl
  | cons c rest =>
      have closing : c ≠ ')' := by simpa using other
      simpa only [startsVerbatim, closing, if_false] using starts

theorem verbatim_one {c : Char} (starts : startsVerbatim top [c] = true)
    (other : c ≠ '\\' ∧ c ≠ '[') : Verbatim top [c] := by
  have next : Place.outside.next c = .outside := by simp [Place.next, other]
  exact ⟨next, by simpa [Place.tails] using starts⟩

theorem verbatim_escape {c : Char} (starts : escapesVerbatim [c] = true) :
    Verbatim top ['\\', c] :=
  ⟨rfl, by simpa [Place.tails, Place.next, startsVerbatim] using starts⟩

theorem tails_bracket {body tail : Text} (within : Place.inClass.within body = true)
    (member : tail ∈ Place.outside.tails ('[' :: body ++ [']'])) : tail = '[' :: body ++ [']'] := by
  obtain ⟨filled, front, parts, outside⟩ := Place.mem_tails.mp member
  cases front with
  | nil => exact parts.symm
  | cons c front =>
      obtain ⟨rfl, inside⟩ := List.cons.inj parts
      obtain ⟨more, rfl⟩ : front <+: body := by
        rcases List.append_eq_append_iff.mp inside with ⟨more, rfl, ends⟩ | ⟨more, rfl, _⟩
        · obtain ⟨rfl, _⟩ : more = [] ∧ _ := by
            simpa [filled] using List.append_eq_singleton_iff.mp ends.symm
          simp
        · exact List.prefix_append _ _
      rw [Place.within_append, Bool.and_eq_true] at within
      have stays := Place.inside_after_of_within within.1
      change Place.inClass.after front = .outside at outside
      rw [outside] at stays
      contradiction

theorem verbatim_bracket {body : Text} (inner : Syntax.isClassBody body = true) :
    Verbatim top ('[' :: body ++ [']']) := by
  obtain ⟨within, last⟩ :
      Place.inClass.within body = true ∧ Place.inClass.after body = .inClass := by
    simpa [Syntax.isClassBody] using inner
  refine ⟨?_, fun tail member => ?_⟩
  · change Place.inClass.after (body ++ [']']) = .outside
    rw [Place.after_append, last]
    rfl
  · rw [tails_bracket within member]
    rfl

/-- The characters of amounts are copied where no plus follows the first. -/
theorem verbatim_amounts {text : Text} (all : ∀ c ∈ text, Repeat.isAmount c = true)
    (plus : '+' ∉ text.tail) : Verbatim top text := by
  have flat : Place.isFlat text = true := by
    simp only [Place.isFlat, List.all_eq_true, Bool.and_eq_true, bne_iff_ne]
    intro c member
    obtain ⟨backslash, opening, _, parenthesis⟩ := Repeat.ne_of_isAmount (all c member)
    exact ⟨⟨backslash, opening⟩, parenthesis⟩
  refine ⟨(Reader.place_start text).symm.trans
    (congrArg Reader.place (Place.reads_of_flat flat []).1), fun tail member => ?_⟩
  obtain ⟨filled, front, rfl, _⟩ := Place.mem_tails.mp member
  obtain ⟨c, rest, rfl⟩ := List.exists_cons_of_ne_nil filled
  have behind : '+' ∉ rest := by
    intro held
    apply plus
    cases front <;> simp [held]
  have head : ∀ count, ((rest.drop count).head? != some '+') = true := by
    intro count
    rw [bne_iff_ne]
    exact fun first => behind (List.mem_of_mem_drop (List.mem_of_head? first))
  have amount := all c (by simp)
  simp only [startsVerbatim]
  split
  · exact head 0
  rename_i sign
  split
  · cases Repeat.braces? rest with
    | none => rfl
    | some braces => exact head _
  rename_i brace
  have other : ∀ d, Repeat.isAmount d = false → c ≠ d := by
    rintro d none_ rfl
    rw [none_] at amount
    contradiction
  have kept : isBreak c = false := by
    cases breaks : isBreak c with
    | false => rfl
    | true =>
        have outer := isInner_of_isBreak breaks
        simp [Construct.isInner, amount] at outer
  simp [other '\\' rfl, other ')' rfl, other '$' rfl, other '(' rfl, kept]

/-! ### Renumbering -/

/-- Where no digit but zero stands behind a backslash there are no references. -/
theorem reads_of_unnumbered (first amount : Nat) {place : Place} {text : Text}
    (unnumbered : ∀ front c back, text = front ++ c :: back → place.after front = .escape →
      isDigit c = true → c = '0') :
    Reader.after ⟨place, []⟩ text = ⟨place.after text, []⟩ ∧
      renumberFrom first amount place [] text = text := by
  induction text generalizing place with
  | nil => exact ⟨rfl, rfl⟩
  | cons c rest ih =>
      have kept : Reader.takes ⟨place, []⟩ c = false := by
        by_contra taken
        simp only [Reader.takes, List.isEmpty_nil, Bool.not_true, Bool.false_or, Bool.not_eq_false,
          Bool.and_eq_true, beq_iff_eq, bne_iff_ne] at taken
        exact taken.2.2 (unnumbered [] c rest rfl taken.2.1 taken.1)
      have next : Reader.next ⟨place, []⟩ c = ⟨place.next c, []⟩ := by simp [Reader.next, kept]
      obtain ⟨after, same⟩ := ih fun front d back parts escape =>
        unnumbered (c :: front) d back (by rw [parts]; rfl) escape
      have written := renumberFrom_other first amount kept rest
      rw [next] at written
      refine ⟨by rw [Reader.after_cons, next, after, Place.after_cons], written.trans ?_⟩
      rw [same]
      rfl

theorem Verbatim.reads {text : Text} (verbatim : Verbatim top text) (first amount : Nat) :
    Reader.after ⟨.outside, []⟩ text = ⟨.outside, []⟩ ∧
      renumber first amount text = text := by
  rw [renumber]
  have unnumbered : ∀ front c back, text = front ++ c :: back →
      Place.outside.after front = .escape → isDigit c = true → c = '0' := by
    rintro front c back rfl escape digit
    obtain ⟨before, rfl, outside⟩ := Place.split_of_escape escape
    have here : '\\' :: c :: back ∈ Place.outside.tails (before ++ ['\\'] ++ c :: back) :=
      Place.mem_tails.mpr ⟨by simp, before, by simp, outside⟩
    have starts : escapesVerbatim (c :: back) = true := verbatim.starts _ here
    rw [escapesVerbatim, if_pos digit, Bool.and_eq_true, beq_iff_eq] at starts
    exact starts.1
  have reads := reads_of_unnumbered first amount unnumbered
  rwa [verbatim.closed] at reads

/-! ### Reading -/

theorem Source.Place.bracket_of_after {place : Place} {text : Text} (inside : place.inside = true)
    (closed : place.after text = .outside) :
    ∃ body left, text = body ++ ']' :: left ∧ place.within body = true ∧
      place.after body = .inClass := by
  induction text generalizing place with
  | nil =>
      obtain rfl : place = .outside := closed
      contradiction
  | cons c rest ih =>
      by_cases ends : place = .inClass ∧ c = ']'
      · obtain ⟨rfl, rfl⟩ := ends
        exact ⟨[], rest, rfl, rfl, rfl⟩
      · have stays : (place.next c).inside = true := by
          cases place with
          | outside => contradiction
          | escape => contradiction
          | inClass =>
              have other : c ≠ ']' := by simpa using ends
              by_cases backslash : c = '\\' <;> simp [Place.next, Place.inside, other, backslash]
          | classEscape => rfl
        obtain ⟨body, left, rfl, within, last⟩ := ih stays closed
        exact ⟨c :: body, left, rfl, by simp [Place.within, inside, within], last⟩

theorem isBreak_of_startsVerbatim {c : Char} {rest : Text}
    (starts : startsVerbatim top (c :: rest) = true) : isBreak c = false := by
  cases breaks : isBreak c with
  | false => rfl
  | true =>
      have other : ∀ d, isBreak d = false → c ≠ d := by
        rintro d kept rfl
        rw [kept] at breaks
        contradiction
      simp [startsVerbatim, breaks, other '*' rfl, other '+' rfl, other '?' rfl, other '{' rfl,
        other '\\' rfl, other '$' rfl, other ')' rfl] at starts

namespace Conversion

open Syntax

/-- What may follow a verbatim text: nothing, a parenthesis or a backslash. -/
def Parted (tail : Text) : Prop := tail.head?.all (['(', ')', '\\'].contains ·) = true

theorem Parted.all {tail : Text} (parted : Parted tail) {p : Char → Bool}
    (known : ['(', ')', '\\'].all p = true) : tail.head?.all p = true := by
  cases tail with
  | nil => rfl
  | cons c rest =>
      have member : c ∈ ['(', ')', '\\'] := by simpa [Parted] using parted
      exact List.all_eq_true.mp known c member

variable {joined : Bool} {s : State} {text tail : Text}

/-- A part of a text that is read as itself. -/
structure Token (s : State) (text tail word left : Text) (next : State) : Prop where
  parts : text = word ++ left
  filled : word ≠ []
  closed : Place.outside.after word = .outside
  copied : Copies {} s (left ++ tail) word next

theorem token_quantifier (direct : Direct joined s) {q : Quantifier}
    (rest : s.rest = text ++ tail) (found : s.next? none = some (.quantifier q))
    (mark : q.possessive = false) (parted : Parted tail) :
    ∃ word left next, Token s text tail word left next := by
  obtain ⟨legible, more, written⟩ := Construct.stands_of_at? found
  have amounts := fun c => Quantifier.isAmount_of_mem_text legible (c := c)
  obtain ⟨left, rfl⟩ : q.text <+: text := by
    rw [rest] at written
    rcases List.append_eq_append_iff.mp written with ⟨more, inside, behind⟩ | ⟨left, rfl, _⟩
    · cases more with
      | nil => exact ⟨[], by simpa using inside⟩
      | cons c more =>
          have amount := amounts c (by simp [inside])
          have outer := parted.all (p := (!Repeat.isAmount ·)) rfl
          simp [behind, amount] at outer
    · exact ⟨left, rfl⟩
  have rendered : q.render false = q.text := by
    cases lazy : q.lazy <;> simp [Quantifier.render, Quantifier.text, mark, lazy]
  have flat : Place.isFlat q.text = true := by
    simp only [Place.isFlat, List.all_eq_true, Bool.and_eq_true, bne_iff_ne]
    intro c member
    obtain ⟨backslash, opening, _, parenthesis⟩ := Repeat.ne_of_isAmount (amounts c member)
    exact ⟨⟨backslash, opening⟩, parenthesis⟩
  obtain ⟨next, copied⟩ : ∃ next, Copies {} s (left ++ tail) (q.render false) next :=
    copies_quantifier direct found (by simpa using rest) mark
  obtain ⟨c, inner, amount, _⟩ := legible.head
  have closed : Place.outside.after q.text = .outside :=
    (Reader.place_start q.text).symm.trans (congrArg Reader.place (Place.reads_of_flat flat []).1)
  exact ⟨q.text, left, next, rfl, by simp [Quantifier.text, amount], closed, rendered ▸ copied⟩

theorem token_nul (direct : Direct joined s) {more : Text}
    (rest : s.rest = ('\\' :: '0' :: more) ++ tail)
    (free : s.splice.filter (·.stop == s.out.size) = none)
    (alone : (more ++ tail).head?.all (!isDigit ·) = true)
    (visible : (more ++ tail).head?.all (!isBlank ·) = true) :
    Token s ('\\' :: '0' :: more) tail ['\\', '0'] more (s.copy 2) := by
  have written : s.rest = '\\' :: (['0'] ++ (more ++ tail)) := by simpa using rest
  have step : s.step {} none = .ok s.nul := by
    rw [step_digits direct.pause.place written (by simp) (List.all_eq_true.mp rfl) alone
      (by simp), free]
    rfl
  have plain : s.nul = s.copy 2 := by
    have after : (s.rest.drop 2).head?.any isBlank = false := by
      rw [written]
      change (more ++ tail).head?.any isBlank = false
      cases next : (more ++ tail).head? with
      | none => rfl
      | some d => simpa [next] using visible
    simp only [State.nul, after, Bool.false_and, Bool.false_eq_true, ↓reduceIte]
  rw [plain] at step
  exact ⟨rfl, by simp, rfl, copies_word direct (by simp) written
    (direct.pause.copy_two (by simpa using written)).place (conclude_ok (by simp [rest]) step)⟩

theorem token_escape (direct : Direct joined s) {c : Char} {more : Text}
    (rest : s.rest = ('\\' :: c :: more) ++ tail)
    (starts : escapesVerbatim (c :: (more ++ tail)) = true)
    (visible : (more ++ tail).head?.all (!isBlank ·) = true)
    (free : c = '0' → s.splice.filter (·.stop == s.out.size) = none) :
    Token s ('\\' :: c :: more) tail ['\\', c] more (s.copy 2) := by
  rw [escapesVerbatim] at starts
  split at starts
  · obtain ⟨zero, alone⟩ := Bool.and_eq_true_iff.mp starts
    obtain rfl : c = '0' := by simpa using zero
    exact token_nul direct rest (free rfl) alone visible
  · rename_i digit
    obtain ⟨kept, name⟩ : isBreak c = false ∧ (c = 'k' → (more ++ tail).head? ≠ some '<') := by
      simpa [imp_iff_not_or] using starts
    have plain : (isDigit c || isBlank c || c == '#') = false := by
      simpa [isBreak, digit, and_assoc] using kept
    exact ⟨rfl, by simp, rfl, copies_escape direct plain rest name⟩

theorem token_bracket (direct : Direct joined s) {more : Text}
    (rest : s.rest = ('[' :: more) ++ tail) (closed : Place.inClass.after more = .outside) :
    ∃ word left next, Token s ('[' :: more) tail word left next := by
  obtain ⟨body, left, rfl, within, last⟩ := Place.bracket_of_after rfl closed
  have inner : isClassBody body = true := by simp [isClassBody, within, last]
  obtain ⟨next, copied⟩ : ∃ next, Copies {} s (left ++ tail) ('[' :: body ++ [']']) next :=
    copies_bracket direct inner (by simpa using rest)
  refine ⟨_, left, next, by simp, by simp, ?_, copied⟩
  change Place.inClass.after (body ++ [']']) = .outside
  rw [Place.after_append, last]
  rfl

theorem afterDollar?_eq_none {text : Text}
    (apart : text.head?.all (fun d => !isDigit d && d != '<') = true) :
    Construct.afterDollar? text = none := by
  cases text with
  | nil => rfl
  | cons d rest =>
      obtain ⟨digit, angle⟩ : isDigit d = false ∧ d ≠ '<' := by simpa using apart
      simp [Construct.afterDollar?, digit]

theorem token_bare (direct : Direct joined s) {c : Char} {more : Text} (bare : isBare c = true)
    (rest : s.rest = (c :: more) ++ tail) (apart : joined = true → isDigit c = false)
    (dollar : c = '$' → Construct.afterDollar? (more ++ tail) = none)
    (brace : c = '{' → Repeat.braces? (more ++ tail) = none) :
    Token s (c :: more) tail [c] more (s.copy 1) := by
  have other : c ≠ '\\' ∧ c ≠ '[' := by
    constructor <;> rintro rfl <;> contradiction
  have step : s.step {} none = .ok (s.copy 1) :=
    step_itself direct bare rest apart dollar brace
  exact ⟨rfl, by simp, by simp [Place.next, other], copies_one direct rest other.1 step⟩

theorem token_sign (direct : Direct joined s) {c : Char} {more : Text}
    (sign : ['*', '+', '?'].contains c = true) (rest : s.rest = (c :: more) ++ tail)
    (mark : ((more ++ tail).head? != some '+') = true) (parted : Parted tail) :
    ∃ word left next, Token s (c :: more) tail word left next := by
  obtain ⟨amount, read⟩ : ∃ amount, Construct.plain? s.before (c :: (more ++ tail)) =
      some (.quantifier (.withMarks amount (more ++ tail))) := by
    simp only [List.contains_eq_mem, List.mem_cons, List.not_mem_nil, or_false,
      decide_eq_true_eq] at sign
    rcases sign with rfl | rfl | rfl
    · exact ⟨.star, rfl⟩
    · exact ⟨.plus, rfl⟩
    · exact ⟨.optional, rfl⟩
  refine token_quantifier direct rest ((State.next?_plain rest (by simp)).trans read) ?_ parted
  simpa [Quantifier.withMarks_eq] using mark

/-- A brace is the start of a count, or stands for itself. -/
theorem token_brace (direct : Direct joined s) {more : Text} (rest : s.rest = ('{' :: more) ++ tail)
    (mark : (Repeat.braces? (more ++ tail)).all (fun braces =>
      ((more ++ tail).drop (braces.length - 1)).head? != some '+') = true)
    (parted : Parted tail) : ∃ word left next, Token s ('{' :: more) tail word left next := by
  cases found : Repeat.braces? (more ++ tail) with
  | none =>
      exact ⟨_, _, _, token_bare direct (by decide) rest (fun _ => rfl)
        (fun same => absurd same (by decide)) fun _ => found⟩
  | some braces =>
      have read : Construct.plain? s.before ('{' :: (more ++ tail)) = some (.quantifier
          (.withMarks (.counted braces) ((more ++ tail).drop (braces.length - 1)))) := by
        rw [Construct.plain?_brace, Construct.afterBrace?, found]
        rfl
      refine token_quantifier direct rest ((State.next?_plain rest (by simp)).trans read) ?_ parted
      simpa [Quantifier.withMarks_eq, found] using mark

theorem startsVerbatim_parted (verbatim : Verbatim top text) (filled : text ≠ [])
    (parted : Parted tail) : startsVerbatim top (text ++ tail) = true := by
  have whole : text ∈ Place.outside.tails text := Place.mem_tails.mpr ⟨filled, [], rfl, rfl⟩
  refine startsVerbatim_append (verbatim.starts _ whole) filled ?_ ?_ (Or.inr (parted.all rfl))
  · intro plus
    have outer := parted.all (p := (· != '+')) rfl
    simp [plus] at outer
  · intro d head
    have outer := parted.all (p := fun d => !isDigit d && d != '<') rfl
    obtain ⟨digit, angle⟩ : isDigit d = false ∧ d ≠ '<' := by simpa [head] using outer
    exact completes_eq_false digit angle _

/-- The first part of a verbatim text. -/
theorem token_of_verbatim (verbatim : Verbatim top text) (direct : Direct joined s)
    (rest : s.rest = text ++ tail) (filled : text ≠ []) (parted : Parted tail)
    (level : top = true → s.frames = [])
    (apart : joined = true → text.head?.all (!isDigit ·) = true)
    (free : ['\\', '0'] <+: text → s.splice.filter (·.stop == s.out.size) = none) :
    ∃ word left next, Token s text tail word left next := by
  obtain ⟨c, more, rfl⟩ := List.exists_cons_of_ne_nil filled
  have starts : startsVerbatim top (c :: (more ++ tail)) = true :=
    startsVerbatim_parted verbatim filled parted
  simp only [startsVerbatim] at starts
  split at starts
  · rename_i sign
    exact token_sign direct sign rest starts parted
  rename_i sign
  split at starts
  · rename_i brace
    subst brace
    exact token_brace direct rest starts parted
  rename_i brace
  split at starts
  · rename_i backslash
    subst backslash
    cases more with
    | nil => exact absurd verbatim.closed (by decide)
    | cons d more =>
        refine ⟨_, _, _, token_escape direct rest starts ?_ ?_⟩
        · cases more with
          | nil => exact parted.all rfl
          | cons e more =>
              have next : e :: more ∈ Place.outside.tails ('\\' :: d :: e :: more) :=
                Place.mem_tails.mpr ⟨by simp, ['\\', d], rfl, rfl⟩
              have kept := isBreak_of_startsVerbatim (verbatim.starts _ next)
              simp_all [isBreak]
        · rintro rfl
          exact free (by simp)
  rename_i backslash
  split at starts
  · rename_i dollar
    subst dollar
    exact ⟨_, _, _, token_bare direct (by decide) rest (fun _ => rfl)
      (fun _ => afterDollar?_eq_none starts) fun same => absurd same (by decide)⟩
  rename_i dollar
  split at starts
  · rename_i closing
    subst closing
    exact ⟨_, more, _, rfl, by simp, rfl, copies_stray direct rest (level starts)⟩
  rename_i closing
  by_cases opening : c = '['
  · subst opening
    exact token_bracket direct rest verbatim.closed
  by_cases dot : c = '.'
  · subst dot
    exact ⟨_, more, _, rfl, by simp, rfl,
      copies_one direct rest (by decide) (step_native_dot rest)⟩
  · obtain ⟨_, parenthesis⟩ : isBreak c = false ∧ c ≠ '(' := by simpa using starts
    have bare : isBare c = true := by
      simp_all [isBare, isBreak]
    exact ⟨_, _, _, token_bare direct bare rest (fun on => by simpa using apart on)
      (fun same => absurd same dollar) fun same => absurd same brace⟩

theorem copies_verbatim (verbatim : Verbatim top text) (filled : text ≠ [])
    (direct : Direct joined s) (rest : s.rest = text ++ tail) (parted : Parted tail)
    (level : top = true → s.frames = [])
    (apart : joined = true → text.head?.all (!isDigit ·) = true)
    (bound : ∀ p, s.splice = some p → p.stop ≤ s.out.size)
    (free : ['\\', '0'] <+: text → s.splice.filter (·.stop == s.out.size) = none) :
    ∃ next, Copies {} s tail text next := by
  -- on the length of the text: what is left behind the first part is verbatim again
  induction length : text.length using Nat.strongRecOn generalizing text joined s with
  | ind n ih =>
      subst length
      obtain ⟨word, left, t, token⟩ :=
        token_of_verbatim verbatim direct rest filled parted level apart free
      obtain ⟨rfl, nonempty, closed, copied⟩ := token
      by_cases done : left = []
      · subst done
        rw [List.append_nil]
        exact ⟨t, copied⟩
      · have grown : s.out.size < t.out.size := by
          rw [copied.out]
          exact State.size_lt_append nonempty
        have outgrown : t.splice.filter (·.stop == t.out.size) = none := by
          rw [Option.filter_eq_none_iff, copied.splice]
          intro p last
          have before := bound p last
          simp only [beq_iff_eq]
          omega
        have shorter : left.length < (word ++ left).length := by
          have positive := List.length_pos_iff.mpr nonempty
          rw [List.length_append]
          omega
        obtain ⟨next, later⟩ := ih left.length shorter (verbatim.right closed) done
          copied.direct copied.rest (fun on => copied.level.trans (level on)) (by simp)
          (fun p last => by
            have before := bound p (copied.splice ▸ last)
            omega) (fun _ => outgrown) rfl
        exact ⟨next, copied.trans later⟩

end Conversion

end PatternDialect
