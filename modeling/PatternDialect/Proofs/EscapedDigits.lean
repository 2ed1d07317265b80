import PatternDialect.Proofs.Enclosures
import PatternDialect.Proofs.Zeros

/-! A backslash before digits.

Outside classes and comments it is a reference behind a lookahead that holds a single
capture.  Elsewhere `\0` stands for the character and all other digits are refused.
Main statement: which of the three it is can be told from the pattern before it, and a
digit of the source joins a `\0` only where a comment has stood between them. -/

namespace PatternDialect

open Character Source Conversion

namespace Region

/-- A `\0` of a pattern that stands for the character, by what is before it. -/
structure Kept (whole front : Text) : Prop where
  outside : of front = pattern .outside
  free : ¬ Behind front
  alone : ∃ back, whole = front ++ '\\' :: '0' :: back ∧ back.head?.all (!isDigit ·) = true

/-- So many of them stand in the part of the pattern that has been read. -/
def KeptCount (whole : Text) (read count : Nat) : Prop :=
  ∃ fronts : List Text, fronts.Pairwise (fun front later => front.length < later.length) ∧
    (∀ front, front ∈ fronts ↔ Kept whole front ∧ front.length + 2 ≤ read) ∧ fronts.length = count

theorem KeptCount.later {whole : Text} {read later count : Nat}
    (counted : KeptCount whole read count) (onward : read ≤ later)
    (none_ : ∀ front, Kept whole front → front.length + 2 ≤ later → front.length + 2 ≤ read) :
    KeptCount whole later count := by
  obtain ⟨fronts, sorted, members, length⟩ := counted
  refine ⟨fronts, sorted, fun front => (members front).trans (and_congr_right fun kept => ?_),
    length⟩
  exact ⟨fun early => Nat.le_trans early onward, none_ front kept⟩

theorem KeptCount.one_more {whole front : Text} {count : Nat}
    (counted : KeptCount whole front.length count) (kept : Kept whole front)
    (only : ∀ other, Kept whole other → other.length + 2 ≤ front.length + 2 →
      other.length + 2 ≤ front.length ∨ other = front) :
    KeptCount whole (front.length + 2) (count + 1) := by
  obtain ⟨fronts, sorted, members, length⟩ := counted
  refine ⟨fronts ++ [front], ?_, fun other => ?_, by simp [length]⟩
  · rw [List.pairwise_append]
    refine ⟨sorted, List.pairwise_singleton _ _, fun early member later last => ?_⟩
    rw [List.mem_singleton.mp last]
    have bound := ((members early).mp member).2
    omega
  · rw [List.mem_append, List.mem_singleton, members]
    constructor
    · rintro (⟨kept, early⟩ | rfl)
      · exact ⟨kept, by omega⟩
      · exact ⟨kept, Nat.le_refl _⟩
    · rintro ⟨kept, early⟩
      exact (only other kept early).imp (fun bound => ⟨kept, bound⟩) id

/-- Such a `\0` at the end of a text, behind which nothing is put to keep what follows
apart. -/
def Bare (whole text : Text) : Prop :=
  ∃ front, text = front ++ ['\\', '0'] ∧ Kept whole front ∧
    State.joins (whole.drop text.length) = false

theorem tight_bare (whole : Text) : Tight (Bare whole) := by
  rintro _ ⟨front, rfl, kept, _⟩
  refine ⟨front ++ ['\\'], '0', by simp, ?_⟩
  rw [of_append, kept.outside]
  rfl

def Meets (core : Text → Prop) (text : Text) : Prop :=
  ∃ front d back, text = front ++ d :: back ∧ isDigit d = true ∧ of front = pattern .outside ∧
    Trails core front

variable {core : Text → Prop} {text : Text}

theorem Meets.append (meets : Meets core text) (word : Text) : Meets core (text ++ word) := by
  obtain ⟨front, d, back, rfl, digit, outside, trails⟩ := meets
  exact ⟨front, d, back ++ word, by simp, digit, outside, trails⟩

theorem Meets.split {word : Text} (meets : Meets core (text ++ word)) :
    Meets core text ∨ ∃ first d second, word = first ++ d :: second ∧ isDigit d = true ∧
      of (text ++ first) = pattern .outside ∧ Trails core (text ++ first) := by
  obtain ⟨front, d, back, parts, digit, outside, trails⟩ := meets
  rcases List.append_eq_append_iff.mp parts with ⟨first, rfl, added⟩ | ⟨later, rfl, added⟩
  · exact Or.inr ⟨first, d, back, added, digit, outside, trails⟩
  · cases later with
    | nil =>
        rw [List.nil_append] at added
        exact Or.inr ⟨[], d, back, added.symm, digit, by simpa using outside, by simpa using trails⟩
    | cons e later =>
        obtain ⟨rfl, rfl⟩ := List.cons.inj added
        exact Or.inl ⟨front, d, later, rfl, digit, outside, trails⟩

theorem meets_gap {gap : Text} (outside : of text = pattern .outside) (dropped : isGap gap = true) :
    Meets core (text ++ gap) ↔ Meets core text := by
  refine ⟨fun meets => ?_, fun meets => meets.append gap⟩
  rcases meets.split with earlier | ⟨first, d, second, rfl, digit, here, _⟩
  · exact earlier
  · rw [of_append, outside] at here
    rw [isGap, dropsAll_append, here, Bool.and_eq_true] at dropped
    have breaks : isBreak d = true := by
      have first := dropped.2
      simp only [dropsAll, drops, Bool.and_eq_true] at first
      exact first.1.2
    rw [isDigit_of_isBreak breaks] at digit
    contradiction

theorem meets_word (core : Text → Prop) {c : Char} {tail : Text} (kept : (of text).drops c = false)
    (silent : ∀ first second, c :: tail = c :: (first ++ second) → ¬ core (text ++ c :: first)) :
    ¬ Trails core (text ++ c :: tail) ∧ (Meets core (text ++ c :: tail) ↔
      Meets core text ∨ isDigit c = true ∧ of text = pattern .outside ∧ Trails core text) := by
  have never : ∀ first second, c :: tail = c :: (first ++ second) →
      ¬ Trails core (text ++ c :: first) := by
    intro first second word trails
    obtain ⟨inner, outer, parts, holds⟩ := trails.of_kept kept
    refine silent inner (outer ++ second) ?_ holds
    rw [word, (List.cons.inj parts).2, List.append_assoc]
  refine ⟨never tail [] (by simp), ?_, ?_⟩
  · intro meets
    rcases meets.split with earlier | ⟨first, d, second, word, digit, outside, trails⟩
    · exact Or.inl earlier
    · cases first with
      | nil =>
          obtain ⟨rfl, rfl⟩ := List.cons.inj word
          rw [List.append_nil] at outside trails
          exact Or.inr ⟨digit, outside, trails⟩
      | cons e first =>
          obtain ⟨rfl, rfl⟩ := List.cons.inj word
          exact absurd trails (never first (d :: second) rfl)
  · rintro (earlier | ⟨digit, outside, trails⟩)
    · exact earlier.append _
    · exact ⟨text, c, tail, rfl, digit, outside, trails⟩

/-- A `\0` that stands for the character, and a digit behind it with a comment between
them. -/
def Joined (text : Text) : Prop :=
  ∃ front gap d back, text = front ++ '\\' :: '0' :: (gap ++ d :: back) ∧
    of front = pattern .outside ∧ ¬ Behind front ∧ isGap gap = true ∧ '#' ∈ gap ∧
      of (front ++ '\\' :: '0' :: gap) = pattern .outside ∧ isDigit d = true

theorem firstSignificant?_gap {gap : Text} (dropped : isGap gap = true) (more : Text) :
    Text.firstSignificant? (gap ++ more) =
      if '#' ∈ gap then some '#' else Text.firstSignificant? more := by
  induction gap with
  | nil => simp
  | cons c rest ih =>
      by_cases hash : c = '#'
      · subst hash
        simp [Text.firstSignificant?, show isBlank '#' = false from rfl]
      · simp only [isGap, dropsAll, drops, beq_self_eq_true, Bool.true_and,
          Bool.and_eq_true] at dropped
        have blank : isBlank c = true := by simpa [isBreak, hash] using dropped.1
        have plain : c ≠ '\\' ∧ c ≠ '[' := by
          constructor <;> rintro rfl <;> exact absurd blank (by decide)
        have stays : (pattern .outside).next c = pattern .outside := by
          simp [next, hash, Place.next, plain]
        rw [stays] at dropped
        rw [List.cons_append, Text.firstSignificant?, List.find?_cons_of_neg (by simp [blank])]
        refine (ih dropped.2).trans ?_
        simp [Ne.symm hash]

theorem joins_gap {gap : Text} (dropped : isGap gap = true) {d : Char} (digit : isDigit d = true)
    {back : Text} (alone : (gap ++ d :: back).head?.all (!isDigit ·) = true) :
    State.joins (gap ++ d :: back) = false ↔ '#' ∈ gap := by
  have visible : isBlank d = false := by
    rw [Bool.eq_false_iff]
    intro blank
    rw [isDigit_of_isBlank blank] at digit
    contradiction
  have first : Text.firstSignificant? (d :: back) = some d := by
    simp [Text.firstSignificant?, visible]
  rw [State.joins, firstSignificant?_gap dropped, first]
  by_cases comment : '#' ∈ gap
  · simp [comment, isDigit]
  · cases gap with
    | nil => simp [digit] at alone
    | cons c rest =>
        have other : c ≠ '#' := fun equality => comment (by simp [equality])
        simp only [isGap, dropsAll, drops, Bool.and_eq_true] at dropped
        have blank : isBlank c = true := by simpa [isBreak, other] using dropped.1
        simp [comment, blank, digit]

theorem meets_bare (text : Text) : Meets (Bare text) text ↔ Joined text := by
  constructor
  · rintro ⟨_, d, back, parts, digit, outside, _, gap, rfl, _, dropped, front, rfl, kept, apart⟩
    have whole : text = front ++ '\\' :: '0' :: (gap ++ d :: back) := by simpa using parts
    have behind : text.drop (front ++ ['\\', '0']).length = gap ++ d :: back := by
      rw [parts, List.append_assoc, List.drop_left]
    obtain ⟨left, same, alone⟩ := kept.alone
    have rest : left = gap ++ d :: back := by
      rw [whole] at same
      simpa using same.symm
    rw [rest] at alone
    rw [behind] at apart
    refine ⟨front, gap, d, back, whole, kept.outside, kept.free, dropped,
      (joins_gap dropped digit alone).mp apart, ?_, digit⟩
    simpa using outside
  · rintro ⟨front, gap, d, back, rfl, outside, free, dropped, comment, here, digit⟩
    have alone : (gap ++ d :: back).head?.all (!isDigit ·) = true := by
      cases gap with
      | nil => contradiction
      | cons c rest =>
          simp only [isGap, dropsAll, drops, Bool.and_eq_true] at dropped
          simp [isDigit_of_isBreak dropped.1.2]
    have ends : of (front ++ ['\\', '0']) = pattern .outside := by
      rw [of_append, outside]
      rfl
    refine ⟨front ++ '\\' :: '0' :: gap, d, back, by simp, digit, here, front ++ ['\\', '0'], gap,
      by simp, ends, dropped, front, rfl, ⟨outside, free, _, rfl, alone⟩, ?_⟩
    rw [List.length_append, List.drop_length_add_append]
    exact (joins_gap dropped digit alone).mpr comment

/-- A backslash before digits, outside classes and comments and not escaped itself. -/
structure Digits (text front digits back : Text) : Prop where
  written : text = front ++ '\\' :: (digits ++ back)
  outside : of front = pattern .outside
  filled : digits ≠ []
  all : ∀ d ∈ digits, isDigit d = true
  ends : back.head?.all (!isDigit ·) = true

end Region

namespace Conversion

open Region

namespace State

variable {options : Options} {s next : State}

theorem Turn.escaped_word {word : Text} (turn : Turn options s word next)
    (place : s.place = .escape) :
    ∃ c, word = [c] ∧ isDigit c = false := by
  cases turn with
  | escaped c more rest _ noDigit => exact ⟨c, rfl, noDigit⟩
  | restore c more rest _ kept =>
      refine ⟨c, rfl, isDigit_of_isBreak ?_⟩
      simpa [isBreak] using kept
  | within _ more rest filled stays =>
      have inside := Place.inside_of_within stays
      rw [place] at inside
      contradiction
  | closeClass start more rest here => exact absurd (place.symm.trans here) (by decide)
  | _ => exact absurd (place.symm.trans ‹s.place = .outside›) (by decide)

theorem Turn.reads_nul {word first second front : Text} (turn : Turn options s word next)
    (region : of s.front = .pattern s.place) (parts : word = first ++ second) (filled : first ≠ [])
    (written : s.front ++ first = front ++ ['\\', '0']) (outside : of front = .pattern .outside) :
    first = ['\\', '0'] ∧ front = s.front ∧ s.place = .outside := by
  have here : front = s.front → s.place = .outside := by
    rintro rfl
    exact pattern.inj (region.symm.trans outside)
  rcases List.append_eq_append_iff.mp written with ⟨inner, same, added⟩ | ⟨inner, same, added⟩
  · cases inner with
    | nil =>
        rw [List.append_nil] at same
        exact ⟨added, same, here same⟩
    | cons c inner =>
        have tame := turn.tame (c :: inner) '\\' ('0' :: second) (by rw [parts, added]; simp)
          (by simp) (by rw [← region, ← of_append, ← same]; exact outside)
        exact absurd tame (by decide)
  · cases inner with
    | nil =>
        rw [List.append_nil] at same
        exact ⟨added.symm, same.symm, here same.symm⟩
    | cons c inner =>
        exfalso
        rw [List.cons_append, List.cons.injEq] at added
        obtain ⟨rfl, added⟩ := added
        cases inner with
        | cons d inner =>
            rw [List.cons_append, List.cons.injEq] at added
            exact filled (List.append_eq_nil_iff.mp added.2.symm).2
        | nil =>
            have escape : s.place = .escape := by
              rw [same, of_append, outside] at region
              exact (pattern.inj region).symm
            obtain ⟨c, rfl, noDigit⟩ := turn.escaped_word escape
            rw [List.nil_append] at added
            rw [← added, List.cons_append, List.cons.injEq] at parts
            rw [parts.1] at noDigit
            contradiction

theorem Turn.kept_within {word front : Text} (turn : Turn options s word next)
    (region : of s.front = .pattern s.place) (kept : Kept s.text front)
    (early : front.length + 2 ≤ next.front.length) :
    front.length + 2 ≤ s.front.length ∨
      front = s.front ∧ s.place = .outside ∧ ∃ tail, word = '\\' :: '0' :: tail := by
  obtain ⟨reads, rest⟩ := turn.reads
  obtain ⟨back, whole, _⟩ := kept.alone
  have text : s.text = (s.front ++ word) ++ next.rest := by
    rw [State.text, rest, List.append_assoc]
    rfl
  have nul : front ++ ['\\', '0'] <+: s.text := ⟨back, by rw [whole]; simp⟩
  have read : s.front <+: s.text := ⟨word ++ next.rest, by rw [text]; simp⟩
  rw [reads, List.length_append] at early
  rcases Nat.lt_or_ge s.front.length (front.length + 2) with late | before
  · right
    obtain ⟨first, begins⟩ := List.prefix_of_prefix_length_le read nul
      (by rw [List.length_append]; exact Nat.le_of_lt late)
    obtain ⟨second, ends⟩ := List.prefix_of_prefix_length_le nul ⟨next.rest, text.symm⟩
      (by rw [List.length_append, List.length_append]; exact early)
    have parts : word = first ++ second := by
      rw [← begins, List.append_assoc] at ends
      exact (List.append_cancel_left ends).symm
    have filled : first ≠ [] := by
      rintro rfl
      have lengths := congrArg List.length begins
      simp only [List.append_nil, List.length_append, List.length_cons, List.length_nil] at lengths
      omega
    obtain ⟨rfl, same, place⟩ := turn.reads_nul region parts filled begins kept.outside
    exact ⟨same, place, second, parts⟩
  · exact Or.inl before

/-- The `\0`s of the output are those of the pattern, and so are the digits behind them. -/
structure Tracked (s : State) : Prop where
  count : KeptCount s.text s.front.length ((NulReader.start.marks s.out).count .nul)
  zero : (NulReader.start.after s.out).zero = true ↔ Trails (Bare s.text) s.front
  joined : .joined ∈ NulReader.start.marks s.out ↔ Meets (Bare s.text) s.front
  referred : s.referenceEnd = some s.out.size → (NulReader.start.after s.out).zero = false

theorem Tracked.start (text : Text) : (State.start text).Tracked where
  count := ⟨[], List.Pairwise.nil, by simp [State.front, State.start], rfl⟩
  zero := by
    refine ⟨fun never => by contradiction, ?_⟩
    rintro ⟨front, gap, parts, _, _, inner, rfl, _⟩
    simp [State.front, State.start] at parts
  joined := by
    refine ⟨fun never => by contradiction, ?_⟩
    rintro ⟨front, d, back, parts, _⟩
    simp [State.front, State.start] at parts
  referred := fun _ => rfl

theorem Turn.counted {word : Text} {count : Nat} (turn : Turn options s word next)
    (region : of s.front = .pattern s.place) (counted : KeptCount s.text s.front.length count)
    (other : s.place = .outside → ∀ tail, word = '\\' :: '0' :: tail → Behind s.front) :
    KeptCount next.text next.front.length count := by
  rw [turn.text_eq]
  refine counted.later (by rw [turn.reads.1]; simp) fun front kept early => ?_
  rcases turn.kept_within region kept early with before | ⟨rfl, place, tail, written⟩
  · exact before
  · exact absurd (other place tail written) kept.free

theorem Tracked.other (tracked : s.Tracked) (reached : s.Reached) (nonempty : s.rest ≠ [])
    {c : Char} {tail : Text} (turn : Turn options s (c :: tail) next)
    (head : s.place = .outside →
      isBreak c = false ∧ (c = '\\' → tail.head? = some '0' → Behind s.front))
    (marks : NulReader.start.marks next.out = NulReader.start.marks s.out ++
      if (NulReader.start.after s.out).zero && isDigit c then [.joined] else [])
    (zero : (NulReader.start.after next.out).zero = false) : next.Tracked := by
  have region := reached.region nonempty
  obtain ⟨front, _⟩ := turn.reads
  have solid : (of s.front).drops c = false := by
    rw [region, drops, Bool.and_eq_false_iff, beq_eq_false_iff_ne]
    by_cases outside : s.place = .outside
    · exact Or.inr (head outside).1
    · exact Or.inl outside
  obtain ⟨never, meets⟩ := meets_word (Bare s.text) solid fun first second word bare => by
    obtain ⟨inner, parts, kept, _⟩ := bare
    obtain ⟨written, rfl, outside⟩ := turn.reads_nul region word (by simp) parts kept.outside
    rw [List.cons.injEq] at written
    apply kept.free
    apply (head outside).2 written.1
    rw [(List.cons.inj word).2, written.2]
    rfl
  refine ⟨?_, ?_, ?_, fun _ => zero⟩
  · have same : (NulReader.start.marks next.out).count .nul =
        (NulReader.start.marks s.out).count .nul := by
      rw [marks, List.count_append]
      split <;> simp
    rw [same]
    refine turn.counted region tracked.count fun outside rest written => ?_
    obtain ⟨slash, rfl⟩ := List.cons.inj written
    exact (head outside).2 slash rfl
  · rw [zero, turn.text_eq, front]
    exact ⟨fun never => by contradiction, fun trails => absurd trails never⟩
  · have last : (.joined : NulReader.Mark) ∈
        (if (NulReader.start.after s.out).zero && isDigit c then [.joined] else []) ↔
          isDigit c = true ∧ of s.front = .pattern .outside ∧ Trails (Bare s.text) s.front := by
      rw [← tracked.zero]
      split
      · rename_i condition
        rw [Bool.and_eq_true] at condition
        have outside := (tracked.zero.mp condition.1).outside region
        simp [condition, region, outside]
      · rename_i condition
        simp only [Bool.and_eq_true, not_and] at condition
        simp only [List.not_mem_nil, false_iff]
        rintro ⟨digit, _, zero⟩
        exact condition zero digit
    rw [marks, turn.text_eq, front, meets, List.mem_append, tracked.joined, last]

theorem Tracked.inert (tracked : s.Tracked) (reached : s.Reached) (nonempty : s.rest ≠ [])
    {c : Char} {tail text : Text} (turn : Turn options s (c :: tail) next)
    (head : s.place = .outside →
      isBreak c = false ∧ (c = '\\' → tail.head? = some '0' → Behind s.front))
    (noDigit : isDigit c = false)
    (out : next.out = s.out ++ text) (inert : NulReader.Inert text) : next.Tracked := by
  obtain ⟨same, zero⟩ := inert.reads NulReader.start s.out
  rw [← out] at same zero
  refine tracked.other reached nonempty turn head ?_ zero
  simp [same, noDigit]

theorem parts_of_zero (zero : (NulReader.start.after s.out).zero = true) (after : Text) :
    s.parts after = false := by
  obtain ⟨front, out, _⟩ := NulReader.ended_of_zero zero
  have braces : s.inOpenBraces = false := by
    unfold inOpenBraces
    rw [out]
    simp [isSpecial]
  have body : ∀ next, s.continuesEscape next = false := by
    intro next
    unfold continuesEscape
    rw [out]
    simp [continuesBody]
  rw [parts, braces, Bool.false_or]
  cases Text.firstSignificant? after with
  | none => rfl
  | some c => exact body c

theorem Tracked.gap (tracked : s.Tracked) {word text : Text} (turn : Turn options s word next)
    (region : of s.front = .pattern s.place) (place : s.place = .outside)
    (dropped : isGap word = true) (out : next.out = s.out ++ text)
    (reference : next.referenceEnd = s.referenceEnd)
    (apart : text = [] ∨ NulReader.Inert text ∧ (NulReader.start.after s.out).zero = false) :
    next.Tracked := by
  have outside : of s.front = .pattern .outside := by rw [region, place]
  obtain ⟨front, _⟩ := turn.reads
  have same : (NulReader.start.after next.out).zero = (NulReader.start.after s.out).zero ∧
      NulReader.start.marks next.out = NulReader.start.marks s.out := by
    rw [out]
    rcases apart with rfl | ⟨inert, zero⟩
    · simp
    · rw [(inert.reads _ _).1, (inert.reads _ _).2, zero]
      exact ⟨rfl, rfl⟩
  refine ⟨?_, ?_, ?_, ?_⟩
  · rw [same.2]
    refine turn.counted region tracked.count fun _ tail written => ?_
    rw [written] at dropped
    contradiction
  · rw [same.1, tracked.zero, turn.text_eq, front]
    exact (trails_gap (tight_bare _) outside dropped).symm
  · rw [same.2, tracked.joined, turn.text_eq, front]
    exact (meets_gap outside dropped).symm
  · intro last
    rw [same.1]
    rcases apart with rfl | ⟨_, zero⟩
    · apply tracked.referred
      rw [← reference, last, out, List.append_nil]
    · exact zero

theorem spliceLast_iff (s : State) :
    s.SpliceLast ↔ s.splice.filter (·.stop == s.out.size) ≠ none := by
  rw [ne_eq, Option.filter_eq_none_iff]
  simp [SpliceLast]

theorem out_copied (word : Text) {more : Text} (rest : s.rest = word ++ more) :
    (s.copy word.length).out = s.out ++ word := by
  simp [rest]

theorem Reached.nulReader (reached : s.Reached) (nonempty : s.rest ≠ []) :
    (NulReader.start.after s.out).place = s.place := by
  obtain ⟨ledger, sound⟩ := reached.sound
  rw [NulReader.place_after]
  exact sound.tracks nonempty

theorem inert_separator : NulReader.Inert separator :=
  NulReader.inert_ordinary (by decide) (List.all_eq_true.mp (by decide))

theorem reads_nulText {n : NulReader} (outside : n.place = .outside) (more : Text) :
    n.marks (nulText more) = [.nul] ∧ (n.after (nulText more)).zero = !joins more := by
  have backslash : n.next '\\' = ⟨.escape, false⟩ := by simp [NulReader.next, outside, Place.next]
  have silent : n.mark '\\' = [] := NulReader.mark_eq_nil (by simp [isDigit]) (by rw [backslash])
  have digit : NulReader.next ⟨.escape, false⟩ '0' = ⟨.outside, true⟩ := rfl
  have noted : NulReader.mark ⟨.escape, false⟩ '0' = [.nul] := rfl
  rw [nulText, NulReader.marks, NulReader.marks, NulReader.after_cons,
    NulReader.after_cons, backslash, digit, silent, noted]
  cases joins more with
  | false => exact ⟨rfl, rfl⟩
  | true =>
      obtain ⟨quiet, zero⟩ := inert_separator ⟨.outside, true⟩
      simp [quiet, zero]

theorem Tracked.nul (tracked : s.Tracked) (reached : s.Reached) (aligned : s.Aligned) {more : Text}
    (rest : s.rest = '\\' :: '0' :: more) (place : s.place = .outside)
    (alone : more.head?.all (!isDigit ·) = true)
    (free : s.splice.filter (·.stop == s.out.size) = none)
    (turn : Turn options s ['\\', '0'] ((s.emit (nulText more)).skip 2)) :
    ((s.emit (nulText more)).skip 2).Tracked := by
  have nonempty : s.rest ≠ [] := by simp [rest]
  have region := reached.region nonempty
  have outside : of s.front = .pattern .outside := by rw [region, place]
  obtain ⟨front, _⟩ := turn.reads
  have out : ((s.emit (nulText more)).skip 2).out = s.out ++ nulText more := rfl
  obtain ⟨noted, zero⟩ :=
    reads_nulText (n := NulReader.start.after s.out)
      (by rw [reached.nulReader nonempty, place]) more
  have marks : NulReader.start.marks ((s.emit (nulText more)).skip 2).out =
      NulReader.start.marks s.out ++ [.nul] := by
    rw [out, NulReader.marks_append, noted]
  have whole : s.text = s.front ++ '\\' :: '0' :: more := by
    rw [State.text, rest]
    rfl
  have behind : s.text.drop (s.front ++ ['\\', '0']).length = more := by
    rw [whole, List.length_append, List.drop_length_add_append]
    rfl
  have kept : Kept s.text s.front := by
    refine ⟨outside, ?_, more, whole, alone⟩
    rw [← aligned.behind, spliceLast_iff, free]
    exact fun never => never rfl
  have trails : Trails (Bare s.text) (s.front ++ ['\\', '0']) ↔ joins more = false := by
    constructor
    · intro trails
      obtain ⟨first, second, word, inner, parts, kept, apart⟩ :=
        trails.of_kept (by rw [outside]; rfl)
      obtain ⟨written, _, _⟩ := turn.reads_nul region word (by simp) parts kept.outside
      rwa [written, behind] at apart
    · intro apart
      refine Trails.of_core (by rw [of_append, outside]; rfl) ⟨s.front, rfl, kept, ?_⟩
      rw [behind, apart]
  refine ⟨?_, ?_, ?_, ?_⟩
  · rw [marks, List.count_append, turn.text_eq, front, List.length_append]
    refine tracked.count.one_more kept fun other also early => ?_
    have bound : other.length + 2 ≤ ((s.emit (nulText more)).skip 2).front.length := by
      rw [front, List.length_append]
      exact early
    exact (turn.kept_within region also bound).imp id And.left
  · rw [turn.text_eq, front, out, NulReader.after_append, zero, trails, Bool.not_eq_true']
  · rw [turn.text_eq, front, marks, List.mem_append, tracked.joined]
    simp only [List.mem_singleton, reduceCtorEq, or_false]
    refine ⟨fun meets => meets.append _, fun meets => ?_⟩
    rcases meets.split with earlier | ⟨first, d, second, word, digit, here, _⟩
    · exact earlier
    · -- the zero stands behind a backslash, so it is not outside
      exfalso
      cases first with
      | nil =>
          rw [List.nil_append, List.cons.injEq] at word
          rw [← word.1] at digit
          contradiction
      | cons c first =>
          rw [List.cons_append, List.cons.injEq] at word
          obtain ⟨rfl, word⟩ := word
          obtain rfl : first = [] := by
            cases first with
            | nil => rfl
            | cons e first => simp at word
          rw [of_append, outside] at here
          exact absurd here (by decide)
  · intro last
    have low := (reached.followed _ last).1
    have longer : s.out.size < (s.out ++ nulText more).size :=
      Text.size_lt_append (by simp [nulText])
    rw [out] at low
    omega

theorem inert_closing {ledger : Ledger} (sound : s.Sound ledger) {frame : Frame}
    {frames : List Frame} (open_ : s.frames = frame :: frames) :
    NulReader.Inert (closing frame) := by
  have owned := sound.owned
  rw [open_, List.forall₂_cons_left_iff] at owned
  obtain ⟨_, _, own, _, _⟩ := owned
  have positive := (sound.fixed frame (by simp [open_])).positive
  unfold closing
  split
  · rename_i slot kind
    have same := (own.slotted slot (by rw [kind]; rfl)).1
    have parentheses : NulReader.Inert [')', ')'] := NulReader.inert_begun (by decide) (by simp)
    exact parentheses.append (NulReader.inert_reference (by omega))
  · exact NulReader.inert_begun (by decide) (by simp)

theorem Sound.apart {ledger : Ledger} (sound : s.Sound ledger) {q : Quantifier}
    {a : Atom} (found : s.quantified? q = some a) :
    NulReader.Apart (s.out.takeBytes a.start) (s.out.dropBytes a.start) := by
  rcases quantified_cases found with ⟨last, stop⟩ | ⟨_, _, unit, trailing, rfl⟩
  · exact NulReader.apart_of_anchored ((sound.atom a last).2 stop).2.anchored
  · obtain ⟨front, parts, _⟩ := Atom.trailingUnit?_sound trailing
    have start : s.out.size - unit.size = front.size := by
      rw [parts, Text.size_append]
      omega
    have apart := NulReader.apart_of_unit trailing parts
    change NulReader.Apart (s.out.takeBytes (s.out.size - unit.size))
      (s.out.dropBytes (s.out.size - unit.size))
    rw [start, parts, Text.takeBytes_size_append, Text.dropBytes_size_append]
    exact apart

theorem Sound.marks_repeated {ledger : Ledger} (sound : s.Sound ledger) (nonempty : s.rest ≠ [])
    (place : s.place = .outside) :
    NulReader.start.marks (s.prepared (s.atom.filter (·.stop == s.out.size))) =
      NulReader.start.marks s.out := by
  cases recorded : s.atom.filter (·.stop == s.out.size) with
  | none => rfl
  | some a =>
      obtain ⟨last, stop⟩ := Option.filter_eq_some_iff.mp recorded
      have repeatable := ((sound.atom a last).2 (by simpa using stop)).2
      exact (NulReader.marks_prepared repeatable.cuttable (sound.place nonempty place)
        (NulReader.apart_of_anchored repeatable.anchored)).1

theorem Sound.marks_possessed {ledger : Ledger} (sound : s.Sound ledger) (nonempty : s.rest ≠ [])
    (reach : s.groups.size ≤ Atom.searchReach) {q : Quantifier} (legible : q.amount.Legible)
    (place : s.place = .outside) {a : Atom} (found : s.quantified? q = some a) :
    NulReader.start.marks (s.possessed a q).out = NulReader.start.marks s.out ∧
      (NulReader.start.after (s.possessed a q).out).zero = false := by
  have here := sound.place nonempty place
  have cuttable := sound.cuttable nonempty reach place found
  obtain ⟨same, _, prepared, _, _⟩ := prepared_reads cuttable here
  obtain ⟨kept, apart⟩ := NulReader.marks_prepared cuttable here (sound.apart found)
  have small : ∀ n ∈ references (a.prepared s.out).1, n + 1 < Decimal.limit := by
    rw [same]
    exact sound.small reach
  rw [← kept]
  exact NulReader.marks_possess prepared apart small legible

theorem marks_plain (reader : (NulReader.start.after s.out).place = s.place)
    (place : s.place = .outside)
    (referred : s.referenceEnd = some s.out.size → (NulReader.start.after s.out).zero = false)
    {c : Char} {more : Text} (rest : s.rest = c :: more) :
    NulReader.start.marks s.copyPlain.out = NulReader.start.marks s.out ++
        (if (NulReader.start.after s.out).zero && isDigit c then [.joined] else []) ∧
      (NulReader.start.after s.copyPlain.out).zero = false := by
  rw [place] at reader
  rw [copyPlain_eq rest]
  change NulReader.start.marks (s.out ++ _) = _ ∧ (NulReader.start.after (s.out ++ _)).zero = false
  split
  · rename_i condition
    simp only [Bool.and_eq_true, beq_iff_eq] at condition
    have outside : (NulReader.start.after (s.out ++ separator)).place ≠ .escape := by
      rw [NulReader.after_append, NulReader.place_after, reader]
      decide
    obtain ⟨noted, zero⟩ := NulReader.reads_single outside c
    obtain ⟨same, parted⟩ := inert_separator.reads NulReader.start s.out
    rw [← List.append_assoc]
    constructor
    · rw [NulReader.marks_append, noted, same, parted, referred condition.2]
    · rw [NulReader.after_append _ (s.out ++ separator), zero]
  · obtain ⟨noted, zero⟩ := NulReader.reads_single (by rw [reader]; decide) c
    rw [NulReader.marks_append, NulReader.after_append, noted, zero]
    exact ⟨rfl, rfl⟩

theorem inert_render {q : Quantifier} (legible : q.amount.Legible) (ungreedy : Bool) :
    NulReader.Inert (q.render ungreedy) := by
  obtain ⟨filled, head, flat⟩ := render_spec legible ungreedy
  obtain ⟨c, rest, written⟩ := List.exists_cons_of_ne_nil filled
  rw [written] at head flat ⊢
  refine NulReader.inert_begun (by simpa using head) fun d member => ?_
  simp only [Place.isFlat, List.all_eq_true, Bool.and_eq_true, bne_iff_ne] at flat
  exact (flat d member).1.1

theorem marks_restored {front : Text} {c : Char} (outside : Place.outside.after front = .outside)
    (noDigit : isDigit c = false) :
    NulReader.start.marks (front ++ [c]) = NulReader.start.marks (front ++ ['\\']) ∧
      (NulReader.start.after (front ++ [c])).zero = false := by
  have ready : (NulReader.start.after front).place ≠ .escape := by
    rw [NulReader.place_after]
    change Place.outside.after front ≠ .escape
    rw [outside]
    decide
  obtain ⟨marks, zero⟩ := NulReader.reads_single ready c
  rw [NulReader.marks_append, NulReader.marks_append, NulReader.after_append, marks, zero,
    (NulReader.reads_single ready '\\').1, noDigit]
  exact ⟨rfl, rfl⟩

theorem Tracked.quantifier (tracked : s.Tracked) (reached : s.Reached) (nonempty : s.rest ≠ [])
    {q : Quantifier} (legible : q.amount.Legible) (turn : Turn options s q.text next)
    (same : NulReader.start.marks next.out = NulReader.start.marks s.out)
    (zero : (NulReader.start.after next.out).zero = false) : next.Tracked := by
  obtain ⟨c, tail, written, head, _⟩ := text_quantifier legible
  have noDigit := head_quantifier legible written
  rw [written] at turn
  refine tracked.other reached nonempty turn (fun _ => ⟨(solid_of_isInner head).1, ?_⟩) ?_ zero
  · exact fun slash => absurd slash (ne_of_isInner head).2.2
  · simp [same, noDigit]

theorem Tracked.turn (tracked : s.Tracked) (reached : s.Reached) (aligned : s.Aligned)
    (short : s.text.length < Atom.searchReach) (nonempty : s.rest ≠ []) {word : Text}
    (turn : Turn options s word next) : next.Tracked := by
  have taken := turn
  obtain ⟨ledger, sound⟩ := reached.sound
  have reader := reached.nulReader nonempty
  have region := reached.region nonempty
  have single : ∀ {c : Char}, c ≠ '\\' → isDigit c = false → NulReader.Inert [c] :=
    fun other noDigit => NulReader.inert_begun noDigit (List.forall_mem_singleton.mpr other)
  cases turn with
  | drop _ more rest place filled gap =>
      exact tracked.gap taken region place gap (by simp) rfl (Or.inl rfl)
  | part c more rest place blank parts =>
      refine tracked.gap taken region place ?_ rfl rfl (Or.inr ⟨inert_separator, ?_⟩)
      · simp [isGap, dropsAll, drops, isBreak, blank]
      · rw [Bool.eq_false_iff]
        intro zero
        rw [parts_of_zero zero] at parts
        contradiction
  | plain c more rest place kept other =>
      obtain ⟨marks, zero⟩ := marks_plain reader place tracked.referred rest
      exact tracked.other reached nonempty taken (fun _ => ⟨kept, by simp⟩) marks zero
  | letter l tail more rest place isLetter_ inner =>
      have slash : ∀ d ∈ l :: tail, d ≠ '\\' := fun d member => (ne_of_isInner (inner d member)).2.2
      have other : l ≠ '0' := by
        rintro rfl
        contradiction
      exact tracked.inert reached nonempty taken
        (fun _ => ⟨by decide, fun _ zero => absurd (Option.some.inj zero) other⟩) (by decide)
        (out_copied ('\\' :: l :: tail) rest)
        (NulReader.inert_backslash ⟨other, slash l (by simp)⟩ fun d member =>
          slash d (by simp [member]))
  | nul more rest place alone free => exact tracked.nul reached aligned rest place alone free taken
  | splice digits more splice rest place filled all last stop =>
      have positive := ((sound.splice splice last).2 stop).2.1
      exact tracked.inert reached nonempty taken
        (fun _ => ⟨by decide, fun _ _ => aligned.behind.mp ⟨splice, last, stop⟩⟩) (by decide) rfl
        (NulReader.inert_reference positive)
  | refer c tail more slot rest place head inner positive =>
      have ordinary : isBreak c = false ∧ isDigit c = false := by
        rcases head with rfl | ⟨rfl, _⟩ <;> decide
      refine tracked.inert reached nonempty taken (fun _ => ⟨ordinary.1, ?_⟩) ordinary.2 rfl
        (NulReader.inert_reference positive)
      rintro rfl zero
      rcases head with never | ⟨_, letter⟩
      · exact absurd never (by decide)
      · rw [zero] at letter
        exact absurd letter (by decide)
  | openClass more rest place =>
      exact tracked.inert reached nonempty taken (fun _ => ⟨by decide, by simp⟩) (by decide)
        (@out_copied { s with classStart := _ } ['['] _ rest) (single (by decide) (by decide))
  | anything more rest place =>
      exact tracked.inert reached nonempty taken (fun _ => ⟨by decide, by simp⟩) (by decide) rfl
        (NulReader.inert_begun (by decide) (by simp))
  | repeat_ q more rest legible place =>
      obtain ⟨marks, zero⟩ := (inert_render legible options.ungreedy).reads NulReader.start
        (s.prepared (s.atom.filter (·.stop == s.out.size)))
      exact tracked.quantifier reached nonempty legible taken
        (marks.trans (sound.marks_repeated nonempty place)) zero
  | possess q atom more rest legible place mark found =>
      obtain ⟨same, zero⟩ :=
        sound.marks_possessed nonempty (reached.reach short) legible place found
      exact tracked.quantifier reached nonempty legible taken same zero
  | enter inner more kind text slot rest place tail opening =>
      obtain ⟨filled, ordinary, _⟩ := opening_spec opening
      exact tracked.inert reached nonempty taken (fun _ => ⟨by decide, by simp⟩) (by decide) rfl
        (NulReader.inert_ordinary filled ordinary)
  | leave frame frames more rest place open_ =>
      obtain ⟨out, _⟩ := closed_eq frame frames rest
      exact tracked.inert reached nonempty taken (fun _ => ⟨by decide, by simp⟩) (by decide) out
        (inert_closing sound open_)
  | stray more rest place =>
      exact tracked.inert reached nonempty taken (fun _ => ⟨by decide, by simp⟩) (by decide)
        (out_copied [')'] rest) (single (by decide) (by decide))
  | within _ more rest filled stays =>
      obtain ⟨c, tail, rfl⟩ := List.exists_cons_of_ne_nil filled
      have other := Place.ne_outside_of_inside (Place.inside_of_within stays)
      have proper := NulReader.proper_start.after s.out
      obtain ⟨silent, zero⟩ := NulReader.marks_within proper (by rwa [reader])
      have idle := NulReader.zero_of_place proper (by rwa [reader])
      have out := out_copied (c :: tail) rest
      refine tracked.other reached nonempty taken (fun outside => absurd outside other) ?_ ?_
      · rw [out, NulReader.marks_append, silent, idle]
        rfl
      · rw [out, NulReader.after_append]
        exact zero
  | closeClass start more rest place =>
      exact tracked.inert reached nonempty taken
        (fun outside => absurd (place.symm.trans outside) (by decide)) (by decide)
        (out_copied [']'] rest) (single (by decide) (by decide))
  | escaped c more rest place noDigit =>
      have other : c ≠ '0' := by
        rintro rfl
        contradiction
      have out := out_copied [c] rest
      refine tracked.other reached nonempty taken
        (fun outside => absurd (place.symm.trans outside) (by decide)) ?_ ?_
      · rw [← List.length_singleton (a := c), out, NulReader.marks_append]
        simp [NulReader.marks, NulReader.mark, NulReader.next, noDigit, other]
      · rw [← List.length_singleton (a := c), out, NulReader.after_append]
        simp [NulReader.next, other]
  | restore c more rest place kept =>
      obtain ⟨front, out, outside, restored, _, _⟩ :=
        restore_spec rest (sound.place nonempty place) place kept
      have noDigit : isDigit c = false := isDigit_of_isBreak (by simpa [isBreak] using kept)
      obtain ⟨marks, zero⟩ := marks_restored outside noDigit
      rw [restored] at taken ⊢
      refine tracked.other reached nonempty taken
        (fun outside => absurd (place.symm.trans outside) (by decide)) ?_ zero
      rw [out, noDigit, Bool.and_false]
      exact marks.trans (List.append_nil _).symm

end State

variable {options : Options} {text : Text} {s : State} {states : List State}

theorem tracked_of_trace (trace : Trace options none (.start text) states s)
    (short : text.length < Atom.searchReach) : s.Tracked :=
  (trace.turns (fun s => s.Aligned ∧ s.Tracked)
    (fun reached short nonempty turn ⟨aligned, tracked⟩ =>
      ⟨aligned.turn reached short nonempty turn, tracked.turn reached aligned short nonempty turn⟩)
    short (.start text) ⟨.start text, .start text⟩).2.2

section Reached

variable {front digits back : Text} (trace : Trace options none (.start text) states s)
  (short : text.length < Atom.searchReach) (here : Digits text front digits back)
  (read : s.front = front)
include trace short here read

theorem step_at_digits :
    s.rest = '\\' :: (digits ++ back) ∧ (s.SpliceLast ↔ Behind front) ∧
      s.step options none = match s.splice.filter (·.stop == s.out.size) with
        | some splice =>
            .ok { ({ s with groups := s.groups.suppress splice.slot }.skip
              (digits.length + 1)).emitReference splice.slot with splice := none }
        | none => if digits = ['0'] then .ok s.nul else .error (.octalEscape ('\\' :: digits)) := by
  have rest : s.rest = '\\' :: (digits ++ back) := by
    have whole : s.front ++ s.rest = front ++ '\\' :: (digits ++ back) :=
      trace.text_eq.trans here.written
    rw [read] at whole
    exact List.append_cancel_left whole
  have region := (trace.reached short).region (by simp [rest])
  rw [read, here.outside] at region
  have behind := (State.aligned_of_trace trace short).behind
  rw [read] at behind
  exact ⟨rest, behind, step_digits (pattern.inj region).symm rest here.filled here.all here.ends
    (by decide)⟩

theorem step_behind (after : Behind front) :
    ∃ p next, s.splice = some p ∧ p.stop = s.out.size ∧ s.step options none = .ok next ∧
      next.front = front ++ '\\' :: digits ∧ next.out = s.out ++ Backreference.render p.slot ∧
        next.groups = s.groups.suppress p.slot := by
  obtain ⟨rest, behind, taken⟩ := step_at_digits trace short here read
  obtain ⟨p, recorded, stop⟩ := behind.mpr after
  have last : s.splice.filter (·.stop == s.out.size) = some p := by simp [recorded, stop]
  rw [last] at taken
  refine ⟨p, _, recorded, stop, taken, ?_, rfl, rfl⟩
  rw [← read]
  exact (@State.front_skip s ('\\' :: digits) back rest).1

theorem step_elsewhere (free : ¬ Behind front) :
    (digits = ['0'] → ∃ next, s.step options none = .ok next ∧ next.front = front ++ ['\\', '0'] ∧
        next.out = s.out ++ State.nulText back ∧ next.groups = s.groups) ∧
      (digits ≠ ['0'] → convert options none text = .error (.octalEscape ('\\' :: digits))) := by
  obtain ⟨rest, behind, taken⟩ := step_at_digits trace short here read
  have last : s.splice.filter (·.stop == s.out.size) = none := by
    by_contra recorded
    exact free (behind.mp (s.spliceLast_iff.mpr recorded))
  rw [last] at taken
  constructor
  · rintro rfl
    refine ⟨_, taken.trans (if_pos rfl), ?_⟩
    rw [State.nul_of_rest rest, ← read]
    exact ⟨(@State.front_skip s ['\\', '0'] back rest).1, rfl, rfl⟩
  · intro other
    rw [convert_eq_conclude, trace.conclude_eq]
    exact conclude_error (by simp [rest]) (taken.trans (if_neg other))

end Reached

theorem trace_to_end {result : Result} (ok : convert options none text = .ok result) :
    ∃ states final, Trace options none (.start text) states final ∧ final.rest = [] ∧
      result.source = final.out := by
  obtain ⟨final, ran, finished⟩ := run_of_convert ok
  obtain ⟨_, _, rfl⟩ := finish_eq_ok_iff.mp finished
  exact ⟨_, final, trace_of_run ran, rest_of_run (s := .start text) (Nat.le_refl _) ran, rfl⟩

/-- What is made of a backslash before digits.  Behind a lookahead that holds a single
capture it is a reference to that capture, which is hidden; elsewhere `\0` is emitted as it
is and all other digits are refused.  In the source there are as many `\0`s as were
kept, and a digit joins one exactly where a comment has stood between them. -/
theorem convert_escapedDigits (options : Options) {text : Text}
    (short : text.length < Atom.searchReach) :
    (∀ {front digits back : Text} {states : List State} {s : State}, Digits text front digits back →
      Trace options none (.start text) states s → s.front = front →
        (Behind front → ∃ p next, s.splice = some p ∧ p.stop = s.out.size ∧
          s.step options none = .ok next ∧ next.front = front ++ '\\' :: digits ∧
            next.out = s.out ++ Backreference.render p.slot ∧
              next.groups = s.groups.suppress p.slot) ∧
        (¬ Behind front →
          (digits = ['0'] → ∃ next, s.step options none = .ok next ∧
            next.front = front ++ ['\\', '0'] ∧ next.out = s.out ++ State.nulText back ∧
              next.groups = s.groups) ∧
          (digits ≠ ['0'] →
            convert options none text = .error (.octalEscape ('\\' :: digits))))) ∧
      ∀ {result : Result}, convert options none text = .ok result →
        (∀ {front digits back : Text}, Digits text front digits back →
          (Behind front ∨ digits = ['0']) ∧
            ∃ states s, Trace options none (.start text) states s ∧ s.front = front) ∧
          KeptCount text text.length ((NulReader.start.marks result.source).count .nul) ∧
            (.joined ∈ NulReader.start.marks result.source ↔ Joined text) := by
  refine ⟨fun here trace read => ⟨step_behind trace short here read,
    step_elsewhere trace short here read⟩, fun {result} ok => ?_⟩
  obtain ⟨states, final, trace, ends, source⟩ := trace_to_end ok
  have tracked := tracked_of_trace trace short
  have whole : final.text = text := trace.text_eq
  have read : final.front = text := by
    rw [← whole]
    simp [State.front, State.text, ends]
  rw [source]
  refine ⟨fun here => ?_, ?_, ?_⟩
  · obtain ⟨states, s, there, front⟩ :=
      trace.stops ends short (.start text) here.written here.outside
      (by decide) (by simp [State.front, State.start])
    refine ⟨?_, states, s, there, front⟩
    by_contra other
    rw [not_or] at other
    rw [(step_elsewhere there short here front other.1).2 other.2] at ok
    contradiction
  · have count := tracked.count
    rwa [whole, read] at count
  · have joined := tracked.joined
    rwa [whole, read, meets_bare] at joined

theorem convert_escapedDigits_comment :
    (∃ next, (State.start "\\0#c\n1".toList).step {} none = .ok next ∧
      next.front = "\\0".toList ∧ next.out = "\\0".toList ∧ next.groups = {}) ∧
      .joined ∈ NulReader.start.marks "\\01".toList ∧
        convert {} none "\\01".toList = .error (.octalEscape "\\01".toList) := by
  have free : ¬ Behind [] := by
    rintro ⟨front, gap, parts, _, _, inner, rfl, _⟩
    simp at parts
  have comment : Digits "\\0#c\n1".toList [] ['0'] "#c\n1".toList :=
    ⟨rfl, rfl, by decide, List.all_eq_true.mp rfl, rfl⟩
  have number : Digits "\\01".toList [] ['0', '1'] [] :=
    ⟨rfl, rfl, by decide, List.all_eq_true.mp rfl, rfl⟩
  have short : "\\0#c\n1".toList.length < Atom.searchReach := by decide
  refine ⟨?_, ?_, ?_⟩
  · exact (((convert_escapedDigits {} short).1 comment (Trace.done _) rfl).2 free).1 rfl
  · have converted : convert {} none "\\0#c\n1".toList = .ok ⟨"\\01".toList, {}, none⟩ := rfl
    exact ((convert_escapedDigits {} short).2 converted).2.2.mpr
      ⟨[], "#c\n".toList, '1', [], rfl, rfl, free, rfl, by decide, rfl, rfl⟩
  · exact (((convert_escapedDigits {} (by decide)).1 number (Trace.done _) rfl).2
      free).2 (by decide)

end Conversion

end PatternDialect
