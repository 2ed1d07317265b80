import PatternDialect.Proofs.Units

/-! Offsets that stay good cuts while the source around them is rewritten.

An offset may come to lie in text that was moved: what it points at is then not
what was written there, but the source can still be cut at it. -/

namespace PatternDialect.Source

open Character Backreference

/-- Whether every backslash of a text stands before an ordinary character, where
the first character may be escaped already. -/
def calmFrom : Bool → Text → Bool
  | false, [] => true
  | true, [] => false
  | true, c :: rest => isOrdinary c && calmFrom false rest
  | false, c :: rest => calmFrom (c == '\\') rest

theorem isOrdinary_ne_backslash {c : Char} (ordinary : isOrdinary c = true) : c ≠ '\\' := by
  rintro rfl
  revert ordinary
  decide

theorem calmFrom_relax {escaped : Bool} {text : Text} (calm : calmFrom escaped text = true) :
    calmFrom false text = true := by
  cases escaped with
  | false => exact calm
  | true =>
      cases text with
      | nil => contradiction
      | cons c rest =>
          simp only [calmFrom, Bool.and_eq_true] at calm
          rw [calmFrom, beq_eq_false_iff_ne.mpr (isOrdinary_ne_backslash calm.1)]
          exact calm.2

theorem calmFrom_after {place : Place} {first second : Text}
    (calm : calmFrom place.isEscape (first ++ second) = true) :
    calmFrom (place.after first).isEscape second = true := by
  induction first generalizing place with
  | nil => exact calm
  | cons c rest ih =>
      apply ih
      rw [Place.isEscape_next]
      cases escape : place.isEscape with
      | false =>
          rw [escape, List.cons_append, calmFrom] at calm
          simpa using calm
      | true =>
          rw [escape, List.cons_append, calmFrom, Bool.and_eq_true] at calm
          rw [beq_eq_false_iff_ne.mpr (isOrdinary_ne_backslash calm.1)]
          exact calm.2

theorem calmFrom_next {place : Place} {c : Char} {rest : Text}
    (calm : calmFrom place.isEscape (c :: rest) = true) :
    calmFrom (place.next c).isEscape rest = true := by
  have behind : calmFrom (place.after [c]).isEscape rest = true := calmFrom_after calm
  exact behind

theorem calmFrom_ordinary {w : Text} (ordinary : ∀ c ∈ w, isOrdinary c = true) {text : Text}
    (calm : calmFrom false text = true) : calmFrom false (w ++ text) = true := by
  induction w with
  | nil => exact calm
  | cons c rest ih =>
      have first := ordinary c (by simp)
      rw [List.cons_append, calmFrom, beq_eq_false_iff_ne.mpr (isOrdinary_ne_backslash first)]
      exact ih fun d member => ordinary d (by simp [member])

theorem calmFrom_insert {w : Text} (nonempty : w ≠ []) (ordinary : ∀ c ∈ w, isOrdinary c = true)
    {escaped : Bool} {first second : Text} (calm : calmFrom escaped (first ++ second) = true) :
    calmFrom escaped (first ++ (w ++ second)) = true := by
  induction first generalizing escaped with
  | nil =>
      rw [List.nil_append] at calm ⊢
      have relaxed := calmFrom_relax calm
      cases w with
      | nil => exact absurd rfl nonempty
      | cons c rest =>
          have first := ordinary c (by simp)
          have others : calmFrom false (rest ++ second) = true :=
            calmFrom_ordinary (fun d member => ordinary d (by simp [member])) relaxed
          cases escaped with
          | false =>
              rw [List.cons_append, calmFrom,
                beq_eq_false_iff_ne.mpr (isOrdinary_ne_backslash first)]
              exact others
          | true =>
              rw [List.cons_append, calmFrom, Bool.and_eq_true]
              exact ⟨first, others⟩
  | cons c rest ih =>
      cases escaped with
      | false =>
          rw [List.cons_append, calmFrom] at calm ⊢
          exact ih calm
      | true =>
          rw [List.cons_append, calmFrom, Bool.and_eq_true] at calm ⊢
          exact ⟨calm.1, ih calm.2⟩

theorem calmFrom_reads {place : Place} {text more : Text}
    (calm : calmFrom place.isEscape (text ++ more) = true) :
    Reader.passed ⟨place, []⟩ text = [] ∧
      Reader.after ⟨place, []⟩ text = ⟨place.after text, []⟩ := by
  induction text generalizing place with
  | nil => exact ⟨rfl, rfl⟩
  | cons c rest ih =>
      have notTaken : Reader.takes ⟨place, []⟩ c = false := by
        by_cases escape : place = .escape
        · subst escape
          rw [Place.isEscape, List.cons_append, calmFrom, Bool.and_eq_true] at calm
          simp [Reader.takes, isDigit_of_ordinary calm.1]
        · simp [Reader.takes, escape]
      have next : Reader.next ⟨place, []⟩ c = ⟨place.next c, []⟩ := by
        simp [Reader.next, notTaken]
      obtain ⟨passed, after⟩ := ih (calmFrom_next calm)
      rw [Reader.passed_cons, Reader.after_cons, next, passed, notTaken]
      exact ⟨rfl, after⟩

theorem calmFrom_merges {text : Text} (calm : calmFrom false text = true)
    (leaves : Place.inClass.after text = .outside) : merges text = true := by
  fun_induction merges text with
  | case1 => contradiction
  | case2 => contradiction
  | case3 d rest ih =>
      simp only [calmFrom, beq_self_eq_true, Bool.and_eq_true] at calm
      rw [Bool.and_eq_true, Bool.or_eq_true]
      exact ⟨Or.inl (by simp [isDigit_of_ordinary calm.1]), ih calm.2 leaves⟩
  | case4 c rest notLast notEscape ih =>
      have unescaped : c ≠ '\\' := by
        intro backslash
        cases rest with
        | nil => exact notLast backslash rfl
        | cons d more => exact notEscape d more backslash rfl
      rw [calmFrom, beq_eq_false_iff_ne.mpr unescaped] at calm
      by_cases closing : c = ']'
      · simp [closing]
      · have stays : Place.inClass.next c = .inClass := by simp [Place.next, unescaped, closing]
        rw [Place.after_cons, stays] at leaves
        rw [Bool.or_eq_true]
        exact Or.inr (ih calm leaves)

theorem calmFrom_fits {place : Place} {first second : Text}
    (calm : calmFrom place.isEscape (first ++ second) = true)
    (leaves : place.after (first ++ second) = .outside) (nonempty : second ≠ []) :
    Reader.Fits ⟨place.after first, []⟩ second := by
  have behind := calmFrom_after calm
  rw [Place.after_append] at leaves
  cases second with
  | nil => exact absurd rfl nonempty
  | cons c rest =>
      cases middle : place.after first with
      | outside => simp [Reader.Fits]
      | escape =>
          rw [middle, Place.isEscape, calmFrom, Bool.and_eq_true] at behind
          simpa [Reader.Fits] using behind.1
      | inClass =>
          rw [middle] at behind leaves
          exact calmFrom_merges behind leaves
      | classEscape =>
          rw [middle] at behind leaves
          rw [Place.isEscape, calmFrom, Bool.and_eq_true] at behind
          have merged : merges rest = true := calmFrom_merges behind.2 leaves
          have ordinary : ∀ d ∈ [c], isOrdinary d = true := by simpa using behind.1
          exact ⟨by simpa using behind.1, merges_of_ordinary ordinary merged⟩

def Sparing (edit : Text → Text) : Prop :=
  ∀ calm more, calmFrom false calm = true → ∃ changed, edit (calm ++ more) = calm ++ changed

theorem sparing_id : Sparing id := fun _ more _ => ⟨more, rfl⟩

theorem renumberFrom_calm (first amount : Nat) {place : Place} {text : Text}
    (calm : calmFrom place.isEscape text = true) (more : Text) :
    renumberFrom first amount place [] (text ++ more) =
      text ++ renumberFrom first amount (place.after text) [] more := by
  induction text generalizing place with
  | nil => rfl
  | cons c rest ih =>
      have behind := calmFrom_next calm
      have notTaken : (isDigit c && (!([] : Text).isEmpty || (place == .escape && c != '0'))) =
          false := by
        by_cases escape : place = .escape
        · subst escape
          rw [Place.isEscape, calmFrom, Bool.and_eq_true] at calm
          simp [isDigit_of_ordinary calm.1]
        · simp [escape]
      rw [List.cons_append, renumberFrom, if_neg (by rw [notTaken]; exact Bool.false_ne_true),
        List.reverse_nil, shift_nil, List.nil_append]
      exact congrArg (c :: ·) (ih behind)

theorem sparing_renumber (first amount : Nat) : Sparing (renumber first amount) := by
  intro text more calm
  have start : calmFrom Place.outside.isEscape text = true := calm
  exact ⟨_, renumberFrom_calm first amount start more⟩

/-- A source in three parts, of which the second may be cut anywhere: the
references of the first are below a number and come to an end with it. -/
structure Seam (source base zone rest : Text) (first : Nat) : Prop where
  parts : source = base ++ (zone ++ rest)
  calm : calmFrom false zone = true
  unescaped : (Place.outside.after base).isEscape = false
  leaves : Place.outside.after (base ++ zone) = .outside
  apart : (zone ++ rest).head?.any (!isDigit ·) = true
  below : ∀ n ∈ references base, n < first

/-- An offset at which the source may be cut, whatever becomes of it behind the
limit. -/
def Anchored (source : Text) (limit offset first : Nat) : Prop :=
  ∃ base zone rest, Seam source base zone rest first ∧ base.size ≤ limit ∧
    offset ≤ (base ++ zone).size ∧ offset < source.size

theorem head?_any_append {text : Text} {test : Char → Bool} (first : text.head?.any test = true)
    (more : Text) : (text ++ more).head?.any test = true := by
  cases text with
  | nil => contradiction
  | cons c rest => exact first

theorem Anchored.mono {source : Text} {limit limit' offset first : Nat}
    (anchored : Anchored source limit offset first) (wider : limit ≤ limit') :
    Anchored source limit' offset first := by
  obtain ⟨base, zone, rest, seam, low, high, inside⟩ := anchored
  exact ⟨base, zone, rest, seam, by omega, high, inside⟩

theorem Anchored.append {source : Text} {limit offset first : Nat}
    (anchored : Anchored source limit offset first) (text : Text) :
    Anchored (source ++ text) limit offset first := by
  obtain ⟨base, zone, rest, seam, low, high, inside⟩ := anchored
  refine ⟨base, zone, rest ++ text, ?_, low, high, ?_⟩
  · refine ⟨?_, seam.calm, seam.unescaped, seam.leaves, ?_, seam.below⟩
    · rw [seam.parts]
      simp
    · rw [← List.append_assoc]
      exact head?_any_append seam.apart text
  · rw [Text.size_append]
    omega

theorem Anchored.exchange {source : Text} {limit offset first : Nat} {c : Char}
    (anchored : Anchored (source ++ ['\\']) limit offset first)
    (pending : Place.outside.after (source ++ ['\\']) = .escape) (other : isDigit c = false) :
    Anchored (source ++ [c]) limit offset first := by
  obtain ⟨base, zone, rest, seam, low, high, inside⟩ := anchored
  cases rest using List.reverseRecOn with
  | nil =>
      have whole : source ++ ['\\'] = base ++ zone := by simpa using seam.parts
      rw [whole, seam.leaves] at pending
      contradiction
  | append_singleton rest last =>
      have parts : source ++ ['\\'] = (base ++ (zone ++ rest)) ++ [last] := by
        simpa using seam.parts
      obtain ⟨front, _⟩ := List.append_inj' parts rfl
      refine ⟨base, zone, rest ++ [c], ?_, low, high, ?_⟩
      · refine ⟨?_, seam.calm, seam.unescaped, seam.leaves, ?_, seam.below⟩
        · rw [front]
          simp
        · have first := seam.apart
          rw [← List.append_assoc] at first ⊢
          cases middle : zone ++ rest with
          | nil => simp [other]
          | cons d tail =>
              rw [middle] at first
              exact first
      · have positive := c.utf8Size_pos
        rw [Text.size_append] at inside ⊢
        have slash : Text.size ['\\'] = 1 := by decide
        simp only [Text.size_cons, Text.size_nil] at slash inside ⊢
        omega

theorem Reader.Fits.after_insert {place : Place} {text : Text} (fits : Fits ⟨place, []⟩ text)
    (nonempty : text ≠ []) {w : Text} (filled : w ≠ [])
    (ordinary : ∀ c ∈ w, isOrdinary c = true) :
    place.after (w ++ text) = place.after text := by
  have proper := Proper.of_place place
  obtain ⟨_, direct⟩ := fits.reads proper nonempty
  obtain ⟨_, settled⟩ := fits.settled.reads (settled_proper _) nonempty
  obtain ⟨after, _⟩ := after_ordinary ⟨place, []⟩ filled ordinary
  calc place.after (w ++ text)
      = (Reader.after ⟨place, []⟩ (w ++ text)).place := (place_after proper _).symm
    _ = (Reader.after ⟨place, []⟩ text).place := by rw [after_append, after, settled, direct]
    _ = place.after text := place_after proper _

theorem Anchored.rewrite {source : Text} {cut offset first : Nat}
    (anchored : Anchored source (min cut offset) offset first) {edit : Text → Text}
    (sparing : Sparing edit) {w : Text} (filled : w ≠ [])
    (ordinary : ∀ c ∈ w, isOrdinary c = true) (closing : Text) :
    Anchored (source.takeBytes cut ++ (w ++ (edit (source.dropBytes cut) ++ closing)))
      (min cut offset) offset first := by
  obtain ⟨base, zone, rest, seam, low, high, inside⟩ := anchored
  have wide : 0 < w.size := Text.size_pos filled
  have head : w.head?.any (!isDigit ·) = true := by
    cases w with
    | nil => exact absurd rfl filled
    | cons c tail => simp [isDigit_of_ordinary (ordinary c (by simp))]
  by_cases behind : (base ++ zone).size ≤ cut
  · -- the cut lies behind the zone, which is kept with what is before it
    obtain ⟨more, rfl⟩ := Nat.exists_eq_add_of_le behind
    have split : source = (base ++ zone) ++ rest := by
      rw [seam.parts]
      simp
    have front : source.takeBytes ((base ++ zone).size + more) =
        (base ++ zone) ++ rest.takeBytes more := by
      rw [split, Text.takeBytes_add]
    rw [front]
    refine ⟨base, zone, rest.takeBytes more ++
      (w ++ (edit (source.dropBytes ((base ++ zone).size + more)) ++ closing)), ?_, low, high, ?_⟩
    · refine ⟨by simp, seam.calm, seam.unescaped, seam.leaves, ?_, seam.below⟩
      have first := seam.apart
      rw [← List.append_assoc]
      cases kept : zone ++ rest.takeBytes more with
      | nil => exact head?_any_append head _
      | cons c tail =>
          have parts : zone ++ rest = (zone ++ rest.takeBytes more) ++ rest.dropBytes more := by
            rw [List.append_assoc, Text.takeBytes_append_dropBytes]
          rw [parts, kept] at first
          exact first
    · simp only [Text.size_append] at high ⊢
      omega
  · -- the cut lies in the zone, which is opened and stays calm
    have lower : base.size ≤ cut := by omega
    obtain ⟨more, rfl⟩ := Nat.exists_eq_add_of_le lower
    have short : more < zone.size := by
      rw [Text.size_append] at behind
      omega
    have front : source.takeBytes (base.size + more) = base ++ zone.takeBytes more := by
      rw [seam.parts, Text.takeBytes_add, Text.takeBytes_append (by omega)]
    have back : source.dropBytes (base.size + more) = zone.dropBytes more ++ rest := by
      rw [seam.parts, Text.dropBytes_add, Text.dropBytes_append (by omega)]
    have zoneParts : zone.takeBytes more ++ zone.dropBytes more = zone :=
      Text.takeBytes_append_dropBytes more zone
    have nonempty : zone.dropBytes more ≠ [] := Text.dropBytes_ne_nil short
    have calm : calmFrom (Place.outside.after base).isEscape
        (zone.takeBytes more ++ zone.dropBytes more) = true := by
      rw [zoneParts, seam.unescaped]
      exact seam.calm
    have leaves : (Place.outside.after base).after
        (zone.takeBytes more ++ zone.dropBytes more) = .outside := by
      rw [zoneParts, ← Place.after_append]
      exact seam.leaves
    obtain ⟨changed, edited⟩ := sparing _ rest (calmFrom_relax (calmFrom_after calm))
    have fits := calmFrom_fits calm leaves nonempty
    rw [front, back, edited]
    refine ⟨base, zone.takeBytes more ++ (w ++ zone.dropBytes more), changed ++ closing, ?_, low,
      ?_, ?_⟩
    · refine ⟨by simp, ?_, seam.unescaped, ?_, ?_, seam.below⟩
      · have inserted := calmFrom_insert filled ordinary calm
        rwa [seam.unescaped] at inserted
      · rw [Place.after_append, Place.after_append, fits.after_insert nonempty filled ordinary,
          ← Place.after_append]
        exact leaves
      · have first := seam.apart
        rw [← zoneParts] at first
        cases kept : zone.takeBytes more with
        | nil =>
            rw [List.nil_append, List.append_assoc]
            exact head?_any_append head _
        | cons c tail =>
            rw [kept] at first
            exact first
    · rw [← zoneParts] at high
      simp only [Text.size_append] at high ⊢
      omega
    · rw [← zoneParts] at high
      simp only [Text.size_append] at high ⊢
      omega

/-- A source in two parts that are read one by one. -/
structure Severed (front back : Text) (first : Nat) : Prop where
  fits : (Reader.start.after front).Fits back
  nonempty : back ≠ []
  below : ∀ n ∈ references front, n < first

theorem Anchored.severed {source : Text} {offset first : Nat}
    (anchored : Anchored source offset offset first) :
    Severed (source.takeBytes offset) (source.dropBytes offset) first := by
  obtain ⟨base, zone, rest, seam, low, high, inside⟩ := anchored
  obtain ⟨more, rfl⟩ := Nat.exists_eq_add_of_le low
  have short : more ≤ zone.size := by
    rw [Text.size_append] at high
    omega
  have front : source.takeBytes (base.size + more) = base ++ zone.takeBytes more := by
    rw [seam.parts, Text.takeBytes_add, Text.takeBytes_append short]
  have back : source.dropBytes (base.size + more) = zone.dropBytes more ++ rest := by
    rw [seam.parts, Text.dropBytes_add, Text.dropBytes_append short]
  have zoneParts : zone.takeBytes more ++ zone.dropBytes more = zone :=
    Text.takeBytes_append_dropBytes more zone
  have nonempty : source.dropBytes (base.size + more) ≠ [] := Text.dropBytes_ne_nil inside
  have proper := Reader.Proper.start.after base
  have place : (Reader.start.after base).place = Place.outside.after base :=
    Reader.place_after Reader.Proper.start base
  have calm : calmFrom (Reader.start.after base).place.isEscape
      (zone.takeBytes more ++ zone.dropBytes more) = true := by
    rw [zoneParts, place, seam.unescaped]
    exact seam.calm
  have leaves : (Reader.start.after base).place.after
      (zone.takeBytes more ++ zone.dropBytes more) = .outside := by
    rw [zoneParts, place, ← Place.after_append]
    exact seam.leaves
  have apart : (zone.takeBytes more ++ (zone.dropBytes more ++ rest)).head?.any
      (!isDigit ·) = true := by
    rw [← List.append_assoc, zoneParts]
    exact seam.apart
  rw [front, back]
  rw [back] at nonempty
  cases kept : zone.takeBytes more with
  | nil =>
      rw [kept, List.nil_append] at calm leaves apart
      rw [List.append_nil]
      refine ⟨?_, nonempty, seam.below⟩
      cases middle : (Reader.start.after base).place with
      | outside =>
          simp only [Reader.Fits, middle]
          intro _
          cases whole : zone.dropBytes more ++ rest with
          | nil => exact absurd whole nonempty
          | cons c tail =>
              rw [whole] at apart
              simpa using apart
      | inClass =>
          rw [middle] at calm leaves
          simp only [Reader.Fits, middle]
          exact merges_append (calmFrom_merges calm leaves) rest
      | escape => exact absurd seam.unescaped (by rw [← place, middle]; decide)
      | classEscape => exact absurd seam.unescaped (by rw [← place, middle]; decide)
  | cons c tail =>
      rw [kept] at calm leaves apart
      have other : isDigit c = false := by simpa using apart
      have filled : c :: tail ≠ [] := by simp
      obtain ⟨passed, after⟩ := Reader.reads_apart proper filled (fun _ => by simp [other])
      obtain ⟨silent, arrived⟩ := calmFrom_reads calm
      rw [silent, List.append_nil] at passed
      rw [arrived] at after
      refine ⟨?_, nonempty, ?_⟩
      · rw [Reader.after_append, after]
        cases final : zone.dropBytes more with
        | nil =>
            rw [final, List.append_nil] at leaves
            simp [Reader.Fits, leaves]
        | cons d rest' =>
            rw [final] at calm leaves
            exact (calmFrom_fits calm leaves (by simp)).append (by simp) rest
      · intro n member
        apply seam.below n
        rw [references, Reader.read_append, Reader.read, passed, after] at member
        simpa [references, Reader.read, Reader.held] using member

end PatternDialect.Source
