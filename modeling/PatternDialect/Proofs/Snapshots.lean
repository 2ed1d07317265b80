import PatternDialect.Builder

/-! Snapshots of options: what can be reached by refining, and how a flag string
restores a snapshot. -/

namespace PatternDialect

open Character

theorem Flag.ofLetter?_letter (flag : Flag) : Flag.ofLetter? flag.letter = some flag := by
  cases flag <;> rfl

theorem Flag.isLetter_letter (flag : Flag) : isLetter flag.letter = true := by
  cases flag <;> rfl

theorem Flag.mem_all (flag : Flag) : flag ∈ Flag.all := by
  cases flag <;> decide

theorem Flag.ofLetter?_eq_none_iff (c : Char) :
    Flag.ofLetter? c = none ↔ ∀ flag : Flag, flag.letter ≠ c := by
  simp [Flag.ofLetter?, List.find?_eq_none, Flag.mem_all]

namespace Options

/-- The snapshots that refining can lead to. -/
inductive Reachable : Options → Prop where
  | start : Reachable {}
  | refine {options next : Options} {flags : Text} (ok : options.refine flags = .ok next)
      (before : Reachable options) : Reachable next
  | refineNamed {options next : Options} {values : List (Text × Bool)}
      (ok : options.refineNamed values = .ok next) (before : Reachable options) : Reachable next
  | set {options : Options} (flag : Flag) (value : Bool) (before : Reachable options) :
      Reachable (options.set flag value)

/-- The letters kept are letters without a meaning, each of them once. -/
structure Tidy (options : Options) : Prop where
  nodup : options.others.Nodup
  letters : ∀ c ∈ options.others, isLetter c = true
  foreign : ∀ c ∈ options.others, Flag.ofLetter? c = none

@[simp] theorem others_set (options : Options) (flag : Flag) (value : Bool) :
    (options.set flag value).others = options.others := by
  cases flag <;> rfl

@[simp] theorem get_set (options : Options) (flag other : Flag) (value : Bool) :
    (options.set flag value).get other = if flag = other then value else options.get other := by
  cases flag <;> cases other <;> rfl

theorem get_others (options : Options) (others : Text) (flag : Flag) :
    { options with others }.get flag = options.get flag := by
  cases flag <;> rfl

theorem eq_of_get {first second : Options} (flags : ∀ flag, first.get flag = second.get flag)
    (others : first.others = second.others) : first = second := by
  cases first
  cases second
  simp only [mk.injEq]
  exact ⟨flags .global, flags .ignoreCase, flags .multiline, flags .unicode, flags .sticky,
    flags .noCapture, flags .singleLine, flags .ungreedy, flags .extra, others⟩

variable {options next : Options}

theorem Tidy.set (tidy : options.Tidy) (flag : Flag) (value : Bool) :
    (options.set flag value).Tidy := by
  constructor <;> rw [others_set]
  · exact tidy.nodup
  · exact tidy.letters
  · exact tidy.foreign

theorem Tidy.mark (tidy : options.Tidy) {letter : Char} (known : isLetter letter = true)
    (value : Bool) : (options.mark letter value).Tidy := by
  unfold Options.mark
  cases found : Flag.ofLetter? letter with
  | some flag => exact tidy.set flag value
  | none =>
      dsimp only
      split
      · split
        · exact tidy
        · rename_i absent
          have fresh : letter ∉ options.others := by simpa using absent
          refine ⟨?_, ?_, ?_⟩
          · exact List.nodup_append.mpr ⟨tidy.nodup, by simp, by
              intro c member d last
              rw [List.mem_singleton] at last
              rintro rfl
              exact fresh (last ▸ member)⟩
          · intro c member
            rcases List.mem_append.mp member with member | last
            · exact tidy.letters c member
            · rwa [List.mem_singleton.mp last]
          · intro c member
            rcases List.mem_append.mp member with member | last
            · exact tidy.foreign c member
            · rwa [List.mem_singleton.mp last]
      · exact ⟨tidy.nodup.filter _, fun c member => tidy.letters c (List.mem_filter.mp member).1,
          fun c member => tidy.foreign c (List.mem_filter.mp member).1⟩

theorem Tidy.absorb (tidy : options.Tidy) (flags : Text) : (options.absorb flags).1.Tidy := by
  fun_induction Options.absorb options flags with
  | case1 options => exact tidy
  | case2 options letter rest known ih => exact ih (tidy.mark known false)
  | case3 options letter rest unknown refined left found ih =>
      rw [found] at ih
      exact ih tidy
  | case4 options c rest other known ih => exact ih (tidy.mark known true)
  | case5 options c rest other unknown refined left found ih =>
      rw [found] at ih
      exact ih tidy

theorem refine_eq_ok_iff {flags : Text} :
    options.refine flags = .ok next ↔
      (options.absorb flags).2.all isWhiteSpace = true ∧ next = (options.absorb flags).1 := by
  unfold Options.refine
  dsimp only
  by_cases blank : (options.absorb flags).2.all isWhiteSpace = true
  · rw [if_pos blank, Except.ok.injEq]
    exact ⟨fun same => ⟨blank, same.symm⟩, fun both => both.2.symm⟩
  · rw [if_neg blank]
    exact ⟨fun failed => by contradiction, fun both => absurd both.1 blank⟩

theorem Tidy.refineNamed {values : List (Text × Bool)} (tidy : options.Tidy)
    (ok : options.refineNamed values = .ok next) : next.Tidy := by
  induction values generalizing options with
  | nil =>
      cases ok
      exact tidy
  | cons value rest ih =>
      unfold Options.refineNamed at ok
      split at ok
      · exact ih (tidy.set _ _) ok
      · contradiction

theorem Reachable.tidy (reachable : options.Reachable) : options.Tidy := by
  induction reachable with
  | start => exact ⟨List.nodup_nil, by simp, by simp⟩
  | refine ok _ ih =>
      rw [(refine_eq_ok_iff.mp ok).2]
      exact ih.absorb _
  | refineNamed ok _ ih => exact ih.refineNamed ok
  | set flag value _ ih => exact ih.set flag value

theorem mem_of_refine {flags : Text} (ok : options.refine flags = .ok next) {c : Char}
    (member : c ∈ flags) : isLetter c = true ∨ c = '-' ∨ isWhiteSpace c = true := by
  have blank := (refine_eq_ok_iff.mp ok).1
  clear ok
  fun_induction Options.absorb options flags with
  | case1 options => contradiction
  | case2 options letter rest known ih =>
      rcases List.mem_cons.mp member with sign | member
      · exact Or.inr (Or.inl sign)
      rcases List.mem_cons.mp member with rfl | member
      · exact Or.inl known
      · exact ih member blank
  | case3 options letter rest unknown refined left found ih =>
      rw [found] at ih
      simp only [List.all_cons, Bool.and_eq_true] at blank
      rcases List.mem_cons.mp member with sign | member
      · exact Or.inr (Or.inl sign)
      · exact ih member blank.2
  | case4 options d rest other known ih =>
      rcases List.mem_cons.mp member with rfl | member
      · exact Or.inl known
      · exact ih member blank
  | case5 options d rest other unknown refined left found ih =>
      rw [found] at ih
      simp only [List.all_cons, Bool.and_eq_true] at blank
      rcases List.mem_cons.mp member with rfl | member
      · exact Or.inr (Or.inr blank.1)
      · exact ih member blank.2

def markAll (options : Options) (letters : Text) : Options :=
  letters.foldl (fun options letter => options.mark letter true) options

theorem absorb_letter {c : Char} (known : isLetter c = true) (rest : Text) :
    options.absorb (c :: rest) = (options.mark c true).absorb rest := by
  have other : c ≠ '-' := by
    rintro rfl
    exact absurd known (by decide)
  rw [Options.absorb]
  · simp [known]
  · exact fun _ _ equality => absurd equality other

theorem absorb_letters {letters : Text} (known : ∀ c ∈ letters, isLetter c = true) :
    options.absorb letters = (options.markAll letters, []) := by
  induction letters generalizing options with
  | nil => rfl
  | cons c rest ih =>
      rw [absorb_letter (known c List.mem_cons_self),
        ih fun d member => known d (List.mem_cons_of_mem _ member)]
      rfl

theorem markAll_append (options : Options) (first second : Text) :
    options.markAll (first ++ second) = (options.markAll first).markAll second :=
  List.foldl_append

theorem others_markAll_flags (options : Options) (flags : List Flag) :
    (options.markAll (flags.map Flag.letter)).others = options.others := by
  induction flags generalizing options with
  | nil => rfl
  | cons flag rest ih =>
      rw [List.map_cons, markAll, List.foldl_cons, ← markAll, ih, mark, Flag.ofLetter?_letter]
      exact others_set options flag true

theorem get_markAll_flags (options : Options) (flags : List Flag) (flag : Flag) :
    (options.markAll (flags.map Flag.letter)).get flag =
      (options.get flag || flags.contains flag) := by
  induction flags generalizing options with
  | nil => simp [markAll]
  | cons first rest ih =>
      rw [List.map_cons, markAll, List.foldl_cons, ← markAll, ih, mark, Flag.ofLetter?_letter]
      dsimp only
      rw [get_set, List.contains_cons]
      by_cases same : first = flag
      · simp [same]
      · rw [if_neg same, beq_eq_false_iff_ne.mpr (Ne.symm same), Bool.false_or]

theorem markAll_others {letters : Text} (foreign : ∀ c ∈ letters, Flag.ofLetter? c = none)
    (nodup : (options.others ++ letters).Nodup) :
    options.markAll letters = { options with others := options.others ++ letters } := by
  induction letters generalizing options with
  | nil => simp [markAll]
  | cons c rest ih =>
      have absent : c ∉ options.others := by
        intro member
        exact (List.nodup_append.mp nodup).2.2 c member c List.mem_cons_self rfl
      have marked : options.mark c true = { options with others := options.others ++ [c] } := by
        simp [mark, foreign c List.mem_cons_self, absent]
      rw [markAll, List.foldl_cons, marked, ← markAll,
        ih (fun d member => foreign d (List.mem_cons_of_mem _ member)) (by simpa using nodup)]
      simp

theorem refine_allFlags (tidy : options.Tidy) :
    ({} : Options).refine options.allFlags = .ok options := by
  have known : ∀ c ∈ options.allFlags, isLetter c = true := by
    intro c member
    simp only [allFlags, nativeFlags, List.mem_append, List.mem_map] at member
    rcases member with (⟨flag, _, rfl⟩ | member) | ⟨flag, _, rfl⟩
    · exact flag.isLetter_letter
    · exact tidy.letters c member
    · exact flag.isLetter_letter
  rw [refine_eq_ok_iff, absorb_letters known]
  refine ⟨rfl, ?_⟩
  have natives := others_markAll_flags {} (Flag.natives.filter options.get)
  rw [allFlags, nativeFlags, markAll_append, markAll_append, markAll_others tidy.foreign (by
    rw [natives]
    exact tidy.nodup)]
  apply eq_of_get
  · intro flag
    rw [get_markAll_flags, get_others (markAll _ _), get_markAll_flags]
    simp only [List.contains_eq_mem, List.mem_filter]
    cases flag <;> simp [Flag.natives, Flag.extended, Options.get]
  · rw [others_markAll_flags, natives]
    rfl

/-- Every snapshot that refining leads to keeps letters without a meaning, each of them once,
and is led to again by its own flag string. -/
theorem Reachable.restored (reachable : options.Reachable) :
    options.others.Nodup ∧
    (∀ c ∈ options.others, isLetter c = true ∧ ∀ flag : Flag, flag.letter ≠ c) ∧
    ({} : Options).refine options.allFlags = .ok options := by
  have tidy := reachable.tidy
  refine ⟨tidy.nodup, ?_, refine_allFlags tidy⟩
  intro c member
  exact ⟨tidy.letters c member, (Flag.ofLetter?_eq_none_iff c).mp (tidy.foreign c member)⟩

theorem Reachable.restored_reordered :
    Reachable { sticky := true, noCapture := true, extra := true, others := "dv".toList } ∧
    ({} : Options).refine "ydvnX".toList =
      .ok { sticky := true, noCapture := true, extra := true, others := "dv".toList } := by
  have letters : ({} : Options).refine "gvd".toList =
      .ok { global := true, others := "vd".toList } := rfl
  have names : ({ global := true, others := "vd".toList } : Options).refineNamed
      [("sticky".toList, true), ("noCapture".toList, true)] =
        .ok { global := true, sticky := true, noCapture := true, others := "vd".toList } := rfl
  have again : ({ sticky := true, noCapture := true, others := "vd".toList } : Options).refine
      "-vX v".toList =
        .ok { sticky := true, noCapture := true, extra := true, others := "dv".toList } := rfl
  have reachable :=
    Reachable.refine again (.set .global false (.refineNamed names (.refine letters .start)))
  exact ⟨reachable, reachable.restored.2.2⟩

theorem mem_allFlags (flag : Flag) (on : options.get flag = true) :
    flag.letter ∈ options.allFlags := by
  have listed : flag ∈ Flag.natives ∨ flag ∈ Flag.extended := by cases flag <;> decide
  unfold allFlags nativeFlags
  rcases listed with native | extended
  · exact List.mem_append_left _ (List.mem_append_left _
      (List.mem_map_of_mem (List.mem_filter.mpr ⟨native, on⟩)))
  · exact List.mem_append_right _ (List.mem_map_of_mem (List.mem_filter.mpr ⟨extended, on⟩))

end Options

end PatternDialect
