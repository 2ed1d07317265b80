import PatternDialect.Proofs.Steps

/-! What a conversion comes to from a state on.  Every step reads something, so the
outcome does not hang on a bound. -/

namespace PatternDialect.Conversion

open Character

namespace State

def Reads (s next : State) (count : Nat) : Prop :=
  next.before = (s.skip count).before ∧ next.rest = (s.skip count).rest

variable {options : Options} {delimiter : Option Char} {s next : State}

theorem skip_skip (s : State) (first second : Nat) :
    (s.skip first).skip second = s.skip (first + second) := by
  simp only [State.skip, List.drop_drop, State.mk.injEq, and_true]
  rw [← List.append_assoc, ← List.reverse_append, ← List.take_add]

theorem reads_skip (s : State) (count : Nat) : s.Reads (s.skip count) count := ⟨rfl, rfl⟩

theorem reads_copy (s : State) (count : Nat) : s.Reads (s.copy count) count := ⟨rfl, rfl⟩

theorem reads_dropEscape_copy (s : State) (count : Nat) :
    s.Reads (s.dropEscape.copy count) count := by
  unfold dropEscape
  split <;> exact ⟨rfl, rfl⟩

theorem reads_copyPlain {c : Char} {more : Text} (rest : s.rest = c :: more) :
    s.Reads s.copyPlain 1 := by
  rw [copyPlain_eq rest]
  exact ⟨rfl, rfl⟩

theorem reads_blank (s : State) : s.Reads s.blank 1 := by
  unfold State.blank
  split
  · exact s.reads_copy 1
  split
  · exact s.reads_dropEscape_copy 1
  · unfold dropBlank
    dsimp only
    split <;> exact ⟨rfl, rfl⟩

theorem reads_openClass (s : State) : s.Reads s.openClass 1 := by
  unfold State.openClass
  split <;> exact ⟨rfl, rfl⟩

theorem reads_closeClass (s : State) : s.Reads s.closeClass 1 := by
  unfold State.closeClass
  split
  · split <;> exact ⟨rfl, rfl⟩
  · exact s.reads_copy 1

theorem reads_dot (s : State) (options : Options) : s.Reads (s.dot options) 1 := by
  unfold State.dot
  split <;> exact ⟨rfl, rfl⟩

theorem reads_closeGroup (s : State) : s.Reads s.closeGroup 1 := by
  unfold State.closeGroup
  split
  · exact s.reads_copy 1
  · split
    · exact s.reads_copy 1
    · dsimp only
      unfold emitClose
      split <;> exact ⟨rfl, rfl⟩

theorem reads_comment (s : State) : ∃ count, 0 < count ∧ s.Reads s.comment count := by
  unfold State.comment
  split
  · exact ⟨1, by decide, s.reads_copy 1⟩
  split
  · exact ⟨1, by decide, s.reads_dropEscape_copy 1⟩
  · exact ⟨commentLength s.rest, Nat.succ_pos _, s.reads_skip _⟩

theorem wrapEmulated_reads (s : State) (atom : Option Atom) :
    (s.wrapEmulated atom).1.before = s.before ∧ (s.wrapEmulated atom).1.rest = s.rest := by
  unfold wrapEmulated
  split
  · split <;> exact ⟨rfl, rfl⟩
  · exact ⟨rfl, rfl⟩

theorem reads_quantify {q : Quantifier} (ok : s.quantify options q = .ok next) :
    s.Reads next q.length := by
  have wrapped := s.wrapEmulated_reads (s.quantified? q)
  unfold quantify at ok
  dsimp only at ok
  split at ok
  · split at ok
    · cases ok
      simp only [Reads, before_skip, rest_skip, markReference]
      rw [wrapped.1, wrapped.2]
      exact ⟨rfl, rfl⟩
    · contradiction
  · cases ok
    simp only [Reads, before_skip, rest_skip, before_emit, rest_emit]
    rw [wrapped.1, wrapped.2]
    exact ⟨rfl, rfl⟩

theorem reads_nul (s : State) : s.Reads s.nul 2 := by
  unfold nul
  dsimp only
  split <;> exact ⟨rfl, rfl⟩

theorem length_pos_of_legible {q : Quantifier} (legible : q.amount.Legible) : 0 < q.length := by
  obtain ⟨c, rest, text, _⟩ := legible.head
  unfold Quantifier.length
  rw [text, List.length_cons]
  omega

theorem reads_openCapture (ok : s.openCapture options = .ok next) : s.Reads next 1 := by
  unfold openCapture at ok
  split at ok
  · contradiction
  dsimp only at ok
  split at ok
  · cases ok
    exact ⟨rfl, rfl⟩
  split at ok
  · cases ok
    exact ⟨rfl, rfl⟩
  · cases ok
    exact ⟨rfl, rfl⟩

theorem reads_openNamed (ok : s.openNamed = .ok next) :
    ∃ name, Text.name? (s.rest.drop 3) = some name ∧ s.Reads next (3 + name.length + 1) := by
  unfold openNamed at ok
  split at ok
  · rename_i name named
    obtain ⟨groups, _, equality⟩ := bind_ok ok
    cases equality
    exact ⟨name, named, rfl, rfl⟩
  · contradiction

theorem reads_openGroup {form : Opener} (ok : s.openGroup options form = .ok next) :
    ∃ count, 0 < count ∧ s.Reads next count := by
  unfold State.openGroup at ok
  have positive : 0 < form.length := by cases form <;> simp [Opener.length]
  split at ok
  · cases ok
    exact ⟨1, by decide, s.reads_copy 1⟩
  split at ok
  · cases ok
    exact ⟨form.length, positive, s.reads_copy _⟩
  split at ok
  · exact ⟨1, by decide, reads_openCapture ok⟩
  · cases ok
    exact ⟨_, positive, rfl, rfl⟩
  · cases ok
    exact ⟨_, positive, rfl, rfl⟩
  · cases ok
    exact ⟨_, positive, rfl, rfl⟩
  · obtain ⟨name, _, reads⟩ := reads_openNamed ok
    exact ⟨_, Nat.succ_pos _, reads⟩
  · cases ok
    exact ⟨3, by decide, rfl, rfl⟩
  · contradiction

theorem reads_numberReference (ok : s.numberReference = .ok next) :
    ∃ count, 0 < count ∧ s.Reads next count := by
  unfold State.numberReference at ok
  split at ok
  · cases ok
    exact ⟨1, by decide, s.reads_copy 1⟩
  · obtain ⟨slot, _, equality⟩ := bind_ok ok
    cases equality
    exact ⟨_, by omega, rfl, rfl⟩

theorem reads_nameReference {form : NameReference} (ok : s.nameReference form = .ok next) :
    ∃ count, 0 < count ∧ s.Reads next count := by
  have positive : 0 < form.opener.length := by cases form <;> decide
  unfold State.nameReference at ok
  split at ok
  · cases ok
    exact ⟨1, by decide, s.reads_copy 1⟩
  split at ok
  · cases ok
    exact ⟨form.opener.length, positive, s.reads_copy _⟩
  split at ok
  · split at ok
    · obtain ⟨slot, _, equality⟩ := bind_ok ok
      cases equality
      exact ⟨_, Nat.succ_pos _, rfl, rfl⟩
    · obtain ⟨slot, _, equality⟩ := bind_ok ok
      cases equality
      exact ⟨_, Nat.succ_pos _, rfl, rfl⟩
  · contradiction

theorem reads_escapedDigit {digit : Char} (ok : s.escapedDigit digit = .ok next) :
    ∃ count, 0 < count ∧ s.Reads next count := by
  unfold State.escapedDigit at ok
  split at ok
  · cases ok
    exact ⟨2, by decide, s.reads_copy 2⟩
  dsimp only at ok
  split at ok
  · cases ok
    exact ⟨_, by omega, rfl, rfl⟩
  split at ok
  · cases ok
    exact ⟨2, by decide, s.reads_nul⟩
  · contradiction

theorem reads_flagsDelimiter {c : Char} (ok : s.flagsDelimiter c = .ok next) :
    ∃ count, 0 < count ∧ s.Reads next count := by
  unfold State.flagsDelimiter at ok
  split at ok
  · cases ok
    exact ⟨1, by decide, s.reads_copy 1⟩
  dsimp only at ok
  split at ok
  · contradiction
  · cases ok
    refine ⟨1 + (s.skip 1).rest.length, by omega, ?_⟩
    rw [Reads, ← skip_skip]
    exact ⟨rfl, rfl⟩

theorem reads_step (nonempty : s.rest ≠ []) (ok : s.step options delimiter = .ok next) :
    ∃ count, 0 < count ∧ s.Reads next count := by
  unfold step at ok
  cases found : s.next? delimiter with
  | none =>
      rw [found] at ok
      cases ok
      cases rest : s.rest with
      | nil => exact absurd rest nonempty
      | cons c more => exact ⟨1, by decide, reads_copyPlain rest⟩
  | some construct =>
      have stands := Construct.stands_of_at? found
      rw [found] at ok
      cases construct with
      | blank c =>
          cases ok
          exact ⟨1, by decide, s.reads_blank⟩
      | openClass =>
          cases ok
          exact ⟨1, by decide, s.reads_openClass⟩
      | closeClass =>
          cases ok
          exact ⟨1, by decide, s.reads_closeClass⟩
      | dot =>
          cases ok
          exact ⟨1, by decide, s.reads_dot options⟩
      | quantifier q =>
          have positive := length_pos_of_legible stands.1
          simp only [read, State.quantifier] at ok
          split at ok
          · cases ok
            exact ⟨1, by decide, s.reads_copy 1⟩
          split at ok
          · cases ok
            exact ⟨q.length, positive, s.reads_copy _⟩
          split at ok
          · contradiction
          · exact ⟨q.length, positive, reads_quantify ok⟩
      | numberReference => exact reads_numberReference ok
      | nameReference form => exact reads_nameReference ok
      | openGroup form => exact reads_openGroup ok
      | closeGroup =>
          cases ok
          exact ⟨1, by decide, s.reads_closeGroup⟩
      | comment =>
          cases ok
          exact s.reads_comment
      | escapedDigit digit => exact reads_escapedDigit ok
      | escapedLetter letter =>
          obtain ⟨count, _, rfl⟩ := escapedLetter_eq ok
          exact ⟨2 + count, by omega, s.reads_copy _⟩
      | flagsDelimiter c => exact reads_flagsDelimiter ok

theorem length_rest_step (nonempty : s.rest ≠ []) (ok : s.step options delimiter = .ok next) :
    next.rest.length < s.rest.length := by
  obtain ⟨count, positive, _, rest⟩ := reads_step nonempty ok
  have filled := List.length_pos_iff.mpr nonempty
  rw [rest, rest_skip, List.length_drop]
  omega

end State

variable {options : Options} {delimiter : Option Char}

theorem run_of_le {s : State} {bound : Nat} (large : s.rest.length ≤ bound) :
    run options delimiter bound s = run options delimiter s.rest.length s := by
  induction bound using Nat.strongRecOn generalizing s with
  | ind bound ih =>
      cases rest : s.rest with
      | nil =>
          cases bound with
          | zero => rfl
          | succ bound => simp [run, rest]
      | cons c more =>
          have filled : s.rest ≠ [] := by simp [rest]
          cases bound with
          | zero =>
              rw [rest] at large
              contradiction
          | succ bound =>
              rw [List.length_cons, run, run]
              cases ok : s.step options delimiter with
              | error fault => rfl
              | ok next =>
                  have shorter := State.length_rest_step filled ok
                  rw [rest, List.length_cons] at shorter large
                  dsimp only
                  rw [ih bound (Nat.lt_succ_self _) (by omega),
                    ih more.length (by omega) (by omega)]

/-- What a conversion comes to from a state on. -/
def conclude (options : Options) (delimiter : Option Char) (s : State) : Except Fault Result :=
  match run options delimiter s.rest.length s with
  | .ok final => finish final
  | .error fault => .error fault

theorem convert_eq_conclude (options : Options) (delimiter : Option Char) (text : Text) :
    convert options delimiter text = conclude options delimiter (.start text) := rfl

theorem conclude_nil {s : State} (empty : s.rest = []) :
    conclude options delimiter s = finish s := by
  rw [conclude, empty]
  rfl

theorem conclude_ok {s next : State} (nonempty : s.rest ≠ [])
    (ok : s.step options delimiter = .ok next) :
    conclude options delimiter s = conclude options delimiter next := by
  have shorter := State.length_rest_step nonempty ok
  obtain ⟨bound, length⟩ : ∃ bound, s.rest.length = bound + 1 :=
    ⟨s.rest.length - 1, by omega⟩
  have filled : s.rest.isEmpty = false := by simpa using nonempty
  rw [conclude, length, run, filled, ok]
  dsimp only
  rw [if_neg (by decide), run_of_le (by omega), conclude]

theorem conclude_error {s : State} {fault : Fault} (nonempty : s.rest ≠ [])
    (failed : s.step options delimiter = .error fault) :
    conclude options delimiter s = .error fault := by
  obtain ⟨bound, length⟩ : ∃ bound, s.rest.length = bound + 1 :=
    ⟨s.rest.length - 1, by have := List.length_pos_iff.mpr nonempty; omega⟩
  have filled : s.rest.isEmpty = false := by simpa using nonempty
  rw [conclude, length, run, filled, failed]
  rfl

theorem step_of_conclude {s : State} {result : Result} (nonempty : s.rest ≠ [])
    (ok : conclude options delimiter s = .ok result) :
    ∃ next, s.step options delimiter = .ok next ∧ next.rest.length < s.rest.length ∧
      conclude options delimiter next = .ok result := by
  cases taken : s.step options delimiter with
  | error fault =>
      rw [conclude_error nonempty taken] at ok
      contradiction
  | ok next =>
      exact ⟨next, rfl, State.length_rest_step nonempty taken, conclude_ok nonempty taken ▸ ok⟩

end PatternDialect.Conversion
