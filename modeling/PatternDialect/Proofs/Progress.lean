import PatternDialect.Proofs.Outcome
import PatternDialect.Proofs.Runs

/-! Progress.  Every state that a conversion visits splits the text in two, and every
step moves the split towards the end. -/

namespace PatternDialect

namespace Text

theorem eq_of_append_eq {first second front back : Text} (same : first ++ second = front ++ back)
    (size : first.size = front.size) : first = front ∧ second = back := by
  have split := splitAt?_size_append first second
  rw [same, size, splitAt?_size_append, Option.some.injEq, Prod.mk.injEq] at split
  exact ⟨split.1.symm, split.2.symm⟩

end Text

namespace Conversion

variable {options : Options} {delimiter : Option Char} {s t next final : State}
    {states : List State}

namespace State

def text (s : State) : Text := s.before.reverse ++ s.rest

theorem Reads.text_eq {count : Nat} (reads : s.Reads next count) : next.text = s.text := by
  obtain ⟨before, rest⟩ := reads
  rw [text, text, before, rest]
  simp

theorem text_step (nonempty : s.rest ≠ []) (ok : s.step options delimiter = .ok next) :
    next.text = s.text := by
  obtain ⟨count, _, reads⟩ := reads_step nonempty ok
  exact reads.text_eq

theorem position_lt_step (nonempty : s.rest ≠ []) (ok : s.step options delimiter = .ok next) :
    s.position < next.position := by
  obtain ⟨count, positive, before, _⟩ := reads_step nonempty ok
  have taken : s.rest.take count ≠ [] := by
    simp only [ne_eq, List.take_eq_nil_iff, nonempty, or_false]
    omega
  have grown := Text.size_pos taken
  rw [position, position, before]
  simp only [before_skip, Text.size_append, Text.size_reverse]
  omega

end State

namespace Trace

theorem append {later : List State} (trace : Trace options delimiter s states t)
    (more : Trace options delimiter t later final) :
    Trace options delimiter s (states ++ later) final := by
  induction trace with
  | done s => exact more
  | step nonempty ok rest ih => exact Trace.step nonempty ok (ih more)

theorem text_eq (trace : Trace options delimiter s states final) : final.text = s.text := by
  induction trace with
  | done s => rfl
  | step nonempty ok rest ih => rw [ih, State.text_step nonempty ok]

theorem length_le (trace : Trace options delimiter s states final) :
    final.rest.length ≤ s.rest.length := by
  induction trace with
  | done s => exact Nat.le_refl _
  | step nonempty ok rest ih =>
      have shorter := State.length_rest_step nonempty ok
      omega

theorem conclude_eq (trace : Trace options delimiter s states final) :
    conclude options delimiter s = conclude options delimiter final := by
  induction trace with
  | done s => rfl
  | step nonempty ok rest ih => rw [conclude_ok nonempty ok, ih]

end Trace

theorem trace_of_visited {bound : Nat} (member : t ∈ visited options delimiter bound s) :
    (∃ states, Trace options delimiter s states t) ∧ t.rest ≠ [] := by
  induction bound generalizing s with
  | zero => simp [visited] at member
  | succ bound ih =>
      unfold visited at member
      split at member
      · simp at member
      · rename_i filled
        have nonempty : s.rest ≠ [] := by simpa using filled
        cases taken : s.step options delimiter with
        | error fault =>
            rw [taken] at member
            obtain rfl : t = s := by simpa using member
            exact ⟨⟨_, Trace.done t⟩, nonempty⟩
        | ok next =>
            rw [taken] at member
            rcases List.mem_cons.mp member with rfl | later
            · exact ⟨⟨_, Trace.done t⟩, nonempty⟩
            · obtain ⟨⟨states, trace⟩, rest⟩ := ih later
              exact ⟨⟨_, Trace.step nonempty taken trace⟩, rest⟩

/-- What the first state has and every step keeps, all visited states have. -/
theorem visited_holds {allowed invariant : State → Prop}
    (keep : ∀ {s next : State}, s.rest ≠ [] → allowed s → invariant s →
      s.step options delimiter = .ok next → invariant next)
    {bound : Nat} (holds : invariant s) (all : ∀ t ∈ visited options delimiter bound s, allowed t) :
    ∀ t ∈ visited options delimiter bound s, invariant t := by
  induction bound generalizing s with
  | zero => simp [visited]
  | succ bound ih =>
      unfold visited at all ⊢
      cases empty : s.rest.isEmpty with
      | true => simp
      | false =>
          simp only [empty, Bool.false_eq_true, ↓reduceIte] at all ⊢
          cases taken : s.step options delimiter with
          | error fault => simpa using holds
          | ok next =>
              rw [taken] at all
              obtain ⟨first, later⟩ := List.forall_mem_cons.mp all
              exact List.forall_mem_cons.mpr
                ⟨holds, ih (keep (by simpa using empty) first holds taken) later⟩

theorem step_of_run_error {bound : Nat} {fault : Fault}
    (failed : run options delimiter bound s = .error fault) :
    ∃ t ∈ visited options delimiter bound s, t.step options delimiter = .error fault := by
  induction bound generalizing s with
  | zero => contradiction
  | succ bound ih =>
      unfold run at failed
      unfold visited
      cases empty : s.rest.isEmpty with
      | true =>
          rw [empty] at failed
          contradiction
      | false =>
          simp only [empty, Bool.false_eq_true, ↓reduceIte] at failed ⊢
          cases taken : s.step options delimiter with
          | error other =>
              rw [taken] at failed
              obtain rfl := Except.error.inj failed
              exact ⟨s, by simp, taken⟩
          | ok next =>
              rw [taken] at failed
              obtain ⟨t, member, faulty⟩ := ih failed
              exact ⟨t, List.mem_cons_of_mem s member, faulty⟩

theorem rest_of_run {bound : Nat} (large : s.rest.length ≤ bound)
    (ok : run options delimiter bound s = .ok final) : final.rest = [] := by
  induction bound generalizing s with
  | zero =>
      cases ok
      exact List.length_eq_zero_iff.mp (Nat.le_zero.mp large)
  | succ bound ih =>
      unfold run at ok
      cases empty : s.rest.isEmpty with
      | true =>
          rw [empty] at ok
          cases ok
          exact List.isEmpty_iff.mp empty
      | false =>
          simp only [empty, Bool.false_eq_true, ↓reduceIte] at ok
          cases taken : s.step options delimiter with
          | error fault =>
              rw [taken] at ok
              contradiction
          | ok next =>
              rw [taken] at ok
              have shorter := State.length_rest_step (by simpa using empty) taken
              exact ih (by omega) ok

theorem rest_of_visited {bound : Nat} {first second : Text}
    (member : t ∈ visited options delimiter bound (.start (first ++ second)))
    (position : t.position = first.size) : t.before = first.reverse ∧ t.rest = second := by
  obtain ⟨⟨states, trace⟩, _⟩ := trace_of_visited member
  have parts : t.before.reverse ++ t.rest = first ++ second := trace.text_eq
  obtain ⟨front, back⟩ := Text.eq_of_append_eq parts (by rwa [Text.size_reverse])
  rw [← front, List.reverse_reverse]
  exact ⟨rfl, back⟩

end Conversion

end PatternDialect
