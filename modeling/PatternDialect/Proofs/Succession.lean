import PatternDialect.Pattern
import PatternDialect.Proofs.Searches

/-! Matches one after the other.

Main statement: with an engine that finds what lies behind the place where it is asked, an
iteration over the matches of a pattern ends, gives the matches in order, and leaves out one
character behind an empty match and nothing else. -/

namespace PatternDialect

namespace Pattern

section

variable {haystack : Text} {m : Match}

theorem span_ofRaw (groups : GroupTable) (haystack : Text) (raw : Native.RawMatch) :
    (Match.ofRaw groups haystack raw).span = raw.span := by
  unfold Match.ofRaw
  split <;> rfl

theorem resume_filled (filled : m.start ≠ m.stop) : resume haystack m = .resumeAt m.stop := by
  rw [resume, if_neg filled]

theorem resume_skip {before after : Text} {c : Char} (empty : m.start = m.stop)
    (parts : haystack = before ++ c :: after) (stop : m.stop = before.size) :
    resume haystack m = .resumeAt (before ++ [c]).size := by
  rw [resume, if_pos empty, parts, stop, Text.dropBytes_size_append]
  simp

theorem resume_end (empty : m.start = m.stop) (stop : m.stop = haystack.size) :
    resume haystack m = .ended := by
  have nothing : haystack.dropBytes haystack.size = [] := by
    simpa using Text.dropBytes_size_append haystack []
  rw [resume, if_pos empty, stop, nothing]

end

section

variable [Engine]

/-- The engine finds, from an offset between characters, nothing or a match that is not
before the offset and lies between characters. -/
def Orderly (p : Pattern) (haystack : Text) : Prop :=
  ∀ offset raw, haystack.isBoundary offset = true →
    Engine.findFrom p.program haystack offset = some raw →
      offset ≤ raw.span.start ∧ raw.span.start ≤ raw.span.stop ∧
        haystack.isBoundary raw.span.start = true ∧ haystack.isBoundary raw.span.stop = true

/-- A match that is found from an offset on. -/
structure FoundAt (p : Pattern) (haystack : Text) (offset : Nat) (m : Match) : Prop where
  found : p.execAt haystack offset = some m
  behind : offset ≤ m.start
  ordered : m.start ≤ m.stop
  sticky : p.isSticky = true → m.start = offset

/-- All matches from an offset on.  Each is found where the one before it ends; behind an
empty match one character is left out, and there is nothing behind one at the end. -/
inductive Succession (p : Pattern) (haystack : Text) : Nat → List Match → Prop where
  | done {offset : Nat} (none_ : p.execAt haystack offset = none) : Succession p haystack offset []
  | final {offset : Nat} {m : Match} (here : p.FoundAt haystack offset m) (empty : m.start = m.stop)
      (end_ : m.stop = haystack.size) : Succession p haystack offset [m]
  | skip {offset : Nat} {m : Match} {later : List Match} {before after : Text} {c : Char}
      (here : p.FoundAt haystack offset m) (empty : m.start = m.stop)
      (parts : haystack = before ++ c :: after) (stop : m.stop = before.size)
      (rest : Succession p haystack (before ++ [c]).size later) :
      Succession p haystack offset (m :: later)
  | advance {offset : Nat} {m : Match} {later : List Match} (here : p.FoundAt haystack offset m)
      (filled : m.start < m.stop) (rest : Succession p haystack m.stop later) :
      Succession p haystack offset (m :: later)

variable {p : Pattern} {haystack front rest : Text} {offset : Nat} {m : Match} {later : List Match}

theorem foundAt_execAt (orderly : p.Orderly (front ++ rest))
    (found : p.execAt (front ++ rest) front.size = some m) :
    p.FoundAt (front ++ rest) front.size m ∧ ∃ skipped covered behind,
      rest = skipped ++ (covered ++ behind) ∧ m.start = (front ++ skipped).size ∧
        m.stop = (front ++ skipped ++ covered).size := by
  have whole := found
  have between : (front ++ rest).isBoundary front.size = true :=
    Text.isBoundary_iff.mpr ⟨front, rest, rfl, rfl⟩
  rw [execAt, between, Bool.not_true, if_neg (by decide)] at found
  split at found
  · rename_i raw searched
    split at found
    · contradiction
    · rename_i kept
      cases found
      obtain ⟨behind, ordered, first, last⟩ := orderly _ raw between searched
      obtain ⟨skipped, more, rfl, start⟩ := Text.exists_of_isBoundary first behind
      rw [← List.append_assoc] at last
      obtain ⟨covered, further, rfl, stop⟩ := Text.exists_of_isBoundary last (start ▸ ordered)
      have span := span_ofRaw p.groups (front ++ (skipped ++ (covered ++ further))) raw
      rw [← span] at start stop behind ordered kept
      refine ⟨⟨whole, behind, ordered, fun sticky => ?_⟩, skipped, covered, further, rfl,
        start.symm, stop.symm⟩
      rw [Match.start]
      simpa [sticky] using kept
  · contradiction

theorem collect_ended (p : Pattern) (haystack : Text) (bound : Nat) :
    p.collect haystack bound .ended = ([], .ended) := by
  cases bound <;> rfl

theorem collect_done (none_ : p.execAt haystack offset = none) {bound : Nat}
    (positive : 0 < bound) :
    p.collect haystack bound (.resumeAt offset) = ([], .ended) := by
  obtain ⟨bound, rfl⟩ := Nat.exists_eq_succ_of_ne_zero (Nat.ne_of_gt positive)
  simp [collect, nextMatch, none_]

theorem collect_found (found : p.execAt haystack offset = some m) {calls : Nat}
    (ends : ∀ bound, calls ≤ bound →
      p.collect haystack bound (resume haystack m) = (later, .ended))
    {bound : Nat} (enough : calls + 1 ≤ bound) :
    p.collect haystack bound (.resumeAt offset) = (m :: later, .ended) := by
  obtain ⟨bound, rfl⟩ := Nat.exists_eq_add_of_le' (Nat.le_of_add_left_le enough)
  simp [collect, nextMatch, found, ends bound (by omega)]

theorem exists_succession (p : Pattern) (front rest : Text)
    (orderly : p.Orderly (front ++ rest)) :
    ∃ found, p.Succession (front ++ rest) front.size found ∧ found.length ≤ rest.length + 1 ∧
      ∀ bound, rest.length + 2 ≤ bound →
        p.collect (front ++ rest) bound (.resumeAt front.size) = (found, .ended) := by
  induction length : rest.length using Nat.strongRecOn generalizing front rest with
  | ind n ih =>
      subst length
      cases found : p.execAt (front ++ rest) front.size with
      | none =>
          exact ⟨[], .done found, by simp, fun bound enough => collect_done found (by omega)⟩
      | some m =>
          obtain ⟨here, skipped, covered, behind, parts, start, stop⟩ :=
            foundAt_execAt orderly found
          have whole : front ++ rest = front ++ skipped ++ covered ++ behind := by simp [parts]
          have size := congrArg List.length parts
          simp only [List.length_append] at size
          cases covered with
          | cons d covered =>
              have filled : m.start < m.stop := by
                have positive := Text.size_pos (List.cons_ne_nil d covered)
                rw [start, stop, Text.size_append _ (d :: covered)]
                omega
              obtain ⟨later, rest_, short, ends⟩ := ih behind.length (by simp at size; omega)
                (front ++ skipped ++ d :: covered) behind (whole ▸ orderly) rfl
              rw [← whole, ← stop] at rest_ ends
              rw [← @resume_filled (front ++ rest) m (Nat.ne_of_lt filled)] at ends
              refine ⟨m :: later, .advance here filled rest_, ?_, fun bound enough => ?_⟩
              · simp at size ⊢
                omega
              · exact collect_found found ends (by simp at size; omega)
          | nil =>
              rw [List.append_nil] at whole stop
              have empty : m.start = m.stop := start.trans stop.symm
              cases behind with
              | nil =>
                  rw [List.append_nil] at whole
                  have end_ : m.stop = (front ++ rest).size := by rw [stop, whole]
                  refine ⟨[m], .final here empty end_, by simp, fun bound enough => ?_⟩
                  refine @collect_found _ _ _ _ _ _ found 1 (fun bound _ => ?_) bound (by omega)
                  rw [resume_end empty end_]
                  exact p.collect_ended _ bound
              | cons c more =>
                  have split : front ++ skipped ++ [c] ++ more = front ++ rest := by simp [whole]
                  obtain ⟨later, rest_, short, ends⟩ := ih more.length (by simp at size; omega)
                    (front ++ skipped ++ [c]) more (split ▸ orderly) rfl
                  rw [split] at rest_ ends
                  rw [← resume_skip empty whole stop] at ends
                  refine ⟨m :: later, .skip here empty whole stop rest_, ?_, fun bound enough => ?_⟩
                  · simp at size ⊢
                    omega
                  · exact collect_found found ends (by simp at size; omega)

theorem Succession.start_le (all : p.Succession haystack offset later) :
    ∀ m ∈ later, offset ≤ m.start := by
  induction all with
  | done none_ => simp
  | final here empty end_ => simpa using here.behind
  | skip here empty parts stop rest ih =>
      intro m member
      rcases List.mem_cons.mp member with rfl | member
      · exact here.behind
      · have behind := ih m member
        have first := here.behind
        rw [Text.size_append] at behind
        omega
  | advance here filled rest ih =>
      intro m member
      rcases List.mem_cons.mp member with rfl | member
      · exact here.behind
      · have behind := ih m member
        have first := here.behind
        omega

theorem Succession.pairwise (all : p.Succession haystack offset later) :
    later.Pairwise fun first second => first.start < second.start ∧ first.stop ≤ second.start := by
  induction all with
  | done none_ => exact .nil
  | final here empty end_ => exact List.pairwise_singleton _ _
  | skip here empty parts stop rest ih =>
      rename_i c
      refine List.pairwise_cons.mpr ⟨fun m member => ?_, ih⟩
      have behind := rest.start_le m member
      have positive := c.utf8Size_pos
      rw [Text.size_append, Text.size_cons] at behind
      omega
  | advance here filled rest ih =>
      refine List.pairwise_cons.mpr ⟨fun m member => ?_, ih⟩
      have behind := rest.start_le m member
      omega

theorem Succession.head? (all : p.Succession haystack offset later) :
    later.head? = p.execAt haystack offset := by
  cases all with
  | done none_ => exact none_.symm
  | final here empty end_ => exact here.found.symm
  | skip here empty parts stop rest => exact here.found.symm
  | advance here filled rest => exact here.found.symm

/-- The matches of a pattern are those that follow one another from the start on, in order
and at most one more than there are characters.  The iteration has then ended for good, and
a pattern that is not global finds the first of them. -/
theorem succession_allMatches (p : Pattern) (haystack : Text) (orderly : p.Orderly haystack) :
    p.Succession haystack 0 (p.allMatches haystack) ∧
      (p.allMatches haystack).length ≤ haystack.length + 1 ∧
      (∀ bound, haystack.length + 2 ≤ bound →
        p.collect haystack bound (.resumeAt 0) = (p.allMatches haystack, .ended)) ∧
      p.nextMatch haystack .ended = (none, .ended) ∧
      ((p.allMatches haystack).Pairwise fun first second =>
        first.start < second.start ∧ first.stop ≤ second.start) ∧
      p.findAll haystack =
        if p.isGlobal then p.allMatches haystack else (p.allMatches haystack).take 1 := by
  obtain ⟨found, all, short, ends⟩ := p.exists_succession [] haystack orderly
  have same : p.allMatches haystack = found := by
    rw [allMatches, iterate]
    exact congrArg Prod.fst (ends _ (Nat.le_refl _))
  rw [same]
  refine ⟨all, short, ends, rfl, all.pairwise, ?_⟩
  unfold findAll find?
  rw [same]
  split
  · rfl
  · have first : found.head? = p.execAt haystack 0 := all.head?
    rw [← first]
    cases found <;> rfl

end

theorem succession_allMatches_sticky :
    ∃ p, Pattern.native ['a', '?'] ['g', 'y'] = .ok p ∧ p.isSticky = true ∧
      p.Orderly ['a', 'é', 'a'] ∧
        p.Succession ['a', 'é', 'a'] 0 (p.allMatches ['a', 'é', 'a']) ∧
          (p.allMatches ['a', 'é', 'a']).map Match.span = [⟨0, 1⟩, ⟨1, 1⟩, ⟨3, 4⟩, ⟨4, 4⟩] := by
  obtain ⟨p, compiled, shown⟩ : ∃ p, Pattern.native ['a', '?'] ['g', 'y'] = .ok p ∧
      (p.isSticky, (p.allMatches ['a', 'é', 'a']).map Match.span) =
        (true, [⟨0, 1⟩, ⟨1, 1⟩, ⟨3, 4⟩, ⟨4, 4⟩]) :=
    exists_of_evaluated (by decide +kernel)
  have orderly : p.Orderly ['a', 'é', 'a'] := fun _ _ => Native.span_findFrom
  exact ⟨p, compiled, congrArg Prod.fst shown, orderly, (succession_allMatches p _ orderly).1,
    congrArg Prod.snd shown⟩

end Pattern

end PatternDialect
