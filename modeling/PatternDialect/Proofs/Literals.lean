import PatternDialect.Proofs.Rendering

/-! Texts that are written literally, and delimiters.

Main statement: such a text shows a delimiter exactly where it has the delimiter as a bare
character or writes a backslash that is one. -/

namespace PatternDialect

open Character Conversion Syntax

namespace Escape

variable {unicode : Bool} {c d : Char} {content before : Text}

/-- A text that does not show a delimiter when it is written literally: it has no bare
character that is the delimiter and, if that is the backslash, none that is escaped. -/
def Hides (unicode : Bool) (d : Char) (content : Text) : Prop :=
  ∀ c ∈ content, if needsEscape unicode c then d ≠ '\\' else c ≠ d

theorem ne_backslash_of_bare (bare : needsEscape unicode c = false) : c ≠ '\\' := by
  rintro rfl
  cases unicode <;> contradiction

theorem pending_literalForm (unicode : Bool) (c : Char) (closed : pending before = false) :
    pending ((literalForm unicode c).reverse ++ before) = false := by
  cases needed : needsEscape unicode c with
  | true => simp [literalForm, needed, pending_cons, closed]
  | false => simp [literalForm, needed, pending_cons, ne_backslash_of_bare needed]

theorem pending_literal (unicode : Bool) (content : Text) (closed : pending before = false) :
    pending ((literal unicode content).reverse ++ before) = false := by
  induction content generalizing before with
  | nil => exact closed
  | cons c rest ih =>
      rw [literal_cons, List.reverse_append, List.append_assoc]
      exact ih (pending_literalForm unicode c closed)

theorem occursUnescaped_literal (closed : pending before = false)
    (hides : Hides unicode d content) :
    occursUnescaped d before (literal unicode content) = false := by
  induction content generalizing before with
  | nil => rfl
  | cons c rest ih =>
      obtain ⟨own, others⟩ := List.forall_mem_cons.mp hides
      have further := ih (pending_literalForm unicode c closed) others
      rw [literal_cons]
      cases needed : needsEscape unicode c with
      | true =>
          rw [needed, if_pos rfl] at own
          simp only [literalForm, needed, if_true] at further ⊢
          rw [List.cons_append, occursUnescaped, List.cons_append, occursUnescaped,
            pending_cons, closed]
          simpa [own.symm] using further
      | false =>
          rw [needed, if_neg Bool.false_ne_true] at own
          simp only [literalForm, needed, if_neg Bool.false_ne_true] at further ⊢
          rw [List.cons_append, occursUnescaped]
          simpa [own] using further

theorem exists_of_not_hides (shows : ¬Hides unicode d content) :
    ∃ front back, Hides unicode d front ∧ literal unicode content =
      literal unicode front ++ d :: back := by
  induction content with
  | nil => exact absurd (by simp [Hides]) shows
  | cons c rest ih =>
      by_cases own : if needsEscape unicode c then d ≠ '\\' else c ≠ d
      · have later : ¬Hides unicode d rest := fun all => shows (List.forall_mem_cons.mpr ⟨own, all⟩)
        obtain ⟨front, back, hides, parts⟩ := ih later
        refine ⟨c :: front, back, List.forall_mem_cons.mpr ⟨own, hides⟩, ?_⟩
        rw [literal_cons, parts, literal_cons, List.append_assoc]
      · rw [literal_cons, literalForm]
        split
        · rename_i needed
          rw [if_pos needed, not_not] at own
          exact ⟨[], c :: literal unicode rest, by simp [Hides], by simp [literal, own]⟩
        · rename_i bare
          rw [if_neg bare, not_not] at own
          exact ⟨[], literal unicode rest, by simp [Hides], by simp [literal, own]⟩

end Escape

namespace Conversion

variable {options : Options} {delimiter : Option Char} {s : State} {c d : Char} {more : Text}

def State.through (s : State) (read rest out : Text) : State :=
  { s with before := read.reverse ++ s.before, rest, out }

theorem State.through_through (s : State) (first second rest rest' out out' : Text) :
    (s.through first rest out).through second rest' out' =
      s.through (first ++ second) rest' out' := by
  simp [State.through]

theorem conclude_bare (bare : Escape.needsEscape options.unicode c = false)
    (other : delimiter ≠ some c) (fresh : s.referenceEnd = none) (rest : s.rest = c :: more) :
    conclude options delimiter s =
      conclude options delimiter (s.through [c] more (s.out ++ [c])) := by
  have plain := Escape.isLiteral_of_bare bare
  have copied : s.step options delimiter = .ok (s.through [c] more (s.out ++ [c])) := by
    rw [State.step, State.next?_plain rest other,
      Construct.plain?_other _ _ (isLiteral_spec plain).1 (not_head_of_literal plain),
      State.copyPlain_eq rest, fresh]
    simp [State.through, State.skip, State.emit, rest]
  exact conclude_ok (by simp [rest]) copied

theorem conclude_shielded (needed : Escape.needsEscape options.unicode c = true)
    (other : delimiter ≠ some '\\') (unescaped : s.escaped = false)
    (rest : s.rest = '\\' :: c :: more) :
    ∃ out, (s.inClass = true → out = s.out ++ ['\\', c]) ∧
      conclude options delimiter s = conclude options delimiter (s.through ['\\', c] more out) := by
  have kept := Escape.kept_of_needsEscape needed
  have rest' : (s.copy 1).rest = c :: more := by simp [rest]
  have plain : (s.copy 1).copyPlain = (s.copy 1).copy 1 :=
    State.copyPlain_of_not_digit rest' (kept_spec kept).1
  have copied : (s.copy 1).copy 1 = s.through ['\\', c] more (s.out ++ ['\\', c]) := by
    simp [State.through, State.copy, State.skip, State.emit, rest]
  rw [conclude_pair other unescaped (afterBackslash?_kept kept more) rest,
    State.passed, plain, copied]
  split
  · exact ⟨_, fun _ => rfl, rfl⟩
  split
  · rename_i layout
    have outside : s.inClass = false := (Bool.not_eq_true' _).mp (Bool.and_eq_true_iff.mp layout).2
    refine ⟨s.out ++ [c], fun class_ => absurd (outside.symm.trans class_) (by decide), ?_⟩
    simp [State.through, State.dropEscape, State.copy, State.skip, State.emit, rest]
  · exact ⟨_, fun _ => rfl, rfl⟩

theorem conclude_hidden {content : Text}
    (hides : ∀ d ∈ delimiter, Escape.Hides options.unicode d content)
    (unescaped : s.escaped = false) (fresh : s.referenceEnd = none)
    (rest : s.rest = Escape.literal options.unicode content ++ more) :
    ∃ out, (s.inClass = true → out = s.out ++ Escape.literal options.unicode content) ∧
      conclude options delimiter s = conclude options delimiter
        (s.through (Escape.literal options.unicode content) more out) := by
  induction content generalizing s with
  | nil =>
      obtain rfl : s.rest = more := rest
      exact ⟨s.out, fun _ => (List.append_nil _).symm, rfl⟩
  | cons c left ih =>
      rw [Escape.literal_cons, List.append_assoc] at rest
      -- One character first, then the others.
      obtain ⟨out, kept, first⟩ : ∃ out,
          (s.inClass = true → out = s.out ++ Escape.literalForm options.unicode c) ∧
            conclude options delimiter s = conclude options delimiter
              (s.through (Escape.literalForm options.unicode c)
                (Escape.literal options.unicode left ++ more) out) := by
        unfold Escape.literalForm at rest ⊢
        split at rest
        · rename_i needed
          have other : delimiter ≠ some '\\' := by
            rintro rfl
            have own := hides _ rfl c (by simp)
            simp [needed] at own
          rw [if_pos needed]
          exact conclude_shielded needed other unescaped rest
        · rename_i bare
          have other : delimiter ≠ some c := by
            rintro rfl
            have own := hides _ rfl c (by simp)
            simp [bare] at own
          rw [if_neg bare]
          exact ⟨_, fun _ => rfl, conclude_bare (Bool.eq_false_iff.mpr bare) other fresh rest⟩
      obtain ⟨last, kept', second⟩ := @ih (s.through _ _ out)
        (fun d same => (List.forall_mem_cons.mp (hides d same)).2)
        (Escape.pending_literalForm options.unicode c unescaped) fresh rfl
      rw [State.through_through, ← Escape.literal_cons] at second
      refine ⟨last, fun class_ => ?_, first.trans second⟩
      rw [kept' class_, Escape.literal_cons, ← List.append_assoc, ← kept class_]
      rfl

theorem conclude_exposed {content : Text} (shows : ¬Escape.Hides options.unicode d content)
    (place : s.place = .outside) (fresh : s.referenceEnd = none)
    (rest : s.rest = Escape.literal options.unicode content) :
    ∃ body flags out, Escape.literal options.unicode content = body ++ d :: flags ∧
      conclude options (some d) s =
        if Escape.occursUnescaped d (d :: (body.reverse ++ s.before)) flags then
          .error (.secondDelimiter d)
        else finish ((s.through body (d :: flags) out).flagged d flags) := by
  obtain ⟨front, flags, hides, parts⟩ := Escape.exists_of_not_hides shows
  have unescaped := State.escaped_of_place place
  obtain ⟨out, -, passed⟩ : ∃ out, _ ∧ conclude options (some d) s = _ :=
    conclude_hidden (by simpa using hides) unescaped fresh (rest.trans parts)
  refine ⟨_, flags, out, parts, passed.trans ?_⟩
  have escape :
      (s.through (Escape.literal options.unicode front) (d :: flags) out).escaped = false :=
    Escape.pending_literal options.unicode front unescaped
  have class_ :
      (s.through (Escape.literal options.unicode front) (d :: flags) out).inClass = false :=
    (State.inClass_of_place place : s.inClass = false)
  have here : (s.through (Escape.literal options.unicode front) (d :: flags) out).endsHere
      (some d) = true := by
    rw [State.endsHere, class_, escape]
    simp [State.through]
  have step := @step_endsHere options _ d flags rfl here
  split
  · rename_i again
    rw [if_pos (by exact again)] at step
    exact conclude_error (by simp [State.through]) step
  · rename_i single
    rw [if_neg (by exact single)] at step
    rw [conclude_ok (by simp [State.through]) step, conclude_nil rfl]

theorem exists_body {result : Result} {flags : Text} (fresh : s.flags = none)
    (ok : conclude options (some d) s = .ok result) (found : result.flags = some flags) :
    ∃ body, s.rest = body ++ d :: flags ∧ Escape.pending (body.reverse ++ s.before) = false := by
  induction length : s.rest.length using Nat.strongRecOn generalizing s with
  | ind n ih =>
      cases rest : s.rest with
      | nil =>
          rw [conclude_nil rest, finish_eq_ok_iff] at ok
          rw [ok.2.2, fresh] at found
          contradiction
      | cons c text =>
          have nonempty : s.rest ≠ [] := by simp [rest]
          obtain ⟨next, step, shorter, later⟩ := step_of_conclude nonempty ok
          cases here : s.endsHere (some d) with
          | true =>
              obtain ⟨⟨same, -⟩, unescaped⟩ : (d = c ∧ s.inClass = false) ∧ s.escaped = false := by
                simpa [State.endsHere, rest] using here
              subst same
              rw [step_endsHere rest here] at step
              split at step
              · contradiction
              cases step
              rw [conclude_nil rfl, finish_eq_ok_iff] at later
              obtain rfl : text = flags := by
                rw [later.2.2] at found
                exact Option.some.inj found
              exact ⟨[], rfl, unescaped⟩
          | false =>
              obtain ⟨body, parts, unescaped⟩ := ih _ (length ▸ shorter)
                ((State.flags_step step here).trans fresh) later rfl
              obtain ⟨count, -, before, behind⟩ := State.reads_step nonempty step
              refine ⟨s.rest.take count ++ body, ?_, ?_⟩
              · rw [← rest, List.append_assoc, ← parts, behind]
                exact (List.take_append_drop count s.rest).symm
              · rw [before] at unescaped
                simpa using unescaped

/-- A text that is written literally converts to a source without groups and flags exactly
where it does not show the delimiter; otherwise it is cut at the first one that it shows.  In a
pattern, too, a text that hides the delimiter is not where the flags begin, unless a backslash
before the text undoes its first escape. -/
theorem convert_literal_delimited (options : Options) (d : Char) (content : Text) :
    ((∃ source, convert options (some d) (Escape.literal options.unicode content) =
        .ok ⟨source, {}, none⟩) ↔ Escape.Hides options.unicode d content) ∧
      (¬Escape.Hides options.unicode d content → ∃ body flags source,
        Escape.literal options.unicode content = body ++ d :: flags ∧
          convert options (some d) (Escape.literal options.unicode content) =
            if Escape.occursUnescaped d (d :: body.reverse) flags then .error (.secondDelimiter d)
            else .ok ⟨source, {}, some flags⟩) ∧
      (Escape.Hides options.unicode d content → ∀ front back result flags,
        Escape.endsOpen front = false →
          convert options (some d) (front ++ (Escape.literal options.unicode content ++ back)) =
              .ok result → result.flags = some flags →
            ∃ body, front ++ (Escape.literal options.unicode content ++ back) = body ++ d :: flags ∧
              (body.length < front.length ∨
                front.length + (Escape.literal options.unicode content).length ≤ body.length)) := by
  have exposed : ¬Escape.Hides options.unicode d content → ∃ body flags source,
      Escape.literal options.unicode content = body ++ d :: flags ∧
        convert options (some d) (Escape.literal options.unicode content) =
          if Escape.occursUnescaped d (d :: body.reverse) flags then .error (.secondDelimiter d)
          else .ok ⟨source, {}, some flags⟩ := by
    intro shows
    obtain ⟨body, flags, out, parts, cut⟩ : ∃ body flags out, _ ∧
        conclude options (some d) (.start (Escape.literal options.unicode content)) = _ :=
      conclude_exposed shows rfl rfl rfl
    refine ⟨body, flags, out, parts, cut.trans ?_⟩
    rw [State.start, List.append_nil]
    rfl
  refine ⟨⟨?_, fun hides => ?_⟩, exposed, fun hides front back result flags closed ok found => ?_⟩
  · rintro ⟨source, ok⟩
    by_contra shows
    obtain ⟨body, flags, other, -, cut⟩ := exposed shows
    rw [ok] at cut
    split at cut <;> simp at cut
  · obtain ⟨out, -, passed⟩ : ∃ out, _ ∧
        conclude options (some d) (.start (Escape.literal options.unicode content)) = _ :=
      conclude_hidden (by simpa using hides) rfl rfl (List.append_nil _).symm
    exact ⟨out, passed⟩
  · obtain ⟨body, parts, unescaped⟩ : ∃ body,
        front ++ (Escape.literal options.unicode content ++ back) = body ++ d :: flags ∧
          Escape.pending (body.reverse ++ []) = false :=
      @exists_body options (.start _) d result flags rfl ok found
    refine ⟨body, parts, ?_⟩
    by_contra inside
    rw [not_or, Nat.not_lt, Nat.not_le] at inside
    -- the delimiter would be one that the text shows
    obtain ⟨first, rfl⟩ : front <+: body :=
      List.prefix_of_prefix_length_le ⟨_, rfl⟩ ⟨_, parts.symm⟩ inside.1
    rw [List.append_assoc, List.append_cancel_left_eq] at parts
    obtain ⟨left, within⟩ : first ++ [d] <+: Escape.literal options.unicode content := by
      refine List.prefix_of_prefix_length_le ⟨flags, ?_⟩ ⟨back, rfl⟩ ?_
      · simpa using parts.symm
      · simp only [List.length_append] at inside ⊢
        exact Nat.lt_of_add_lt_add_left inside.2
    have absent := @Escape.occursUnescaped_literal options.unicode d content
        front.reverse closed hides
    rw [← within, List.append_assoc] at absent
    have escaped := Escape.pending_of_occursUnescaped absent
    simp [escaped] at unescaped

theorem convert_literal_delimited_slash :
    Escape.Hides false '/' "a/b".toList ∧
      (∃ source, convert {} (some '/') "a\\/b".toList = .ok ⟨source, {}, none⟩) ∧
      ∃ body, "xa\\/b/g".toList = body ++ '/' :: ['g'] ∧
        (body.length < 1 ∨ 1 + 4 ≤ body.length) := by
  have hides : Escape.Hides false '/' "a/b".toList := by
    simp [Escape.Hides, Escape.needsEscape, Escape.isMeta, isBlank]
  obtain ⟨alone, -, within⟩ := convert_literal_delimited {} '/' "a/b".toList
  refine ⟨hides, alone.mpr hides, ?_⟩
  obtain ⟨result, ok, found⟩ : ∃ result : Conversion.Result,
      convert {} (some '/') "xa\\/b/g".toList = .ok result ∧ result.flags = some ['g'] :=
    exists_of_evaluated (by decide +kernel)
  exact within hides ['x'] "/g".toList result ['g'] rfl ok found

end Conversion

end PatternDialect
