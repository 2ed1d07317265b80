import Mathlib.Data.List.Forall2
import PatternDialect.Proofs.Soundness

/-! References keep the groups they were emitted for.

Main statement: in the source that a conversion returns, every reference has the
number that its group has in the returned table. -/

namespace PatternDialect.Conversion

open Character Source Backreference

theorem Owned.keep {ledger ledger' : Ledger} {frame : Frame} {identity : Option Nat}
    (owned : Owned ledger frame identity)
    (same : ∀ slot held, frame.kind.slot? = some slot → slot = frame.firstGroup →
      ledger.slots[slot - 1]? = some held → ledger'.slots[slot - 1]? = some held) :
    Owned ledger' frame identity := by
  refine ⟨owned.plain, ?_⟩
  intro slot kind
  obtain ⟨first, held, known, found⟩ := owned.slotted slot kind
  exact ⟨first, held, known, same slot held kind first found⟩

theorem Owned.refer {ledger : Ledger} {emitted : Option Nat} (frame : Frame)
    (identity : Option Nat) (owned : Owned ledger frame identity) :
    Owned (ledger.refer emitted) frame identity :=
  owned.keep fun _ _ _ _ found => found

theorem references_reference {out : Text} (outside : Place.outside.after out = .outside)
    (closing : Text) (head : closing.head?.all (!isDigit ·) = true)
    (flat : Place.isFlat closing = true) {slot : Nat} (positive : 0 < slot) :
    references (out ++ (closing ++ render slot)) = references out ++ [slot] ∧
      Reader.start.after (out ++ (closing ++ render slot)) =
        ⟨.outside, (Decimal.write slot).reverse⟩ := by
  obtain ⟨front, written⟩ : ∃ front, front = out ++ closing := ⟨_, rfl⟩
  have base : references front = references out ∧
      (Reader.start.after front).place = .outside := by
    rw [written]
    cases closing with
    | nil =>
        rw [List.append_nil, Reader.place_start]
        exact ⟨rfl, outside⟩
    | cons c rest =>
        obtain ⟨same, after⟩ := State.references_flat outside (by simp) head flat
        rw [same, after]
        exact ⟨rfl, rfl⟩
  obtain ⟨same, place⟩ := base
  obtain ⟨after, passed⟩ := Reader.after_reference place positive
  rw [← List.append_assoc, ← written]
  constructor
  · rw [references, Reader.read_append, Reader.read, after, passed,
      Reader.held_number _ (Decimal.write_ne_nil slot), Decimal.value_write, ← List.append_assoc,
      ← same]
    rfl
  · rw [Reader.after_append, after]

theorem references_ordinary {out text : Text} (outside : Place.outside.after out = .outside)
    (filled : text ≠ []) (ordinary : ∀ c ∈ text, isOrdinary c = true) :
    references (out ++ text) = references out ∧
      Reader.start.after (out ++ text) = ⟨.outside, []⟩ := by
  obtain ⟨after, passed⟩ := (Reader.start.after out).after_ordinary filled ordinary
  have settled : (Reader.start.after out).settled = ⟨.outside, []⟩ := by
    rw [Reader.settled, Reader.place_start, outside]
  constructor
  · rw [references, Reader.read_append, Reader.read, after, passed, settled]
    simp [references, Reader.read, Reader.held]
  · rw [Reader.after_append, after, settled]

namespace State

variable {s : State} {ledger : Ledger}

theorem Sound.cuttable (sound : s.Sound ledger) (nonempty : s.rest ≠ [])
    (reach : s.groups.size ≤ Atom.searchReach) (place : s.place = .outside) {q : Quantifier}
    {a : Atom} (found : s.quantified? q = some a) : Cuttable s.out s.groups s.frames a := by
  have here := sound.place nonempty place
  rcases quantified_cases found with ⟨last, stop⟩ | ⟨_, _, unit, trailing, rfl⟩
  · exact ((sound.atom a last).2 stop).2.cuttable
  · exact cuttable_of_unit trailing here sound.below reach fun frame member =>
      ⟨(sound.fixed frame member).top, (sound.fixed frame member).anchored⟩

theorem Sound.small (sound : s.Sound ledger) (reach : s.groups.size ≤ Atom.searchReach) :
    ∀ n ∈ references s.out, n + 1 < Decimal.limit := by
  intro n member
  have bound := sound.below n member
  have room : Atom.searchReach < Decimal.limit := by decide
  omega

theorem Sound.repeats (sound : s.Sound ledger) (nonempty : s.rest ≠ [])
    (reach : s.groups.size ≤ Atom.searchReach) {q : Quantifier} (legible : q.amount.Legible)
    (place : s.place = .outside) {a : Atom} (found : s.quantified? q = some a) :
    references (s.possessed a q).out = (references s.out).map (bump a.firstGroup) ++
    [a.firstGroup] ∧
      Reader.start.after (s.possessed a q).out =
          ⟨.outside, (Decimal.write a.firstGroup).reverse⟩ ∧
        (∀ b, (s.possessed a q).atom = some b →
          Repeatable (s.possessed a q).out (s.possessed a q).groups s.frames b) ∧
          (s.possessed a q).groups = s.groups.insertSuppressed a.firstGroup ∧
            s.out.size < (s.possessed a q).out.size := by
  have here := sound.place nonempty place
  have cuttable := sound.cuttable nonempty reach place found
  obtain ⟨same, outside, prepared, longer, first⟩ := prepared_reads cuttable here
  have small : ∀ n ∈ references (a.prepared s.out).1, n + 1 < Decimal.limit := by
    rw [same]
    exact sound.small reach
  obtain ⟨numbers, reader, repeatable, grown⟩ := prepared.possess outside small legible
  rw [first] at numbers reader
  refine ⟨numbers.trans (by rw [same]), reader, ?_, ?_, Nat.lt_of_le_of_lt longer grown⟩
  · intro b recorded
    cases recorded
    exact repeatable
  · rw [← first]
    rfl

theorem Sound.possessed (sound : s.Sound ledger) (nonempty : s.rest ≠ [])
    (reach : s.groups.size ≤ Atom.searchReach) {q : Quantifier} (legible : q.amount.Legible)
    (place : s.place = .outside) {a : Atom} (found : s.quantified? q = some a)
    (after : (s.skip q.length).place = .outside) :
    (s.possessed a q).Sound (ledger.advance (.insert (s.groups.clamp a.firstGroup))) := by
  have cuttable := sound.cuttable nonempty reach place found
  obtain ⟨numbers, reader, repeatable, table, total⟩ :=
    sound.repeats nonempty reach legible place found
  have positive := cuttable.positive
  have bounded := cuttable.bounded
  have slot : s.groups.clamp a.firstGroup = a.firstGroup := by
    unfold GroupTable.clamp
    omega
  rw [slot]
  refine ⟨?_, ?_, ?_, ?_, sound.nested, ?_, ?_, ?_, ?_, ?_⟩
  · intro _
    have outside : (s.possessed a q).place = .outside := after
    rw [outside, ← Reader.place_start, reader]
  · rw [table]
    exact sound.books.insert positive bounded numbers
  · exact fun _ => rfl
  · apply ((List.forall₂_and_left _ _).mpr ⟨fun frame member =>
      And.intro (cuttable.clear frame member).1 (sound.fixed frame member).positive,
        sound.owned⟩).imp
    rintro frame identity ⟨⟨top, low⟩, owned⟩
    apply owned.keep
    intro slot held kind at_ found
    have early : slot - 1 < a.firstGroup - 1 := by
      simp only [Frame.top, kind, Option.isSome_some, Bool.toNat_true] at top
      omega
    change (ledger.slots.insertIdx (a.firstGroup - 1) ledger.made.length)[slot - 1]? = some held
    rw [List.getElem?_insertIdx_of_lt early]
    exact found
  · apply fixed_of_clear sound.fixed (repeatable _ rfl).clear
    rw [table, GroupTable.size_insertSuppressed]
    exact Nat.le_succ _
  · intro b recorded
    have last := repeatable b recorded
    cases recorded
    exact ⟨Nat.le_refl _, fun _ => ⟨Or.inr (escaped_of_place after), last⟩⟩
  · exact fun c recorded => (sound.capture c recorded).grown total
  · exact fun p recorded => (sound.splice p recorded).grown total
  · exact no_class place

theorem Sound.referred (sound : s.Sound ledger) (nonempty : s.rest ≠ []) {slot count : Nat}
    (positive : 0 < slot) (bound : slot < s.groups.size) (place : s.place = .outside)
    (after : (s.skip count).place = .outside) :
    ((s.skip count).emitReference slot).Sound (ledger.advance (.refer slot)) := by
  have here := sound.place nonempty place
  obtain ⟨numbers, reader⟩ := references_reference here [] rfl rfl positive
  rw [List.nil_append] at numbers reader
  have inside : slot - 1 < ledger.slots.length := by
    have size := sound.books.size
    omega
  have found := List.getElem?_eq_getElem inside
  have longer : s.out.size < (s.out ++ render slot).size := by
    have positive : 0 < (render slot).size := Text.size_pos (by simp [render])
    rw [Text.size_append]
    omega
  have record : ledger.advance (.refer slot) = ledger.refer (some ledger.slots[slot - 1]) := by
    simp only [Ledger.advance, found]
  rw [record]
  refine ⟨?_, sound.books.refer positive found numbers, fun _ => rfl, sound.owned.imp Owned.refer,
    sound.nested, fun frame member => (sound.fixed frame member).append _,
    fun a recorded => (sound.atom a recorded).grown longer,
    fun c recorded => (sound.capture c recorded).grown longer,
    fun p recorded => (sound.splice p recorded).grown longer, no_class place⟩
  intro _
  change Place.outside.after (s.out ++ render slot) = (s.skip count).place
  rw [after, ← Reader.place_start, reader]

theorem Sound.spliced (sound : s.Sound ledger) (nonempty : s.rest ≠ []) {splice : Splice}
    {count : Nat} (last : s.splice = some splice) (stop : splice.stop = s.out.size)
    (place : s.place = .outside) (after : (s.skip count).place = .outside) :
    State.Sound { ({ s with groups := s.groups.suppress splice.slot }.skip
      count).emitReference splice.slot with splice := none } (ledger.advance .splice) := by
  have here := sound.place nonempty place
  obtain ⟨positive, held, known, found⟩ := ((sound.splice splice last).2 stop).2
  obtain ⟨numbers, reader⟩ := references_reference here [] rfl rfl positive
  rw [List.nil_append] at numbers reader
  have longer : s.out.size < (s.out ++ render splice.slot).size := by
    have positive : 0 < (render splice.slot).size := Text.size_pos (by simp [render])
    rw [Text.size_append]
    omega
  have record : ledger.advance .splice = ledger.refer (some held) := by
    simp only [Ledger.advance, known]
  rw [record]
  refine ⟨?_, (sound.books.suppress splice.slot).refer positive found numbers, fun _ => rfl,
    sound.owned.imp Owned.refer, sound.nested, ?_,
    fun a recorded => (sound.atom a recorded).grown longer,
    fun c recorded => (sound.capture c recorded).grown longer, ?_, no_class place⟩
  · intro _
    change Place.outside.after (s.out ++ render splice.slot) = (s.skip count).place
    rw [after, ← Reader.place_start, reader]
  · intro frame member
    obtain ⟨first, top, anchored⟩ := (sound.fixed frame member).append (render splice.slot)
    refine ⟨first, ?_, anchored⟩
    change frame.top ≤ (s.groups.suppress splice.slot).size
    rw [GroupTable.size_suppress]
    exact top
  · intro p recorded
    contradiction

theorem opening_spec {options : Options} {kind : FrameKind} {text : Text} {slot : Option Slot}
    (opening : s.Opening options kind text slot) :
    text ≠ [] ∧ (∀ c ∈ text, isOrdinary c = true) ∧
      kind.slot? = slot.map fun _ => s.groups.size := by
  cases opening with
  | capture slot visible => exact ⟨by decide, List.all_eq_true.mp (by decide), rfl⟩
  | hidden noCapture start => exact ⟨by decide, List.all_eq_true.mp (by decide), rfl⟩
  | atomic => exact ⟨by decide, List.all_eq_true.mp (by decide), rfl⟩
  | plain => exact ⟨by decide, List.all_eq_true.mp (by decide), rfl⟩
  | lookahead negative =>
      cases negative with
      | false => exact ⟨by decide, List.all_eq_true.mp (by decide), rfl⟩
      | true => exact ⟨by decide, List.all_eq_true.mp (by decide), rfl⟩
  | lookbehind negative =>
      cases negative with
      | false => exact ⟨by decide, List.all_eq_true.mp (by decide), rfl⟩
      | true => exact ⟨by decide, List.all_eq_true.mp (by decide), rfl⟩

theorem Sound.entered (sound : s.Sound ledger) (nonempty : s.rest ≠ []) {options : Options}
    {kind : FrameKind} {text : Text} {slot : Option Slot} {count : Nat}
    (opening : s.Opening options kind text slot) (place : s.place = .outside)
    (after : (s.skip count).place = .outside) :
    ((({ s with groups := s.opened slot }.emit text).skip count).openFrame kind s.out.size
      s.groups.size).Sound (ledger.advance (.enter slot)) := by
  have here := sound.place nonempty place
  obtain ⟨filled, ordinary, slotted⟩ := opening_spec opening
  obtain ⟨same, reader⟩ := references_ordinary here filled ordinary
  have head : text.head?.any (!isDigit ·) = true := by
    cases text with
    | nil => exact absurd rfl filled
    | cons c rest => simp [isDigit_of_ordinary (ordinary c (by simp))]
  have longer : s.out.size < (s.out ++ text).size := by
    have positive := Text.size_pos filled
    rw [Text.size_append]
    omega
  have table : s.groups.size + slot.isSome.toNat = (s.opened slot).size := by
    cases slot with
    | none => rfl
    | some slot => exact (GroupTable.size_push _ _).symm
  have top : Frame.top ⟨kind, s.out.size, s.groups.size⟩ = (s.opened slot).size := by
    rw [← table, Frame.top, slotted, Option.isSome_map]
  refine ⟨?_, ?_, ?_, ?_, ?_, ?_, fun a recorded => (sound.atom a recorded).grown longer,
    fun c recorded => (sound.capture c recorded).grown longer, ?_, no_class place⟩
  · intro _
    change Place.outside.after (s.out ++ text) = (s.skip count).place
    rw [after, ← Reader.place_start, reader]
  · cases slot with
    | none => exact (sound.books.same same).moved rfl rfl rfl
    | some slot => exact sound.books.push slot same
  · intro held
    change (Reader.start.after (s.out ++ text)).digits ≠ [] at held
    rw [reader] at held
    exact absurd rfl held
  · cases slot with
    | none =>
        refine List.Forall₂.cons ⟨fun _ => rfl, ?_⟩ (sound.owned.imp fun _ _ owned =>
          owned.keep fun _ _ _ _ found => found)
        intro other kind_
        rw [slotted] at kind_
        contradiction
    | some slot =>
        have size := sound.books.size
        refine List.Forall₂.cons ⟨?_, ?_⟩ (sound.owned.imp ?_)
        · intro kind_
          rw [slotted] at kind_
          contradiction
        · intro other kind_
          rw [slotted, Option.map_some, Option.some.injEq] at kind_
          refine ⟨kind_.symm, ledger.made.length, rfl, ?_⟩
          change (ledger.slots ++ [ledger.made.length])[other - 1]? = some ledger.made.length
          rw [← kind_, ← size, Nat.add_sub_cancel, List.getElem?_concat_length]
        · intro frame identity owned
          apply owned.keep
          intro other held _ _ found
          have bound := (List.getElem?_eq_some_iff.mp found).1
          change (ledger.slots ++ [ledger.made.length])[other - 1]? = some held
          rw [List.getElem?_append_left bound]
          exact found
  · refine List.Pairwise.cons ?_ sound.nested
    intro outer member
    exact ⟨Nat.le_of_lt (sound.fixed outer member).lt, (sound.fixed outer member).top⟩
  · intro frame member
    rcases List.mem_cons.mp member with rfl | member
    · refine ⟨by simp [GroupTable.size], Nat.le_of_eq top, ?_⟩
      refine ⟨s.out, [], text, ⟨rfl, rfl, ?_, by simpa using here, head, sound.below⟩,
        Nat.le_refl _, by simp, longer⟩
      rw [here]
      rfl
    · obtain ⟨positive, low, anchored⟩ := (sound.fixed frame member).append text
      refine ⟨positive, ?_, anchored⟩
      change frame.top ≤ (s.opened slot).size
      omega
  · intro p recorded
    contradiction

theorem Sound.repeatable (sound : s.Sound ledger) {frame : Frame} {frames : List Frame}
    (open_ : s.frames = frame :: frames) (text : Text) (stop : Nat) (emulated : Bool) :
    Repeatable (s.out ++ text) s.groups frames
      ⟨frame.start, stop, frame.firstGroup, emulated⟩ := by
  obtain ⟨positive, top, anchored⟩ := sound.fixed frame (by simp [open_])
  have nested := sound.nested
  rw [open_, List.pairwise_cons] at nested
  refine ⟨positive, ?_, anchored.append text, ?_⟩
  · unfold Frame.top at top
    change frame.firstGroup ≤ s.groups.size
    omega
  · intro outer member
    obtain ⟨start, low⟩ := nested.1 outer member
    refine ⟨low, ?_⟩
    rw [Nat.min_eq_right start]
    exact (sound.fixed outer (by simp [open_, member])).anchored.append text

theorem Sound.close (sound : s.Sound ledger) {frame : Frame} {frames : List Frame} {more : Text}
    (rest : s.rest = ')' :: more) (open_ : s.frames = frame :: frames)
    (place : s.place = .outside) {ledger' : Ledger}
    (owned : List.Forall₂ (Owned ledger) frames ledger'.pending)
    (slots : ledger'.slots = ledger.slots)
    (books : ledger'.Books (s.out ++ closing frame) s.groups)
    (outside : Place.outside.after (s.out ++ closing frame) = .outside)
    (held : (Reader.start.after (s.out ++ closing frame)).digits ≠ [] →
      (s.closed frame frames).referenceEnd = some (s.out ++ closing frame).size)
    (capture : ∀ c, (s.closed frame frames).capture = some c →
      (s.closed frame frames).escaped = false →
        (s.closed frame frames).Marked c.stop (Held ledger' c.slot ledger'.capture))
    (splice : ∀ p, (s.closed frame frames).splice = some p →
      (s.closed frame frames).escaped = false →
        (s.closed frame frames).Marked p.stop (Held ledger' p.slot ledger'.splice)) :
    (s.closed frame frames).Sound ledger' := by
  obtain ⟨out, before, _, class_, groups⟩ := closed_eq frame frames rest
  have free : (s.closed frame frames).escaped = false := by
    unfold escaped
    rw [before, Escape.pending_cons]
    rfl
  have outer : (s.closed frame frames).place = .outside := by
    apply place_eq_outside _ free
    rw [inClass, class_]
    exact inClass_of_place place
  have nested := sound.nested
  rw [open_, List.pairwise_cons] at nested
  refine ⟨?_, ?_, ?_, ?_, nested.2, ?_, ?_, fun c recorded => capture c recorded free,
    fun p recorded => splice p recorded free, no_class outer⟩
  · intro _
    rw [out, outside, outer]
  · rw [out, groups]
    exact books
  · rw [out]
    exact held
  · exact owned.imp fun _ _ own => own.keep fun _ _ _ _ found => by rw [slots]; exact found
  · intro other member
    rw [out, groups]
    exact (sound.fixed other (by rw [open_]; exact List.mem_cons_of_mem _ member)).append _
  · intro a recorded
    cases recorded
    refine ⟨Nat.le_refl _, fun _ => ⟨Or.inr free, ?_⟩⟩
    rw [out, groups]
    exact sound.repeatable open_ (closing frame) _ _

theorem Sound.close_plain (sound : s.Sound ledger) {frame : Frame} {frames : List Frame}
    {more : Text} (rest : s.rest = ')' :: more) (open_ : s.frames = frame :: frames)
    (place : s.place = .outside) (plain : isAtomic frame = false) {ledger' : Ledger}
    (owned : List.Forall₂ (Owned ledger) frames ledger'.pending)
    (made : ledger'.made = ledger.made) (slots : ledger'.slots = ledger.slots)
    (emitted : ledger'.references = ledger.references)
    (capture : ∀ c, (s.closed frame frames).capture = some c →
      (s.closed frame frames).escaped = false →
        (s.closed frame frames).Marked c.stop (Held ledger' c.slot ledger'.capture))
    (splice : ∀ p, (s.closed frame frames).splice = some p →
      (s.closed frame frames).escaped = false →
        (s.closed frame frames).Marked p.stop (Held ledger' p.slot ledger'.splice)) :
    (s.closed frame frames).Sound ledger' := by
  have here := sound.place (by simp [rest]) place
  have text : closing frame = [')'] := by
    unfold closing
    cases kind : frame.kind with
    | atomic slot => simp [isAtomic, kind] at plain
    | capture slot => rfl
    | lookahead negative => rfl
    | plain => rfl
  obtain ⟨same, reader⟩ := references_flat here (by simp : [')'] ≠ []) rfl (by decide)
  refine sound.close rest open_ place owned slots ?_ ?_ ?_ capture splice
  · rw [text]
    exact (sound.books.same same).moved made slots emitted
  · rw [text, ← Reader.place_start, reader]
  · rw [text, reader]
    exact fun digits => absurd rfl digits

theorem Sound.left (sound : s.Sound ledger) {frame : Frame} {frames : List Frame} {more : Text}
    (rest : s.rest = ')' :: more) (open_ : s.frames = frame :: frames)
    (place : s.place = .outside) :
    (s.closed frame frames).Sound (ledger.advance (.leave (isAtomic frame))) := by
  have here := sound.place (by simp [rest]) place
  have owned := sound.owned
  rw [open_, List.forall₂_cons_left_iff] at owned
  obtain ⟨identity, pending, own, outer, pendings⟩ := owned
  have positive := (sound.fixed frame (by simp [open_])).positive
  obtain ⟨out, _⟩ := closed_eq frame frames rest
  have longer : s.out.size < (s.closed frame frames).out.size := by
    have filled : 0 < (closing frame).size := by
      apply Text.size_pos
      unfold closing
      split <;> simp [Atom.atomicClose]
    rw [out, Text.size_append]
    omega
  cases kind : frame.kind with
  | atomic slot =>
      obtain ⟨first, held, rfl, found⟩ := own.slotted slot (by rw [kind]; rfl)
      have record : ledger.advance (.leave (isAtomic frame)) =
          { ledger with pending, splice := ledger.capture }.refer (some held) := by
        simp [Ledger.advance, Ledger.leave, pendings, isAtomic, kind]
      have text : closing frame = [')', ')'] ++ render slot := by
        simp [closing, kind, Atom.atomicClose]
      have low : 0 < slot := by omega
      obtain ⟨numbers, number⟩ := references_reference here [')', ')'] rfl (by decide) low
      have moved : Ledger.Books { ledger with pending, splice := ledger.capture } s.out s.groups :=
        sound.books.moved rfl rfl rfl
      rw [record]
      refine sound.close rest open_ place outer rfl ?_ ?_ ?_ ?_ ?_
      · rw [text]
        exact moved.refer low found numbers
      · rw [text, ← Reader.place_start, number]
      · intro _
        simp [closed, emitClose, closing, kind, markReference]
      · intro c recorded _
        simp only [closed, captureOf, emitClose, kind] at recorded
        exact (sound.capture c recorded).grown longer
      · intro p recorded _
        simp [closed, spliceOf, kind] at recorded
  | capture slot =>
      obtain ⟨first, held, rfl, found⟩ := own.slotted slot (by rw [kind]; rfl)
      have record : ledger.advance (.leave (isAtomic frame)) =
          { ledger with pending, splice := ledger.capture, capture := some held } := by
        simp [Ledger.advance, Ledger.leave, pendings, isAtomic, kind]
      have low : 0 < slot := by omega
      rw [record]
      refine sound.close_plain rest open_ place (by simp [isAtomic, kind]) outer rfl rfl rfl ?_ ?_
      · intro c recorded free
        simp only [closed, captureOf, kind] at recorded
        cases recorded
        exact ⟨Nat.le_refl _, fun _ => ⟨Or.inr free, low, held, rfl, found⟩⟩
      · intro p recorded _
        simp [closed, spliceOf, kind] at recorded
  | plain =>
      have unslotted := own.plain (by rw [kind]; rfl)
      have record : ledger.advance (.leave (isAtomic frame)) =
          { ledger with pending, splice := ledger.capture } := by
        simp [Ledger.advance, Ledger.leave, pendings, unslotted]
      rw [record]
      refine sound.close_plain rest open_ place (by simp [isAtomic, kind]) outer rfl rfl rfl ?_ ?_
      · intro c recorded _
        simp only [closed, captureOf, emitClose, kind] at recorded
        exact (sound.capture c recorded).grown longer
      · intro p recorded _
        simp [closed, spliceOf, kind] at recorded
  | lookahead negative =>
      have unslotted := own.plain (by rw [kind]; rfl)
      have record : ledger.advance (.leave (isAtomic frame)) =
          { ledger with pending, splice := ledger.capture } := by
        simp [Ledger.advance, Ledger.leave, pendings, unslotted]
      rw [record]
      refine sound.close_plain rest open_ place (by simp [isAtomic, kind]) outer rfl rfl rfl ?_ ?_
      · intro c recorded _
        simp only [closed, captureOf, emitClose, kind] at recorded
        exact (sound.capture c recorded).grown longer
      · -- the capture that the lookahead holds was closed just before it
        intro p recorded free
        obtain ⟨_, c, last, _, stop, rfl⟩ := closed_splice recorded
        exact ⟨Nat.le_refl _, fun _ => ⟨Or.inr free, ((sound.capture c last).2 stop).2⟩⟩

theorem Sound.flagged (sound : s.Sound ledger) :
    State.Sound { (s.skip 1).skip (s.skip 1).rest.length with flags := some (s.skip 1).rest }
      ledger := by
  have empty : ((s.skip 1).skip (s.skip 1).rest.length).rest = [] := List.drop_length
  apply sound.extend
    { (s.skip 1).skip (s.skip 1).rest.length with flags := some (s.skip 1).rest } []
    (List.append_nil _).symm rfl rfl rfl rfl rfl rfl
  · exact fun left => absurd empty left
  · rfl
  · exact sound.held
  · exact fun _ => Or.inl empty

/-- Every move keeps the invariant while the numbers of the groups are in reach. -/
theorem Sound.move {options : Options} {delimiter : Option Char} {action : Action} {next : State}
    (move : Move options delimiter s action next) (nonempty : s.rest ≠ [])
    (reach : s.groups.size ≤ Atom.searchReach) (sound : s.Sound ledger) :
    next.Sound (ledger.advance action) := by
  cases move with
  | write count text quiet => exact sound.write nonempty quiet
  | restore c more rest place kept => exact sound.restore rest place kept
  | openClass more rest place => exact sound.openClass rest place
  | closeClass start more rest class_ unescaped => exact sound.closeClass rest class_ unescaped
  | anything more rest place => exact sound.anything rest place
  | repeat_ q found mark place after =>
    exact sound.repeated nonempty (Construct.stands_of_at? found).1 place after
  | possess q atom found place mark quantified after =>
      exact sound.possessed nonempty reach (Construct.stands_of_at? found).1 place quantified after
  | refer slot count positive bound place after =>
      exact sound.referred nonempty positive bound place after
  | enter kind text slot count opening place after =>
      exact sound.entered nonempty opening place after
  | leave frame frames more rest open_ place => exact sound.left rest open_ place
  | splice splice count last stop place after =>
      exact sound.spliced nonempty last stop place after
  | flags place => exact sound.flagged

theorem Move.size_le {options : Options} {delimiter : Option Char} {action : Action} {next : State}
    (move : Move options delimiter s action next) : s.groups.size ≤ next.groups.size := by
  cases move with
  | restore c more rest place kept =>
      have same : s.dropEscape.groups = s.groups := by
        unfold dropEscape
        split <;> rfl
      exact Nat.le_of_eq (congrArg GroupTable.size same.symm)
  | possess q atom found place mark quantified after =>
      change s.groups.size ≤ (s.groups.insertSuppressed _).size
      rw [GroupTable.size_insertSuppressed]
      exact Nat.le_succ _
  | enter kind text slot count opening place after =>
      cases slot with
      | none => exact Nat.le_refl _
      | some slot =>
          change s.groups.size ≤ (s.groups.push slot).size
          rw [GroupTable.size_push]
          exact Nat.le_succ _
  | leave frame frames more rest open_ place =>
      obtain ⟨_, _, _, _, groups⟩ := closed_eq frame frames rest
      exact Nat.le_of_eq (congrArg GroupTable.size groups.symm)
  | splice splice count last stop place after =>
      exact Nat.le_of_eq (GroupTable.size_suppress _ _).symm
  | _ => exact Nat.le_refl _

end State

theorem Trace.size_le {options : Options} {delimiter : Option Char} {s final : State}
    {states : List State} (trace : Trace options delimiter s states final)
    (finished : final.inClass = false) (ready : s.Ready) :
    s.groups.size ≤ final.groups.size ∧
      ∀ state ∈ states, state.groups.size ≤ final.groups.size := by
  induction trace with
  | done s => exact ⟨Nat.le_refl _, by simp⟩
  | step nonempty ok rest ih =>
      have move := State.move_of_step ready ((Trace.step nonempty ok rest).closable finished)
        nonempty ok
      obtain ⟨low, all⟩ := ih finished move.ready
      have first := Nat.le_trans move.size_le low
      exact ⟨first, List.forall_mem_cons.mpr ⟨first, all⟩⟩

/-- The groups of a conversion by identity, and the references emitted for them. -/
def ledger (options : Options) (delimiter : Option Char) (text : Text) : Ledger :=
  recorded options delimiter Ledger.advance (visited options delimiter text.length (.start text)) {}

/-- The references in a converted source are those that the conversion emitted, each
with the number that its group has in the table in the end. -/
theorem references_convert {options : Options} {delimiter : Option Char} {text : Text}
    {result : Result} (ok : convert options delimiter text = .ok result)
    (reach : result.groups.size ≤ Atom.searchReach) :
    references result.source =
        (ledger options delimiter text).references.map (ledger options delimiter text).index ∧
      (ledger options delimiter text).slots.Nodup ∧
        (ledger options delimiter text).slots.length + 1 = result.groups.size ∧
          ∀ identity ∈ (ledger options delimiter text).references,
            1 ≤ (ledger options delimiter text).index identity ∧
              (ledger options delimiter text).index identity < result.groups.size ∧
                ∃ made now, (ledger options delimiter text).made[identity]? = some made ∧
                  result.groups.get? ((ledger options delimiter text).index identity) = some now ∧
                    Ledger.Kept made now := by
  obtain ⟨final, trace, finished, rfl⟩ := trace_of_convert ok
  obtain ⟨_, sizes⟩ := trace.size_le finished (ready_start text)
  have sound : final.Sound (ledger options delimiter text) :=
    trace.keeps (fun move nonempty _ reach sound => sound.move move nonempty reach) finished
      (fun state member => Nat.le_trans (sizes state member) reach) (ready_start text)
      (State.Sound.start text)
  refine ⟨sound.books.numbers, sound.books.unique, sound.books.size, ?_⟩
  intro identity emitted
  have known := sound.books.known identity emitted
  exact ⟨by simp [Ledger.index], sound.books.index_lt known, sound.books.slot_of_index known⟩

theorem references_convert_possessive :
    ∃ result, convert {} none "((a)$2)++".toList = .ok result ∧
      result.groups.size ≤ Atom.searchReach ∧ references result.source = [3, 1] ∧
        (ledger {} none "((a)$2)++".toList).references.map
          (ledger {} none "((a)$2)++".toList).index = [3, 1] := by
  have ok : convert {} none "((a)$2)++".toList =
      .ok ⟨"(?=(((a)\\3)+))\\1".toList, ⟨[.suppressed, .anonymous, .anonymous]⟩, none⟩ := by
    decide +kernel
  have known : (ledger {} none "((a)$2)++".toList).references.map
      (ledger {} none "((a)$2)++".toList).index = [3, 1] := by
    decide +kernel
  exact ⟨_, ok, by decide +kernel, (references_convert ok (by decide +kernel)).1.trans known, known⟩

end PatternDialect.Conversion
