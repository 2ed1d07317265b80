import Mathlib.Data.List.Nodup
import PatternDialect.Proofs.Runs
import PatternDialect.Proofs.UnitCuts

/-! A record of the groups by identity.

A slot of the table changes its number when another is inserted before it.  The
ledger gives each slot an identity that stays, and writes down for which identity
each reference is emitted. -/

namespace PatternDialect.Conversion

open Source Backreference

structure Ledger where
  /-- The slots as they were made, by identity. -/
  made : List Slot := []
  /-- The identities in the order of the table. -/
  slots : List Nat := []
  pending : List (Option Nat) := []
  capture : Option Nat := none
  /-- The identity of the capture that the last lookahead may hold. -/
  splice : Option Nat := none
  references : List Nat := []
  deriving DecidableEq

namespace Ledger

def index (ledger : Ledger) (identity : Nat) : Nat := ledger.slots.idxOf identity + 1

def refer (ledger : Ledger) (identity : Option Nat) : Ledger :=
  { ledger with references := ledger.references ++ identity.toList }

def leave (ledger : Ledger) (referring : Bool) : Ledger :=
  match ledger.pending with
  | some identity :: pending =>
      if referring then { ledger with pending, splice := ledger.capture }.refer identity
      else { ledger with pending, splice := ledger.capture, capture := identity }
  | none :: pending => { ledger with pending, splice := ledger.capture }
  | [] => ledger

def advance : Action → Ledger → Ledger
  | .none, ledger => ledger
  | .refer slot, ledger => ledger.refer ledger.slots[slot - 1]?
  | .enter (some slot), ledger =>
      { ledger with
        made := ledger.made ++ [slot]
        slots := ledger.slots ++ [ledger.made.length]
        pending := some ledger.made.length :: ledger.pending }
  | .enter none, ledger => { ledger with pending := none :: ledger.pending }
  | .insert index, ledger =>
      { ledger with
        made := ledger.made ++ [.suppressed]
        slots := ledger.slots.insertIdx (index - 1) ledger.made.length
        references := ledger.references ++ [ledger.made.length] }
  | .leave referring, ledger => ledger.leave referring
  | .splice, ledger => ledger.refer ledger.splice

/-- The slots that a slot may become: an anonymous one may be hidden. -/
def Kept (made now : Slot) : Prop := now = made ∨ made = .anonymous ∧ now = .suppressed

/-- The ledger agrees with a source and its table. -/
structure Books (ledger : Ledger) (source : Text) (groups : GroupTable) : Prop where
  numbers : Source.references source = ledger.references.map ledger.index
  known : ∀ identity ∈ ledger.references, identity ∈ ledger.slots
  unique : ledger.slots.Nodup
  given : ∀ identity ∈ ledger.slots, identity < ledger.made.length
  length : ledger.slots.length = groups.declared.length
  tied : ∀ position identity : Nat, ledger.slots[position]? = some identity →
    ∃ made now : Slot, ledger.made[identity]? = some made ∧ groups.declared[position]? = some now ∧
      Kept made now

namespace Books

variable {ledger : Ledger} {source source' : Text} {groups : GroupTable}

theorem start : Books {} [] {} :=
  ⟨rfl, by simp, List.nodup_nil, by simp, rfl, by simp⟩

theorem size (books : ledger.Books source groups) : ledger.slots.length + 1 = groups.size := by
  rw [books.length]
  rfl

theorem index_lt (books : ledger.Books source groups) {identity : Nat}
    (member : identity ∈ ledger.slots) : ledger.index identity < groups.size := by
  have bound := List.idxOf_lt_length_of_mem member
  have size := books.size
  unfold index
  omega

theorem bounds (books : ledger.Books source groups) {n : Nat}
    (member : n ∈ Source.references source) : 1 ≤ n ∧ n < groups.size := by
  rw [books.numbers, List.mem_map] at member
  obtain ⟨identity, emitted, rfl⟩ := member
  exact ⟨by simp [index], books.index_lt (books.known identity emitted)⟩

theorem same (books : ledger.Books source groups)
    (equal : Source.references source' = Source.references source) :
    ledger.Books source' groups :=
  ⟨equal.trans books.numbers, books.known, books.unique, books.given, books.length, books.tied⟩

theorem moved {ledger' : Ledger} (books : ledger.Books source groups)
    (made : ledger'.made = ledger.made) (slots : ledger'.slots = ledger.slots)
    (emitted : ledger'.references = ledger.references) : ledger'.Books source groups := by
  have index : ledger'.index = ledger.index := by
    funext identity
    rw [Ledger.index, slots, Ledger.index]
  refine ⟨?_, ?_, ?_, ?_, ?_, ?_⟩
  · rw [emitted, index]
    exact books.numbers
  · rw [emitted, slots]
    exact books.known
  · rw [slots]
    exact books.unique
  · rw [slots, made]
    exact books.given
  · rw [slots]
    exact books.length
  · rw [slots, made]
    exact books.tied

theorem index_of_position (books : ledger.Books source groups) {slot identity : Nat}
    (positive : 0 < slot) (found : ledger.slots[slot - 1]? = some identity) :
    identity ∈ ledger.slots ∧ ledger.index identity = slot := by
  obtain ⟨bound, equality⟩ := List.getElem?_eq_some_iff.mp found
  refine ⟨equality ▸ List.getElem_mem bound, ?_⟩
  rw [index, ← equality, List.Nodup.idxOf_getElem books.unique]
  omega

theorem slot_of_index (books : ledger.Books source groups) {identity : Nat}
    (member : identity ∈ ledger.slots) : ∃ made now : Slot, ledger.made[identity]? = some made ∧
      groups.get? (ledger.index identity) = some now ∧ Kept made now := by
  apply books.tied
  rw [List.getElem?_eq_getElem (List.idxOf_lt_length_of_mem member), List.getElem_idxOf]

theorem refer (books : ledger.Books source groups) {slot identity : Nat} (positive : 0 < slot)
    (found : ledger.slots[slot - 1]? = some identity)
    (numbers : Source.references source' = Source.references source ++ [slot]) :
    (ledger.refer (some identity)).Books source' groups := by
  obtain ⟨member, same⟩ := books.index_of_position positive found
  refine ⟨?_, ?_, books.unique, books.given, books.length, books.tied⟩
  · have step : (ledger.refer (some identity)).references.map (ledger.refer (some identity)).index =
        ledger.references.map ledger.index ++ [ledger.index identity] := by
      change (ledger.references ++ [identity]).map ledger.index = _
      rw [List.map_append]
      rfl
    rw [step, numbers, books.numbers, same]
  · intro other emitted
    simp only [Ledger.refer, Option.toList_some, List.mem_append, List.mem_singleton] at emitted
    rcases emitted with emitted | rfl
    · exact books.known other emitted
    · exact member

theorem push (books : ledger.Books source groups) (slot : Slot)
    (equal : Source.references source' = Source.references source) :
    (ledger.advance (.enter (some slot))).Books source' (groups.push slot) := by
  have fresh : ledger.made.length ∉ ledger.slots := fun member =>
    absurd (books.given _ member) (Nat.lt_irrefl _)
  refine ⟨?_, ?_, ?_, ?_, ?_, ?_⟩
  · rw [equal, books.numbers]
    apply List.map_congr_left
    intro identity emitted
    have member := books.known identity emitted
    simp only [index, advance, List.idxOf_append, if_pos member]
  · intro identity emitted
    exact List.mem_append_left _ (books.known identity emitted)
  · simp only [advance, List.nodup_append]
    refine ⟨books.unique, by simp, ?_⟩
    rintro identity member other single rfl
    rw [List.mem_singleton] at single
    exact fresh (single ▸ member)
  · intro identity member
    simp only [advance, List.mem_append, List.mem_singleton, List.length_append,
      List.length_singleton] at member ⊢
    rcases member with member | rfl
    · exact Nat.lt_succ_of_lt (books.given identity member)
    · exact Nat.lt_succ_self _
  · simp [advance, GroupTable.push, books.length]
  · intro position identity found
    simp only [advance, GroupTable.push] at found ⊢
    by_cases old : position < ledger.slots.length
    · rw [List.getElem?_append_left old] at found
      obtain ⟨made, now, madeAt, nowAt, kept⟩ := books.tied position identity found
      refine ⟨made, now, ?_, ?_, kept⟩
      · rw [List.getElem?_append_left (List.getElem?_eq_some_iff.mp madeAt).1]
        exact madeAt
      · rw [List.getElem?_append_left (List.getElem?_eq_some_iff.mp nowAt).1]
        exact nowAt
    · rw [List.getElem?_append_right (by omega)] at found
      have last : position - ledger.slots.length = 0 := by
        have bound := (List.getElem?_eq_some_iff.mp found).1
        simp only [List.length_singleton] at bound
        omega
      rw [last, List.getElem?_cons_zero, Option.some.injEq] at found
      have position_ : position = groups.declared.length := by
        rw [← books.length]
        omega
      refine ⟨slot, slot, ?_, ?_, Or.inl rfl⟩
      · rw [← found]
        simp
      · rw [position_]
        simp

theorem index_insert {slots : List Nat} {identity fresh first : Nat} (member : identity ∈ slots)
    (new : fresh ∉ slots) (positive : 0 < first) (bound : first ≤ slots.length + 1) :
    (slots.insertIdx (first - 1) fresh).idxOf identity + 1 =
      bump first (slots.idxOf identity + 1) := by
  have other : fresh ≠ identity := fun equality => new (equality ▸ member)
  have parts : slots.insertIdx (first - 1) fresh =
      slots.take (first - 1) ++ fresh :: slots.drop (first - 1) :=
    GroupTable.insertIdx_eq (by omega) fresh
  have whole : slots.idxOf identity =
      (slots.take (first - 1) ++ slots.drop (first - 1)).idxOf identity := by
    rw [List.take_append_drop]
  have length : (slots.take (first - 1)).length = first - 1 := by
    rw [List.length_take]
    omega
  rw [whole, parts, List.idxOf_append, List.idxOf_append]
  by_cases early : identity ∈ slots.take (first - 1)
  · rw [if_pos early, if_pos early]
    have below := List.idxOf_lt_length_of_mem early
    rw [length] at below
    rw [bump_of_lt (by omega)]
  · rw [if_neg early, if_neg early, List.idxOf_cons_ne _ other, length, bump_of_le (by omega)]
    omega

theorem insert (books : ledger.Books source groups) {first : Nat} (positive : 0 < first)
    (bound : first ≤ groups.size)
    (numbers : Source.references source' =
      (Source.references source).map (bump first) ++ [first]) :
    (ledger.advance (.insert first)).Books source' (groups.insertSuppressed first) := by
  have fresh : ledger.made.length ∉ ledger.slots := fun member =>
    absurd (books.given _ member) (Nat.lt_irrefl _)
  have inside : first ≤ ledger.slots.length + 1 := by
    rw [books.size]
    exact bound
  have clamped : groups.clamp first = first := by
    unfold GroupTable.clamp
    omega
  have short : first - 1 ≤ ledger.slots.length := by omega
  have parts := GroupTable.insertIdx_eq short ledger.made.length
  have member_iff : ∀ identity, identity ∈ ledger.slots.insertIdx (first - 1) ledger.made.length ↔
      identity = ledger.made.length ∨ identity ∈ ledger.slots := fun identity =>
    List.mem_insertIdx short
  refine ⟨?_, ?_, ?_, ?_, ?_, ?_⟩
  · rw [numbers, books.numbers]
    simp only [advance, List.map_append, List.map_map, List.map_cons, List.map_nil]
    congr 1
    · apply List.map_congr_left
      intro identity emitted
      exact (index_insert (books.known identity emitted) fresh positive inside).symm
    · have absent : ledger.made.length ∉ ledger.slots.take (first - 1) := fun member =>
        fresh (List.mem_of_mem_take member)
      have length : (ledger.slots.take (first - 1)).length = first - 1 := by
        rw [List.length_take]
        omega
      simp only [index]
      rw [parts, List.idxOf_append, if_neg absent, List.idxOf_cons_self, length]
      congr 1
      omega
  · intro identity emitted
    simp only [advance, List.mem_append, List.mem_singleton] at emitted
    apply (member_iff identity).mpr
    rcases emitted with emitted | rfl
    · exact Or.inr (books.known identity emitted)
    · exact Or.inl rfl
  · simp only [advance]
    rw [parts, List.nodup_middle, List.take_append_drop]
    exact List.nodup_cons.mpr ⟨fresh, books.unique⟩
  · intro identity member
    have lengths : (ledger.advance (.insert first)).made.length = ledger.made.length + 1 := by
      simp [advance]
    rw [lengths]
    rcases (member_iff identity).mp member with rfl | member
    · exact Nat.lt_succ_self _
    · exact Nat.lt_succ_of_lt (books.given identity member)
  · have table : first - 1 ≤ groups.declared.length := by
      rw [← books.length]
      exact short
    simp only [advance, GroupTable.insertSuppressed, clamped]
    rw [List.length_insertIdx_of_le_length short, List.length_insertIdx_of_le_length table,
      books.length]
  · intro position identity found
    simp only [advance, GroupTable.insertSuppressed, clamped] at found ⊢
    have extended : ∀ {made : Slot}, ledger.made[identity]? = some made →
        (ledger.made ++ [.suppressed])[identity]? = some made := by
      intro made madeAt
      rw [List.getElem?_append_left (List.getElem?_eq_some_iff.mp madeAt).1]
      exact madeAt
    rcases Nat.lt_trichotomy position (first - 1) with before | at_ | behind
    · rw [List.getElem?_insertIdx_of_lt before] at found ⊢
      obtain ⟨made, now, madeAt, nowAt, kept⟩ := books.tied position identity found
      exact ⟨made, now, extended madeAt, nowAt, kept⟩
    · rw [at_, List.getElem?_insertIdx_self, if_pos short, Option.some.injEq] at found
      rw [at_, List.getElem?_insertIdx_self, if_pos (by rw [← books.length]; exact short)]
      refine ⟨.suppressed, .suppressed, ?_, rfl, Or.inl rfl⟩
      rw [← found]
      simp
    · rw [List.getElem?_insertIdx_of_gt behind] at found ⊢
      obtain ⟨made, now, madeAt, nowAt, kept⟩ := books.tied (position - 1) identity found
      exact ⟨made, now, extended madeAt, nowAt, kept⟩

theorem suppress (books : ledger.Books source groups) (slot : Nat) :
    ledger.Books source (groups.suppress slot) := by
  cases slot with
  | zero => exact books
  | succ position =>
      unfold GroupTable.suppress
      dsimp only
      split
      · rename_i anonymous
        refine ⟨books.numbers, books.known, books.unique, books.given, by simp [books.length], ?_⟩
        intro other identity found
        obtain ⟨made, now, madeAt, nowAt, kept⟩ := books.tied other identity found
        by_cases same : position = other
        · subst same
          rw [anonymous, Option.some.injEq] at nowAt
          refine ⟨made, .suppressed, madeAt, ?_, ?_⟩
          · rw [List.getElem?_set_self (List.getElem?_eq_some_iff.mp anonymous).1]
          · rcases kept with rfl | ⟨_, hidden⟩
            · exact Or.inr ⟨nowAt.symm, rfl⟩
            · rw [← nowAt] at hidden
              contradiction
        · exact ⟨made, now, madeAt, by rw [List.getElem?_set_ne same]; exact nowAt, kept⟩
      · exact books

end Books

end Ledger

end PatternDialect.Conversion
