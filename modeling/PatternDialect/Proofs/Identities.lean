import PatternDialect.Native
import PatternDialect.Workshop

/-! Identities of patterns over a whole history of a workshop.

Main statement: patterns that are held at the same time have different identities, and
the live identities are those of the patterns that were built and are still held. -/

namespace PatternDialect

inductive Origin where
  | built
  | native
  deriving DecidableEq

namespace Workshop

inductive Action where
  | build (b : Builder) (template : Template)
  | native (source flags : Text)
  | recompile (register : Nat) (source flags : Text)
  | drop (register : Nat)

/-- The origin of what an action puts into a new register. -/
def Action.origin? : Action → Option Origin
  | build .. => some .built
  | native .. => some .native
  | recompile .. | drop _ => none

def origins (history : List Action) : List Origin := history.filterMap Action.origin?

inductive Outcome where
  | made
  | failed (fault : Fault)
  | idle

namespace Outcome

def ofResult [Engine] : Except Fault Pattern → Outcome
  | .ok _ => made
  | .error fault => failed fault

def identities : Outcome → Nat
  | made => 1
  | failed _ | idle => 0

end Outcome

section

variable [Engine]

/-- What comes of an action.  In an empty register there is nothing to recompile. -/
def perform (w : Workshop) : Action → Outcome × Workshop
  | .build b template => (w.build b template).map .ofResult id
  | .native source flags => (w.native source flags).map .ofResult id
  | .recompile register source flags =>
      match w.holding? register with
      | some holding => (w.recompile register holding source flags).map .ofResult id
      | none => (.idle, w)
  | .drop register => (.idle, w.drop register)

def run (w : Workshop) (history : List Action) : Workshop :=
  history.foldl (fun w action => (w.perform action).2) w

/-- The number of identities that are handed out along a history. -/
def handedOut : Workshop → List Action → Nat
  | _, [] => 0
  | w, action :: history =>
      (w.perform action).1.identities + handedOut (w.perform action).2 history

variable {w next : Workshop} {made : List Origin} {count : Nat}

/-! ### Registers -/

theorem holding?_addHolding (w : Workshop) (holding : Option Holding) (i : Nat) :
    (w.addHolding holding).holding? i =
      if i = w.registers.length then holding else w.holding? i := by
  simp only [holding?, addHolding]
  split
  · rename_i last
    simp [last]
  · rename_i other
    rcases Nat.lt_or_gt_of_ne other with below | above
    · rw [List.getElem?_append_left below]
    · have outside : w.registers[i]? = none := List.getElem?_eq_none (Nat.le_of_lt above)
      have beyond : (w.registers ++ [holding])[i]? = none :=
        List.getElem?_eq_none (by simp; omega)
      rw [outside, beyond]

theorem lt_of_holding? {i : Nat} {holding : Holding} (held : w.holding? i = some holding) :
    i < w.registers.length := by
  apply Nat.lt_of_not_le
  intro outside
  simp [holding?, List.getElem?_eq_none outside] at held

theorem holding?_set {i : Nat} (inside : i < w.registers.length) (registry : Registry)
    (holding : Option Holding) (j : Nat) :
    holding? { w with registry, registers := w.registers.set i holding } j =
      if j = i then holding else w.holding? j := by
  simp only [holding?]
  split
  · rename_i same
    simp [same, inside]
  · rename_i other
    rw [List.getElem?_set_ne (Ne.symm other)]

/-! ### What an action does -/

inductive Effect (w : Workshop) : Action → Outcome → Workshop → Prop where
  | built {b : Builder} {template : Template} {pattern : Pattern}
      (ok : b.build template = .ok pattern) :
      Effect w (.build b template) .made (w.keepBuilt pattern)
  | unbuilt {b : Builder} {template : Template} {fault : Fault}
      (failed : b.build template = .error fault) :
      Effect w (.build b template) (.failed fault) (w.addHolding none)
  | compiled {source flags : Text} {pattern : Pattern}
      (ok : Pattern.native source flags = .ok pattern) :
      Effect w (.native source flags) .made (w.keepNative pattern)
  | uncompiled {source flags : Text} {fault : Fault}
      (failed : Pattern.native source flags = .error fault) :
      Effect w (.native source flags) (.failed fault) (w.addHolding none)
  | replaced {register : Nat} {source flags : Text} {holding : Holding} {pattern : Pattern}
      (held : w.holding? register = some holding)
      (free : w.registry.contains holding.id = false)
      (ok : Pattern.native source flags = .ok pattern) :
      Effect w (.recompile register source flags) .made
        { w with
          registry := w.registry.advance.unregister holding.id
          registers := w.registers.set register (some ⟨w.registry.next, pattern⟩) }
  | refused {register : Nat} {source flags : Text} {holding : Holding} {fault : Fault}
      (held : w.holding? register = some holding)
      (failed : (w.recompile register holding source flags).1 = .error fault) :
      Effect w (.recompile register source flags) (.failed fault) w
  | missing {register : Nat} {source flags : Text} (empty : w.holding? register = none) :
      Effect w (.recompile register source flags) .idle w
  | dropped {register : Nat} {holding : Holding} (held : w.holding? register = some holding) :
      Effect w (.drop register) .idle
        { w with
          registry := w.registry.unregister holding.id
          registers := w.registers.set register none }
  | undropped {register : Nat} (empty : w.holding? register = none) :
      Effect w (.drop register) .idle w

theorem recompile_eq (w : Workshop) (register : Nat) (holding : Holding) (source flags : Text) :
    (w.recompile register holding source flags).1 =
      if w.registry.contains holding.id then .error .recompile
      else Pattern.native source flags := by
  unfold recompile
  split
  · rfl
  · cases Pattern.native source flags <;> rfl

theorem native_ne_recompile (source flags : Text) :
    Pattern.native source flags ≠ .error .recompile := by
  unfold Pattern.native Engine.prepare
  split
  · simp
  · rename_i failed
    split at failed
    · cases failed
      simp
    · split at failed <;> cases failed
      simp

theorem effect_perform (w : Workshop) (action : Action) :
    w.Effect action (w.perform action).1 (w.perform action).2 := by
  cases action with
  | build b template =>
      simp only [perform, build]
      cases outcome : b.build template with
      | ok pattern => exact .built outcome
      | error fault => exact .unbuilt outcome
  | native source flags =>
      simp only [perform, native]
      cases outcome : Pattern.native source flags with
      | ok pattern => exact .compiled outcome
      | error fault => exact .uncompiled outcome
  | recompile register source flags =>
      simp only [perform]
      cases held : w.holding? register with
      | none => exact .missing held
      | some holding =>
          have result := w.recompile_eq register holding source flags
          simp only [recompile]
          cases free : w.registry.contains holding.id with
          | true => exact .refused held (by rw [result, free, if_pos rfl])
          | false =>
              cases outcome : Pattern.native source flags with
              | ok pattern => exact .replaced held free outcome
              | error fault =>
                  exact .refused held (by rw [result, free, if_neg (by decide), outcome])
  | drop register =>
      simp only [perform, drop]
      cases held : w.holding? register with
      | none => exact .undropped held
      | some holding => exact .dropped held

theorem holding?_unfilled (w : Workshop) (i : Nat) :
    (w.addHolding none).holding? i = w.holding? i := by
  rw [holding?_addHolding]
  split
  · rename_i last
    simp [holding?, last]
  · rfl

theorem Effect.frame {action : Action} {fault : Fault}
    (effect : w.Effect action (.failed fault) next) :
    (∀ i, next.holding? i = w.holding? i) ∧ next.registry = w.registry := by
  cases effect with
  | unbuilt failed => exact ⟨w.holding?_unfilled, rfl⟩
  | uncompiled failed => exact ⟨w.holding?_unfilled, rfl⟩
  | refused held failed => exact ⟨fun _ => rfl, rfl⟩

/-! ### Identities -/

/-- What is known of a workshop whose registers have the given origins, after so many
identities were handed out. -/
structure Sound (made : List Origin) (count : Nat) (w : Workshop) : Prop where
  length : w.registers.length = made.length
  next : w.registry.next = (count + 1) % Registry.limit
  bounds : ∀ i h, w.holding? i = some h → h.id ≤ count
  distinct : ∀ i j h k, w.holding? i = some h → w.holding? j = some k → h.id = k.id → i = j
  live : ∀ id, id ∈ w.registry.live ↔
    ∃ i h, w.holding? i = some h ∧ h.id = id ∧ made[i]? = some .built

theorem sound_start : Sound [] 0 {} where
  length := rfl
  next := rfl
  bounds := by simp [holding?]
  distinct := by simp [holding?]
  live := by simp [holding?]

namespace Sound

theorem unfilled (sound : Sound made count w) (origin : Origin) :
    Sound (made ++ [origin]) count (w.addHolding none) where
  length := by simp [addHolding, sound.length]
  next := sound.next
  bounds := by
    intro i h held
    rw [holding?_unfilled] at held
    exact sound.bounds i h held
  distinct := by
    intro i j h k held held'
    rw [holding?_unfilled] at held held'
    exact sound.distinct i j h k held held'
  live := by
    intro id
    simp only [holding?_unfilled]
    rw [show (w.addHolding none).registry.live = w.registry.live from rfl, sound.live]
    constructor
    all_goals
      rintro ⟨i, h, held, same, origin_⟩
      refine ⟨i, h, held, same, ?_⟩
      have inside := lt_of_holding? held
      rw [sound.length] at inside
    · rwa [List.getElem?_append_left inside]
    · rwa [List.getElem?_append_left inside] at origin_

theorem emptied (sound : Sound made count w) {i : Nat} {holding : Holding}
    (held : w.holding? i = some holding) :
    Sound made count
      { w with
        registry := w.registry.unregister holding.id
        registers := w.registers.set i none } := by
  have left := holding?_set (lt_of_holding? held) (w.registry.unregister holding.id) none
  refine ⟨by simp [sound.length], sound.next, ?_, ?_, ?_⟩
  · intro j h found
    rw [left] at found
    split at found
    · contradiction
    · exact sound.bounds j h found
  · intro j k h h' found found' same
    rw [left] at found found'
    split at found
    · contradiction
    split at found'
    · contradiction
    exact sound.distinct j k h h' found found' same
  · intro id
    change id ∈ w.registry.live.filter (· != holding.id) ↔ _
    rw [List.mem_filter, sound.live]
    constructor
    · rintro ⟨⟨j, h, found, same, built⟩, other⟩
      have apart : j ≠ i := by
        rintro rfl
        cases held.symm.trans found
        simp [same] at other
      exact ⟨j, h, by rw [left, if_neg apart, found], same, built⟩
    · rintro ⟨j, h, found, same, built⟩
      rw [left] at found
      split at found
      · contradiction
      rename_i apart
      refine ⟨⟨j, h, found, same, built⟩, ?_⟩
      rw [← same, bne_iff_ne]
      intro alike
      exact apart (sound.distinct j i h holding found held alike)

theorem filled (sound : Sound made count w) (few : count + 1 < Registry.limit) {i : Nat}
    (inside : i < w.registers.length) (empty : w.holding? i = none) {registry : Registry}
    (next : registry.next = w.registry.advance.next)
    (live : ∀ id, id ∈ registry.live ↔
      id ∈ w.registry.live ∨ made[i]? = some .built ∧ id = w.registry.next)
    (pattern : Pattern) :
    Sound made (count + 1)
      { w with registry, registers := w.registers.set i (some ⟨w.registry.next, pattern⟩) } := by
  have fresh : w.registry.next = count + 1 := sound.next.trans (Nat.mod_eq_of_lt few)
  have put := holding?_set inside registry (some ⟨w.registry.next, pattern⟩)
  refine ⟨by simp [sound.length], ?_, ?_, ?_, ?_⟩
  · rw [next, Registry.advance, fresh]
  · intro j h found
    rw [put] at found
    split at found
    · cases found
      exact Nat.le_of_eq fresh
    · exact Nat.le_succ_of_le (sound.bounds j h found)
  · intro j k h h' found found' same
    rw [put] at found found'
    split at found <;> split at found'
    · rename_i here here'
      exact here.trans here'.symm
    · cases found
      have below := sound.bounds k h' found'
      change w.registry.next = h'.id at same
      omega
    · cases found'
      have below := sound.bounds j h found
      change h.id = w.registry.next at same
      omega
    · exact sound.distinct j k h h' found found' same
  · intro id
    rw [live, sound.live]
    constructor
    · rintro (⟨j, h, found, same, built⟩ | ⟨built, rfl⟩)
      · have apart : j ≠ i := by
          rintro rfl
          rw [empty] at found
          contradiction
        exact ⟨j, h, by rw [put, if_neg apart, found], same, built⟩
      · exact ⟨i, ⟨w.registry.next, pattern⟩, by rw [put, if_pos rfl], rfl, built⟩
    · rintro ⟨j, h, found, same, built⟩
      rw [put] at found
      split at found
      · rename_i here
        cases found
        exact Or.inr ⟨here ▸ built, same.symm⟩
      · exact Or.inl ⟨j, h, found, same, built⟩

theorem added (sound : Sound made count w) (few : count + 1 < Registry.limit) (origin : Origin)
    {registry : Registry} (next : registry.next = w.registry.advance.next)
    (live : ∀ id, id ∈ registry.live ↔
      id ∈ w.registry.live ∨ origin = .built ∧ id = w.registry.next)
    (pattern : Pattern) :
    Sound (made ++ [origin]) (count + 1)
      ({ w with registry }.addHolding (some ⟨w.registry.next, pattern⟩)) := by
  have last : (made ++ [origin])[w.registers.length]? = some origin := by simp [sound.length]
  have full := @filled _ _ _ _ (sound.unfilled origin) few w.registers.length (by simp [addHolding])
    (by rw [holding?_addHolding, if_pos rfl]) registry next (by
      intro id
      rw [last, Option.some.injEq]
      exact live id) pattern
  simpa [addHolding] using full

theorem contains_iff (sound : Sound made count w) {i : Nat} {holding : Holding}
    (held : w.holding? i = some holding) :
    w.registry.contains holding.id = true ↔ made[i]? = some .built := by
  rw [Registry.contains, List.contains_iff_mem, sound.live]
  constructor
  · rintro ⟨j, h, found, same, built⟩
    rwa [← sound.distinct j i h holding found held same]
  · intro built
    exact ⟨i, holding, held, rfl, built⟩

theorem replaced (sound : Sound made count w) (few : count + 1 < Registry.limit) {i : Nat}
    {holding : Holding} (held : w.holding? i = some holding)
    (free : w.registry.contains holding.id = false) (pattern : Pattern) :
    Sound made (count + 1)
      { w with
        registry := w.registry.advance.unregister holding.id
        registers := w.registers.set i (some ⟨w.registry.next, pattern⟩) } := by
  have native : made[i]? ≠ some .built := by
    intro built
    rw [(sound.contains_iff held).mpr built] at free
    contradiction
  have inside := lt_of_holding? held
  have full := @filled _ _ _ _ (sound.emptied held) few i (by simpa using inside)
    (by rw [holding?_set inside, if_pos rfl]) (w.registry.advance.unregister holding.id) rfl (by
      intro id
      simp only [native, false_and, or_false]
      rfl) pattern
  rwa [List.set_set] at full

theorem unmade (sound : Sound made count w) : Sound (made ++ []) count w := by
  rwa [List.append_nil]

theorem step (sound : Sound made count w) {action : Action} {outcome : Outcome}
    (effect : w.Effect action outcome next) (few : count + outcome.identities < Registry.limit) :
    Sound (made ++ action.origin?.toList) (count + outcome.identities) next := by
  cases effect with
  | built ok =>
      refine @added _ _ _ _ sound few .built w.registry.register rfl (fun id => ?_) _
      simp [Registry.register, or_comm]
  | unbuilt failed => exact sound.unfilled .built
  | compiled ok =>
      refine @added _ _ _ _ sound few .native w.registry.advance rfl (fun id => ?_) _
      simp [Registry.advance]
  | uncompiled failed => exact sound.unfilled .native
  | replaced held free ok => exact (sound.replaced few held free _).unmade
  | refused held failed => exact sound.unmade
  | missing empty => exact sound.unmade
  | dropped held => exact (sound.emptied held).unmade
  | undropped empty => exact sound.unmade

theorem run (sound : Sound made count w) (history : List Action)
    (few : count + w.handedOut history < Registry.limit) :
    Sound (made ++ origins history) (count + w.handedOut history) (w.run history) := by
  induction history generalizing w made count with
  | nil => exact sound.unmade
  | cons action history ih =>
      simp only [handedOut, ← Nat.add_assoc] at few ⊢
      have first := sound.step (w.effect_perform action) (by omega)
      have later := ih first few
      have all : made ++ action.origin?.toList ++ origins history =
          made ++ origins (action :: history) := by
        cases kind : action.origin? <;> simp [origins, kind]
      rwa [all] at later

end Sound

theorem holding?_recompile {i : Nat} {h : Holding} {source flags : Text} {p : Pattern}
    (held : w.holding? i = some h) (ok : (w.recompile i h source flags).1 = .ok p) :
    (∀ j, (w.recompile i h source flags).2.holding? j =
        if j = i then some ⟨w.registry.next, p⟩ else w.holding? j) ∧
      ∀ id, (w.recompile i h source flags).2.registry.contains id = w.registry.contains id := by
  rw [recompile_eq] at ok
  unfold recompile
  split at ok
  · contradiction
  · rename_i free
    rw [if_neg free, ok]
    refine ⟨holding?_set (lt_of_holding? held) _ _, fun id => ?_⟩
    rw [Bool.eq_iff_iff]
    simp only [Registry.contains, Registry.unregister, Registry.advance, List.contains_iff_mem,
      List.mem_filter, bne_iff_ne, ne_eq, and_iff_left_iff_imp]
    rintro live rfl
    exact free (List.contains_iff_mem.mpr live)

/-- Over every history in which the identities do not run out: patterns that are held have
different identities; the live ones are those of the patterns that were built; these can not
be recompiled and all others can, whether they were recompiled before or not; what is
recompiled takes the place of the old pattern; and what fails changes nothing. -/
theorem identities_run (history : List Action)
    (few : ({} : Workshop).handedOut history < Registry.limit) :
    let w := ({} : Workshop).run history
    (∀ i j h k, w.holding? i = some h → w.holding? j = some k → h.id = k.id → i = j) ∧
      (∀ id, w.registry.contains id = true ↔
        ∃ i h, w.holding? i = some h ∧ h.id = id ∧ (origins history)[i]? = some .built) ∧
      (∀ i h source flags, w.holding? i = some h →
        ((w.recompile i h source flags).1 = .error .recompile ↔
          (origins history)[i]? = some .built) ∧
        ((origins history)[i]? = some .native →
          (w.recompile i h source flags).1 = Pattern.native source flags) ∧
        ∀ p, (w.recompile i h source flags).1 = .ok p →
          (∀ j, (w.recompile i h source flags).2.holding? j =
            if j = i then some ⟨w.registry.next, p⟩ else w.holding? j) ∧
          ∀ id, (w.recompile i h source flags).2.registry.contains id =
            w.registry.contains id) ∧
      (∀ action fault, (w.perform action).1 = .failed fault →
        (∀ i, (w.perform action).2.holding? i = w.holding? i) ∧
          (w.perform action).2.registry = w.registry) := by
  intro w
  have sound : Sound (origins history) (0 + ({} : Workshop).handedOut history) w := by
    have whole := sound_start.run history (by rwa [Nat.zero_add])
    rwa [List.nil_append] at whole
  refine ⟨sound.distinct, ?_, ?_, ?_⟩
  · intro id
    rw [Registry.contains, List.contains_iff_mem]
    exact sound.live id
  · intro i h source flags held
    have built := sound.contains_iff held
    refine ⟨?_, ?_, fun p ok => holding?_recompile held ok⟩
    · rw [recompile_eq, ← built]
      split
      · simp [*]
      · simp [*, native_ne_recompile]
    · intro native
      rw [recompile_eq, if_neg]
      rw [built, native]
      simp
  · intro action fault failed
    have effect := w.effect_perform action
    rw [failed] at effect
    exact effect.frame

end

/-- Of four registers the first is emptied, the second is recompiled, the third is never
filled, and the last holds a pattern that was built. -/
def mixedHistory : List Action :=
  [.build {} { head := ['a'] }, .native ['b'] [], .build {} { head := ['['] },
    .recompile 1 ['c'] ['g'], .recompile 0 ['d'] [], .build {} { head := ['e', '+', '+'] }, .drop 0]

theorem identities_run_mixed :
    ({} : Workshop).handedOut mixedHistory = 4 ∧
      ∃ first second p,
        (({} : Workshop).run mixedHistory).holding? 1 = some first ∧
          (({} : Workshop).run mixedHistory).holding? 3 = some second ∧
            (({} : Workshop).run mixedHistory).registry.live = [second.id] ∧ first.id ≠ second.id ∧
              p.source = ['x'] ∧
                ((({} : Workshop).run mixedHistory).recompile 1 first ['x'] []).1 = .ok p ∧
                ((({} : Workshop).run mixedHistory).recompile 1 first ['x'] []).2.holding? 1 =
                  some ⟨5, p⟩ ∧
                ((({} : Workshop).run mixedHistory).recompile 3 second ['x'] []).1 =
                  .error .recompile := by
  have few : ({} : Workshop).handedOut mixedHistory = 4 := by decide +kernel
  have live : (({} : Workshop).run mixedHistory).registry.live = [4] := by decide +kernel
  have five : (({} : Workshop).run mixedHistory).registry.next = 5 := by decide +kernel
  have ids : ((({} : Workshop).run mixedHistory).holding? 1).map Holding.id = some 3 ∧
      ((({} : Workshop).run mixedHistory).holding? 3).map Holding.id = some 4 := by decide +kernel
  have native : ((Pattern.native ['x'] []).toOption.map Pattern.source) = some ['x'] := by
    decide +kernel
  obtain ⟨first, held, three⟩ := Option.map_eq_some_iff.mp ids.1
  obtain ⟨second, held', four⟩ := Option.map_eq_some_iff.mp ids.2
  obtain ⟨p, compiled, source⟩ := Option.map_eq_some_iff.mp native
  obtain ⟨distinct, _, recompiles, _⟩ := identities_run mixedHistory (by rw [few]; decide)
  obtain ⟨_, again, stored⟩ := recompiles 1 first ['x'] [] held
  have ok : ((({} : Workshop).run mixedHistory).recompile 1 first ['x'] []).1 = .ok p := by
    rw [again rfl]
    cases outcome : Pattern.native ['x'] [] with
    | error fault => simp [outcome, Except.toOption] at compiled
    | ok made => simpa [outcome, Except.toOption] using compiled
  refine ⟨few, first, second, p, held, held', by rw [live, four], ?_, source, ok, ?_, ?_⟩
  · intro same
    exact absurd (distinct 1 3 first second held held' same) (by decide)
  · rw [(stored p ok).1 1, if_pos rfl, five]
  · exact (recompiles 3 second ['x'] [] held').1.mpr rfl

end Workshop

end PatternDialect
