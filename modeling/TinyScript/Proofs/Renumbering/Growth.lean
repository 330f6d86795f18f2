import TinyScript.Proofs.Reachable
import TinyScript.Proofs.Renumbering

/-!
# Numbers of scopes in grown stores

A closed store is mirrored by every closed store that extends it: new scopes only get numbers that
lie further up. If two extensions of a store are made one after the other, in this order or in the
other one, the results mirror each other, because two runs of numbers merely change places.
-/

set_option autoImplicit false

namespace TinyScript

/-- All numbers of scopes that occur in a scope are below a bound. -/
structure Scope.IsWithin (count : Nat) (scope : Scope) : Prop where
  parent : ∀ {above}, scope.parent = some above → above < count
  values : ∀ {entry : String × Value}, entry ∈ scope.bindings → entry.2.IsWithin count

section

variable {numbers others : Nat → Nat} {count : Nat}

theorem Value.IsWithin.renumber_congr {value : Value} (within : value.IsWithin count)
    (same : ∀ scope < count, numbers scope = others scope) :
    value.renumber numbers = value.renumber others := by
  cases value with
  | closure parameters body home | strayClosure parameters body home =>
      simp only [Value.renumber, same home within]
  | null | bool | int => rfl

theorem Value.renumber_id (value : Value) : value.renumber id = value := by
  cases value <;> rfl

theorem Value.renumber_renumber (value : Value) :
    (value.renumber numbers).renumber others = value.renumber (others ∘ numbers) := by
  cases value <;> rfl

theorem Value.IsWithin.renumber_of_fixed {value : Value} (within : value.IsWithin count)
    (fixed : ∀ scope < count, numbers scope = scope) : value.renumber numbers = value :=
  (within.renumber_congr fixed).trans value.renumber_id

theorem Scope.IsWithin.renumber_congr {scope : Scope} (within : scope.IsWithin count)
    (same : ∀ other < count, numbers other = others other) :
    scope.renumber numbers = scope.renumber others := by
  have parents : scope.parent.map numbers = scope.parent.map others :=
    Option.map_congr fun above found => same above (within.parent found)
  have bindings : scope.bindings.renumber numbers = scope.bindings.renumber others := by
    refine List.map_congr_left fun entry member => ?_
    rw [(within.values member).renumber_congr same]
  unfold Scope.renumber
  rw [parents, bindings]

theorem Scope.renumber_id (scope : Scope) : scope.renumber id = scope := by
  simp [renumber, Bindings.renumber, Value.renumber_id]

theorem Scope.renumber_renumber (scope : Scope) :
    (scope.renumber numbers).renumber others = scope.renumber (others ∘ numbers) := by
  simp [renumber, Bindings.renumber, Value.renumber_renumber]

theorem Scope.IsWithin.renumber_of_fixed {scope : Scope} (within : scope.IsWithin count)
    (fixed : ∀ other < count, numbers other = other) : scope.renumber numbers = scope :=
  (within.renumber_congr fixed).trans scope.renumber_id

end

namespace Store

theorem IsClosed.isWithin {store : Store} (closed : store.IsClosed) {scope : Nat} {record : Scope}
    (found : store.scopes[scope]? = some record) : record.IsWithin store.nextId where
  parent above :=
    Nat.lt_trans (closed.parents found above) (Array.getElem?_eq_some_iff.mp found).1
  values member := closed.values found member

/-- Between closed stores, the order of the numbers takes care of itself. -/
theorem IsClosed.mirrored {numbers : Nat → Nat} {first second : Store} (closed : first.IsClosed)
    (otherClosed : second.IsClosed)
    (injective : ∀ {scope other}, numbers scope = numbers other → scope = other)
    (beyond : ∀ {scope}, first.nextId ≤ scope →
      numbers scope + first.nextId = scope + second.nextId)
    (inside : ∀ {scope record}, first.scopes[scope]? = some record →
      second.scopes[numbers scope]? = some (record.renumber numbers)) :
    Mirrored numbers first second where
  injective := injective
  beyond := beyond
  inside {scope} old := by
    have found : first.scopes[scope]? = some first.scopes[scope] := Array.getElem?_eq_getElem old
    rw [inside found, found]
    rfl
  parents {scope record parent} found above := by
    have renumbered : (record.renumber numbers).parent = some (numbers parent) := by
      simp [Scope.renumber, above]
    exact iff_of_true (otherClosed.parents (inside found) renumbered) (closed.parents found above)

theorem Mirrored.found {numbers : Nat → Nat} {first second : Store}
    (mirrored : Mirrored numbers first second) {scope : Nat} {record : Scope}
    (there : first.scopes[scope]? = some record) :
    second.scopes[numbers scope]? = some (record.renumber numbers) := by
  rw [mirrored.scopes, there]
  rfl

theorem Mirrored.refl {store : Store} : Mirrored id store store where
  injective same := same
  beyond _ := rfl
  inside {scope} _ := by
    have fixed : Scope.renumber id = id := funext Scope.renumber_id
    rw [fixed, Option.map_id]
    rfl
  parents _ _ := Iff.rfl

theorem Mirrored.trans {numbers others : Nat → Nat} {first second third : Store}
    (early : Mirrored numbers first second) (late : Mirrored others second third) :
    Mirrored (others ∘ numbers) first third where
  injective same := early.injective (late.injective same)
  beyond {scope} new := by
    have step := early.beyond new
    have further : second.nextId ≤ numbers scope := by omega
    have next := late.beyond further
    simp only [Function.comp_apply]
    omega
  inside {scope} old := by
    rw [Function.comp_apply, late.scopes, early.scopes, Option.map_map]
    congr 1
    funext record
    exact record.renumber_renumber
  parents found above := by
    have between := early.found found
    have renumbered : (Scope.renumber numbers _).parent = some (numbers _) :=
      congrArg (Option.map numbers) above
    exact (late.parents between renumbered).trans (early.parents found above)

end Store

/-- The numbers from a base on move up. -/
def moveUp (base gap scope : Nat) : Nat :=
  if scope < base then scope else scope + gap

/-- Two neighbouring runs of numbers change places, the lower one of which begins at a base. -/
def exchange (base lower upper scope : Nat) : Nat :=
  if scope < base then scope
  else if scope < base + lower then scope + upper
  else if scope < base + lower + upper then scope - lower
  else scope

theorem moveUp_of_lt {base gap scope : Nat} (old : scope < base) : moveUp base gap scope = scope :=
  if_pos old

theorem exchange_of_lt {base lower upper scope : Nat} (old : scope < base) :
    exchange base lower upper scope = scope :=
  if_pos old

/-- In the lower run, numbers move up past the upper one. -/
theorem exchange_of_lower {base lower upper scope : Nat} (old : scope < base + lower) :
    exchange base lower upper scope = moveUp base upper scope := by
  unfold exchange
  rw [if_pos old]
  rfl

/-- In the upper run, numbers that were moved up past the lower one move back. -/
theorem exchange_moveUp {base lower upper scope : Nat} (old : scope < base + upper) :
    exchange base lower upper (moveUp base lower scope) = scope := by
  unfold exchange moveUp
  grind

theorem exchange_injective {base lower upper scope other : Nat}
    (same : exchange base lower upper scope = exchange base lower upper other) : scope = other := by
  unfold exchange at same
  grind

namespace Store

/-- A closed store is mirrored by whatever extends it. -/
theorem Extends.mirrored {before after : Store} (extension : before.Extends after)
    (closed : before.IsClosed) (afterClosed : after.IsClosed) :
    Mirrored (moveUp before.nextId (after.nextId - before.nextId)) before after := by
  have grows := extension.grows
  refine closed.mirrored afterClosed ?_ ?_ ?_
  · intro scope other same
    unfold moveUp at same
    grind
  · intro scope new
    rw [moveUp, if_neg (Nat.not_lt.mpr new)]
    omega
  · intro scope record found
    have old : scope < before.nextId := (Array.getElem?_eq_some_iff.mp found).1
    rw [moveUp_of_lt old, extension.same scope old, found,
      (closed.isWithin found).renumber_of_fixed fun _ => moveUp_of_lt]

section

variable {base left right leftRight rightLeft : Store}

/-- The scopes of both extensions of a store are found again after both of them were made, in either
order, under numbers that have changed places. -/
theorem Mirrored.exchange (leftClosed : left.IsClosed) (rightClosed : right.IsClosed)
    (leftRightClosed : leftRight.IsClosed) (rightLeftClosed : rightLeft.IsClosed)
    (toLeft : base.Extends left) (toRight : base.Extends right)
    (leftFirst : left.Extends leftRight) (rightFirst : right.Extends rightLeft)
    (rightMoved : Mirrored (moveUp base.nextId (left.nextId - base.nextId)) right leftRight)
    (leftMoved : Mirrored (moveUp base.nextId (right.nextId - base.nextId)) left rightLeft) :
    Mirrored (exchange base.nextId (left.nextId - base.nextId) (right.nextId - base.nextId))
      leftRight rightLeft := by
  have leftGrows := toLeft.grows
  have rightGrows := toRight.grows
  have count := rightMoved.numbers_nextId
  have otherCount := leftMoved.numbers_nextId
  rw [moveUp, if_neg (Nat.not_lt.mpr rightGrows)] at count
  rw [moveUp, if_neg (Nat.not_lt.mpr leftGrows)] at otherCount
  refine leftRightClosed.mirrored rightLeftClosed exchange_injective ?_ ?_
  · intro scope new
    unfold TinyScript.exchange
    grind
  · intro scope record found
    have inside : scope < leftRight.nextId := (Array.getElem?_eq_some_iff.mp found).1
    by_cases lower : scope < left.nextId
    · have bound : scope < base.nextId + (left.nextId - base.nextId) := by omega
      rw [leftFirst.same scope lower] at found
      rw [exchange_of_lower bound, leftMoved.found found]
      congr 1
      refine (leftClosed.isWithin found).renumber_congr fun other old => ?_
      exact (exchange_of_lower (by omega)).symm
    · -- the scope was added second, and stands in the store where it was added first
      obtain ⟨original, rfl⟩ : ∃ original, scope =
          moveUp base.nextId (left.nextId - base.nextId) original := by
        refine ⟨scope - (left.nextId - base.nextId), ?_⟩
        rw [moveUp, if_neg (by omega)]
        omega
      have old := (rightMoved.numbers_lt_iff original).mp inside
      have there : right.scopes[original]? = some right.scopes[original] :=
        Array.getElem?_eq_getElem old
      have bound {other : Nat} (small : other < right.nextId) :
          other < base.nextId + (right.nextId - base.nextId) := by omega
      rw [rightMoved.found there] at found
      cases found
      rw [exchange_moveUp (bound old), rightFirst.same original old, there,
        Scope.renumber_renumber]
      congr 1
      refine ((rightClosed.isWithin there).renumber_of_fixed fun other small => ?_).symm
      exact exchange_moveUp (bound small)

end

end Store

end TinyScript
