import TinyScript.Proofs.Frame
import TinyScript.Proofs.Reachable
import TinyScript.Proofs.Renaming

/-!
# Stores with a renamed parameter

Two stores have the same scopes, and in every scope the names that go with each other have the same
values but for a renaming in closures. A scope from where the old name is seen in another way than from
its parent binds that name itself. So names that go with each other are found in the same scopes.
-/

set_option autoImplicit false

namespace TinyScript

theorem Bindings.exists_find?_setAll {name : String} {entries : Bindings}
    (among : name ∈ entries.names) (bindings : Bindings) :
    ∃ value, (bindings.setAll entries).find? name = some value := by
  induction entries generalizing bindings with
  | nil => cases among
  | cons entry later ih =>
      by_cases further : name ∈ Bindings.names later
      · exact ih further _
      · refine ⟨entry.2, (find?_setAll further _).trans ?_⟩
        rcases List.mem_cons.mp among with same | never
        · rw [find?_set, if_pos same.symm]
        · exact absurd never further

namespace Store

theorem lookup?_of_bound {store : Store} {scope : Nat} {name : String} {value : Value}
    (found : (store.bindings scope).find? name = some value) :
    store.lookup? scope name = some value := by
  unfold lookup?
  cases above : store.parent? scope with
  | none => rw [chain_of_none above, List.findSome?_cons, found]
  | some parent => rw [chain_of_some above, List.findSome?_cons, found]

theorem lookup?_of_unbound {store : Store} {scope : Nat} {name : String}
    (unbound : (store.bindings scope).find? name = none) :
    store.lookup? scope name =
      (store.parent? scope).bind fun parent => store.lookup? parent name := by
  unfold lookup?
  cases above : store.parent? scope with
  | none => rw [chain_of_none above, List.findSome?_cons, unbound]; rfl
  | some parent => rw [chain_of_some above, List.findSome?_cons, unbound]; rfl

section

variable {before after : Store} {scope : Nat}

theorem bindings_congr (same : after.scopes[scope]? = before.scopes[scope]?) :
    after.bindings scope = before.bindings scope := by
  unfold bindings
  rw [same]

theorem parent?_congr (same : after.scopes[scope]? = before.scopes[scope]?) :
    after.parent? scope = before.parent? scope := by
  unfold parent?
  rw [same]

end

theorem parent?_define (store : Store) (scope other : Nat) (name : String) (value : Value) :
    (store.define scope name value).parent? other = store.parent? other := by
  by_cases same : scope = other
  · subst same
    simp only [parent?, scopes_define, if_true]
    cases store.scopes[scope]? with
    | none => rfl
    | some found => rfl
  · exact parent?_congr (by rw [scopes_define, if_neg same])

theorem find?_bindings_define {store : Store} {scope : Nat} (inside : scope < store.nextId)
    (other : Nat) (target name : String) (value : Value) :
    ((store.define scope target value).bindings other).find? name =
      if scope = other ∧ target = name then some value else (store.bindings other).find? name := by
  by_cases same : scope = other
  · subst same
    have found : store.scopes[scope]? = some store.scopes[scope] := Array.getElem?_eq_getElem inside
    simp only [bindings, scopes_define, if_true, found, Option.map_some, Bindings.find?_set,
      true_and]
  · have kept : (store.define scope target value).scopes[other]? = store.scopes[other]? := by
      rw [scopes_define, if_neg same]
    rw [bindings_congr kept, if_neg fun both => same both.1]

theorem bindings_openCall (store : Store) (home : Nat) (bound : Bindings) (callee : String)
    (function : Value) :
    (store.openCall home bound callee function).bindings store.nextId =
      (Bindings.setAll [] bound).set callee function := by
  simp only [bindings, openCall, scopes_define, scopes_defineAll, scopes_addScope, if_true,
    Option.map_some]

theorem parent?_openCall {store : Store} {home : Nat} (older : home < store.nextId)
    (bound : Bindings) (callee : String) (function : Value) :
    (store.openCall home bound callee function).parent? store.nextId = some home := by
  simp only [parent?, openCall, scopes_define, scopes_defineAll, scopes_addScope, if_true,
    Option.map_some, Option.filter_some, older, decide_true]

end Store

/-- Two values that are the same but for names in the bodies of closures. The world tells how names are
seen from the scopes of a store. -/
inductive Value.Renamed (old new : String) (world : List View) : Value → Value → Prop where
  | plain {value : Value} : value.callable? = none → Renamed old new world value value
  | closure {view : View} {home : Nat} {parameters seen : List String} {body others : List Node} :
      world[home]? = some view →
      Node.Renamed old new view (.func parameters body) (.func seen others) →
      Renamed old new world (.closure parameters body home) (.closure seen others home)

/-- Two stores with the same scopes, in which names that go with each other have the same values but
for a renaming. -/
structure Store.Renamed (old new : String) (world : List View) (first second : Store) : Prop where
  count : first.nextId = world.length
  otherCount : second.nextId = world.length
  parents : ∀ {scope view}, world[scope]? = some view →
    second.parent? scope = first.parent? scope
  inherits : ∀ {scope view parent}, world[scope]? = some view →
    first.parent? scope = some parent →
    ∃ above, world[parent]? = some above ∧
      (above = view ∨ view = .apart ∨ ∃ value, (first.bindings scope).find? old = some value)
  bound : ∀ {scope view name seen}, world[scope]? = some view → view.Sees old new name seen →
    Option.Rel (Value.Renamed old new world) ((first.bindings scope).find? name)
      ((second.bindings scope).find? seen)

section

variable {old new : String} {world after : List View} {view inner : View}

theorem world_later {scope : Nat} (follows : world <+: after) (there : world[scope]? = some view) :
    after[scope]? = some view := by
  obtain ⟨added, rfl⟩ := follows
  rw [List.getElem?_append_left (List.getElem?_eq_some_iff.mp there).1, there]

theorem Value.Renamed.later {value other : Value} (follows : world <+: after)
    (renamed : value.Renamed old new world other) : value.Renamed old new after other := by
  cases renamed with
  | plain inert => exact .plain inert
  | closure there literal => exact .closure (world_later follows there) literal

theorem Value.Renamed.resembles {value other : Value}
    (renamed : value.Renamed old new world other) : value.Resembles other := by
  cases renamed with
  | plain inert => exact .plain inert
  | closure => exact .closure rfl rfl

theorem optionRel_imp {α β : Type} {relation weaker : α → β → Prop}
    (more : ∀ value other, relation value other → weaker value other) {value : Option α}
    {other : Option β} (related : Option.Rel relation value other) :
    Option.Rel weaker value other := by
  cases related with
  | none => exact .none
  | some held => exact .some (more _ _ held)

/-- Arguments are found in both runs under names that go with each other. -/
theorem Bindings.rel_setAll {names seen : List String} {values others : List Value}
    {bindings otherBindings : Bindings} (sees : List.Forall₂ (view.Sees old new) names seen)
    (same : List.Forall₂ (Value.Renamed old new world) values others)
    (before : ∀ {name seen}, view.Sees old new name seen →
      Option.Rel (Value.Renamed old new world) (bindings.find? name) (otherBindings.find? seen))
    {name other : String} (asked : view.Sees old new name other) :
    Option.Rel (Value.Renamed old new world)
      ((bindings.setAll (names.zip values)).find? name)
      ((otherBindings.setAll (seen.zip others)).find? other) := by
  induction sees generalizing values others bindings otherBindings with
  | nil => exact before asked
  | @cons bound boundSeen _ _ first _ ih =>
      cases same with
      | nil => exact before asked
      | cons valueSame laterSame =>
          refine ih laterSame fun {name seen} sees => ?_
          have agree := first.eq_iff sees fun _ => .inl rfl
          rw [find?_set, find?_set]
          by_cases equal : bound = name
          · rw [if_pos equal, if_pos (agree.mp equal)]
            exact .some valueSame
          · rw [if_neg equal, if_neg fun there => equal (agree.mpr there)]
            exact before sees

namespace Store

variable {first second : Store}

theorem Renamed.inside (renamed : Renamed old new world first second) {scope : Nat}
    (there : world[scope]? = some view) : scope < first.nextId ∧ scope < second.nextId := by
  have small := (List.getElem?_eq_some_iff.mp there).1
  exact ⟨Nat.lt_of_lt_of_eq small renamed.count.symm, Nat.lt_of_lt_of_eq small renamed.otherCount.symm⟩

/-- Names that go with each other are found in the same scope, or not at all. -/
theorem Renamed.lookup? (renamed : Renamed old new world first second) {scope : Nat} {view : View}
    {name seen : String} (there : world[scope]? = some view) (sees : view.Sees old new name seen) :
    Option.Rel (Value.Renamed old new world) (first.lookup? scope name)
      (second.lookup? scope seen) := by
  induction scope using Nat.strongRecOn generalizing view with
  | ind scope ih =>
      have here := renamed.bound there sees
      cases found : (first.bindings scope).find? name with
      | some value =>
          cases otherFound : (second.bindings scope).find? seen with
          | none =>
              rw [found, otherFound] at here
              cases here
          | some other =>
              rw [found, otherFound] at here
              rwa [lookup?_of_bound found, lookup?_of_bound otherFound]
      | none =>
          cases otherFound : (second.bindings scope).find? seen with
          | some other =>
              rw [found, otherFound] at here
              cases here
          | none =>
              rw [lookup?_of_unbound found, lookup?_of_unbound otherFound, renamed.parents there]
              cases linked : first.parent? scope with
              | none => exact .none
              | some parent =>
                  obtain ⟨above, aboveThere, place⟩ := renamed.inherits there linked
                  refine ih parent (parent?_lt linked) aboveThere ?_
                  by_cases same : name = old
                  · subst same
                    rcases place with rfl | rfl | ⟨value, bound⟩
                    · exact sees
                    · cases sees.counterpart?_eq
                    · rw [found] at bound
                      cases bound
                  · exact sees.of_ne same

theorem Renamed.define (renamed : Renamed old new world first second) {scope : Nat}
    {target targetSeen : String} (there : world[scope]? = some view)
    (sees : view.Sees old new target targetSeen) {value other : Value}
    (same : value.Renamed old new world other) :
    Renamed old new world (first.define scope target value)
      (second.define scope targetSeen other) := by
  obtain ⟨inside, otherInside⟩ := renamed.inside there
  constructor
  · rw [nextId_define, renamed.count]
  · rw [nextId_define, renamed.otherCount]
  · intro link linkView linkThere
    rw [parent?_define, parent?_define, renamed.parents linkThere]
  · intro link linkView parent linkThere linked
    rw [parent?_define] at linked
    obtain ⟨above, aboveThere, place⟩ := renamed.inherits linkThere linked
    refine ⟨above, aboveThere, place.imp_right fun place => place.imp_right fun ⟨bound, found⟩ => ?_⟩
    rw [find?_bindings_define inside]
    split
    · exact ⟨value, rfl⟩
    · exact ⟨bound, found⟩
  · intro link linkView name seen linkThere linkSees
    rw [find?_bindings_define inside, find?_bindings_define otherInside]
    by_cases here : scope = link
    · subst here
      obtain rfl : view = linkView := Option.some.inj (there.symm.trans linkThere)
      have agree := sees.eq_iff linkSees fun _ => .inl rfl
      by_cases equal : target = name
      · rw [if_pos ⟨rfl, equal⟩, if_pos ⟨rfl, agree.mp equal⟩]
        exact .some same
      · rw [if_neg fun both => equal both.2, if_neg fun both => equal (agree.mpr both.2)]
        exact renamed.bound linkThere linkSees
    · rw [if_neg fun both => here both.1, if_neg fun both => here both.1]
      exact renamed.bound linkThere linkSees

/-- A call on both sides opens scopes that go together, if names are seen in them as around the literal,
or if the literal binds the old name, or if it has no use for it. -/
theorem Renamed.openCall (renamed : Renamed old new world first second) {home : Nat} {around : View}
    (homeThere : world[home]? = some around) {parameters seen : List String}
    (place : inner = around ∨ inner = .apart ∨ old ∈ parameters)
    (sees : List.Forall₂ (inner.Sees old new) parameters seen) {values others : List Value}
    (same : List.Forall₂ (Value.Renamed old new world) values others)
    (arity : parameters.length = values.length) {callee calleeSeen : String}
    (agree : ∀ {name other}, inner.Sees old new name other → (callee = name ↔ calleeSeen = other))
    {function otherFunction : Value} (functionSame : function.Renamed old new world otherFunction) :
    Renamed old new (world ++ [inner])
      (first.openCall home (parameters.zip values) callee function)
      (second.openCall home (seen.zip others) calleeSeen otherFunction) := by
  have follows : world <+: world ++ [inner] := List.prefix_append _ _
  obtain ⟨homeInside, otherHomeInside⟩ := renamed.inside homeThere
  have extension := extends_openCall first home (parameters.zip values) callee function
  have otherExtension := extends_openCall second home (seen.zip others) calleeSeen otherFunction
  -- a scope of the new world is an old one, or the one of the call
  have split {scope : Nat} {view : View} (there : (world ++ [inner])[scope]? = some view) :
      world[scope]? = some view ∨ (scope = world.length ∧ view = inner) := by
    rcases Nat.lt_or_ge scope world.length with old | new
    · rw [List.getElem?_append_left old] at there
      exact .inl there
    · rw [List.getElem?_append_right new] at there
      have last : scope - world.length = 0 :=
        Nat.lt_one_iff.mp (List.getElem?_eq_some_iff.mp there).1
      rw [last] at there
      exact .inr ⟨by omega, (Option.some.inj there).symm⟩
  have oldScope {scope : Nat} {view : View} (there : world[scope]? = some view) :=
    extension.same scope (renamed.inside there).1
  have oldOtherScope {scope : Nat} {view : View} (there : world[scope]? = some view) :=
    otherExtension.same scope (renamed.inside there).2
  constructor
  · rw [nextId_openCall, renamed.count, List.length_append, List.length_singleton]
  · rw [nextId_openCall, renamed.otherCount, List.length_append, List.length_singleton]
  · intro scope view there
    rcases split there with there | ⟨rfl, rfl⟩
    · rw [parent?_congr (oldScope there), parent?_congr (oldOtherScope there), renamed.parents there]
    · rw [← renamed.count, parent?_openCall homeInside, renamed.count, ← renamed.otherCount,
        parent?_openCall otherHomeInside]
  · intro scope view parent there linked
    rcases split there with there | ⟨rfl, rfl⟩
    · rw [parent?_congr (oldScope there)] at linked
      rw [bindings_congr (oldScope there)]
      obtain ⟨above, aboveThere, place⟩ := renamed.inherits there linked
      exact ⟨above, world_later follows aboveThere, place⟩
    · rw [← renamed.count, parent?_openCall homeInside] at linked
      cases linked
      refine ⟨around, world_later follows homeThere, ?_⟩
      rcases place with rfl | rfl | bound
      · exact .inl rfl
      · exact .inr (.inl rfl)
      · refine .inr (.inr ?_)
        rw [← renamed.count, bindings_openCall, Bindings.find?_set]
        split
        · exact ⟨function, rfl⟩
        · refine Bindings.exists_find?_setAll ?_ _
          rwa [Bindings.names, List.map_fst_zip (Nat.le_of_eq arity)]
  · intro scope view name other there asked
    rcases split there with there | ⟨rfl, rfl⟩
    · rw [bindings_congr (oldScope there), bindings_congr (oldOtherScope there)]
      exact optionRel_imp (fun _ _ => Value.Renamed.later follows) (renamed.bound there asked)
    · rw [← renamed.count, bindings_openCall, renamed.count, ← renamed.otherCount, bindings_openCall,
        Bindings.find?_set, Bindings.find?_set]
      refine optionRel_imp (fun _ _ => Value.Renamed.later follows) ?_
      by_cases equal : callee = name
      · rw [if_pos equal, if_pos ((agree asked).mp equal)]
        exact .some functionSame
      · rw [if_neg equal, if_neg fun there => equal ((agree asked).mpr there)]
        exact Bindings.rel_setAll sees same (fun _ => .none) asked

end Store

end

end TinyScript
