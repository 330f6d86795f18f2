import TinyScript.Proofs.Renaming.Stores

/-!
# Stores that differ in the names of one scope

Two stores have the same scopes, but in one of them some names have other values. Where no tree that is
evaluated below this scope mentions the names, and no closure made there does, every name that is asked
for has the same value in both stores.
-/

set_option autoImplicit false

namespace TinyScript

namespace Store

/-- A name has the same value in two stores if it has the same in every scope that the search for it
comes to. -/
theorem lookup?_congr {first second : Store} {name : String} (visits : Nat → Prop)
    (bound : ∀ scope, visits scope →
      (second.bindings scope).find? name = (first.bindings scope).find? name)
    (parents : ∀ scope, visits scope → second.parent? scope = first.parent? scope)
    (goesOn : ∀ scope parent, visits scope → first.parent? scope = some parent → visits parent)
    {scope : Nat} (visited : visits scope) :
    second.lookup? scope name = first.lookup? scope name := by
  induction scope using Nat.strongRecOn with
  | ind scope ih =>
      have here := bound scope visited
      cases found : (first.bindings scope).find? name with
      | some value => rw [lookup?_of_bound found, lookup?_of_bound (here.trans found)]
      | none =>
          rw [lookup?_of_unbound found, lookup?_of_unbound (here.trans found), parents scope visited]
          cases linked : first.parent? scope with
          | none => rfl
          | some parent => exact ih parent (parent?_lt linked) (goesOn scope parent visited linked)

theorem Extends.lookup? {before after : Store} (extension : before.Extends after) {scope : Nat}
    (old : scope < before.nextId) (name : String) :
    after.lookup? scope name = before.lookup? scope name := by
  refine lookup?_congr (· < before.nextId) ?_ ?_ ?_ old
  · exact fun scope old => by rw [bindings_congr (extension.same scope old)]
  · exact fun scope old => parent?_congr (extension.same scope old)
  · exact fun scope parent old linked => Nat.lt_trans (parent?_lt linked) old

theorem lt_nextId_of_lookup? {store : Store} {scope : Nat} {name : String} {value : Value}
    (found : store.lookup? scope name = some value) : scope < store.nextId := by
  refine Nat.lt_of_not_le fun outside => ?_
  have missing : store.scopes[scope]? = none := Array.getElem?_eq_none outside
  have unbound : (store.bindings scope).find? name = none := by
    rw [bindings, missing]
    rfl
  rw [lookup?_of_unbound unbound, parent?, missing] at found
  cases found

/-- Two stores are the same but for the values of some names in one scope. -/
structure SameBut (special : Nat) (hidden : List String) (first second : Store) : Prop where
  count : second.nextId = first.nextId
  same : ∀ scope, scope ≠ special → second.scopes[scope]? = first.scopes[scope]?
  parent : second.parent? special = first.parent? special
  alike : ∀ name, name ∉ hidden →
    (second.bindings special).find? name = (first.bindings special).find? name

section

variable {special : Nat} {hidden : List String} {first second : Store}

theorem SameBut.refl (special : Nat) (hidden : List String) (store : Store) :
    SameBut special hidden store store :=
  ⟨rfl, fun _ _ => rfl, rfl, fun _ _ => rfl⟩

theorem SameBut.parent? (sameBut : SameBut special hidden first second) (scope : Nat) :
    second.parent? scope = first.parent? scope := by
  by_cases own : scope = special
  · exact own ▸ sameBut.parent
  · exact parent?_congr (sameBut.same scope own)

theorem SameBut.define (sameBut : SameBut special hidden first second) {scope : Nat}
    (inside : scope < first.nextId) (target : String) (value : Value) :
    SameBut special hidden (first.define scope target value) (second.define scope target value) := by
  constructor
  · rw [nextId_define, nextId_define, sameBut.count]
  · intro other apart
    rw [scopes_define, scopes_define, sameBut.same other apart]
  · rw [parent?_define, parent?_define, sameBut.parent]
  · intro name visible
    rw [find?_bindings_define inside, find?_bindings_define (sameBut.count ▸ inside),
      sameBut.alike name visible]

theorem SameBut.defineAll (sameBut : SameBut special hidden first second) {scope : Nat}
    (inside : scope < first.nextId) (entries : Bindings) :
    SameBut special hidden (first.defineAll scope entries) (second.defineAll scope entries) := by
  induction entries generalizing first second with
  | nil => exact sameBut
  | cons entry later ih =>
      exact ih (sameBut.define inside entry.1 entry.2) (by rwa [nextId_define])

theorem SameBut.addScope (sameBut : SameBut special hidden first second)
    (old : special < first.nextId) (parent : Option Nat) :
    SameBut special hidden (first.addScope parent) (second.addScope parent) := by
  have extension := Extends.addScope first parent
  have otherExtension := Extends.addScope second parent
  have here := extension.same special old
  have there := otherExtension.same special (sameBut.count ▸ old)
  constructor
  · rw [nextId_addScope, nextId_addScope, sameBut.count]
  · intro scope apart
    rw [scopes_addScope, scopes_addScope, sameBut.count, sameBut.same scope apart]
  · rw [parent?_congr here, parent?_congr there, sameBut.parent]
  · intro name visible
    rw [bindings_congr here, bindings_congr there, sameBut.alike name visible]

theorem SameBut.openCall (sameBut : SameBut special hidden first second)
    (old : special < first.nextId) (home : Nat) (bound : Bindings) (callee : String)
    (function : Value) :
    SameBut special hidden (first.openCall home bound callee function)
      (second.openCall home bound callee function) := by
  have inside : first.nextId < (first.addScope (some home)).nextId := by
    rw [nextId_addScope]
    exact Nat.lt_succ_self _
  unfold Store.openCall
  rw [sameBut.count]
  exact ((sameBut.addScope old (some home)).defineAll inside bound).define
    (by rwa [nextId_defineAll]) callee function

/-- Calls of a function through two names open scopes that differ in these names only. -/
theorem sameBut_openCall (store : Store) {home : Nat} (older : home < store.nextId)
    (bound : Bindings) (callee other : String) (function : Value) :
    SameBut store.nextId [callee, other] (store.openCall home bound callee function)
      (store.openCall home bound other function) := by
  constructor
  · rw [nextId_openCall, nextId_openCall]
  · intro scope apart
    simp only [openCall, scopes_define, if_neg apart.symm]
  · rw [parent?_openCall older, parent?_openCall older]
  · intro name visible
    simp only [List.mem_cons, List.not_mem_nil, or_false, not_or] at visible
    rw [bindings_openCall, bindings_openCall, Bindings.find?_set, Bindings.find?_set,
      if_neg (Ne.symm visible.1), if_neg (Ne.symm visible.2)]

end

end Store

/-- Of every scope, a world tells whether it lies below the special one or is this one. A known tree may
be evaluated in a scope if it does not, or if it mentions none of the hidden names. -/
def Node.ClearIn (hidden : List String) (world : List Bool) (scope : Nat) (node : Node) : Prop :=
  node.Known ∧ ∃ below, world[scope]? = some below ∧
    (below = true → ∀ name ∈ node.names, name ∉ hidden)

/-- A value that is no closure, or a closure that may have been made in its scope. -/
inductive Value.Clear (hidden : List String) (world : List Bool) : Value → Prop where
  | plain {value : Value} : value.callable? = none → Clear hidden world value
  | closure {parameters : List String} {body : List Node} {home : Nat} :
      (Node.func parameters body).ClearIn hidden world home →
      Clear hidden world (.closure parameters body home)

/-- Two stores that differ in the names of one scope, in a world that tells which scopes are below it,
with closures of which none below mentions these names. -/
structure Store.Shaded (special : Nat) (hidden : List String) (world : List Bool)
    (first second : Store) : Prop extends SameBut special hidden first second where
  size : first.nextId = world.length
  marked : world[special]? = some true
  inherits : ∀ {scope below parent}, world[scope]? = some below →
    first.parent? scope = some parent →
    ∃ above, world[parent]? = some above ∧ (above = true → below = true)
  bound : first.Holds (Value.Clear hidden world)

section

variable {special : Nat} {hidden : List String} {world after : List Bool} {below : Bool}
  {scope : Nat}

theorem flag_later (follows : world <+: after) (there : world[scope]? = some below) :
    after[scope]? = some below := by
  obtain ⟨added, rfl⟩ := follows
  rw [List.getElem?_append_left (List.getElem?_eq_some_iff.mp there).1, there]

theorem Node.ClearIn.later {node : Node} (follows : world <+: after)
    (clear : node.ClearIn hidden world scope) : node.ClearIn hidden after scope := by
  obtain ⟨known, below, there, visible⟩ := clear
  exact ⟨known, below, flag_later follows there, visible⟩

theorem Node.Known.mem_names {node part : Node} (known : node.Known) (among : part ∈ node.parts)
    {name : String} (occurs : name ∈ part.names) : name ∈ node.names := by
  cases known with
  | int | bool | name | func => cases among
  | block => exact mem_namesAll.mpr ⟨part, among, occurs⟩
  | call => exact .tail _ (mem_namesAll.mpr ⟨part, among, occurs⟩)
  | letE =>
      cases List.mem_singleton.mp among
      exact .tail _ occurs
  | returnE =>
      cases List.mem_singleton.mp among
      exact occurs
  | binary | ifThen | ifElse =>
      simp only [parts, List.mem_cons, List.not_mem_nil, or_false] at among
      simp only [names, List.mem_append]
      grind

theorem Node.ClearIn.part {node part : Node} (clear : node.ClearIn hidden world scope)
    (among : part ∈ node.parts) : part.ClearIn hidden world scope := by
  obtain ⟨known, below, there, visible⟩ := clear
  exact ⟨known.part among, below, there, fun shaded name occurs =>
    visible shaded name (known.mem_names among occurs)⟩

theorem Value.Clear.later {value : Value} (follows : world <+: after)
    (clear : value.Clear hidden world) : value.Clear hidden after := by
  cases clear with
  | plain inert => exact .plain inert
  | closure made => exact .closure (made.later follows)

/-- The body of a closure may be evaluated in a scope that lies below the special one if the closure
was made there. -/
theorem Value.Clear.body {function : Value} {callable : Callable} (clear : function.Clear hidden world)
    (calls : function.callable? = some callable) :
    ∃ below, world[callable.home]? = some below ∧ ∀ node ∈ callable.body,
      node.Known ∧ (below = true → ∀ name ∈ node.names, name ∉ hidden) := by
  cases clear with
  | plain inert =>
      rw [inert] at calls
      cases calls
  | closure made =>
      cases calls
      obtain ⟨known, below, there, visible⟩ := made
      refine ⟨below, there, fun node among => ⟨?_, fun shade name occurs => ?_⟩⟩
      · cases known with
        | func all => exact all node among
      · exact visible shade name
          (List.mem_append_right _ (Node.mem_namesAll.mpr ⟨node, among, occurs⟩))

namespace Store.Shaded

variable {first second : Store}

/-- A name that may be mentioned in a scope has the same value there in both stores. -/
theorem lookup? (shaded : Shaded special hidden world first second)
    (there : world[scope]? = some below) {name : String}
    (visible : below = true → name ∉ hidden) :
    second.lookup? scope name = first.lookup? scope name := by
  refine lookup?_congr
    (fun scope => ∃ below, world[scope]? = some below ∧ (below = true → name ∉ hidden))
    ?_ ?_ ?_ ⟨below, there, visible⟩
  · rintro scope ⟨below, there, visible⟩
    by_cases own : scope = special
    · subst own
      rw [shaded.marked] at there
      exact shaded.alike name (visible (Option.some.inj there).symm)
    · rw [bindings_congr (shaded.same scope own)]
  · exact fun scope _ => shaded.parent? scope
  · rintro scope parent ⟨below, there, visible⟩ linked
    obtain ⟨above, aboveThere, inherited⟩ := shaded.inherits there linked
    exact ⟨above, aboveThere, fun shade => visible (inherited shade)⟩

theorem rel_lookup? (shaded : Shaded special hidden world first second)
    (there : world[scope]? = some below) {name : String}
    (visible : below = true → name ∉ hidden) :
    Option.Rel (fun value other => value = other ∧ value.Clear hidden world)
      (first.lookup? scope name) (second.lookup? scope name) := by
  rw [shaded.lookup? there visible]
  cases found : first.lookup? scope name with
  | none => exact .none
  | some value => exact .some ⟨rfl, shaded.bound.lookup? found⟩

theorem define (shaded : Shaded special hidden world first second)
    (there : world[scope]? = some below) (target : String) {value : Value}
    (clear : value.Clear hidden world) :
    Shaded special hidden world (first.define scope target value)
      (second.define scope target value) where
  toSameBut := shaded.toSameBut.define
    (shaded.size ▸ (List.getElem?_eq_some_iff.mp there).1) target value
  size := by rw [nextId_define, shaded.size]
  marked := shaded.marked
  inherits linkThere linked := by
    rw [parent?_define] at linked
    exact shaded.inherits linkThere linked
  bound := shaded.bound.define scope target clear

/-- A scope that is opened in both stores lies below the special one if its parent does. -/
theorem openCall (shaded : Shaded special hidden world first second) {home : Nat}
    (there : world[home]? = some below) {bound : Bindings} (callee : String) {function : Value}
    (boundClear : ∀ entry ∈ bound, entry.2.Clear hidden world)
    (functionClear : function.Clear hidden world) :
    Shaded special hidden (world ++ [below]) (first.openCall home bound callee function)
      (second.openCall home bound callee function) := by
  have follows : world <+: world ++ [below] := List.prefix_append _ _
  have older {other : Nat} {flag : Bool} (flagged : world[other]? = some flag) :
      other < first.nextId :=
    shaded.size ▸ (List.getElem?_eq_some_iff.mp flagged).1
  have holds := shaded.bound.imp fun _ clear => Value.Clear.later follows clear
  constructor
  · exact shaded.toSameBut.openCall (older shaded.marked) home bound callee function
  · rw [nextId_openCall, shaded.size, List.length_append, List.length_singleton]
  · exact flag_later follows shaded.marked
  · intro scope flag parent flagged linked
    rcases Nat.lt_or_ge scope world.length with old | new
    · rw [List.getElem?_append_left old] at flagged
      rw [parent?_congr ((extends_openCall first home bound callee function).same scope
        (older flagged))] at linked
      obtain ⟨above, aboveThere, inherited⟩ := shaded.inherits flagged linked
      exact ⟨above, flag_later follows aboveThere, inherited⟩
    · have last : scope = world.length := by
        have inside := (List.getElem?_eq_some_iff.mp flagged).1
        rw [List.length_append, List.length_singleton] at inside
        omega
      subst last
      rw [List.getElem?_concat_length] at flagged
      rw [← shaded.size, parent?_openCall (older there)] at linked
      cases flagged
      cases linked
      exact ⟨below, flag_later follows there, id⟩
  · exact holds.openCall home callee (fun entry member => (boundClear entry member).later follows)
      (functionClear.later follows)

end Store.Shaded

/-- No scope that was there before a call lies below that of the call. -/
def worldBefore (count : Nat) : List Bool :=
  List.replicate count false

theorem worldBefore_eq_false {count : Nat} (inside : scope < count) :
    (worldBefore count)[scope]? = some false := by
  rw [worldBefore, List.getElem?_replicate, if_pos inside]

theorem Value.clear_worldBefore {value : Value} {count : Nat} (known : value.Known)
    (within : value.IsWithin count) : value.Clear hidden (worldBefore count) := by
  cases known with
  | null | bool | int => exact .plain rfl
  | closure all =>
      exact .closure ⟨.func all, false, worldBefore_eq_false within, fun never => nomatch never⟩

/-- A function that is called in one store through two names. -/
theorem Store.shaded_openCall {store : Store} {callee other : String} {home : Nat}
    (older : home < store.nextId) {bound : Bindings} {function : Value}
    (holds : store.Holds (Value.Clear [callee, other] (worldBefore store.nextId)))
    (boundClear : ∀ entry ∈ bound, entry.2.Clear [callee, other] (worldBefore store.nextId))
    (functionClear : function.Clear [callee, other] (worldBefore store.nextId)) :
    Shaded store.nextId [callee, other] (worldBefore store.nextId ++ [true])
      (store.openCall home bound callee function) (store.openCall home bound other function) := by
  have follows : worldBefore store.nextId <+: worldBefore store.nextId ++ [true] :=
    List.prefix_append _ _
  have length : (worldBefore store.nextId).length = store.nextId := List.length_replicate
  constructor
  · exact store.sameBut_openCall older bound callee other function
  · rw [nextId_openCall, List.length_append, List.length_singleton, length]
  · rw [List.getElem?_append_right (Nat.le_of_eq length), length, Nat.sub_self]
    rfl
  · intro scope below parent there linked
    have inside := (List.getElem?_eq_some_iff.mp there).1
    rw [List.length_append, List.length_singleton, length] at inside
    have parentOld : parent < store.nextId :=
      Nat.lt_of_lt_of_le (parent?_lt linked) (Nat.le_of_lt_succ inside)
    exact ⟨false, flag_later follows (worldBefore_eq_false parentOld), fun never => nomatch never⟩
  · exact (holds.imp fun _ clear => Value.Clear.later follows clear).openCall home callee
      (fun entry member => (boundClear entry member).later follows) (functionClear.later follows)

end

end TinyScript
