import TinyScript.Proofs.Performing
import TinyScript.Proofs.Scopes

/-!
# What stores and logs hold

Values get into a store by bindings and into the log by calls. A property that these values have is
one that all values of a machine have.
-/

set_option autoImplicit false

namespace TinyScript

/-- All values that are bound in a store have a property. -/
def Store.Holds (property : Value → Prop) (store : Store) : Prop :=
  ∀ (scope : Nat) (record : Scope), store.scopes[scope]? = some record →
    ∀ entry ∈ record.bindings, property entry.2

/-- All values that a record shows have a property. -/
def Record.Holds (property : Value → Prop) : Record → Prop
  | .arity .. => True
  | .call _ arguments => ∀ argument ∈ arguments, property argument

/-- All values that are bound or were logged have a property. -/
structure Machine.Holds (property : Value → Prop) (machine : Machine) : Prop where
  bound : machine.store.Holds property
  logged : ∀ record ∈ machine.log, record.Holds property

section

variable {property weaker : Value → Prop}

namespace Store

variable {store : Store}

theorem Holds.imp (holds : store.Holds property) (more : ∀ value, property value → weaker value) :
    store.Holds weaker :=
  fun scope record found entry member => more entry.2 (holds scope record found entry member)

theorem Holds.lookup? (holds : store.Holds property) {scope : Nat} {name : String} {value : Value}
    (found : store.lookup? scope name = some value) : property value := by
  obtain ⟨link, record, there, member⟩ := lookup?_eq_some found
  exact holds link record there _ member

theorem Holds.addScope (holds : store.Holds property) (parent : Option Nat) :
    (store.addScope parent).Holds property := by
  intro scope record found entry member
  rw [scopes_addScope] at found
  split at found
  · cases found
    cases member
  · exact holds scope record found entry member

theorem Holds.define (holds : store.Holds property) (scope : Nat) (name : String) {value : Value}
    (has : property value) : (store.define scope name value).Holds property := by
  intro other record found entry member
  obtain ⟨before, there, _, entries⟩ := exists_of_scopes_define found
  rcases entries entry member with old | new
  · exact holds other before there entry old
  · exact new ▸ has

theorem Holds.defineAll (holds : store.Holds property) (scope : Nat) {entries : Bindings}
    (hasAll : ∀ entry ∈ entries, property entry.2) :
    (store.defineAll scope entries).Holds property := by
  induction entries generalizing store with
  | nil => exact holds
  | cons entry later ih =>
      apply ih (holds.define scope entry.1 (hasAll entry (.head _)))
      exact fun other member => hasAll other (.tail _ member)

theorem Holds.openCall (holds : store.Holds property) (home : Nat) (callee : String)
    {bound : Bindings} {function : Value} (hasAll : ∀ entry ∈ bound, property entry.2)
    (has : property function) : (store.openCall home bound callee function).Holds property :=
  ((holds.addScope (some home)).defineAll store.nextId hasAll).define store.nextId callee has

end Store

namespace Machine

variable {machine : Machine}

theorem Holds.imp (holds : machine.Holds property) (more : ∀ value, property value → weaker value) :
    machine.Holds weaker := by
  refine ⟨holds.bound.imp more, ?_⟩
  intro record member
  have held := holds.logged record member
  cases record with
  | arity => trivial
  | call callee arguments => exact fun argument among => more _ (held argument among)

theorem holds_of_mem_callRecords {callee : String} {expected : Nat} {arguments : List Value}
    (hasAll : ∀ argument ∈ arguments, property argument) {record : Record}
    (member : record ∈ callRecords callee expected arguments) : record.Holds property := by
  unfold callRecords at member
  split at member <;> simp only [List.mem_toArray, List.mem_cons, List.not_mem_nil, or_false] at member
  · subst member
    exact hasAll
  · rcases member with rfl | rfl
    · trivial
    · exact hasAll

theorem Holds.openCall (holds : machine.Holds property) (callee : String) (expected home : Nat)
    {bound : Bindings} {arguments : List Value} {function : Value}
    (hasAll : ∀ argument ∈ arguments, property argument)
    (boundAmong : ∀ entry ∈ bound, entry.2 ∈ arguments) (has : property function) :
    Holds property ⟨machine.store.openCall home bound callee function,
      machine.log ++ callRecords callee expected arguments⟩ := by
  constructor
  · exact holds.bound.openCall home callee
      (fun entry member => hasAll entry.2 (boundAmong entry member)) has
  · intro record member
    rcases Array.mem_append.mp member with old | new
    · exact holds.logged record old
    · exact holds_of_mem_callRecords hasAll new

end Machine

end

end TinyScript
