import TinyScript.Proofs.Evaluations
import TinyScript.Proofs.Sessions

/-!
# Scopes and the nesting of functions

The parents of a scope follow the text of a program. A tree inside of no function is evaluated in the
global scope, and one in the body of a function in a scope whose parent is one for the literal of the
function. So a scope has one link more than there are functions around what is evaluated in it,
however deeply calls nest, and the search for a name ends after as many steps.
-/

set_option autoImplicit false

namespace TinyScript

namespace Store

/-- The links of a scope: the scope, its parent, the parent of that, and so on up to one that has
none. -/
inductive Ascends (store : Store) : Nat → List Nat → Prop where
  | root {scope : Nat} {record : Scope} :
      store.scopes[scope]? = some record → record.parent = none → Ascends store scope [scope]
  | step {scope parent : Nat} {record : Scope} {links : List Nat} :
      store.scopes[scope]? = some record → record.parent = some parent →
      Ascends store parent links → Ascends store scope (scope :: links)

/-- A scope has so many links, all of them different, of which the last is the global scope. The
search for a name goes along them. -/
def IsLinked (store : Store) (scope count : Nat) : Prop :=
  ∃ links, store.Ascends scope links ∧ links.Nodup ∧ links.getLast? = some globalScope ∧
    links.length = count ∧ store.chain scope = links

/-- Parents are older than their children. -/
def HasOlderParents (store : Store) : Prop :=
  ∀ {scope : Nat} {record : Scope} {parent : Nat}, store.scopes[scope]? = some record →
    record.parent = some parent → parent < scope

/-- All scopes of a store are there later on, with the same parents. -/
def KeepsParents (before after : Store) : Prop :=
  ∀ (scope : Nat) (record : Scope), before.scopes[scope]? = some record →
    ∃ later, after.scopes[scope]? = some later ∧ later.parent = record.parent

section

variable {store before between after : Store}

theorem KeepsParents.refl (store : Store) : store.KeepsParents store :=
  fun _ record found => ⟨record, found, rfl⟩

theorem KeepsParents.trans (first : before.KeepsParents between)
    (second : between.KeepsParents after) : before.KeepsParents after := by
  intro scope record found
  obtain ⟨middle, middleFound, sameMiddle⟩ := first scope record found
  obtain ⟨last, lastFound, sameLast⟩ := second scope middle middleFound
  exact ⟨last, lastFound, sameLast.trans sameMiddle⟩

theorem Extends.keepsParents (extension : before.Extends after) : before.KeepsParents after := by
  intro scope record found
  have old : scope < before.nextId := (Array.getElem?_eq_some_iff.mp found).1
  exact ⟨record, (extension.same scope old).trans found, rfl⟩

theorem KeepsParents.define (store : Store) (scope : Nat) (name : String) (value : Value) :
    store.KeepsParents (store.define scope name value) := by
  intro other record found
  rw [scopes_define, found]
  split
  · exact ⟨_, rfl, rfl⟩
  · exact ⟨_, rfl, rfl⟩

theorem exists_scopes_openCall (store : Store) (home : Nat) (bound : Bindings) (callee : String)
    (function : Value) :
    ∃ bindings, (store.openCall home bound callee function).scopes[store.nextId]? =
      some ⟨some home, bindings⟩ := by
  refine ⟨(Bindings.setAll [] bound).set callee function, ?_⟩
  rw [openCall, scopes_define, if_pos rfl, scopes_defineAll, if_pos rfl, scopes_addScope, if_pos rfl]
  rfl

theorem Ascends.le (older : store.HasOlderParents) {scope : Nat} {links : List Nat}
    (ascends : store.Ascends scope links) : ∀ link ∈ links, link ≤ scope := by
  induction ascends with
  | root =>
      intro link member
      exact Nat.le_of_eq (List.mem_singleton.mp member)
  | step found above _ ih =>
      intro link member
      rcases List.mem_cons.mp member with rfl | further
      · exact Nat.le_refl _
      · exact Nat.le_of_lt (Nat.lt_of_le_of_lt (ih link further) (older found above))

theorem Ascends.nodup (older : store.HasOlderParents) {scope : Nat} {links : List Nat}
    (ascends : store.Ascends scope links) : links.Nodup := by
  -- Parents are older than their children, so the numbers of the links only go down.
  induction ascends with
  | root => exact List.nodup_singleton _
  | step found above higher ih =>
      refine List.nodup_cons.mpr ⟨fun again => ?_, ih⟩
      exact absurd (higher.le older _ again) (Nat.not_le_of_lt (older found above))

theorem Ascends.chain (older : store.HasOlderParents) {scope : Nat} {links : List Nat}
    (ascends : store.Ascends scope links) : store.chain scope = links := by
  induction ascends with
  | root found last =>
      apply chain_of_none
      rw [parent?, found]
      simp [last]
  | step found above _ ih =>
      rw [chain_of_some, ih]
      rw [parent?, found]
      simp [above, older found above]

end

end Store

namespace Node

mutual

/-- How deeply function literals nest in a tree. -/
def nesting : Node → Nat
  | .int _ | .bool _ | .name _ | .stray _ => 0
  | .binary _ left right => max (nesting left) (nesting right)
  | .letE _ value | .strayLet _ value | .returnE value | .shownAs _ value => nesting value
  | .block statements => nestingAll statements
  | .ifThen condition consequence => max (nesting condition) (nesting consequence)
  | .ifElse condition consequence alternative =>
      max (nesting condition) (max (nesting consequence) (nesting alternative))
  | .call _ arguments | .strayCall _ arguments => nestingAll arguments
  | .func _ body | .strayFunc _ _ body => nestingAll body + 1

def nestingAll : List Node → Nat
  | [] => 0
  | first :: later => max (nesting first) (nestingAll later)

end

theorem nesting_le_of_mem {nodes : List Node} {node : Node} (among : node ∈ nodes) :
    node.nesting ≤ nestingAll nodes := by
  induction nodes with
  | nil => cases among
  | cons first later ih =>
      rcases List.mem_cons.mp among with rfl | further
      · exact Nat.le_max_left _ _
      · exact Nat.le_trans (ih further) (Nat.le_max_right _ _)

theorem nesting_le_of_mem_parts {node part : Node} (among : part ∈ node.parts) :
    part.nesting ≤ node.nesting := by
  cases node with
  | block statements | call callee arguments => exact nesting_le_of_mem among
  | int | bool | name | func | strayLet | strayCall | strayFunc | stray => cases among
  | binary | letE | returnE | ifThen | ifElse | shownAs =>
      simp only [parts, List.mem_cons, List.not_mem_nil, or_false] at among
      simp only [nesting]
      grind

end Node

/-- A tree stands in one of the sources inside of `depth` functions, and a scope lies as deep in a
store: for a tree inside of no function it is the global one, and for a tree in the body of a
function its parent is such a scope for the literal of the function. -/
inductive Placed (sources : List String) (store : Store) : Nat → Nat → Node → Prop where
  | statement {source : String} {program : Program} {node : Node} {record : Scope} :
      source ∈ sources → Program.ofSource source = .ok program → node ∈ program →
      store.scopes[globalScope]? = some record → record.parent = none →
      Placed sources store 0 globalScope node
  | part {depth scope : Nat} {node part : Node} :
      Placed sources store depth scope node → part ∈ node.parts →
      Placed sources store depth scope part
  | body {depth scope inner : Nat} {parameters : List String} {body : List Node} {node : Node}
      {record : Scope} :
      Placed sources store depth scope (.func parameters body) →
      store.scopes[inner]? = some record → record.parent = some scope → node ∈ body →
      Placed sources store (depth + 1) inner node

/-- A closure belongs to a scope that lies as deep as its literal stands. -/
def Value.IsPlaced (sources : List String) (store : Store) : Value → Prop
  | .null | .bool _ | .int _ => True
  | .closure parameters body home => ∃ depth, Placed sources store depth home (.func parameters body)
  | .strayClosure .. => False

/-- Every scope but the global one was opened for a function, in a scope for its literal. -/
structure Store.Mirrors (sources : List String) (store : Store) : Prop where
  global : ∃ record, store.scopes[globalScope]? = some record ∧ record.parent = none
  opened : ∀ {scope : Nat} {record : Scope}, store.scopes[scope]? = some record →
    scope = globalScope ∨ ∃ depth home parameters body, record.parent = some home ∧
      Placed sources store depth home (.func parameters body)

section

variable {sources : List String} {store before after : Store} {depth scope : Nat} {node : Node}

theorem Placed.later (placed : Placed sources before depth scope node)
    (keeps : before.KeepsParents after) : Placed sources after depth scope node := by
  induction placed with
  | statement listed parsed among found root =>
      obtain ⟨later, laterFound, same⟩ := keeps _ _ found
      exact .statement listed parsed among laterFound (same.trans root)
  | part _ among ih => exact .part ih among
  | body _ found above among ih =>
      obtain ⟨later, laterFound, same⟩ := keeps _ _ found
      exact .body ih laterFound (same.trans above) among

theorem Placed.isWellFormed (placed : Placed sources store depth scope node) :
    node.isWellFormed = true := by
  induction placed with
  | statement _ parsed among => exact Program.isWellFormed_of_mem parsed among
  | part _ among ih => exact Node.isWellFormed_of_mem_parts ih among
  | body _ _ _ among ih =>
      exact Node.areWellFormed_iff.mp (Bool.and_eq_true_iff.mp ih).2 _ among

theorem Placed.ascends (placed : Placed sources store depth scope node) :
    ∃ links, store.Ascends scope links ∧ links.getLast? = some globalScope ∧
      links.length = depth + 1 := by
  induction placed with
  | statement _ _ _ found root => exact ⟨[globalScope], .root found root, rfl, rfl⟩
  | part _ _ ih => exact ih
  | @body _ _ inner _ _ _ _ _ found above _ ih =>
      obtain ⟨links, ascends, last, length⟩ := ih
      refine ⟨inner :: links, .step found above ascends, ?_, congrArg (· + 1) length⟩
      rw [List.getLast?_cons, last]
      rfl

theorem Placed.isLinked (placed : Placed sources store depth scope node)
    (closed : store.IsClosed) : store.IsLinked scope (depth + 1) := by
  obtain ⟨links, ascends, last, length⟩ := placed.ascends
  exact ⟨links, ascends, ascends.nodup closed.parents, last, length, ascends.chain closed.parents⟩

theorem Placed.depth_add_nesting_le {deepest : Nat}
    (bounded : ∀ source ∈ sources, ∀ program, Program.ofSource source = .ok program →
      Node.nestingAll program ≤ deepest)
    (placed : Placed sources store depth scope node) : depth + node.nesting ≤ deepest := by
  induction placed with
  | statement listed parsed among =>
      rw [Nat.zero_add]
      exact Nat.le_trans (Node.nesting_le_of_mem among) (bounded _ listed _ parsed)
  | part _ among ih =>
      exact Nat.le_trans (Nat.add_le_add_left (Node.nesting_le_of_mem_parts among) _) ih
  | body _ _ _ among ih =>
      have inside := Node.nesting_le_of_mem among
      simp only [Node.nesting] at ih
      omega

theorem Value.IsPlaced.later {value : Value} (placed : value.IsPlaced sources before)
    (keeps : before.KeepsParents after) : value.IsPlaced sources after := by
  cases value with
  | closure parameters body home =>
      obtain ⟨depth, literal⟩ := placed
      exact ⟨depth, literal.later keeps⟩
  | strayClosure => cases placed
  | null | bool | int => trivial

theorem Value.IsPlaced.exists_of_callable? {function : Value} {callable : Callable}
    (placed : function.IsPlaced sources store) (calls : function.callable? = some callable) :
    ∃ parameters depth, function = .closure parameters callable.body callable.home ∧
      Placed sources store depth callable.home (.func parameters callable.body) := by
  cases function with
  | closure parameters body home =>
      cases calls
      obtain ⟨depth, literal⟩ := placed
      exact ⟨parameters, depth, rfl, literal⟩
  | strayClosure => cases placed
  | null | bool | int => cases calls

namespace Store

theorem Mirrors.keep (mirrors : before.Mirrors sources) (keeps : before.KeepsParents after)
    (opened : ∀ {scope : Nat} {record : Scope}, after.scopes[scope]? = some record →
      (∃ earlier, before.scopes[scope]? = some earlier ∧ record.parent = earlier.parent) ∨
      ∃ depth home parameters body, record.parent = some home ∧
        Placed sources after depth home (.func parameters body)) :
    after.Mirrors sources := by
  constructor
  · obtain ⟨record, found, root⟩ := mirrors.global
    obtain ⟨later, laterFound, same⟩ := keeps _ _ found
    exact ⟨later, laterFound, same.trans root⟩
  · intro scope record found
    rcases opened found with ⟨earlier, earlierFound, same⟩ | new
    · rcases mirrors.opened earlierFound with root | ⟨depth, home, parameters, body, above, literal⟩
      · exact .inl root
      · exact .inr ⟨depth, home, parameters, body, same.trans above, literal.later keeps⟩
    · exact .inr new

theorem Mirrors.define (mirrors : store.Mirrors sources) (scope : Nat) (name : String)
    (value : Value) : (store.define scope name value).Mirrors sources := by
  refine mirrors.keep (KeepsParents.define store scope name value) fun found => .inl ?_
  obtain ⟨earlier, earlierFound, same, _⟩ := exists_of_scopes_define found
  exact ⟨earlier, earlierFound, same⟩

theorem Mirrors.openCall (mirrors : store.Mirrors sources) {home : Nat} {parameters : List String}
    {body : List Node} (literal : Placed sources store depth home (.func parameters body))
    (bound : Bindings) (callee : String) (function : Value) :
    (store.openCall home bound callee function).Mirrors sources := by
  have extension := extends_openCall store home bound callee function
  refine mirrors.keep extension.keepsParents ?_
  intro scope record found
  have inside : scope < store.nextId + 1 :=
    Nat.lt_of_lt_of_eq (Array.getElem?_eq_some_iff.mp found).1 (nextId_openCall ..)
  rcases Nat.lt_succ_iff_lt_or_eq.mp inside with old | rfl
  · exact .inl ⟨record, (extension.same scope old).symm.trans found, rfl⟩
  · obtain ⟨bindings, new⟩ := exists_scopes_openCall store home bound callee function
    rw [new] at found
    cases found
    exact .inr ⟨depth, home, parameters, body, rfl, literal.later extension.keepsParents⟩

end Store

end

/-- Machines whose scopes mirror the nesting of functions in some sources, with trees of the sources
in scopes for them. -/
def lexicality (sources : List String) : Invariant where
  sound machine := machine.store.Mirrors sources ∧ machine.Holds (Value.IsPlaced sources machine.store)
  follows before after := before.store.KeepsParents after.store
  admits machine value := value.IsPlaced sources machine.store
  allows machine scope node := ∃ depth, Placed sources machine.store depth scope node

theorem lexicality_kept (sources : List String) : (lexicality sources).Kept where
  refl machine := Store.KeepsParents.refl machine.store
  trans := Store.KeepsParents.trans
  admits_later follows placed := placed.later follows
  allows_later follows allowed := by
    obtain ⟨depth, placed⟩ := allowed
    exact ⟨depth, placed.later follows⟩
  part allowed among := by
    obtain ⟨depth, placed⟩ := allowed
    exact ⟨depth, .part placed among⟩
  null _ := trivial
  bool _ _ := trivial
  int _ := trivial
  onValues _ _ result := by
    rcases BinaryOp.onValues_plain result with ⟨_, rfl⟩ | ⟨_, rfl⟩
    · exact trivial
    · exact trivial
  func allowed := allowed
  strayFunc allowed := by
    -- No text spells such a tree.
    obtain ⟨_, placed⟩ := allowed
    exact nomatch placed.isWellFormed
  lookup sound found := sound.2.bound.lookup? found
  define {machine scope target value bound} sound _ placed := by
    have keeps := Store.KeepsParents.define machine.store scope target bound
    have later (value : Value) (held : value.IsPlaced sources machine.store) :
        value.IsPlaced sources (machine.store.define scope target bound) := held.later keeps
    refine ⟨⟨sound.1.define scope target bound, ?_, ?_⟩, keeps⟩
    · exact (sound.2.bound.define scope target placed).imp later
    · exact (sound.2.imp later).logged
  openCall {machine function callable arguments} callee sound placed calls admitted := by
    obtain ⟨parameters, depth, _, literal⟩ := placed.exists_of_callable? calls
    have keeps := (Store.extends_openCall machine.store callable.home (callable.bound arguments)
      callee function).keepsParents
    refine ⟨⟨sound.1.openCall literal _ _ _, ?_⟩, keeps, ?_⟩
    · have opened := sound.2.openCall callee callable.expected callable.home admitted
        (fun entry member => Value.mem_bound calls member) placed
      exact opened.imp fun value held => held.later keeps
    · intro node member
      obtain ⟨bindings, new⟩ := Store.exists_scopes_openCall machine.store callable.home
        (callable.bound arguments) callee function
      exact ⟨depth + 1, .body (literal.later keeps) new rfl member⟩

namespace Store

variable {sources : List String} {store : Store} {depth scope home : Nat}

theorem isLinked_of_parent (closed : store.IsClosed) {record : Scope} {literal : Node}
    (found : store.scopes[scope]? = some record) (above : record.parent = some home)
    (placed : Placed sources store depth home literal) : store.IsLinked scope (depth + 2) := by
  obtain ⟨links, ascends, last, length⟩ := placed.ascends
  have whole : store.Ascends scope (scope :: links) := .step found above ascends
  refine ⟨scope :: links, whole, whole.nodup closed.parents, ?_, congrArg (· + 1) length,
    whole.chain closed.parents⟩
  rw [List.getLast?_cons, last]
  rfl

theorem Mirrors.isLinked (mirrors : store.Mirrors sources) (closed : store.IsClosed) {deepest : Nat}
    (bounded : ∀ source ∈ sources, ∀ program, Program.ofSource source = .ok program →
      Node.nestingAll program ≤ deepest)
    (inside : scope < store.nextId) : ∃ count ≤ deepest + 1, store.IsLinked scope count := by
  have found : store.scopes[scope]? = some store.scopes[scope] := Array.getElem?_eq_getElem inside
  rcases mirrors.opened found with rfl | ⟨depth, home, parameters, body, above, literal⟩
  · obtain ⟨record, globalFound, root⟩ := mirrors.global
    have alone : store.Ascends globalScope [globalScope] := .root globalFound root
    exact ⟨1, Nat.le_add_left _ _, [globalScope], alone, alone.nodup closed.parents, rfl, rfl,
      alone.chain closed.parents⟩
  · have around := literal.depth_add_nesting_le bounded
    simp only [Node.nesting] at around
    exact ⟨depth + 2, by omega, isLinked_of_parent closed found above literal⟩

end Store

/-- The scopes of a machine mirror how functions nest in some sources, at most `deepest` deep. Every
scope is linked to the global one, a scope for what stands inside of some functions by one link more
than there are functions, and the scope of a closure is one for its literal. The search for a name
looks at no more scopes than there are links. -/
structure Machine.MirrorsNesting (sources : List String) (deepest : Nat) (machine : Machine) :
    Prop where
  scopes : ∀ scope < machine.store.nextId,
    ∃ count ≤ deepest + 1, machine.store.IsLinked scope count
  placed : ∀ depth scope node, Placed sources machine.store depth scope node →
    machine.store.IsLinked scope (depth + 1)
  values : machine.Holds (Value.IsPlaced sources machine.store)
  lookup : ∀ scope < machine.store.nextId, ∀ name, machine.store.lookup? scope name =
    ((machine.store.chain scope).take (deepest + 1)).findSome? fun link =>
      (machine.store.bindings link).find? name

namespace Machine

/-- The machines that some sources lead to, run in any order, each as a whole or by single
statements, whether that succeeds or fails, and with a limit of its own. -/
inductive SessionOf (sources : List String) : Machine → Prop where
  | fresh : SessionOf sources fresh
  | run {machine : Machine} {source : String} (limit : Nat) :
      SessionOf sources machine → source ∈ sources →
      SessionOf sources (machine.run source limit).2
  | evaluated {machine : Machine} {source : String} {program : Program} {statement : Node}
      (limit : Nat) :
      SessionOf sources machine → source ∈ sources → Program.ofSource source = .ok program →
      statement ∈ program → SessionOf sources (machine.evaluate statement limit).2

section

variable {sources : List String} {deepest : Nat} {machine : Machine}

theorem mirrorsNesting_of_sound (sound : (lexicality sources).sound machine)
    (closed : machine.store.IsClosed)
    (bounded : ∀ source ∈ sources, ∀ program, Program.ofSource source = .ok program →
      Node.nestingAll program ≤ deepest) : machine.MirrorsNesting sources deepest where
  scopes _ inside := sound.1.isLinked closed bounded inside
  placed _ _ _ placed := placed.isLinked closed
  values := sound.2
  lookup scope inside name := by
    obtain ⟨count, few, links, _, _, _, length, chain⟩ := sound.1.isLinked closed bounded inside
    rw [Store.lookup?, chain, List.take_of_length_le (by omega)]

theorem SessionOf.reached (session : machine.SessionOf sources) : machine.Reached := by
  induction session with
  | fresh => exact .fresh
  | run limit _ _ ih => exact .run _ limit ih
  | evaluated limit _ _ _ _ ih => exact .evaluated limit _ ih ih.isClosed.2

theorem allows_of_sound (sound : (lexicality sources).sound machine) {source : String}
    (listed : source ∈ sources) {program : Program}
    (parsed : Program.ofSource source = .ok program) {statement : Node}
    (among : statement ∈ program) : (lexicality sources).allows machine globalScope statement := by
  obtain ⟨record, found, root⟩ := sound.1.global
  exact ⟨0, .statement listed parsed among found root⟩

theorem SessionOf.sound (session : machine.SessionOf sources) :
    (lexicality sources).sound machine := by
  have kept := lexicality_kept sources
  induction session with
  | fresh =>
      have only {scope : Nat} {record : Scope}
          (found : Machine.fresh.store.scopes[scope]? = some record) :
          scope = globalScope ∧ record = ⟨none, []⟩ := by
        cases scope with
        | zero =>
            cases found
            exact ⟨rfl, rfl⟩
        | succ scope => cases found
      refine ⟨⟨⟨⟨none, []⟩, rfl, rfl⟩, fun found => .inl (only found).1⟩, ?_, ?_⟩
      · intro scope record found entry member
        rw [(only found).2] at member
        cases member
      · exact fun _ member => nomatch member
  | run limit _ listed sound =>
      exact (Invariant.run_kept kept sound
        (fun _ parsed _ among => allows_of_sound sound listed parsed among) limit).1
  | evaluated limit _ listed parsed among sound =>
      exact (Invariant.evaluate_safe kept (Invariant.enterWithin_kept kept limit) sound globalScope _
        (allows_of_sound sound listed parsed among)).1

theorem mirrorsNesting_of_opens {evaluation : Evaluation} {function : Value} {callable : Callable}
    {inner : Nat} {opened : Machine} (covers : closedness.Covers evaluation)
    (coversPlaced : (lexicality sources).Covers evaluation)
    (bounded : ∀ source ∈ sources, ∀ program, Program.ofSource source = .ok program →
      Node.nestingAll program ≤ deepest)
    (opens : evaluation.Opens function callable inner opened) :
    opened.MirrorsNesting sources deepest ∧
    ∃ parameters depth, function = .closure parameters callable.body callable.home ∧
      Placed sources opened.store depth callable.home (.func parameters callable.body) ∧
      opened.store.IsLinked inner (depth + 2) := by
  obtain ⟨openedClosed, _⟩ := covers.opens closedness_kept opens
  obtain ⟨openedSound, _, admitted, _⟩ := coversPlaced.opens (lexicality_kept sources) opens
  refine ⟨mirrorsNesting_of_sound openedSound openedClosed bounded, ?_⟩
  cases opens with
  | @call _ between _ _ callee _ values _ _ _ _ calls =>
      obtain ⟨parameters, depth, rfl, literal⟩ := admitted.exists_of_callable? calls
      obtain ⟨bindings, new⟩ := Store.exists_scopes_openCall between.store callable.home
        (callable.bound values) callee (.closure parameters callable.body callable.home)
      exact ⟨parameters, depth, rfl, literal,
        Store.isLinked_of_parent openedClosed new rfl literal⟩

/-- However deeply calls nest and may nest, the scopes of a session mirror the nesting of functions
in its sources: between statements, and wherever the evaluation of a statement leads. What is
evaluated there stands inside of as many functions as its scope is deep. A literal gives a closure of
the scope that it is evaluated in. A call opens a scope for the literal of a closure, which has two
links more than there are functions around the literal. -/
theorem SessionOf.scopes_mirror_nesting (session : machine.SessionOf sources)
    (bounded : ∀ source ∈ sources, ∀ program, Program.ofSource source = .ok program →
      Node.nestingAll program ≤ deepest) :
    machine.MirrorsNesting sources deepest ∧
    ∀ source ∈ sources, ∀ program, Program.ofSource source = .ok program → ∀ statement ∈ program,
      ∀ limit evaluation,
        Evaluation.LeadsTo ⟨machine, limit, globalScope, statement⟩ evaluation →
        evaluation.machine.MirrorsNesting sources deepest ∧
        evaluation.outcome.2.MirrorsNesting sources deepest ∧
        (∃ depth, Placed sources evaluation.machine.store depth evaluation.scope evaluation.node) ∧
        (∀ parameters body, evaluation.node = .func parameters body →
          evaluation.outcome.1 = .ok (.closure parameters body evaluation.scope)) ∧
        (∀ value, evaluation.outcome.1 = .ok value →
          value.IsPlaced sources evaluation.outcome.2.store) ∧
        ∀ function callable inner opened, evaluation.Opens function callable inner opened →
          opened.MirrorsNesting sources deepest ∧
          ∃ parameters depth, function = .closure parameters callable.body callable.home ∧
            Placed sources opened.store depth callable.home (.func parameters callable.body) ∧
            opened.store.IsLinked inner (depth + 2) := by
  have kept := lexicality_kept sources
  obtain ⟨closed, global⟩ := session.reached.isClosed
  refine ⟨mirrorsNesting_of_sound session.sound closed bounded, ?_⟩
  intro source listed program parsed statement among limit evaluation leads
  -- Two invariants meet here: stores are closed, so chains end, and lexical, so their links count.
  have start : closedness.Covers ⟨machine, limit, globalScope, statement⟩ := ⟨closed, global⟩
  have startPlaced : (lexicality sources).Covers ⟨machine, limit, globalScope, statement⟩ :=
    ⟨session.sound, allows_of_sound session.sound listed parsed among⟩
  have covers := start.leadsTo closedness_kept leads
  have coversPlaced := startPlaced.leadsTo kept leads
  obtain ⟨afterClosed, _, _, _⟩ := covers.safe closedness_kept
  obtain ⟨afterSound, _, gives, _⟩ := coversPlaced.safe kept
  refine ⟨mirrorsNesting_of_sound coversPlaced.sound covers.sound bounded,
    mirrorsNesting_of_sound afterSound afterClosed bounded, coversPlaced.allowed, ?_, gives, ?_⟩
  · intro parameters body literal
    rw [Evaluation.outcome, literal]
    rfl
  · exact fun _ _ _ _ opens => mirrorsNesting_of_opens covers coversPlaced bounded opens

/-- Calls nest four deep in a text whose functions nest two deep, and the innermost scope has at most
three links. -/
theorem SessionOf.scopes_mirror_nesting_recursion :
    let source := "let f = fn(n) \x7b if n < 1 fn() \x7b n \x7d; else f(n - 1); \x7d; f(3);"
    ∃ count ≤ 3, (Machine.fresh.run source callLimit).2.store.IsLinked 4 count := by
  intro source
  have parsed : Program.ofSource source =
      .ok [.letE "f" (.func ["n"] [.ifElse (.binary .less (.name "n") (.int 1))
        (.func [] [.name "n"]) (.call "f" [.binary .sub (.name "n") (.int 1)])]),
        .call "f" [.int 3]] := by
    subst source
    cbv
  have opened : (Machine.fresh.run source callLimit).2.store.nextId = 5 := by
    subst source
    set_option maxRecDepth 10000 in cbv
  have session : Machine.SessionOf [source] (Machine.fresh.run source callLimit).2 :=
    .run callLimit .fresh (.head _)
  have bounded : ∀ listed ∈ [source],
      ∀ program, Program.ofSource listed = .ok program → Node.nestingAll program ≤ 2 := by
    intro other listed program same
    rw [List.mem_singleton.mp listed, parsed] at same
    cases same
    decide
  exact (session.scopes_mirror_nesting bounded).1.scopes 4 (by rw [opened]; decide)

end

end Machine

end TinyScript
