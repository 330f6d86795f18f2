import TinyScript.Proofs.Aliases.Stores
import TinyScript.Proofs.Independence.Expressions
import TinyScript.Proofs.Reporting

/-!
# Calling a function through one name or another

A call binds the function in its new scope, under the name of the call. Closures that are made there
keep the scope, are given back and handed on, and may be called much later. Still, where neither of two
names occurs in a function, it makes no difference through which of them it is called: both runs come
to the same, and differ in the scope of that call alone.
-/

set_option autoImplicit false

namespace TinyScript

theorem Value.Resembles.refl (value : Value) : value.Resembles value := by
  cases calls : value.callable? with
  | none => exact .plain calls
  | some callable => exact .closure calls calls

theorem Node.Known.alongside {node : Node} (known : node.Known) {part : Node → Node → Prop}
    (parts : ∀ inner ∈ node.parts, part inner inner) : node.Alongside part node := by
  cases known with
  | int => exact .int _
  | bool => exact .bool _
  | name => exact .name _ _
  | binary => exact .binary _ (parts _ (.head _)) (parts _ (.tail _ (.head _)))
  | letE => exact .letE _ _ (parts _ (.head _))
  | returnE => exact .returnE (parts _ (.head _))
  | block => exact .block (.of_forall₂ (List.forall₂_same.mpr parts))
  | ifThen => exact .ifThen (parts _ (.head _)) (parts _ (.tail _ (.head _)))
  | ifElse =>
      exact .ifElse (parts _ (.head _)) (parts _ (.tail _ (.head _)))
        (parts _ (.tail _ (.tail _ (.head _))))
  | call => exact .call _ _ (List.forall₂_same.mpr parts)
  | func => exact .func _ _ _ _

/-- Runs of the same trees on stores that differ in the names of one scope. -/
def shading (special : Nat) (hidden : List String) : Pairing where
  World := List Bool
  follows before after := before <+: after
  refl := List.prefix_refl
  trans := List.IsPrefix.trans
  machines world first second := first.store.Shaded special hidden world second.store
  values world value other := value = other ∧ value.Clear hidden world
  failures failure other := failure = other

/-- A tree that may be evaluated in a scope, beside itself. -/
def SameTree (hidden : List String) (world : List Bool) (scope : Nat) (node other : Node) : Prop :=
  node = other ∧ node.ClearIn hidden world scope

theorem shading_agreement {special : Nat} {hidden : List String} {world : List Bool}
    {result other : Except Failure Value}
    (agreement : Agreement ((shading special hidden).values world)
      (shading special hidden).failures result other) : other = result := by
  cases agreement with
  | ok same => exact congrArg Except.ok same.1.symm
  | error same => exact congrArg Except.error same.symm

theorem shading_kept (special : Nat) (hidden : List String) :
    (shading special hidden).Kept (SameTree hidden) (fun _ _ _ => True) (fun _ _ _ => True) where
  values_later follows := fun ⟨same, clear⟩ => ⟨same, clear.later follows⟩
  trees_later follows := fun ⟨same, clear⟩ => ⟨same, clear.later follows⟩
  form := by
    rintro world scope node _ ⟨rfl, clear⟩
    exact clear.1.alongside fun part among => ⟨rfl, clear.part among⟩
  nextId shaded := Store.SameBut.count shaded.toSameBut
  plain inert := ⟨rfl, .plain inert⟩
  resembles := by
    rintro world value _ ⟨rfl, _⟩
    exact .refl value
  func := by
    rintro world scope parameters body _ _ ⟨⟨⟩, clear⟩
    exact ⟨rfl, .closure clear⟩
  read := by
    rintro world first second scope name _ shaded ⟨⟨⟩, _, below, there, visible⟩
    exact Store.Shaded.rel_lookup? shaded there fun shade => visible shade name (.head _)
  called := by
    rintro world first second scope callee _ arguments _ shaded ⟨⟨⟩, _, below, there, visible⟩
    exact Store.Shaded.rel_lookup? shaded there fun shade => visible shade callee (.head _)
  define := by
    rintro world first second scope target _ node _ value _ shaded ⟨⟨⟩, known, below, there, _⟩
      ⟨rfl, clear⟩
    exact Store.Shaded.define shaded there target clear
  openCall := by
    rintro (world : List Bool) first second scope callee _ arguments _ function _ callable _ values
      otherValues shaded ⟨⟨⟩, _⟩ ⟨rfl, functionClear⟩ calls otherCalls same _ _
    cases calls.symm.trans otherCalls
    obtain rfl : values = otherValues := List.forall₂_eq_eq_eq ▸ same.imp fun _ _ both => both.1
    have valuesClear (value : Value) (among : value ∈ values) : value.Clear hidden world :=
      (List.forall₂_same.mp same value among).2
    obtain ⟨below, there, body⟩ := functionClear.body calls
    refine ⟨world ++ [below], List.prefix_append _ _, ?_, .of_forall₂ (List.forall₂_same.mpr ?_)⟩
    · exact Store.Shaded.openCall shaded there callee
        (fun entry member => valuesClear _ (Value.mem_bound calls member)) functionClear
    · intro node among
      obtain ⟨known, visible⟩ := body node among
      refine ⟨rfl, known, below, ?_, visible⟩
      rw [Store.Shaded.size shaded, List.getElem?_concat_length]
  same _ := rfl
  undefinedVariable := by
    rintro world scope name _ ⟨⟨⟩, _⟩
    rfl
  undefinedFunction := by
    rintro world scope callee _ arguments _ ⟨⟨⟩, _⟩
    rfl
  notAFunction := by
    rintro world scope callee _ arguments _ value ⟨⟨⟩, _⟩ _
    rfl
  unsupportedOperands := by
    rintro world left right _ _ op ⟨rfl, _⟩ ⟨rfl, _⟩
    rfl

/-- The trees in a phrase are known. -/
def Phrase.IsKnown : Phrase → Prop
  | .statement node | .expression node | .operand _ node => node.Known
  | .statements nodes | .arguments nodes | .moreArguments nodes => ∀ node ∈ nodes, node.Known

theorem Derivation.isKnown {phrase : Phrase} {words : List Token} {next : Token}
    (derivation : Derivation phrase words next) : phrase.IsKnown := by
  induction derivation with
  | noStatements | noArguments | lastArgument => exact fun _ never => nomatch never
  | someStatements _ _ first later | someArguments _ _ first later | nextArgument _ _ first later =>
      exact List.forall_mem_cons.mpr ⟨first, later⟩
  | letE _ value => exact .letE value
  | returnE _ _ value => exact .returnE value
  | block _ all => exact .block all
  | ifThen _ _ _ condition consequence => exact .ifThen condition consequence
  | ifElse _ _ _ condition consequence alternative => exact .ifElse condition consequence alternative
  | expressionE _ _ ih | comparison _ ih | tighter _ _ ih | paren _ ih => exact ih
  | func _ all => exact .func all
  | binary _ _ left right => exact .binary left right
  | int => exact .int
  | bool | givenBool => exact .bool
  | name => exact .name
  | call _ all => exact .call all

theorem Node.IsParsedExpression.known {node : Node} (parsed : node.IsParsedExpression) :
    node.Known := by
  obtain ⟨_, _, ⟨derivation⟩⟩ := parsed.exists_derivation
  exact derivation.isKnown

theorem Node.letTargetsAll_of_parsed {nodes : List Node}
    (parsed : ∀ node ∈ nodes, node.IsParsedExpression) : letTargetsAll nodes = [] := by
  induction nodes with
  | nil => rfl
  | cons first later ih =>
      obtain ⟨firstParsed, laterParsed⟩ := List.forall_mem_cons.mp parsed
      rw [letTargetsAll, firstParsed.letTargets, ih laterParsed, List.append_nil]

namespace Machine

/-- A machine with closed scopes, on which all closures that are bound are made of known trees. -/
structure IsSettled (machine : Machine) : Prop where
  closed : machine.store.IsClosed
  known : machine.IsKnown

/-- Whatever the special scope will be, nothing that is bound was made below it. -/
theorem IsSettled.clear {machine : Machine} (settled : machine.IsSettled) {hidden : List String} :
    machine.store.Holds (Value.Clear hidden (worldBefore machine.store.nextId)) :=
  fun scope record there entry among => Value.clear_worldBefore
    (settled.known scope record there entry among) (settled.closed.values there among)

/-- A function that is bound to two names, and mentions neither, does the same when its body is entered
under the one or under the other. -/
theorem IsSettled.callNamed_either {machine : Machine} (settled : machine.IsSettled) {scope : Nat}
    {callee other : String} {parameters : List String} {body : List Node} {home : Nat}
    (found : machine.store.lookup? scope callee = some (.closure parameters body home))
    (otherFound : machine.store.lookup? scope other = some (.closure parameters body home))
    (unmentioned : ∀ name ∈ (Node.func parameters body).names, name ∉ [callee, other])
    {values : List Value}
    (valuesClear : ∀ value ∈ values,
      value.Clear [callee, other] (worldBefore machine.store.nextId)) (depth : Nat) :
    let called (name : String) := machine.perform (callNamed (enterWithin depth) scope name values)
    (called other).1 = (called callee).1 ∧
      Store.SameBut machine.store.nextId [callee, other] (called callee).2.store
        (called other).2.store := by
  intro called
  let hidden := [callee, other]
  let count := machine.store.nextId
  let function := Value.closure parameters body home
  let opened (name : String) : Machine :=
    ⟨machine.store.openCall home (parameters.zip values) name function,
      machine.log ++ callRecords name parameters.length values⟩
  have entered (name : String) (bound : machine.store.lookup? scope name = some function) :
      called name = (opened name).perform (enterWithin depth count body) :=
    perform_callNamed values bound rfl
  have together : (shading count hidden).machines (worldBefore count ++ [true]) (opened callee)
      (opened other) := by
    refine Store.shaded_openCall (settled.closed.holds.lookup? found) settled.clear ?_
      (settled.clear.lookup? found)
    exact fun entry member => valuesClear entry.2 (List.of_mem_zip member).2
  have bodies : List.Forall₂ (SameTree hidden (worldBefore count ++ [true]) count) body body := by
    refine List.forall₂_same.mpr fun node among =>
      ⟨rfl, ?_, true, Store.Shaded.marked together, fun _ name occurs => ?_⟩
    · exact (settled.known.lookup? found).body rfl node among
    · exact unmentioned name
        (List.mem_append_right _ (Node.mem_namesAll.mpr ⟨node, among, occurs⟩))
  have kept := shading_kept count hidden
  obtain ⟨_, _, machines, agreement⟩ := kept.enterWithin_inStep
    (fun less _ node => kept.evaluate_inStep less node) together (.of_forall₂ bodies)
    (fun _ _ _ _ _ => Evaluation.callsOnly_any _) (fun _ _ _ _ _ => Evaluation.callsOnly_any _)
  rw [entered callee found, entered other otherFound]
  exact ⟨shading_agreement agreement, Store.Shaded.toSameBut machines⟩

theorem InSession.reached {machine : Machine} (session : machine.InSession) : machine.Reached := by
  induction session with
  | fresh => exact .fresh
  | run source limit _ ih => exact .run source limit ih
  | evaluated limit _ _ _ ih => exact .evaluated limit _ ih ih.isClosed.2

theorem InSession.isSettled {machine : Machine} (session : machine.InSession) : machine.IsSettled :=
  ⟨session.reached.isClosed.1, session.isProper.isKnown⟩

end Machine

/-- The evaluations that the evaluation of a statement leads to in a session, with any limit. -/
inductive Evaluation.InSession : Evaluation → Prop where
  | leads {machine : Machine} {source : String} {program : Program} {statement : Node}
      {limit : Nat} {evaluation : Evaluation} :
      machine.InSession → Program.ofSource source = .ok program → statement ∈ program →
      Evaluation.LeadsTo ⟨machine, limit, globalScope, statement⟩ evaluation →
      InSession evaluation

theorem Evaluation.InSession.covers {evaluation : Evaluation} (session : evaluation.InSession) :
    closedness.Covers evaluation ∧ familiarity.Covers evaluation := by
  cases session with
  | @leads machine _ _ statement limit _ session parsed among leads =>
      have wellFormed := Program.isWellFormed_of_mem parsed among
      have inside : closedness.Covers ⟨machine, limit, globalScope, statement⟩ :=
        ⟨session.isSettled.closed, session.isProper.global⟩
      have known : familiarity.Covers ⟨machine, limit, globalScope, statement⟩ :=
        ⟨session.isSettled.known, Node.known_of_isWellFormed wellFormed⟩
      exact ⟨inside.leadsTo closedness_kept leads, known.leadsTo familiarity_kept leads⟩

namespace Machine

/-- The machines that runs of programs pass through, whatever their limits are: those between two
statements, and those on which any evaluation begins or ends that a statement leads to. -/
inductive Passed : Machine → Prop where
  | between {machine : Machine} : machine.InSession → Passed machine
  | begins {evaluation : Evaluation} : evaluation.InSession → Passed evaluation.machine
  | ends {evaluation : Evaluation} : evaluation.InSession → Passed evaluation.outcome.2

theorem Passed.isSettled {machine : Machine} (passed : machine.Passed) : machine.IsSettled := by
  cases passed with
  | between session => exact session.isSettled
  | begins session => exact ⟨session.covers.1.sound, session.covers.2.sound⟩
  | ends session =>
      exact ⟨(session.covers.1.safe closedness_kept).1, (session.covers.2.safe familiarity_kept).1⟩

/-- Arguments that have values leave a machine that is settled, and no value was made below a scope that
is still to come. -/
theorem IsSettled.evaluateAll {machine after : Machine} (settled : machine.IsSettled)
    {scope depth : Nat} (inside : scope < machine.store.nextId) {arguments : List Node}
    (parsed : ∀ argument ∈ arguments, argument.IsParsedExpression) {values : List Value}
    (given : machine.perform (Node.evaluateAll (enterWithin depth) scope arguments) =
      (.ok values, after)) (hidden : List String) :
    after.IsSettled ∧ ∀ value ∈ values, value.Clear hidden (worldBefore after.store.nextId) := by
  obtain ⟨closed, _, within, _⟩ := Invariant.evaluateAll_safe closedness_kept
    (Invariant.enterWithin_kept closedness_kept depth) settled.closed scope arguments
    fun _ _ => inside
  obtain ⟨known, _, familiar, _⟩ := Invariant.evaluateAll_safe familiarity_kept
    (Invariant.enterWithin_kept familiarity_kept depth) settled.known scope arguments
    fun argument among => (parsed argument among).known
  rw [given] at closed within known familiar
  exact ⟨⟨closed, known⟩, fun value among => Value.clear_worldBefore
    (familiar values rfl value among) (within values rfl value among)⟩

/-- On every machine that runs of programs pass through, and in every scope, where two names are bound to
one closure that mentions neither of them, a call through the one has the same result as a call through
the other. All scopes that were there before are the same afterwards, and so are the new ones, but for
what the two names are bound to in one of them. -/
theorem Passed.call_through_either_name {machine : Machine} (passed : machine.Passed) {scope : Nat}
    {callee other : String} {parameters : List String} {body : List Node} {home : Nat}
    (found : machine.store.lookup? scope callee = some (.closure parameters body home))
    (otherFound : machine.store.lookup? scope other = some (.closure parameters body home))
    (unmentioned : callee ∉ (Node.func parameters body).names)
    (otherUnmentioned : other ∉ (Node.func parameters body).names)
    {arguments : List Node} (parsed : ∀ argument ∈ arguments, argument.IsParsedExpression)
    (depth : Nat) :
    let evaluated (name : String) :=
      machine.perform ((Node.call name arguments).evaluate (enterWithin depth) scope)
    (evaluated callee).1 = (evaluated other).1 ∧
    (∀ older < machine.store.nextId,
      (evaluated callee).2.store.scopes[older]? = (evaluated other).2.store.scopes[older]?) ∧
    ∃ inner ≥ machine.store.nextId,
      Store.SameBut inner [callee, other] (evaluated callee).2.store (evaluated other).2.store := by
  intro evaluated
  have inside := Store.lt_nextId_of_lookup? found
  have framed := Node.evaluateAll_framed (enterWithin_contained depth) scope arguments machine
  rw [Node.letTargetsAll_of_parsed parsed] at framed
  have extension := framed.extends_of_none
  cases given : machine.perform (Node.evaluateAll (enterWithin depth) scope arguments) with
  | mk outcome after =>
      rw [given] at extension
      cases outcome with
      | error failure =>
          have fails (name : String) : evaluated name = (.error failure, after) := by
            simp only [evaluated, Node.evaluate]
            exact perform_bind_of_error given
          rw [fails, fails]
          exact ⟨rfl, fun _ _ => rfl, machine.store.nextId, Nat.le_refl _, .refl _ _ _⟩
      | ok values =>
          have calls (name : String) : evaluated name =
              after.perform (callNamed (enterWithin depth) scope name values) := by
            simp only [evaluated, Node.evaluate]
            exact perform_bind_of_ok given
          obtain ⟨settled, clear⟩ :=
            passed.isSettled.evaluateAll inside parsed given [callee, other]
          have neither : ∀ name ∈ (Node.func parameters body).names, name ∉ [callee, other] := by
            rintro name occurs among
            simp only [List.mem_cons, List.not_mem_nil, or_false] at among
            rcases among with rfl | rfl
            · exact unmentioned occurs
            · exact otherUnmentioned occurs
          obtain ⟨same, sameBut⟩ := settled.callNamed_either
            ((extension.lookup? inside callee).trans found)
            ((extension.lookup? inside other).trans otherFound) neither clear depth
          rw [calls, calls]
          refine ⟨same.symm, fun older old => (sameBut.same older ?_).symm, after.store.nextId,
            extension.grows, sameBut⟩
          exact Nat.ne_of_lt (Nat.lt_of_lt_of_le old extension.grows)

/-- A function that gives closures is called through its second name. -/
theorem Passed.call_through_either_name_closure :
    let machine := (Machine.fresh.run
      "let make = fn(n) \x7b fn(k) \x7b n + k; \x7d; \x7d; let again = make;" callLimit).2
    (machine.evaluate (.call "again" [.int 1]) 1).1 =
      .ok (.closure ["k"] [.binary .add (.name "n") (.name "k")] 1) := by
  intro machine
  have found : machine.store.lookup? globalScope "make" = some (.closure ["n"]
      [.func ["k"] [.binary .add (.name "n") (.name "k")]] globalScope) := by
    simp only [machine]
    cbv
  have otherFound : machine.store.lookup? globalScope "again" = some (.closure ["n"]
      [.func ["k"] [.binary .add (.name "n") (.name "k")]] globalScope) := by
    simp only [machine]
    set_option maxRecDepth 10000 in
    cbv
  have given : (machine.evaluate (.call "make" [.int 1]) 1).1 =
      .ok (.closure ["k"] [.binary .add (.name "n") (.name "k")] 1) := by
    simp only [machine]
    set_option maxRecDepth 10000 in
    cbv
  have parsed : (Node.int 1).IsParsedExpression := by
    refine ⟨[.int 1, .endMark], ?_⟩
    set_option maxRecDepth 10000 in
    cbv
  have same := Passed.call_through_either_name (.between (.run _ _ .fresh)) found otherFound
    (by decide) (by decide) (List.forall_mem_singleton.mpr parsed) 1
  exact same.1.symm.trans given

end Machine

end TinyScript
