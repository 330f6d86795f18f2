import TinyScript.Proofs.Renaming.Stores
import TinyScript.Proofs.Sequencing

/-!
# Renaming a parameter

A call binds the name that it goes through in the scope of the function, after the parameters. So the
name of a parameter can be captured by a call of the same name, and to rename the parameter can change
what a program does. It never does so as long as no call through the old or the new name takes a
function from one side of the renaming to the other, where the function has a use for what the name
goes with there.
-/

set_option autoImplicit false

namespace TinyScript

/-- A function uses a name if it is a parameter, or occurs in the body other than in functions that have
it as a parameter. -/
def Value.Uses (name : String) : Value → Prop
  | .closure parameters body _ => name ∈ parameters ∨ name ∈ Node.openNamesAll body
  | _ => False

/-- A call gives a function as many arguments as it takes. -/
def HasArity (_ : String) (function : Value) (values : List Value) : Prop :=
  ∀ callable, function.callable? = some callable → callable.expected = values.length

/-- A call through one of two names does not enter a function that uses the other one. -/
def KeepsApart (old new callee : String) (function : Value) (_ : List Value) : Prop :=
  (callee = old → ¬ function.Uses new) ∧ (callee = new → ¬ function.Uses old)

/-- Machines with the same scopes, up to a renamed parameter. -/
def relabeling (old new : String) : Pairing where
  World := List View
  follows before after := before <+: after
  refl := List.prefix_refl
  trans := List.IsPrefix.trans
  machines world first second := first.store.Renamed old new world second.store
  values world value other := value.Renamed old new world other
  failures failure other := failure.category = other.category

/-- Trees that are the same up to a renamed parameter, as seen from a scope. -/
def RenamedIn (old new : String) (world : List View) (scope : Nat) (node other : Node) : Prop :=
  ∃ view, world[scope]? = some view ∧ Node.Renamed old new view node other

section

variable {old new : String} {world : List View}

theorem KeepsApart.unused {callee other : String} {function : Value} {values : List Value}
    (keeps : KeepsApart old new other function values) {view inner : View}
    (sees : view.Sees old new callee other) (called : callee = old) (differ : inner ≠ view)
    {spelling : String} (found : inner.counterpart? old new = some spelling) :
    ¬ function.Uses spelling := by
  subst called
  have other := sees.counterpart?_eq
  cases view with
  | apart => cases other
  | outside =>
      cases inner with
      | outside => exact absurd rfl differ
      | apart => cases found
      | inside =>
          cases found
          exact keeps.1 (Option.some.inj other).symm
  | inside =>
      cases inner with
      | inside => exact absurd rfl differ
      | apart => cases found
      | outside =>
          cases found
          exact keeps.2 (Option.some.inj other).symm

/-- The names in a function that is called can be seen in a way that agrees with the name of the call:
as in its literal, or as from where the old name has no use. -/
theorem Node.Renamed.exists_inner {around view : View} {parameters seen : List String}
    {body others : List Node} {home : Nat}
    (literal : Node.Renamed old new around (.func parameters body) (.func seen others))
    {callee other : String} {values : List Value} (sees : view.Sees old new callee other)
    (keeps : KeepsApart old new other (.closure seen others home) values) :
    ∃ inner : View, (inner = around ∨ inner = .apart ∨ old ∈ parameters) ∧
      List.Forall₂ (inner.Sees old new) parameters seen ∧
      Node.RenamedAll old new inner body others ∧
      (callee = old → inner = view ∨ inner = .apart) := by
  cases literal with
  | @func _ inner _ _ _ _ place places bodies =>
      by_cases clash : callee = old ∧ inner ≠ view
      · have unused (spelling : String) (found : inner.counterpart? old new = some spelling) :=
          keeps.unused sees clash.1 clash.2 found
        refine ⟨.apart, .inr (.inl rfl), View.sees_apart places fun spelling among found => ?_,
          Node.renamedAll_apart body bodies fun spelling occurs found => ?_, fun _ => .inr rfl⟩
        · exact unused spelling found (.inl among)
        · exact unused spelling found (.inr occurs)
      · refine ⟨inner, place.imp_right .inr, places, bodies, fun called => .inl ?_⟩
        exact Decidable.byContradiction fun differ => clash ⟨called, differ⟩

theorem relabeling_kept (old new : String) :
    (relabeling old new).Kept (RenamedIn old new) HasArity (KeepsApart old new) where
  values_later follows same := same.later follows
  trees_later follows := fun ⟨view, there, renamed⟩ => ⟨view, world_later follows there, renamed⟩
  form := by
    rintro world scope node other ⟨view, there, renamed⟩
    exact renamed.form.imp fun _ _ partRenamed => ⟨view, there, partRenamed⟩
  nextId renamed := renamed.otherCount.trans renamed.count.symm
  plain inert := .plain inert
  resembles same := same.resembles
  func := fun ⟨view, there, renamed⟩ => .closure there renamed
  read := by
    rintro world first second scope name other renamed ⟨view, there, ⟨⟩⟩
    rename_i sees
    exact Store.Renamed.lookup? renamed there sees
  called := by
    rintro world first second scope callee other arguments others renamed ⟨view, there, ⟨⟩⟩
    rename_i sees _
    exact Store.Renamed.lookup? renamed there sees
  define := by
    rintro world first second scope target other node otherNode value otherValue renamed
      ⟨view, there, ⟨⟩⟩ same
    rename_i sees _
    exact Store.Renamed.define renamed there sees same
  openCall := by
    rintro (world : List View) first second scope callee other arguments others function
      otherFunction callable otherCallable values otherValues renamed ⟨view, there, ⟨⟩⟩ functionSame calls otherCalls same
      arity keeps
    rename_i sees _
    cases functionSame with
    | plain inert =>
        rw [inert] at calls
        cases calls
    | @closure around home parameters seen body otherBody homeThere literal =>
        cases calls
        cases otherCalls
        obtain ⟨inner, place, places, bodies, agree⟩ := literal.exists_inner sees keeps
        have opened := Store.Renamed.openCall renamed homeThere place places same (arity _ rfl)
          (fun asked => sees.eq_iff asked agree) (.closure homeThere literal)
        refine ⟨world ++ [inner], List.prefix_append _ _, opened, ?_⟩
        refine .of_forall₂ ((Node.renamedAll_iff.mp bodies).imp fun node other bodyRenamed =>
          ⟨inner, ?_, bodyRenamed⟩)
        rw [Store.Renamed.count renamed, List.getElem?_concat_length]
  same _ := rfl
  undefinedVariable _ := rfl
  undefinedFunction _ := rfl
  notAFunction _ _ := rfl
  unsupportedOperands _ _ _ := rfl

end

/-- All calls are as permitted when the statements of a program are evaluated one by one. -/
def Program.CallsOnly (permits : String → Value → List Value → Prop) (machine : Machine)
    (program : Program) (limit : Nat) : Prop :=
  ∀ earlier statement later, program = earlier ++ statement :: later →
    Evaluation.CallsOnly permits ⟨machine.after earlier limit, limit, globalScope, statement⟩

theorem Program.CallsOnly.tail {permits : String → Value → List Value → Prop} {machine : Machine}
    {statement : Node} {later : Program} {limit : Nat}
    (only : Program.CallsOnly permits machine (statement :: later) limit) :
    Program.CallsOnly permits (machine.evaluate statement limit).2 later limit := by
  rintro earlier other rest rfl
  exact only (statement :: earlier) other rest rfl

namespace Machine

theorem after_logged (machine : Machine) (program : Program) (limit : Nat) :
    machine.Logged (machine.after program limit) := by
  induction program generalizing machine with
  | nil => exact .refl machine
  | cons statement later ih => exact (Node.evaluate_logged _ _ statement machine).trans (ih _)

end Machine

/-- Results of the same kind: the same number, truth value or nothing, two closures, or two failures of
the same category. -/
abbrev SameKind : Except Failure Value → Except Failure Value → Prop :=
  Agreement Value.Resembles fun failure other => failure.category = other.category

section

variable {old new : String} {world : List View}

/-- Statements that differ in a renamed parameter have results of the same kind, on machines that go
together, if all calls are in order. -/
theorem outcomes_sameKind {first second : Machine} {program renamed : Program} {limit : Nat}
    (together : first.store.Renamed old new world second.store)
    (there : world[globalScope]? = some .outside)
    (renamedAll : Node.RenamedAll old new .outside program renamed)
    (quiet : ∀ record ∈ (first.after program limit).log, record.isWarning = false)
    (apart : Program.CallsOnly (KeepsApart old new) second renamed limit) :
    List.Forall₂ SameKind (first.outcomes program limit) (second.outcomes renamed limit) := by
  induction program generalizing first second world renamed with
  | nil =>
      cases renamedAll
      exact .nil
  | cons statement later ih =>
      cases renamedAll with
      | @cons _ _ other _ others statementRenamed laterRenamed =>
          have still {record : Record} (among : record ∈ (first.evaluate statement limit).2.log) :
              record.isWarning = false :=
            quiet record (((first.evaluate statement limit).2.after_logged later limit).mem among)
          have inOrder : Evaluation.CallsOnly HasArity ⟨first, limit, globalScope, statement⟩ :=
            Evaluation.callsOnly_of_quiet fun record among => still among
          obtain ⟨after, follows, machines, agreement⟩ :=
            (relabeling_kept old new).evaluate_inStep limit statement together
              ⟨_, there, statementRenamed⟩ inOrder (apart [] other others rfl)
          refine .cons ?_ (ih machines (world_later follows there) laterRenamed quiet apart.tail)
          exact agreement.imp (fun _ _ same => same.resembles) fun _ _ same => same

theorem fresh_renamed (old new : String) :
    Machine.fresh.store.Renamed old new [.outside] Machine.fresh.store where
  count := rfl
  otherCount := rfl
  parents _ := rfl
  inherits {scope view parent} there linked := by
    cases scope with
    | zero => cases linked
    | succ scope => cases there
  bound {scope view name seen} there sees := by
    cases scope with
    | zero => exact .none
    | succ scope => cases there

end

/-- A tree of known forms in which all calls go through certain names, those in functions included. -/
inductive Node.CallsThrough (allowed : String → Prop) : Node → Prop where
  | int {value : Int} : CallsThrough allowed (.int value)
  | bool {value : Bool} : CallsThrough allowed (.bool value)
  | name {spelling : String} : CallsThrough allowed (.name spelling)
  | binary {op : BinaryOp} {left right : Node} :
      CallsThrough allowed left → CallsThrough allowed right →
      CallsThrough allowed (.binary op left right)
  | letE {target : String} {value : Node} :
      CallsThrough allowed value → CallsThrough allowed (.letE target value)
  | returnE {value : Node} : CallsThrough allowed value → CallsThrough allowed (.returnE value)
  | block {statements : List Node} :
      (∀ statement ∈ statements, CallsThrough allowed statement) →
      CallsThrough allowed (.block statements)
  | ifThen {condition consequence : Node} :
      CallsThrough allowed condition → CallsThrough allowed consequence →
      CallsThrough allowed (.ifThen condition consequence)
  | ifElse {condition consequence alternative : Node} :
      CallsThrough allowed condition → CallsThrough allowed consequence →
      CallsThrough allowed alternative →
      CallsThrough allowed (.ifElse condition consequence alternative)
  | call {callee : String} {arguments : List Node} :
      allowed callee → (∀ argument ∈ arguments, CallsThrough allowed argument) →
      CallsThrough allowed (.call callee arguments)
  | func {parameters : List String} {body : List Node} :
      (∀ statement ∈ body, CallsThrough allowed statement) →
      CallsThrough allowed (.func parameters body)

/-- A value that is no closure, or one in the body of which all calls go through certain names. -/
def Value.CallsThrough (allowed : String → Prop) (value : Value) : Prop :=
  ∀ callable, value.callable? = some callable → ∀ node ∈ callable.body, node.CallsThrough allowed

theorem Value.callsThrough_plain {allowed : String → Prop} {value : Value}
    (plain : value.callable? = none) : value.CallsThrough allowed := by
  intro callable calls
  rw [plain] at calls
  cases calls

theorem Node.CallsThrough.part {allowed : String → Prop} {node part : Node}
    (through : node.CallsThrough allowed) (among : part ∈ node.parts) :
    part.CallsThrough allowed := by
  cases through with
  | int | bool | name | func => cases among
  | block all | call _ all => exact all part among
  | letE value | returnE value =>
      cases List.mem_singleton.mp among
      exact value
  | binary | ifThen | ifElse =>
      simp only [parts, List.mem_cons, List.not_mem_nil, or_false] at among
      grind

/-- Machines and trees with calls through certain names only. -/
def callNames (allowed : String → Prop) : Invariant where
  sound machine := machine.store.Holds (Value.CallsThrough allowed)
  follows _ _ := True
  admits _ value := value.CallsThrough allowed
  allows _ _ node := node.CallsThrough allowed

theorem callNames_kept (allowed : String → Prop) : (callNames allowed).Kept where
  refl _ := trivial
  trans _ _ := trivial
  admits_later _ through := through
  allows_later _ through := through
  part through among := Node.CallsThrough.part through among
  null _ := Value.callsThrough_plain rfl
  bool _ _ := Value.callsThrough_plain rfl
  int _ := Value.callsThrough_plain rfl
  onValues _ _ result := by
    rcases BinaryOp.onValues_plain result with ⟨_, rfl⟩ | ⟨_, rfl⟩
    · exact Value.callsThrough_plain rfl
    · exact Value.callsThrough_plain rfl
  func through := by
    cases through with
    | func all =>
        rintro callable ⟨⟩
        exact all
  strayFunc through := nomatch through
  lookup through found := through.lookup? found
  define {machine scope target value bound} through _ boundThrough :=
    ⟨through.define scope target boundThrough, trivial⟩
  openCall {machine function callable arguments} callee through functionThrough calls
      argumentsThrough := by
    refine ⟨?_, trivial, fun node among => functionThrough callable calls node among⟩
    exact Store.Holds.openCall through callable.home callee
      (fun entry member => argumentsThrough _ (Value.mem_bound calls member)) functionThrough

theorem callNames_sound_after {allowed : String → Prop} {machine : Machine}
    (sound : (callNames allowed).sound machine) {program : Program}
    (through : ∀ statement ∈ program, statement.CallsThrough allowed) (limit : Nat) :
    (callNames allowed).sound (machine.after program limit) := by
  have kept := callNames_kept allowed
  induction program generalizing machine with
  | nil => exact sound
  | cons statement later ih =>
      refine ih ?_ fun other among => through other (.tail _ among)
      exact (Invariant.evaluate_safe kept (Invariant.enterWithin_kept kept limit) sound globalScope
        statement (through _ (.head _))).1

/-- Where all calls in a program go through certain names, so do those of its statements one by one. -/
theorem Program.callsOnly_of_callsThrough {allowed : String → Prop} {program : Program}
    (through : ∀ statement ∈ program, statement.CallsThrough allowed) (limit : Nat) :
    Program.CallsOnly (fun callee _ _ => allowed callee) Machine.fresh program limit := by
  rintro earlier statement later rfl reached leads callee function values calls
  have empty : Store.empty.Holds (Value.CallsThrough allowed) :=
    fun _ _ found => absurd found (by simp [Store.empty])
  have fresh : (callNames allowed).sound Machine.fresh := empty.addScope none
  have sound : (callNames allowed).sound (Machine.fresh.after earlier limit) :=
    callNames_sound_after fresh (fun other among => through other (List.mem_append_left _ among)) limit
  have start : (callNames allowed).Covers
      ⟨Machine.fresh.after earlier limit, limit, globalScope, statement⟩ :=
    ⟨sound, through statement (by simp)⟩
  have covers := start.leadsTo (callNames_kept allowed) leads
  cases calls with
  | call =>
      cases covers.allowed with
      | call permitted _ => exact permitted

namespace Program

/-- Of the statements of a program, in which a name does not occur, as many as one likes are evaluated
one by one, with any limit, and no warning is logged. Then they have results of the same kind when a
parameter is renamed to that name, as long as no call in this, through the old name or the new one,
enters a function that uses the other one. -/
theorem outcomes_of_renamesParameter {old new : String} {program renamed : Program}
    (known : ∀ statement ∈ program, statement.Known) (unused : new ∉ Node.namesAll program)
    (renames : Node.RewritesAmong (Node.RenamesParameter old new) program renamed)
    (count limit : Nat)
    (quiet : ∀ record ∈ (Machine.fresh.after (program.take count) limit).log,
      record.isWarning = false)
    (apart : CallsOnly (KeepsApart old new) Machine.fresh (renamed.take count) limit) :
    List.Forall₂ SameKind (Machine.fresh.outcomes (program.take count) limit)
      (Machine.fresh.outcomes (renamed.take count) limit) := by
  have renamedAll := Node.renamedAll_of_rewritesAmong program renames known unused
  refine outcomes_sameKind (fresh_renamed old new) rfl ?_ quiet apart
  rw [Node.renamedAll_iff] at renamedAll ⊢
  exact List.forall₂_take count renamedAll

/-- A parameter is renamed of a function that is called through another name. -/
theorem outcomes_of_renamesParameter_called :
    List.Forall₂ SameKind
      (Machine.fresh.outcomes
        [.letE "f" (.func ["a"] [.binary .add (.name "a") (.int 1)]), .call "f" [.int 2]] callLimit)
      (Machine.fresh.outcomes
        [.letE "f" (.func ["b"] [.binary .add (.name "b") (.int 1)]), .call "f" [.int 2]]
        callLimit) := by
  have known : ∀ statement ∈
      [Node.letE "f" (.func ["a"] [.binary .add (.name "a") (.int 1)]), .call "f" [.int 2]],
      statement.Known :=
    Node.known_of_areWellFormed (by cbv)
  have literal : Node.RenamesParameter "a" "b" (.func ["a"] [.binary .add (.name "a") (.int 1)])
      (.func ["b"] [.binary .add (.name "b") (.int 1)]) :=
    .literal (.head _)
  have through : ∀ statement ∈
      [Node.letE "f" (.func ["b"] [.binary .add (.name "b") (.int 1)]), .call "f" [.int 2]],
      statement.CallsThrough (· = "f") := by
    simp only [List.forall_mem_cons]
    refine ⟨.letE (.func ?_), .call rfl ?_, List.forall_mem_nil _⟩
    · simp only [List.forall_mem_cons]
      exact ⟨.binary .name .int, List.forall_mem_nil _⟩
    · simp only [List.forall_mem_cons]
      exact ⟨.int, List.forall_mem_nil _⟩
  refine outcomes_of_renamesParameter known (by decide) (.first (.letE (.here literal))) 2
    callLimit ?_ ?_
  · have log : (Machine.fresh.after (List.take 2
        [.letE "f" (.func ["a"] [.binary .add (.name "a") (.int 1)]), .call "f" [.int 2]])
        callLimit).log =
        #[.call "f" [.int 2]] := by
      set_option maxRecDepth 10000 in cbv
    intro record among
    rw [log] at among
    cases List.mem_singleton.mp (Array.mem_toList_iff.mpr among)
    rfl
  · intro earlier statement later split reached leads callee function values calls
    have named : callee = "f" := callsOnly_of_callsThrough through callLimit earlier statement
      later split reached leads callee function values calls
    subst named
    exact ⟨fun never => absurd never (by decide), fun never => absurd never (by decide)⟩

/-- A call binds its own name after the parameters. So a function that is called through the name of
its parameter does not find the argument, but does after the parameter is renamed. -/
theorem outcomes_captured_by_callee :
    ofSource "let f = fn(f) { f; }; f(1);" =
        .ok [.letE "f" (.func ["f"] [.name "f"]), .call "f" [.int 1]] ∧
      ["f"].Nodup ∧
      "m" ∉ Node.namesAll [.letE "f" (.func ["f"] [.name "f"]), .call "f" [.int 1]] ∧
      Node.RewritesAmong (Node.RenamesParameter "f" "m")
        [.letE "f" (.func ["f"] [.name "f"]), .call "f" [.int 1]]
        [.letE "f" (.func ["m"] [.name "m"]), .call "f" [.int 1]] ∧
      (∀ record ∈ (Machine.fresh.after
        [.letE "f" (.func ["f"] [.name "f"]), .call "f" [.int 1]] callLimit).log,
          record.isWarning = false) ∧
      ¬ List.Forall₂ SameKind
        (Machine.fresh.outcomes [.letE "f" (.func ["f"] [.name "f"]), .call "f" [.int 1]] callLimit)
        (Machine.fresh.outcomes [.letE "f" (.func ["m"] [.name "m"]), .call "f" [.int 1]]
          callLimit) := by
  refine ⟨by set_option maxRecDepth 10000 in cbv, by decide, by decide, ?_, ?_, ?_⟩
  · exact .first (.letE (.here (.literal (.head _))))
  · have log : (Machine.fresh.after
        [.letE "f" (.func ["f"] [.name "f"]), .call "f" [.int 1]] callLimit).log =
        #[.call "f" [.int 1]] := by
      set_option maxRecDepth 10000 in cbv
    intro record among
    rw [log] at among
    cases List.mem_singleton.mp (Array.mem_toList_iff.mpr among)
    rfl
  · have outcomes : Machine.fresh.outcomes
        [.letE "f" (.func ["f"] [.name "f"]), .call "f" [.int 1]] callLimit =
        [.ok (.closure ["f"] [.name "f"] 0), .ok (.closure ["f"] [.name "f"] 0)] := by
      set_option maxRecDepth 10000 in cbv
    have others : Machine.fresh.outcomes
        [.letE "f" (.func ["m"] [.name "m"]), .call "f" [.int 1]] callLimit =
        [.ok (.closure ["m"] [.name "m"] 0), .ok (.int 1)] := by
      set_option maxRecDepth 10000 in cbv
    rw [outcomes, others]
    intro same
    cases same with
    | cons _ second =>
      cases second with
      | cons resembles _ =>
        cases resembles with
        | ok resembles =>
          cases resembles with
          | closure _ calls => cases calls

end Program

end TinyScript
