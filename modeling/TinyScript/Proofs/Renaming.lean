import TinyScript.Proofs.KnownTrees
import TinyScript.Proofs.Pairing
import TinyScript.Proofs.Rewriting

/-!
# Trees with a renamed parameter

To rename a parameter is to replace its name in one function literal, with everything in it, by a name
that the program does not have. A name is then seen differently on both sides, depending on where it
stands: inside of the literal the old name goes with the new one, and outside of it with itself. Where
the old name has no use at all, the other names still go with themselves.
-/

set_option autoImplicit false

namespace TinyScript

namespace Node

mutual

/-- The names that occur in a tree, those in function literals included. -/
def names : Node → List String
  | .name spelling => [spelling]
  | .binary _ left right => names left ++ names right
  | .letE target value => target :: names value
  | .returnE value => names value
  | .block statements => namesAll statements
  | .ifThen condition consequence => names condition ++ names consequence
  | .ifElse condition consequence alternative =>
      names condition ++ names consequence ++ names alternative
  | .call callee arguments => callee :: namesAll arguments
  | .func parameters body => parameters ++ namesAll body
  | .int _ | .bool _ | .strayLet .. | .strayCall .. | .strayFunc .. | .shownAs .. | .stray _ => []

def namesAll : List Node → List String
  | [] => []
  | first :: later => names first ++ namesAll later

end

mutual

/-- The names that occur in a tree other than in function literals that have them as parameters. -/
def openNames : Node → List String
  | .name spelling => [spelling]
  | .binary _ left right => openNames left ++ openNames right
  | .letE target value => target :: openNames value
  | .returnE value => openNames value
  | .block statements => openNamesAll statements
  | .ifThen condition consequence => openNames condition ++ openNames consequence
  | .ifElse condition consequence alternative =>
      openNames condition ++ openNames consequence ++ openNames alternative
  | .call callee arguments => callee :: openNamesAll arguments
  | .func parameters body => (openNamesAll body).filter fun spelling => spelling ∉ parameters
  | .int _ | .bool _ | .strayLet .. | .strayCall .. | .strayFunc .. | .shownAs .. | .stray _ => []

def openNamesAll : List Node → List String
  | [] => []
  | first :: later => openNames first ++ openNamesAll later

end

mutual

/-- A tree with all its names changed. -/
def mapNames (change : String → String) : Node → Node
  | .name spelling => .name (change spelling)
  | .binary op left right => .binary op (mapNames change left) (mapNames change right)
  | .letE target value => .letE (change target) (mapNames change value)
  | .returnE value => .returnE (mapNames change value)
  | .block statements => .block (mapNamesAll change statements)
  | .ifThen condition consequence =>
      .ifThen (mapNames change condition) (mapNames change consequence)
  | .ifElse condition consequence alternative =>
      .ifElse (mapNames change condition) (mapNames change consequence)
        (mapNames change alternative)
  | .call callee arguments => .call (change callee) (mapNamesAll change arguments)
  | .func parameters body => .func (parameters.map change) (mapNamesAll change body)
  | .int value => .int value
  | .bool value => .bool value
  | .strayLet target value => .strayLet target value
  | .strayCall callee arguments => .strayCall callee arguments
  | .strayFunc parameters body statements => .strayFunc parameters body statements
  | .shownAs content meaning => .shownAs content meaning
  | .stray content => .stray content

def mapNamesAll (change : String → String) : List Node → List Node
  | [] => []
  | first :: later => mapNames change first :: mapNamesAll change later

end

def rename (old new : String) : Node → Node :=
  mapNames fun spelling => if spelling = old then new else spelling

mutual

theorem mapNames_id (node : Node) : node.mapNames id = node := by
  cases node with
  | block statements => rw [mapNames, mapNamesAll_id statements]
  | call callee arguments => rw [mapNames, mapNamesAll_id arguments, id]
  | func parameters body => rw [mapNames, mapNamesAll_id body, List.map_id]
  | binary op left right => rw [mapNames, mapNames_id left, mapNames_id right]
  | letE target value => rw [mapNames, mapNames_id value, id]
  | returnE value => rw [mapNames, mapNames_id value]
  | ifThen condition consequence =>
      rw [mapNames, mapNames_id condition, mapNames_id consequence]
  | ifElse condition consequence alternative =>
      rw [mapNames, mapNames_id condition, mapNames_id consequence, mapNames_id alternative]
  | _ => rfl

theorem mapNamesAll_id (nodes : List Node) : mapNamesAll id nodes = nodes := by
  cases nodes with
  | nil => rfl
  | cons first later => rw [mapNamesAll, mapNames_id first, mapNamesAll_id later]

end

/-- The literal of a function that has the old name as a parameter, with the name replaced in all of
it. -/
inductive RenamesParameter (old new : String) : Node → Node → Prop where
  | literal {parameters : List String} {body : List Node} :
      old ∈ parameters →
      RenamesParameter old new (.func parameters body) ((Node.func parameters body).rename old new)

end Node

/-- How names are seen: outside of the literal with the parameter, inside of it, or where the name of
the parameter has no use. -/
inductive View where
  | outside
  | inside
  | apart
  deriving DecidableEq

namespace View

variable {old new : String} {view other : View}

/-- What goes with the old name. -/
def counterpart? (old new : String) : View → Option String
  | .outside => some old
  | .inside => some new
  | .apart => none

/-- Whether a name goes with another one. -/
def Sees (old new : String) (view : View) (name seen : String) : Prop :=
  (name ≠ old ∧ name ≠ new ∧ seen = name) ∨ (name = old ∧ view.counterpart? old new = some seen)

theorem counterpart?_mem {seen : String} (found : view.counterpart? old new = some seen) :
    seen = old ∨ seen = new := by
  cases view with
  | outside => exact .inl (Option.some.inj found).symm
  | inside => exact .inr (Option.some.inj found).symm
  | apart => cases found

theorem Sees.of_ne {name seen : String} (sees : view.Sees old new name seen) (ne : name ≠ old) :
    other.Sees old new name seen := by
  rcases sees with plain | ⟨same, _⟩
  · exact .inl plain
  · exact absurd same ne

theorem Sees.apart {name seen : String} (sees : view.Sees old new name seen)
    (unused : view.counterpart? old new ≠ some seen) : View.apart.Sees old new name seen := by
  rcases sees with plain | ⟨_, found⟩
  · exact .inl plain
  · exact absurd found unused

theorem Sees.counterpart?_eq {seen : String} (sees : view.Sees old new old seen) :
    view.counterpart? old new = some seen := by
  rcases sees with ⟨ne, _⟩ | ⟨_, found⟩
  · exact absurd rfl ne
  · exact found

/-- Two views tell the same names apart, unless both have a use for the old name and do not agree
what goes with it. -/
theorem Sees.eq_iff {name seen another anotherSeen : String} (sees : view.Sees old new name seen)
    (otherSees : other.Sees old new another anotherSeen)
    (agree : name = old → other = view ∨ other = .apart) :
    name = another ↔ seen = anotherSeen := by
  rcases sees with ⟨notOld, notNew, rfl⟩ | ⟨rfl, found⟩
  · rcases otherSees with ⟨_, _, rfl⟩ | ⟨rfl, otherFound⟩
    · exact Iff.rfl
    · refine iff_of_false notOld ?_
      rintro rfl
      exact (counterpart?_mem otherFound).elim notOld notNew
  · rcases otherSees with ⟨notOld, notNew, rfl⟩ | ⟨rfl, otherFound⟩
    · refine iff_of_false (Ne.symm notOld) ?_
      rintro rfl
      exact (counterpart?_mem found).elim notOld notNew
    · rcases agree rfl with rfl | rfl
      · rw [found] at otherFound
        exact iff_of_true rfl (Option.some.inj otherFound)
      · cases otherFound

theorem sees_of_not_mem {names seen : List String}
    (sees : List.Forall₂ (view.Sees old new) names seen) (unbound : old ∉ names) :
    List.Forall₂ (other.Sees old new) names seen := by
  induction sees with
  | nil => exact .nil
  | cons first _ ih =>
      simp only [List.mem_cons, not_or] at unbound
      exact .cons (first.of_ne (Ne.symm unbound.1)) (ih unbound.2)

theorem sees_apart {names seen : List String}
    (sees : List.Forall₂ (view.Sees old new) names seen)
    (unused : ∀ spelling ∈ seen, view.counterpart? old new ≠ some spelling) :
    List.Forall₂ (View.apart.Sees old new) names seen := by
  induction sees with
  | nil => exact .nil
  | cons first _ ih =>
      obtain ⟨firstUnused, laterUnused⟩ := List.forall_mem_cons.mp unused
      exact .cons (first.apart firstUnused) (ih laterUnused)

/-- Names among which the old one is not do not go with what goes with it. -/
theorem counterpart?_not_mem {names seen : List String} {spelling : String}
    (sees : List.Forall₂ (view.Sees old new) names seen) (unbound : old ∉ names)
    (found : view.counterpart? old new = some spelling) : spelling ∉ seen := by
  induction sees with
  | nil => exact List.not_mem_nil
  | cons first _ ih =>
      simp only [List.mem_cons, not_or] at unbound ⊢
      refine ⟨?_, ih unbound.2⟩
      rcases first with ⟨notOld, notNew, rfl⟩ | ⟨same, _⟩
      · rintro rfl
        exact (counterpart?_mem found).elim notOld notNew
      · exact absurd same.symm unbound.1

end View

namespace Node

mutual

/-- Two trees that are the same but for names, which go with each other. In a function literal they
are seen as around it, or in any way if it binds the old name. -/
inductive Renamed (old new : String) : View → Node → Node → Prop where
  | int {view : View} {value : Int} : Renamed old new view (.int value) (.int value)
  | bool {view : View} {value : Bool} : Renamed old new view (.bool value) (.bool value)
  | name {view : View} {spelling seen : String} :
      view.Sees old new spelling seen → Renamed old new view (.name spelling) (.name seen)
  | binary {view : View} {op : BinaryOp} {left right otherLeft otherRight : Node} :
      Renamed old new view left otherLeft → Renamed old new view right otherRight →
      Renamed old new view (.binary op left right) (.binary op otherLeft otherRight)
  | letE {view : View} {target seen : String} {value other : Node} :
      view.Sees old new target seen → Renamed old new view value other →
      Renamed old new view (.letE target value) (.letE seen other)
  | returnE {view : View} {value other : Node} :
      Renamed old new view value other → Renamed old new view (.returnE value) (.returnE other)
  | block {view : View} {statements others : List Node} :
      RenamedAll old new view statements others →
      Renamed old new view (.block statements) (.block others)
  | ifThen {view : View} {condition consequence otherCondition otherConsequence : Node} :
      Renamed old new view condition otherCondition →
      Renamed old new view consequence otherConsequence →
      Renamed old new view (.ifThen condition consequence) (.ifThen otherCondition otherConsequence)
  | ifElse {view : View} {condition consequence alternative otherCondition otherConsequence
      otherAlternative : Node} :
      Renamed old new view condition otherCondition →
      Renamed old new view consequence otherConsequence →
      Renamed old new view alternative otherAlternative →
      Renamed old new view (.ifElse condition consequence alternative)
        (.ifElse otherCondition otherConsequence otherAlternative)
  | call {view : View} {callee seen : String} {arguments others : List Node} :
      view.Sees old new callee seen → RenamedAll old new view arguments others →
      Renamed old new view (.call callee arguments) (.call seen others)
  | func {view inner : View} {parameters seen : List String} {body others : List Node} :
      inner = view ∨ old ∈ parameters → List.Forall₂ (inner.Sees old new) parameters seen →
      RenamedAll old new inner body others →
      Renamed old new view (.func parameters body) (.func seen others)

inductive RenamedAll (old new : String) : View → List Node → List Node → Prop where
  | nil {view : View} : RenamedAll old new view [] []
  | cons {view : View} {node other : Node} {later others : List Node} :
      Renamed old new view node other → RenamedAll old new view later others →
      RenamedAll old new view (node :: later) (other :: others)

end

variable {old new : String} {view : View}

theorem renamedAll_iff {nodes others : List Node} :
    RenamedAll old new view nodes others ↔
      List.Forall₂ (Renamed old new view) nodes others := by
  induction nodes generalizing others with
  | nil =>
      constructor
      · rintro ⟨⟩
        exact .nil
      · rintro ⟨⟩
        exact .nil
  | cons node later ih =>
      constructor
      · rintro (_ | ⟨first, rest⟩)
        exact .cons first (ih.mp rest)
      · rintro (_ | ⟨first, rest⟩)
        exact .cons first (ih.mpr rest)

theorem Renamed.form {node other : Node} (renamed : Renamed old new view node other) :
    node.Alongside (Renamed old new view) other := by
  cases renamed with
  | int => exact .int _
  | bool => exact .bool _
  | name => exact .name _ _
  | binary left right => exact .binary _ left right
  | letE _ value => exact .letE _ _ value
  | returnE value => exact .returnE value
  | block statements => exact .block (.of_forall₂ (renamedAll_iff.mp statements))
  | ifThen condition consequence => exact .ifThen condition consequence
  | ifElse condition consequence alternative => exact .ifElse condition consequence alternative
  | call _ arguments => exact .call _ _ (renamedAll_iff.mp arguments)
  | func => exact .func _ _ _ _

theorem mem_namesAll {nodes : List Node} {spelling : String} :
    spelling ∈ namesAll nodes ↔ ∃ node ∈ nodes, spelling ∈ node.names := by
  induction nodes with
  | nil => simp [namesAll]
  | cons first later ih => simp [namesAll, ih]

theorem mapNamesAll_eq_map (change : String → String) (nodes : List Node) :
    mapNamesAll change nodes = nodes.map (mapNames change) := by
  induction nodes with
  | nil => rfl
  | cons first later ih => rw [mapNamesAll, ih, List.map_cons]

/-- A change of names that goes with a view is a renaming in that view. -/
theorem renamed_mapNames {change : String → String} {node : Node} (known : node.Known)
    (sees : ∀ spelling ∈ node.names, view.Sees old new spelling (change spelling)) :
    Renamed old new view node (node.mapNames change) := by
  have each {nodes : List Node}
      (all : ∀ node ∈ nodes, Renamed old new view node (node.mapNames change)) :
      RenamedAll old new view nodes (mapNamesAll change nodes) := by
    rw [renamedAll_iff, mapNamesAll_eq_map, List.forall₂_map_right_iff, List.forall₂_same]
    exact all
  induction known with
  | int => exact .int
  | bool => exact .bool
  | name => exact .name (sees _ (.head _))
  | binary _ _ leftIH rightIH =>
      simp only [names, List.forall_mem_append] at sees
      exact .binary (leftIH sees.1) (rightIH sees.2)
  | letE _ ih =>
      simp only [names, List.forall_mem_cons] at sees
      exact .letE sees.1 (ih sees.2)
  | returnE _ ih => exact .returnE (ih sees)
  | block _ ih =>
      exact .block (each fun node among => ih node among fun spelling occurs =>
        sees spelling (mem_namesAll.mpr ⟨node, among, occurs⟩))
  | ifThen _ _ conditionIH consequenceIH =>
      simp only [names, List.forall_mem_append] at sees
      exact .ifThen (conditionIH sees.1) (consequenceIH sees.2)
  | ifElse _ _ _ conditionIH consequenceIH alternativeIH =>
      simp only [names, List.forall_mem_append] at sees
      exact .ifElse (conditionIH sees.1.1) (consequenceIH sees.1.2) (alternativeIH sees.2)
  | call _ ih =>
      simp only [names, List.forall_mem_cons] at sees
      exact .call sees.1 (each fun node among => ih node among fun spelling occurs =>
        sees.2 spelling (mem_namesAll.mpr ⟨node, among, occurs⟩))
  | func _ ih =>
      simp only [names, List.forall_mem_append] at sees
      refine .func (.inl rfl) ?_ (each fun node among => ih node among fun spelling occurs =>
        sees.2 spelling (mem_namesAll.mpr ⟨node, among, occurs⟩))
      rw [List.forall₂_map_right_iff, List.forall₂_same]
      exact sees.1

theorem sees_outside {spelling : String} (notNew : spelling ≠ new) :
    View.outside.Sees old new spelling spelling := by
  by_cases same : spelling = old
  · exact .inr ⟨same, by rw [same]; rfl⟩
  · exact .inl ⟨same, notNew, rfl⟩

theorem sees_inside {spelling : String} (notNew : spelling ≠ new) :
    View.inside.Sees old new spelling (if spelling = old then new else spelling) := by
  by_cases same : spelling = old
  · rw [if_pos same]
    exact .inr ⟨same, rfl⟩
  · rw [if_neg same]
    exact .inl ⟨same, notNew, rfl⟩

/-- From outside, a tree that does not have the new name is a renaming of itself. -/
theorem renamed_self {node : Node} (known : node.Known) (unused : new ∉ node.names) :
    Renamed old new .outside node node := by
  have sees (spelling : String) (occurs : spelling ∈ node.names) :
      View.outside.Sees old new spelling (id spelling) :=
    sees_outside (ne_of_mem_of_not_mem occurs unused)
  have renamed := renamed_mapNames known sees
  rwa [mapNames_id] at renamed

theorem renamedAll_self {nodes : List Node} (known : ∀ node ∈ nodes, node.Known)
    (unused : new ∉ namesAll nodes) : RenamedAll old new .outside nodes nodes :=
  renamedAll_iff.mpr <| List.forall₂_same.mpr fun node among =>
    renamed_self (known node among) fun occurs => unused (mem_namesAll.mpr ⟨node, among, occurs⟩)

/-- A literal that binds the old name is seen in the same way from everywhere. -/
theorem Renamed.of_binds {parameters : List String} {body : List Node} {other : Node} {around : View}
    (renamed : Renamed old new view (.func parameters body) other) (among : old ∈ parameters) :
    Renamed old new around (.func parameters body) other := by
  cases renamed with
  | func _ seen bodies => exact .func (.inr among) seen bodies

mutual

/-- A tree with a renamed parameter in it is a renaming as seen from outside. -/
theorem renamed_of_rewrites (node : Node) {other : Node}
    (rewrites : Rewrites (RenamesParameter old new) node other) (known : node.Known)
    (unused : new ∉ node.names) : Renamed old new .outside node other := by
  cases rewrites with
  | here literal =>
      cases literal with
      | literal among =>
          have inside : Renamed old new .inside (.func _ _) _ := renamed_mapNames known
            fun spelling occurs => sees_inside (ne_of_mem_of_not_mem occurs unused)
          exact inside.of_binds among
  | @left op left right other inner =>
      cases known with
      | binary leftKnown rightKnown =>
          simp only [names, List.mem_append, not_or] at unused
          exact .binary (renamed_of_rewrites left inner leftKnown unused.1)
            (renamed_self rightKnown unused.2)
  | @right op left right other inner =>
      cases known with
      | binary leftKnown rightKnown =>
          simp only [names, List.mem_append, not_or] at unused
          exact .binary (renamed_self leftKnown unused.1)
            (renamed_of_rewrites right inner rightKnown unused.2)
  | @letE target value other inner =>
      cases known with
      | letE valueKnown =>
          simp only [names, List.mem_cons, not_or] at unused
          exact .letE (sees_outside (Ne.symm unused.1))
            (renamed_of_rewrites value inner valueKnown unused.2)
  | @returnE value other inner =>
      cases known with
      | returnE valueKnown =>
          exact .returnE (renamed_of_rewrites value inner valueKnown unused)
  | @block statements others inner =>
      cases known with
      | block all => exact .block (renamedAll_of_rewritesAmong statements inner all unused)
  | @onlyCondition condition consequence other inner =>
      cases known with
      | ifThen conditionKnown consequenceKnown =>
          simp only [names, List.mem_append, not_or] at unused
          exact .ifThen (renamed_of_rewrites condition inner conditionKnown unused.1)
            (renamed_self consequenceKnown unused.2)
  | @onlyConsequence condition consequence other inner =>
      cases known with
      | ifThen conditionKnown consequenceKnown =>
          simp only [names, List.mem_append, not_or] at unused
          exact .ifThen (renamed_self conditionKnown unused.1)
            (renamed_of_rewrites consequence inner consequenceKnown unused.2)
  | @condition condition consequence alternative other inner =>
      cases known with
      | ifElse conditionKnown consequenceKnown alternativeKnown =>
          simp only [names, List.mem_append, not_or] at unused
          exact .ifElse (renamed_of_rewrites condition inner conditionKnown unused.1.1)
            (renamed_self consequenceKnown unused.1.2) (renamed_self alternativeKnown unused.2)
  | @consequence condition consequence alternative other inner =>
      cases known with
      | ifElse conditionKnown consequenceKnown alternativeKnown =>
          simp only [names, List.mem_append, not_or] at unused
          exact .ifElse (renamed_self conditionKnown unused.1.1)
            (renamed_of_rewrites consequence inner consequenceKnown unused.1.2)
            (renamed_self alternativeKnown unused.2)
  | @alternative condition consequence alternative other inner =>
      cases known with
      | ifElse conditionKnown consequenceKnown alternativeKnown =>
          simp only [names, List.mem_append, not_or] at unused
          exact .ifElse (renamed_self conditionKnown unused.1.1)
            (renamed_self consequenceKnown unused.1.2)
            (renamed_of_rewrites alternative inner alternativeKnown unused.2)
  | @call callee arguments others inner =>
      cases known with
      | call all =>
          simp only [names, List.mem_cons, not_or] at unused
          exact .call (sees_outside (Ne.symm unused.1))
            (renamedAll_of_rewritesAmong arguments inner all unused.2)
  | @func parameters body others inner =>
      cases known with
      | func all =>
          simp only [names, List.mem_append, not_or] at unused
          refine .func (.inl rfl) ?_ (renamedAll_of_rewritesAmong body inner all unused.2)
          exact List.forall₂_same.mpr fun spelling occurs =>
            sees_outside (ne_of_mem_of_not_mem occurs unused.1)

theorem renamedAll_of_rewritesAmong (nodes : List Node) {others : List Node}
    (rewrites : RewritesAmong (RenamesParameter old new) nodes others) (known : ∀ node ∈ nodes, node.Known)
    (unused : new ∉ namesAll nodes) : RenamedAll old new .outside nodes others := by
  cases rewrites with
  | @first node other later inner =>
      simp only [namesAll, List.mem_append, not_or] at unused
      exact .cons (renamed_of_rewrites node inner (known node (.head _)) unused.1)
        (renamedAll_self (fun other among => known other (.tail _ among)) unused.2)
  | @later node later others inner =>
      simp only [namesAll, List.mem_append, not_or] at unused
      exact .cons (renamed_self (known node (.head _)) unused.1)
        (renamedAll_of_rewritesAmong later inner
          (fun other among => known other (.tail _ among)) unused.2)

end

mutual

/-- Where a tree does not use what goes with the old name, it is a renaming also as seen from where the
old name has no use. -/
theorem renamed_apart (node : Node) {view : View} {other : Node}
    (renamed : Renamed old new view node other)
    (unused : ∀ spelling ∈ other.openNames, view.counterpart? old new ≠ some spelling) :
    Renamed old new .apart node other := by
  cases renamed with
  | int => exact .int
  | bool => exact .bool
  | name sees => exact .name (sees.apart (unused _ (.head _)))
  | @binary _ op left right _ _ leftRenamed rightRenamed =>
      simp only [openNames, List.forall_mem_append] at unused
      exact .binary (renamed_apart left leftRenamed unused.1)
        (renamed_apart right rightRenamed unused.2)
  | @letE _ target _ value _ sees valueRenamed =>
      simp only [openNames, List.forall_mem_cons] at unused
      exact .letE (sees.apart unused.1) (renamed_apart value valueRenamed unused.2)
  | @returnE _ value _ valueRenamed => exact .returnE (renamed_apart value valueRenamed unused)
  | @block _ statements _ renamedAll => exact .block (renamedAll_apart statements renamedAll unused)
  | @ifThen _ condition consequence _ _ conditionRenamed consequenceRenamed =>
      simp only [openNames, List.forall_mem_append] at unused
      exact .ifThen (renamed_apart condition conditionRenamed unused.1)
        (renamed_apart consequence consequenceRenamed unused.2)
  | @ifElse _ condition consequence alternative _ _ _ conditionRenamed consequenceRenamed
      alternativeRenamed =>
      simp only [openNames, List.forall_mem_append] at unused
      exact .ifElse (renamed_apart condition conditionRenamed unused.1.1)
        (renamed_apart consequence consequenceRenamed unused.1.2)
        (renamed_apart alternative alternativeRenamed unused.2)
  | @call _ callee _ arguments _ sees renamedAll =>
      simp only [openNames, List.forall_mem_cons] at unused
      exact .call (sees.apart unused.1) (renamedAll_apart arguments renamedAll unused.2)
  | @func _ inner parameters seen body others place sees bodies =>
      by_cases bound : old ∈ parameters
      · exact .func (.inr bound) sees bodies
      · obtain rfl : inner = view := place.resolve_right bound
        refine .func (.inl rfl) (View.sees_of_not_mem sees bound)
          (renamedAll_apart body bodies fun spelling occurs found => ?_)
        have free := View.counterpart?_not_mem sees bound found
        exact unused spelling (List.mem_filter.mpr ⟨occurs, by simpa using free⟩) found

theorem renamedAll_apart (nodes : List Node) {view : View} {others : List Node}
    (renamed : RenamedAll old new view nodes others)
    (unused : ∀ spelling ∈ openNamesAll others, view.counterpart? old new ≠ some spelling) :
    RenamedAll old new .apart nodes others := by
  cases renamed with
  | nil => exact .nil
  | @cons _ node _ later _ first rest =>
      simp only [openNamesAll, List.forall_mem_append] at unused
      exact .cons (renamed_apart node first unused.1) (renamedAll_apart later rest unused.2)

end

end Node

end TinyScript
