import DartKernel.Node.Mentions
import Mathlib.Algebra.GroupWithZero.Nat

namespace DartKernel
namespace Node

theorem sizeOf_ofType (it : DartType) : ∀ child ∈ ofType it, sizeOf child ≤ sizeOf it := by
  cases it <;> simp [ofType, or_imp, forall_and]
  all_goals grind [→ List.sizeOf_lt_of_mem, Option.some.sizeOf_spec, cases InterfaceType,
    InterfaceType.mk.sizeOf_spec, cases AliasType, AliasType.mk.sizeOf_spec]

theorem sizeOf_ofStatement (it : Statement) :
    ∀ child ∈ ofStatement it, sizeOf child ≤ sizeOf it := by
  cases it <;> simp [ofStatement, or_imp, forall_and]
  all_goals grind [→ List.sizeOf_lt_of_mem, Option.some.sizeOf_spec]

theorem sizeOf_ofExpression (it : Expression) :
    ∀ child ∈ ofExpression it, sizeOf child ≤ sizeOf it := by
  cases it <;> simp [ofExpression, or_imp, forall_and]
  all_goals grind [→ List.sizeOf_lt_of_mem, Option.some.sizeOf_spec, cases MapEntry,
    MapEntry.mk.sizeOf_spec]

theorem sizeOf_ofConstant (it : Constant) :
    ∀ child ∈ ofConstant it, sizeOf child ≤ sizeOf it := by
  cases it <;> simp [ofConstant, or_imp, forall_and]
  all_goals grind [→ List.sizeOf_lt_of_mem]

theorem sizeOf_ofInitializer (it : Initializer) :
    ∀ child ∈ ofInitializer it, sizeOf child ≤ sizeOf it := by
  cases it <;> simp [ofInitializer]
  all_goals grind

theorem sizeOf_children (node : Node) : ∀ child ∈ node.children, sizeOf child < sizeOf node := by
  cases node with
  | expression it =>
    exact fun child h => Nat.lt_of_le_of_lt (sizeOf_ofExpression it child h) (by simp)
  | statement it =>
    exact fun child h => Nat.lt_of_le_of_lt (sizeOf_ofStatement it child h) (by simp)
  | type it => exact fun child h => Nat.lt_of_le_of_lt (sizeOf_ofType it child h) (by simp)
  | constant it =>
    exact fun child h => Nat.lt_of_le_of_lt (sizeOf_ofConstant it child h) (by simp)
  | initializer it =>
    exact fun child h => Nat.lt_of_le_of_lt (sizeOf_ofInitializer it child h) (by simp)
  | library it =>
    obtain ⟨⟨⟩⟩ := it
    simp [children, or_imp, forall_and]
    grind [→ List.sizeOf_lt_of_mem]
  | _ it =>
    -- Arguments, labels and named types have their nodes inside pairs.
    cases it
    simp [children, or_imp, forall_and]
    grind [→ List.sizeOf_lt_of_mem, Option.some.sizeOf_spec, cases Prod, Prod.mk.sizeOf_spec,
      cases NamedExpression, NamedExpression.mk.sizeOf_spec, cases NamedType,
      NamedType.mk.sizeOf_spec]

/-- Combines a node with what came of the nodes right below it. -/
def fold (combine : Node → List α → α) (node : Node) : α :=
  combine node (node.children.attach.map fun child => fold combine child.1)
termination_by sizeOf node
decreasing_by exact sizeOf_children node child.1 child.2

theorem fold_eq (combine : Node → List α → α) (node : Node) :
    fold combine node = combine node (node.children.map (fold combine)) := by
  rw [fold, List.attach_map_val]

/-- What holds of a node whenever it holds of the nodes right below holds of every node. -/
theorem induction {motive : Node → Prop}
    (step : ∀ node : Node, (∀ child ∈ node.children, motive child) → motive node) (node : Node) :
    motive node :=
  step node fun child _ => induction step child
termination_by sizeOf node
decreasing_by exact sizeOf_children node child ‹_›

/-- How many nodes a node stands for by itself: expressions, statements, types, constants,
initializers, members, functions, variables and type parameters are nodes, and of the parts between
them only named arguments are. -/
def own : Node → Nat
  | .expression _ | .statement _ | .type _ | .constant _ | .initializer _ | .field _
  | .constructor _ | .procedure _ | .redirectingFactory _ | .function _ | .binding _
  | .typeParameter _ => 1
  | .arguments it => it.named.length
  | .functionType _ | .assertion _ | .switchCase _ | .catchClause _ | .dependency _ | .part _
  | .typeAlias _ | .classes _ | .library _ => 0

/-- The number of nodes in a node, the node itself included. -/
def count : Node → Nat := fold fun node below => node.own + below.sum

def depth : Node → Nat := fold fun _ below => below.foldr max 0 + 1

def listsOfType : DartType → List Nat
  | .interface it => [it.typeArguments.length]
  | .simpleFunction positional _ => [positional.length]
  | .typeAlias it => [it.typeArguments.length]
  | .invalid | .dynamic | .void | .simpleInterface _ | .function _ | .typeParameter .. => []

def listsOfStatement : Statement → List Nat
  | .block statements | .assertBlock statements => [statements.length]
  | .forLoop _ bindings _ updates _ => [bindings.length, updates.length]
  | .switch _ _ cases => [cases.length]
  | .tryCatch _ _ catches => [catches.length]
  | .expression _ | .empty | .assertion _ | .labeled _ | .breakTo .. | .whileLoop .. | .doLoop ..
  | .forInLoop .. | .continueSwitch .. | .ifElse .. | .returnValue .. | .tryFinally ..
  | .yieldValue .. | .declareVariable _ | .declareFunction .. => []

def listsOfExpression : Expression → List Nat
  | .stringConcatenation _ parts => [parts.length]
  | .listLiteral _ _ _ elements | .setLiteral _ _ _ elements => [elements.length]
  | .mapLiteral _ _ _ _ entries => [entries.length]
  | .instantiation _ typeArguments => [typeArguments.length]
  | _ => []

def listsOfConstant : Constant → List Nat
  | .map _ _ entries => [entries.length]
  | .list _ entries => [entries.length]
  | .instanceOf _ typeArguments fields => [typeArguments.length, fields.length]
  | .partialInstantiation _ typeArguments => [typeArguments.length]
  | .null | .bool _ | .int _ | .double _ | .string _ | .symbol .. | .tearOff _ | .typeLiteral _
  | .environmentBool .. | .environmentInt .. | .environmentString .. | .unevaluated _ => []

/-- The lengths of the lists that a node holds itself. The tables that index a class or a library
are no part of the tree. -/
def lists : Node → List Nat
  | .expression it => listsOfExpression it
  | .statement it => listsOfStatement it
  | .type it => listsOfType it
  | .constant it => listsOfConstant it
  | .typeParameter it => [it.annotations.length]
  | .binding it => [it.annotations.length]
  | .function it =>
    [it.typeParameters.length, it.positionalParameters.length, it.namedParameters.length]
  | .arguments it => [it.types.length, it.positional.length, it.named.length]
  | .functionType it =>
    [it.typeParameters.length, it.positionalParameters.length, it.namedParameters.length]
  | .assertion _ | .catchClause _ | .initializer _ => []
  | .switchCase it => [it.labels.length]
  | .field it => [it.annotations.length]
  | .constructor it => [it.annotations.length, it.initializers.length]
  | .procedure it => [it.annotations.length]
  | .redirectingFactory it =>
    [it.annotations.length, it.typeArguments.length, it.typeParameters.length,
      it.positionalParameters.length, it.namedParameters.length]
  | .dependency it =>
    [it.annotations.length, it.combinators.length] ++ it.combinators.map (·.names.length)
  | .part it => [it.annotations.length]
  | .typeAlias it =>
    [it.annotations.length, it.typeParameters.length, it.typeParametersOfFunctionType.length,
      it.positionalParameters.length, it.namedParameters.length]
  | .classes it =>
    [it.annotations.length, it.typeParameters.length, it.implementedClasses.length,
      it.fields.length, it.constructors.length, it.procedures.length,
      it.redirectingFactories.length]
  | .library it =>
    [it.annotations.length, it.dependencies.length, it.additionalExports.length, it.parts.length,
      it.typeAliases.length, it.classes.length, it.fields.length, it.procedures.length]

end Node
end DartKernel
