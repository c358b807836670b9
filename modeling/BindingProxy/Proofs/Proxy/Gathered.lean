import BindingProxy.Proofs.Proxy.Change
import BindingProxy.Proofs.Proxy.Wrapping

/-!
# Lists that are gathered along a tree

Instrumenting moves nodes of a script into fragments that access proxies.  A list that is gathered
along a tree, from the children in their order, does not change on the way: a fragment holds the
nodes that it is given once and in the same order, and what else it holds adds nothing.  It does not
matter what the list collects, as long as the kinds of nodes in the fragments have none of it
themselves.
-/

namespace BindingProxy

/-- The nodes that the changes make or take apart, updates and literals apart. -/
def Node.isFragment : Node → Bool
  | identifier _ | member _ _ _ _ | call _ _ _ | construction _ _ | binary _ _ _
  | assignment _ _ _ | declarator _ _ | declaration _ _ | function _ _ _ _ _ _ => true
  | _ => false

/-- Such nodes have just what their children have. -/
def Gathered {α : Type} (G : Node → List α) : Prop :=
  ∀ n : Node, n.isFragment = true → G n = n.children.flatMap G

namespace Gathered

variable {α : Type} {G : Node → List α} (hG : Gathered G) {names : ProxyNames}

include hG

/-! ### Fragments -/

lemma identifier (name : String) : G (.identifier name) = [] := hG _ rfl

lemma dot (owner : Node) (key : String) : G (.dot owner key) = G owner := by
  have h : G (.dot owner key) = [owner, .identifier key].flatMap G := hG _ rfl
  simp [h, hG.identifier]

lemma callMethod (name method : String) (arguments : List Node) :
    G (.callMethod (.identifier name) method arguments) = arguments.flatMap G := by
  have h : G (.callMethod (.identifier name) method arguments) =
      (.dot (.identifier name) method :: arguments).flatMap G := hG _ rfl
  rw [h, List.flatMap_cons, hG.dot, hG.identifier, List.nil_append]

lemma writeProxy (name : String) (value : Node) : G (.writeProxy name value) = G value :=
  (hG.callMethod name "set" [value]).trans (List.flatMap_singleton _ _)

lemma updateProxy (name : String) (operator : BinaryOperator) (value : Node) :
    G (.updateProxy name operator value) = G value := by
  have hread : G (.readProxy name) = [] := hG.callMethod name "get" []
  have h : G (.binary operator (.readProxy name) value) = [.readProxy name, value].flatMap G :=
    hG _ rfl
  rw [Node.updateProxy, hG.writeProxy, h]
  simp [hread]

lemma wrap (type : ProxyType) (value : Option Node) :
    G (names.wrap type value) = value.toList.flatMap G := by
  have h : G (names.wrap type value) = (.dot (.identifier names.namespaceName) type.name ::
      value.toList).flatMap G := hG _ rfl
  rw [h, List.flatMap_cons, hG.dot, hG.identifier, List.nil_append]

lemma declarator (name : String) (init : Option Node) :
    G (.declarator (.identifier name) init) = init.toList.flatMap G := by
  have h : G (.declarator (.identifier name) init) =
      (.identifier name :: init.toList).flatMap G := hG _ rfl
  rw [h, List.flatMap_cons, hG.identifier, List.nil_append]

lemma bind (name : String) (type : ProxyType) (value : Node) :
    G (names.bind name type value) = G value := by
  have h : G (names.bind name type value) =
      [.declarator (.identifier name) (some (names.wrap type (some value)))].flatMap G :=
    hG _ rfl
  simp [h, hG.declarator, hG.wrap]

lemma readArgument (n : Node) : G (ProxyNames.readArgument n) = G n := by
  unfold ProxyNames.readArgument ProxyNames.readName
  split
  · exact (hG.callMethod _ "get" []).trans (hG.identifier _).symm
  · rfl

/-! ### Changes -/

/-- Reading the arguments of the proxy that a declarator is given. -/
lemma readArguments (id callee : Node) (arguments : List Node) :
    G (.declarator id (some (.construction callee (arguments.map ProxyNames.readArgument)))) =
      G (.declarator id (some (.construction callee arguments))) := by
  have hproxy (as : List Node) : G (.construction callee as) = (callee :: as).flatMap G :=
    hG _ rfl
  have h (as : List Node) : G (.declarator id (some (.construction callee as))) =
      [id, .construction callee as].flatMap G := hG _ rfl
  simp [h, hproxy, List.flatMap_map, hG.readArgument]

lemma readNode (n : Node) : G (names.readNode n).value = G n := by
  unfold ProxyNames.readNode
  split
  · split
    · rw [Counted.value_bind, Counted.value_pure, Counted.value_mapM]
      exact hG.readArguments _ _ _
    · rfl
  · rfl

/-- A change keeps what is gathered if an update has as much as the literal `1` that it becomes. -/
lemma of_change (hstep : ∀ operator leading name,
      G (.update operator leading (.identifier name)) = G (.literal .number "1"))
    {parent : Option NodeKind} {n m : Node} (h : names.Change parent n m) : G m = G n := by
  cases h with
  | same => rfl
  | hoist name params body isAsync isGenerator hparent hk =>
    have h (role : Role) : G (.function role (some name) params body isAsync isGenerator) =
        (params ++ [body]).flatMap G := hG _ rfl
    rw [hG.bind, h, h]
  | write name value =>
    have h : G (.assignment .assign (.identifier name) value) = [.identifier name, value].flatMap G :=
      hG _ rfl
    simp [h, hG.writeProxy, hG.identifier]
  | compute operator arithmetic name kind raw =>
    have h : G (.assignment operator (.identifier name) (.literal kind raw)) =
        [.identifier name, .literal kind raw].flatMap G := hG _ rfl
    simp [h, hG.updateProxy, hG.identifier]
  | step operator leading name => exact (hG.updateProxy _ _ _).trans (hstep _ _ _).symm
  | read id callee arguments => exact hG.readArguments _ _ _

/-! ### Wrapping -/

lemma wrappedFunction (n : Node) : G (names.wrappedFunction n) = G n := by
  unfold ProxyNames.wrappedFunction
  split
  · exact (hG.wrap _ _).trans (List.flatMap_singleton _ _)
  · rfl

lemma wrappedArgument (read : List String) (n : Node) : G (names.wrappedArgument read n) = G n := by
  unfold ProxyNames.wrappedArgument
  split
  · split
    · exact (hG.callMethod _ "get" []).trans (hG.identifier _).symm
    · rfl
  · exact hG.wrappedFunction _

/-- Wrapping a node keeps what is gathered. -/
lemma wrappedNode (read : List String) (inHead : Bool) (n : Node) :
    G (names.wrappedNode read inHead n) = G n := by
  unfold ProxyNames.wrappedNode
  split
  · cases inHead with
    | true => rfl
    | false => simp [hG.declarator, hG.wrap]
  · have h (callee : Node) (arguments : List Node) (optional : Bool) :
        G (.call callee arguments optional) = (callee :: arguments).flatMap G :=
      hG _ rfl
    simp [h, List.flatMap_map, hG.wrappedFunction, hG.wrappedArgument]
  · rfl

end Gathered

end BindingProxy
