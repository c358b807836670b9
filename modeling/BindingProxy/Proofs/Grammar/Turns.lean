import BindingProxy.Proofs.Grammar.Assembly
import BindingProxy.Proofs.Tree.Depth

/-!
# How deep a script is nested

A rule that a level counts is read one level further in, and the tree that comes out takes a bounded
number of turns more than the trees that were read there.  What grows without a level is always a
run: links follow an operand, operators follow their left operand, and a class extends an operand,
each time with the tree that has been read as the base.

So the number of turns is bounded by the number of levels (`turns_program`), and the length of a run
by nothing but the text.
-/

namespace BindingProxy

namespace Node

/-! ### Targets -/

/-- A node that takes the place of one with higher children takes no more turns. -/
lemma Reshaped.turns_le {m n : Node} (h : Reshaped n m)
    (hbelow : Drawn (fun c t => t.turns ≤ c.turns) n.children m.children) : m.turns ≤ n.turns := by
  have hbase : n.base? = none := by cases h <;> rfl
  obtain ⟨k, hk⟩ := n.exists_turns_eq
  rw [hk]
  refine Node.turns_le fun t ht => ?_
  obtain ⟨c, hc, hle⟩ := hbelow t ht
  have hlt := turns_lt_of_mem_children hbase hc
  omega

/-- A tree that becomes a target takes no more turns than it did. -/
lemma turns_target_le {m n : Node} (h : m = n ∨ n.toTarget = .ok m) : m.turns ≤ n.turns := by
  rcases h with rfl | h
  · exact Nat.le_refl _
  · exact (targets_related (R := fun n m => m.turns ≤ n.turns) (fun _ => Nat.le_refl _)
      fun _ _ => Reshaped.turns_le).1 n m h

/-! ### Bounds -/

variable {n : Node} {t : Nat}

/-- A node takes no more turns than a bound that its children stay below, except for the base, which
only has to keep it. -/
lemma turns_le_of_base (ht : 0 < t) (hbase : ∀ b ∈ n.base?, b.turns ≤ t)
    (h : ∀ c ∈ n.others, c.turns < t) : n.turns ≤ t := by
  obtain ⟨k, rfl⟩ : ∃ k, t = k + 1 := ⟨t - 1, (Nat.sub_add_cancel ht).symm⟩
  exact turns_le_iff.2 ⟨hbase, fun c hc => Nat.le_of_lt_succ (h c hc)⟩

lemma turns_le_of_lt (ht : 0 < t) (h : ∀ c ∈ n.children, c.turns < t) : n.turns ≤ t :=
  turns_le_of_base ht (fun b hb => (h b (mem_children_iff_base.2 (.inl hb))).le) fun c hc =>
    h c (mem_children_iff_base.2 (.inr hc))

lemma turns_rest_le (n : Node) : (rest n).turns ≤ n.turns + 1 :=
  turns_le (by simp [children])

lemma turns_defaulted_le (left right : Node) :
    (defaulted left right).turns ≤ max left.turns right.turns + 1 :=
  turns_le (by simp [children])

end Node

namespace Grammar

open Node Parse

/-- The turns that a rule may take beyond those of its levels. -/
def Rule.turns : Rule → Nat
  | .statement | .target | .assignment | .operand | .unary | .construction => 0
  | .name | .key _ | .element | .block | .expression | .argument | .binary | .declarator => 1
  | .function _ _ | .template | .conditional | .declaration | .loopStart | .handler
  | .switchCase => 2
  | .patternMember | .method | .member => 3
  | .classDefinition _ | .linked => 4

lemma Built.turns_le {k : Nat} {rule : Rule} {s : Scope} {n : Node} (h : Built k rule s n) :
    n.turns ≤ 5 * k + rule.turns := by
  induction h with
  | nameKey _ ih | computedKey _ ih | nameElement _ ih | targetElement _ ih | nameTarget _ ih
  | single _ ih | argument _ ih | nameOperand _ ih | templateOperand _ ih | parenthesized _ ih
  | functionOperand _ ih | classOperand _ ih | constructed _ ih | linkedUnary _ ih | first _ ih
  | operand _ ih | unconditional _ ih | unassigned _ ih | declarationStart _ ih
  | expressionStart _ ih | blockStatement _ ih | variableStatement _ ih | functionStatement _ ih
  | classStatement _ ih =>
    simp only [Rule.turns] at ih ⊢
    omega
  | dot | index | call | taggedTemplate | classDefinition =>
    refine turns_le_of_base (by simp [Rule.turns]) ?_ ?_ <;>
      grind [base?, others, bases, children, Rule.turns]
  | @joined _ _ _ _ operator =>
    cases operator <;> refine turns_le_of_base (by simp [Rule.turns]) ?_ ?_ <;>
      grind [joinOperands, base?, others, bases, children, Rule.turns]
  | assignment _ htarget _ hleft hright =>
    have htarget := turns_target_le (eq_or_toTarget_of_assignmentTarget htarget)
    refine turns_le_of_lt (by simp [Rule.turns]) ?_
    grind [children, Rule.turns]
  | forEach _ htarget _ _ hleft hright hbody =>
    have htarget := turns_target_le (eq_or_toTarget_of_loopTarget htarget)
    refine turns_le_of_lt (by simp [Rule.turns]) ?_
    grind [children, Rule.turns]
  | array _ ih =>
    refine turns_le_of_lt (by simp [Rule.turns]) (forall_mem_filterMap.2 ?_)
    grind [Rule.turns]
  | arrayPattern _ _ helements hrest =>
    refine turns_le_of_lt (by simp [Rule.turns]) (forall_mem_filterMap.2 ?_)
    grind [Rule.turns, turns_rest_le]
  | newTarget =>
    have hname (w : String) : (Node.identifier w).turns ≤ 0 + 1 :=
      Node.turns_le (by simp [children])
    refine turns_le_of_lt (by simp [Rule.turns]) ?_
    grind [children, Rule.turns]
  | _ =>
    refine turns_le_of_lt (by simp [Rule.turns]) ?_
    grind [children, Rule.turns, turns_rest_le, turns_defaulted_le]

/-- A script takes one turn more than its statements. -/
lemma turns_program {g : Grammar} {k : Nat} (hg : g.Builds k) (c : Cursor) :
    ReadsTo g.program c fun n _ => n.turns ≤ 5 * k + 1 := by
  refine (built_program hg c).mono ?_
  rintro _ _ ⟨body, rfl, hbody⟩
  exact Node.turns_le fun n hn => (hbody n hn).turns_le

end Grammar

end BindingProxy
