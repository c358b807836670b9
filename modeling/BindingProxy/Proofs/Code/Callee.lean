import BindingProxy.Code.Printer
import BindingProxy.Proofs.Grammar.WellFormed
import BindingProxy.Tree.Walk

/-!
# Callees of constructions

The reader ends the callee of a `new` at the first call or optional link, unless they stand in
parentheses.  So a callee keeps its extent only if it is printed in parentheses as a whole, or as a
part that is no link followed by plain properties, indices and templates.  `Delimited` describes such
texts.  The printer looks for calls on the way down through owners and tags, but not for optional
links, and the main result says exactly which callees come out well.
-/

namespace BindingProxy

namespace Node

/-- A property, a call or a template with a tag. -/
def isLink : Node → Bool
  | member _ _ _ _ | call _ _ _ | taggedTemplate _ _ => true
  | _ => false

/-- The ways to print a callee that the reader takes as one. -/
inductive Delimited : Node → List CodeStep → Prop where
  | base {n : Node} (h : n.isLink = false) : Delimited n n.steps
  | enclosed (n : Node) : Delimited n (inParens n.steps)
  | dot {owner key : Node} {s : List CodeStep} (h : Delimited owner s) :
    Delimited (member owner key false false) (s ++ .text "." :: key.steps)
  | index {owner key : Node} {s : List CodeStep} (h : Delimited owner s) :
    Delimited (member owner key true false) (s ++ (.text "[" :: key.steps ++ [.text "]"]))
  | tagged {tag quasi : Node} {s : List CodeStep} (h : Delimited tag s) :
    Delimited (taggedTemplate tag quasi) (s ++ quasi.steps)

/-- Whether an optional property stands on the way down through owners and tags. -/
def hasOptionalLink : Node → Bool
  | member owner _ _ optional => optional || owner.hasOptionalLink
  | taggedTemplate tag _ => tag.hasOptionalLink
  | _ => false

/-- Links are printed without parentheses. -/
lemma needsParensAsOwner_of_isLink {n : Node} (h : n.isLink = true) :
    n.needsParensAsOwner = false := by
  cases n with
  | member => rfl
  | call => rfl
  | taggedTemplate => rfl
  | _ => cases h

lemma isLink_of_hasOptionalLink {n : Node} (h : n.hasOptionalLink = true) : n.isLink = true := by
  cases n with
  | member => rfl
  | taggedTemplate => rfl
  | _ => cases h

/-- An owner or a tag that has an optional property on the way down is printed without
parentheses. -/
lemma inParensIf_of_hasOptionalLink {n : Node} (h : n.hasOptionalLink = true) :
    inParensIf n.needsParensAsOwner n.steps = n.steps := by
  rw [needsParensAsOwner_of_isLink (isLink_of_hasOptionalLink h)]
  rfl

/-- A callee without calls and optional links on the way down is printed as the reader takes it. -/
lemma delimited_of_plain {n : Node} (hcall : n.hasCallOnSpine = false)
    (hoptional : n.hasOptionalLink = false) :
    Delimited n (inParensIf n.needsParensAsOwner n.steps) := by
  induction n using induction_on_children with
  | step n ih =>
    cases hparens : n.needsParensAsOwner with
    | true => exact .enclosed n
    | false =>
      cases n with
      | member owner key computed optional =>
        obtain ⟨rfl, hoptional⟩ := Bool.or_eq_false_iff.1 hoptional
        have howner := ih owner (by simp [children]) hcall hoptional
        cases computed with
        | true => exact howner.index
        | false => exact howner.dot
      | taggedTemplate tag quasi => exact (ih tag (by simp [children]) hcall hoptional).tagged
      | call => cases hcall
      | _ => exact .base rfl

/-- With an optional property on the way down and no parentheses, the callee is not printed as the
reader takes it. -/
lemma not_delimited_of_hasOptionalLink {n : Node} (hoptional : n.hasOptionalLink = true) :
    ¬ Delimited n n.steps := by
  intro h
  generalize hs : n.steps = s at h
  induction h with
  | base hlink =>
    rw [isLink_of_hasOptionalLink hoptional] at hlink
    cases hlink
  | enclosed n =>
    have hlength := congrArg List.length hs
    simp only [inParens, List.cons_append, List.length_cons, List.length_append] at hlength
    omega
  | @dot owner key s _ ih =>
    have howner : owner.hasOptionalLink = true := hoptional
    have hsteps : inParensIf owner.needsParensAsOwner owner.steps ++ .text "." :: key.steps =
      s ++ .text "." :: key.steps := hs
    rw [inParensIf_of_hasOptionalLink howner] at hsteps
    exact ih howner (List.append_cancel_right hsteps)
  | @index owner key s _ ih =>
    have howner : owner.hasOptionalLink = true := hoptional
    have hsteps : inParensIf owner.needsParensAsOwner owner.steps ++
        (.text "[" :: key.steps ++ [.text "]"]) = s ++ (.text "[" :: key.steps ++ [.text "]"]) := hs
    rw [inParensIf_of_hasOptionalLink howner] at hsteps
    exact ih howner (List.append_cancel_right hsteps)
  | @tagged tag quasi s _ ih =>
    have htag : tag.hasOptionalLink = true := hoptional
    have hsteps : inParensIf tag.needsParensAsOwner tag.steps ++ quasi.steps = s ++ quasi.steps := hs
    rw [inParensIf_of_hasOptionalLink htag] at hsteps
    exact ih htag (List.append_cancel_right hsteps)

/-- A construction whose callee is printed as the reader takes it. -/
def KeepsCallee (callee : Node) (arguments : List Node) : Prop :=
  ∃ s, Delimited callee s ∧
    (construction callee arguments).steps = .text "new " :: s ++ listInParens (stepsEach arguments)

/-- The callee of a construction, as it is printed. -/
lemma keepsCallee_iff_delimited (callee : Node) (arguments : List Node) :
    KeepsCallee callee arguments ↔ Delimited callee
      (inParensIf (callee.needsParensAsOwner || callee.hasCallOnSpine) callee.steps) := by
  constructor
  · rintro ⟨s, hs, hsteps⟩
    have hcancel := List.append_cancel_right hsteps
    rw [List.cons_inj_right] at hcancel
    rw [hcancel]
    exact hs
  · exact fun h => ⟨_, h, rfl⟩

end Node

open Node

/-- A construction with an optional property on the way down to its callee, and no call. -/
def Node.losesCallee : Node → Bool
  | construction callee _ => callee.hasOptionalLink && !callee.hasCallOnSpine
  | _ => false

end BindingProxy
