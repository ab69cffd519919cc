import LuauCompiler.Proofs.Containers
import Mathlib.Data.List.Forall2

/-! Comparison chains. A chain compiles each operand once, a conjunction of single comparisons those
between two links twice. An expression has the same text both times. -/
namespace LuauCompiler

/-- The single comparisons that a chain stands for. -/
def comparisonLinks : (left : Node) → (ops comparators : List Node) → List Node
  | left,op :: ops,right :: rest => .compare left [op] [right] :: comparisonLinks right ops rest
  | _,_,_ => []

theorem areExpressions_comparisonLinks (ops : List Node) (expr : left.isExpression = true)
    (exprs : areExpressions comparators = true) :
    areExpressions (comparisonLinks left ops comparators) = true := by
  induction ops generalizing left comparators with
  | nil => rfl
  | cons op ops ih =>
    cases comparators with
    | nil => rfl
    | cons right rest =>
      simp only [areExpressions,Bool.and_eq_true] at exprs
      simp [comparisonLinks,areExpressions,Node.isExpression,expr,exprs.1,ih exprs.1 exprs.2]

theorem State.gained_gained (s : State) (helpers more : List String)
    (generators marks : List (Option String)) :
    (s.gained helpers generators).gained more marks = s.gained (helpers ++ more) (generators ++ marks) := by
  simp [State.gained]

theorem State.gained_nil (s : State) : s.gained [] [] = s := by simp [State.gained]

namespace Compile

variable {config : Option Config} {s t u : State}
variable {l text : String}

theorem inlineEach_of_texts (exprs : areExpressions es = true)
    (read : List.Forall₂ (Texts config s) es texts) (frames : t.frames = s.frames)
    (tags : t.tags = s.tags) (current : t.current = s.current) : ∃ helpers generators,
      Gives (inlineEach (visits config es)) t texts (t.gained helpers generators) := by
  induction read generalizing t with
  | nil => exact ⟨[],[],gives_all_nil.mpr ⟨rfl,State.gained_nil t⟩⟩
  | @cons e text es texts first rest ih =>
    simp only [areExpressions,Bool.and_eq_true] at exprs
    obtain ⟨helpers,generators,run⟩ := first.again exprs.1 frames tags current
    obtain ⟨more,marks,others⟩ := ih exprs.2 (t := t.gained helpers generators) frames tags current
    rw [State.gained_gained] at others
    exact ⟨_,_,gives_all_cons.mpr ⟨text,_,run,texts,others,rfl⟩⟩

theorem link_reads (op right : Node) (l r : String) :
    ∃ outcome : List (String × String) → Except Failure String,
      ∀ s : State, link op right l r s = (outcome s.tags,s) := by
  have tested : ∃ outcome : List (String × String) → Except Failure Membership,
      ∀ s : State, membership right s = (outcome s.tags,s) := by
    unfold membership
    split
    · rename_i id _
      refine ⟨fun tags => if tags.lookup (shownName id) == some "Constant" then .error .missingPart
        else .ok (.ofTag (tags.lookup (shownName id))),fun s => ?_⟩
      change (if _ then _ else _ : Compile Membership) s = _
      split <;> rename_i claimed <;> simp only [claimed] <;> rfl
    all_goals exact ⟨fun _ => .ok _,fun _ => rfl⟩
  obtain ⟨outcome,known⟩ := tested
  have negatable (negated : Bool) (s : State) : membershipLink negated right l r s =
      ((outcome s.tags).map fun m => (if negated then "not" else "") ++ m.text l r,s) := by
    simp only [membershipLink,bind,known]
    cases outcome s.tags <;> rfl
  unfold link
  cases op.compareOp? with
  | none => exact ⟨fun _ => .ok _,fun _ => rfl⟩
  | some compared =>
    cases compared with
    | isIn => exact ⟨fun tags => (outcome tags).map _,negatable false⟩
    | notIn => exact ⟨fun tags => (outcome tags).map _,negatable true⟩
    | _ => exact ⟨fun _ => .ok _,fun _ => rfl⟩

theorem link_again (run : Gives (link op right l r) s text t) (tags : u.tags = s.tags) :
    t = s ∧ Gives (link op right l r) u text u := by
  obtain ⟨outcome,known⟩ := link_reads op right l r
  obtain ⟨given,rfl⟩ : outcome s.tags = .ok text ∧ s = t := Prod.mk.inj ((known s).symm.trans run)
  exact ⟨rfl,(known u).trans (by rw [tags,given])⟩

theorem comparison_texts (expr : left.isExpression = true) (expr' : right.isExpression = true)
    (first : Texts config s left l) (second : Texts config s right r)
    (linked : Gives (link op right l r) s text t) :
    Texts config s (.compare left [op] [right]) text := by
  obtain ⟨helpers,generators,run⟩ := first.again (t := { s with output := .block [] }) expr rfl rfl rfl
  obtain ⟨helpers',generators',run'⟩ := second.again
    (t := ({ s with output := .block [] } : State).gained helpers generators) expr' rfl rfl rfl
  have linked' := (link_again linked (u := (({ s with output := .block [] } : State).gained helpers
    generators).gained helpers' generators') rfl).2
  have compared := search_of_pair (gives_bind.mpr ⟨l,_,run,gives_bind.mpr ⟨r,_,run',
    gives_bind.mpr ⟨text,_,linked',gives_emit.mpr ⟨[],rfl,rfl⟩⟩⟩⟩)
  exact ⟨_,gives_inline.mpr ⟨_,[text],compared,rfl,String.intercalate_singleton.symm,rfl⟩⟩

theorem chain_texts (expr : left.isExpression = true) (exprs : areExpressions comparators = true)
    (first : Texts config s left l)
    (run : Gives (chain l ops (comparators.zip (visits config comparators)))
      (s.gained helpers generators) text t) :
    t.output = s.output ∧ ∃ texts, text = String.intercalate " and " texts ∧
      List.Forall₂ (Texts config s) (comparisonLinks left ops comparators) texts := by
  induction ops generalizing left comparators l text helpers generators with
  | nil =>
    obtain ⟨rfl,rfl⟩ := gives_pure.mp run
    exact ⟨rfl,[],rfl,.nil⟩
  | cons op ops ih =>
    cases comparators with
    | nil => exact absurd run gives_fail
    | cons right rest =>
      simp only [areExpressions,Bool.and_eq_true] at exprs
      obtain ⟨r,u,read,run⟩ := gives_bind.mp run
      obtain ⟨piece,v,linked,run⟩ := gives_bind.mp run
      obtain ⟨_,more,marks,-,-,rfl,-⟩ := expression_text_stable exprs.1 read
      obtain ⟨rfl,here⟩ := link_again linked (u := s) rfl
      have second : Texts config s right r := Texts.carried ⟨_,read⟩ exprs.1 rfl rfl rfl
      have single := comparison_texts expr exprs.1 first second here
      cases ops with
      | nil =>
        obtain ⟨rfl,rfl⟩ := gives_pure.mp run
        refine ⟨rfl,[text],String.intercalate_singleton.symm,?_⟩
        cases rest <;> exact .cons single .nil
      | cons next ops =>
        obtain ⟨later,w,chained,run⟩ := gives_bind.mp run
        obtain ⟨rfl,rfl⟩ := gives_pure.mp run
        rw [State.gained_gained] at chained
        obtain ⟨kept,texts,rfl,others⟩ := ih exprs.1 exprs.2 second chained
        refine ⟨kept,piece :: texts,?_,.cons single others⟩
        cases rest with
        | nil => exact absurd chained gives_fail
        | cons =>
          cases others
          rw [String.intercalate_cons_cons]

/-- A chain is the conjunction of its links, whatever the number of its operands and the mix of its
operators. Where the chain is compiled, so is the conjunction, and it has the text of the chain in
parentheses. -/
theorem chain_is_conjunction {left : Node} {ops comparators : List Node}
    (expr : left.isExpression = true) (exprs : areExpressions comparators = true)
    (run : Gives (visit config (.compare left ops comparators)) s () t) :
    ∃ before text u, s.output = .block before ∧ t.output = .block (before ++ [.line text]) ∧
      Gives (visit config (.boolOp (.mark (.bool .and)) (comparisonLinks left ops comparators))) s () u ∧
      u.output = .block (before ++ [.line (parenthesised text)]) := by
  obtain ⟨l,v,read,run⟩ := gives_bind.mp run
  obtain ⟨text,w,chained,run⟩ := gives_bind.mp run
  obtain ⟨_,helpers,generators,-,-,rfl,-⟩ := expression_text_stable expr read
  obtain ⟨kept,texts,rfl,links⟩ := chain_texts expr exprs ⟨_,read⟩ chained
  obtain ⟨before,out,rfl⟩ := gives_emit.mp run
  obtain ⟨more,marks,joined⟩ :=
    inlineEach_of_texts (areExpressions_comparisonLinks ops expr exprs) links (t := s) rfl rfl rfl
  have start : s.output = .block before := kept.symm.trans out
  exact ⟨before,_,_,start,rfl, gives_bind.mpr ⟨texts,_,joined,gives_emit.mpr ⟨before,start,rfl⟩⟩,rfl⟩

/-- An order test and two tests of membership. The name between the latter is tagged as a list. -/
def mixedChain : Node := .compare (.name (some "a") .absent)
    [.mark (.compare .lt),.mark (.compare .isIn),.mark (.compare .notIn)]
    [.call (.name (some "f") .absent) [] [],.name (some "held") .absent,.name (some "seen") .absent]

theorem mixedChain_is_conjunction :
    let s : State := { State.initial .empty with tags := [("held","List")] }
    let t := (visit none mixedChain s).2
    let a : Node := .name (some "a") .absent
    let call : Node := .call (.name (some "f") .absent) [] []
    let held : Node := .name (some "held") .absent
    let seen : Node := .name (some "seen") .absent
    let links : List Node := [.compare a [.mark (.compare .lt)] [call],
      .compare call [.mark (.compare .isIn)] [held],.compare held [.mark (.compare .notIn)] [seen]]
    a.isExpression = true ∧ areExpressions [call,held,seen] = true ∧
      Gives (visit none mixedChain) s () t ∧ ∃ before text u, s.output = .block before ∧
        t.output = .block (before ++ [.line text]) ∧
        Gives (visit none (.boolOp (.mark (.bool .and)) links)) s () u ∧
        u.output = .block (before ++ [.line (parenthesised text)]) := by
  intro s t a call held seen links
  have split : links = comparisonLinks a [.mark (.compare .lt),.mark (.compare .isIn),
    .mark (.compare .notIn)] [call,held,seen] := rfl
  have run : Gives (visit none mixedChain) s () t := gives_of_isOk (by decide +kernel)
  rw [split]
  exact ⟨rfl,rfl,run,chain_is_conjunction rfl rfl run⟩

end Compile

end LuauCompiler
