import LuauCompiler.Proofs.ReadBack

/-! Chains of conditional expressions. Each condition becomes a conjunction and what follows it an
alternative, without parentheses, so the chain is one row of alternatives. -/
namespace LuauCompiler

namespace Luau

/-- The values of Luau, as far as tests tell them apart. -/
inductive AnyValue (α : Type) where
  | nil
  | bool (b : Bool)
  | other (value : α)

def AnyValue.truthy : AnyValue α → Bool
  | .nil | .bool false => false
  | _ => true

def AnyValue.isTrue : AnyValue α → Bool
  | .bool b => b
  | _ => false

/-- The value of names under `and` and `or`. The right side counts only if the left one does not decide. -/
def Expr.value? (env : String → AnyValue α) : Expr → Option (AnyValue α)
  | .name id => some (env id)
  | .group inner => inner.value? env
  | .binary .and left right =>
    (left.value? env).bind fun v => if v.truthy then right.value? env else some v
  | .binary .or left right =>
    (left.value? env).bind fun v => if v.truthy then some v else right.value? env
  | _ => none

end Luau

open Luau Term

structure GuardedName where
  test : String
  value : String

def GuardedName.IsNamed (arm : GuardedName) : Prop := IsName arm.test ∧ IsName arm.value

def GuardedName.image (arm : GuardedName) : Expr := .binary .and (.name arm.test) (.name arm.value)

/-- The conditional expressions, each in the else part of the one before it. -/
def conditionalChain (last : String) : List GuardedName → Term
  | [] => .name last
  | arm :: rest => .conditional (.name arm.test) (.name arm.value) (conditionalChain last rest)

/-- The first value that counts as true together with its test, or the last one. -/
def firstTruthy (env : String → AnyValue α) (last : String) : List GuardedName → String
  | [] => last
  | arm :: rest =>
    if (env arm.test).truthy && (env arm.value).truthy then arm.value else firstTruthy env last rest

/-- The value behind the first test that is true, or the last one. -/
def selected (env : String → AnyValue α) (last : String) : List GuardedName → String
  | [] => last
  | arm :: rest => if (env arm.test).isTrue then arm.value else selected env last rest

variable {arms : List GuardedName} {last : String} {x : Expr} {v : AnyValue α}

theorem conditionalChain_lexical (named : ∀ arm ∈ arms, arm.IsNamed) (ends : IsName last) :
    (conditionalChain last arms).accepted = true ∧ (conditionalChain last arms).lexical = true := by
  induction arms with
  | nil => exact ⟨rfl,decide_eq_true ends⟩
  | cons arm rest ih =>
    obtain ⟨⟨test,value⟩,others⟩ := List.forall_mem_cons.mp named
    simp [conditionalChain,accepted,lexical,test,value,ih others]

theorem tokens_conditionalChain (arm : GuardedName) (rest : List GuardedName) :
    (conditionalChain last (arm :: rest)).image.tokens =
      (chainImage .or arm.image (rest.map (·.image) ++ [.name last])).tokens := by
  induction rest generalizing arm with
  | nil => simp [conditionalChain,image,chainImage,GuardedName.image]
  | cons next rest ih =>
    rw [conditionalChain,image,Expr.tokens,ih next,tokens_chain,tokens_chain]
    simp [GuardedName.image,image]

theorem read_conditionalChain (arm : GuardedName) (named : ∀ a ∈ arm :: arms, a.IsNamed)
    (ends : IsName last) : read (conditionalChain last (arm :: arms)).source =
      some (chainImage .or arm.image (arms.map (·.image) ++ [.name last])) := by
  obtain ⟨accepted,clean⟩ := conditionalChain_lexical named ends
  rw [Luau.read,(source_spelled _ accepted clean).lexed,tokens_conditionalChain]
  have fits (a : GuardedName) : a.image.Fits ∧ (∀ p ∈ a.image.lefts, Operator.or.right < p) ∧
      ∀ p ∈ a.image.rights, Operator.or.left ≤ p := by
    simp [GuardedName.image,Expr.Fits,Expr.rights,Expr.lefts,Operator.left,Operator.right]
  have even : Operator.or.left ≤ Operator.or.right := Nat.le_refl _
  refine parse_tokens (chainImage_fits even _ (fits arm).1 (fits arm).2.2 fun y member => ?_)
  rcases List.mem_append.mp member with other | final
  · obtain ⟨a,-,rfl⟩ := List.mem_map.mp other
    exact fits a
  · obtain rfl := List.mem_singleton.mp final
    simp [Expr.Fits,Expr.rights,Expr.lefts]

theorem value_arm (env : String → AnyValue α) (arm : GuardedName) :
    arm.image.value? env = some (if (env arm.test).truthy then env arm.value else env arm.test) := by
  simp only [GuardedName.image,Expr.value?,Option.bind_some]
  split <;> rfl

theorem value_chain {env : String → AnyValue α} (known : x.value? env = some v) :
    (chainImage .or x (arms.map (·.image) ++ [.name last])).value? env =
      some (if v.truthy then v else env (firstTruthy env last arms)) := by
  induction arms generalizing x v with
  | nil =>
    simp only [List.map_nil,List.nil_append,chainImage,List.foldl_cons,List.foldl_nil,Expr.value?,known,
      Option.bind_some]
    split <;> rfl
  | cons arm rest ih =>
    have step : (Expr.binary .or x arm.image).value? env =
        some (if v.truthy then v else if (env arm.test).truthy then env arm.value else env arm.test) := by
      simp only [Expr.value?,known,value_arm,Option.bind_some]
      split <;> rfl
    rw [List.map_cons,List.cons_append,chainImage,List.foldl_cons,← chainImage,ih step,firstTruthy]
    cases first : v.truthy <;> cases test : (env arm.test).truthy <;> cases value : (env arm.value).truthy <;>
      simp [first,test,value]

theorem firstTruthy_eq_selected {env : String → AnyValue α} (tests : ∀ arm ∈ arms, ∃ b, env arm.test = .bool b)
    (holds : (env (selected env last arms)).truthy = true ∨ ∀ arm ∈ arms, env arm.test = .bool false) :
    firstTruthy env last arms = selected env last arms := by
  induction arms with
  | nil => rfl
  | cons arm rest ih =>
    obtain ⟨⟨b,test⟩,others⟩ := List.forall_mem_cons.mp tests
    rw [firstTruthy,selected,test]
    rw [selected,test] at holds
    cases b with
    | false => exact ih others (holds.imp_right fun none => (List.forall_mem_cons.mp none).2)
    | true =>
      rcases holds with value | none
      · exact if_pos value
      · cases test.symm.trans (none arm List.mem_cons_self)

namespace Compile

theorem conditionalChain_visit (config : Option Config) (arms : List GuardedName) {s : State}
    (out : s.output = .block before) : Gives (visit config (conditionalChain last arms).node) s ()
      { s with output := .block (before ++ [.line (conditionalChain last arms).source]) } := by
  induction arms generalizing s before with
  | nil => exact gives_emit.mpr ⟨before,out,rfl⟩
  | cons arm rest ih =>
    have other : Gives (inline (visit config (conditionalChain last rest).node)) s
        (conditionalChain last rest).source s :=
      gives_inline.mpr ⟨_,[_],ih (s := { s with output := .block [] }) rfl,rfl,by simp,rfl⟩
    exact gives_bind.mpr ⟨_,s,name_gives ..,gives_bind.mpr ⟨_,s,name_gives ..,
      gives_bind.mpr ⟨_,s,other,gives_emit.mpr ⟨before,out,rfl⟩⟩⟩⟩

/-- A chain of conditional expressions over names is compiled to one line, which Luau reads and evaluates
to the first value that counts as true together with its test, or to the last value if there is none. If
every test is a truth value, then this is the value behind the first test that is true, as long as that
value counts as true or no test is true. -/
theorem conditional_chain_value (config : Option Config) {arm : GuardedName} {s : State}
    (named : ∀ a ∈ arm :: arms, a.IsNamed) (ends : IsName last) (out : s.output = .block before) :
    ∃ text x, Gives (visit config (conditionalChain last (arm :: arms)).node) s ()
        { s with output := .block (before ++ [.line text]) } ∧ read text = some x ∧
      ∀ {α : Type} (env : String → AnyValue α),
        x.value? env = some (env (firstTruthy env last (arm :: arms))) ∧
        ((∀ a ∈ arm :: arms, ∃ b, env a.test = .bool b) →
          (env (selected env last (arm :: arms))).truthy = true ∨
            (∀ a ∈ arm :: arms, env a.test = .bool false) →
          x.value? env = some (env (selected env last (arm :: arms)))) := by
  refine ⟨_,_,conditionalChain_visit config _ out,read_conditionalChain arm named ends,fun env => ?_⟩
  have worth : (chainImage .or arm.image (arms.map (·.image) ++ [.name last])).value? env =
      some (env (firstTruthy env last (arm :: arms))) := by
    rw [value_chain (value_arm env arm),firstTruthy]
    cases test : (env arm.test).truthy <;> cases value : (env arm.value).truthy <;> simp [test,value]
  exact ⟨worth,fun tests holds => by rw [worth,firstTruthy_eq_selected tests holds]⟩

/-- The second of three arms is the first whose test and value both count as true. -/
theorem conditional_chain_passes_over :
    let arms : List GuardedName := [⟨"c","a"⟩,⟨"d","b"⟩,⟨"c","e"⟩]
    let env : String → AnyValue Nat := fun id => if id = "a" then .nil else if id = "z" then .other 0 else .bool true
    let s := State.initial .empty
    (∀ a ∈ arms, a.IsNamed) ∧ IsName "z" ∧ s.output = .block [] ∧ selected env "z" arms = "a" ∧
    ∃ text x, Gives (visit none (conditionalChain "z" arms).node) s () { s with output := .block [.line text] } ∧
      read text = some x ∧ x.value? env = some (env "b") := by
  intro arms env s
  have named : ∀ a ∈ arms, a.IsNamed := by simp [arms,GuardedName.IsNamed]; decide
  have ends : IsName "z" := by decide
  obtain ⟨text,x,run,reads,worth⟩ := conditional_chain_value none named ends (s := s) rfl
  exact ⟨named,ends,rfl,rfl,text,x,run,reads,(worth env).1⟩

end Compile

end LuauCompiler
