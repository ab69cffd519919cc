import LuauCompiler.Proofs.Lexemes

/-! Luau expressions and how a row of tokens is read as one. Operators have a priority to their left
and one to their right; an operand belongs to the operator with the higher one. The reader keeps what
is not complete yet on a stack. It accepts exactly the rows of tokens of the expressions in which the
priorities put every operand where it stands, so no row can be read in two ways. -/
namespace LuauCompiler.Luau

inductive Sign where
  | minus | not
  deriving DecidableEq, Repr

inductive Expr where
  | name (id : String)
  | text (literal : String)
  | group (inner : Expr)
  | member (base : Expr) (field : String)
  | index (base key : Expr)
  | call (function : Expr) (args : List Expr)
  | table (items : List Expr)
  | unary (sign : Sign) (operand : Expr)
  | binary (op : Operator) (left right : Expr)
  deriving Repr

/-- How strongly an operator draws the operand to its left. -/
def Operator.left : Operator → Nat
  | .or => 1
  | .and => 2
  | .lt | .gt | .le | .ge | .ne | .eq => 3
  | .concat => 5
  | .add | .sub => 6
  | .mul | .div | .floorDiv | .mod => 7
  | .pow => 10

/-- How strongly an operator draws the operand to its right: powers and concatenations are read from
the right. -/
def Operator.right : Operator → Nat
  | .concat => 4
  | .pow => 9
  | op => op.left

def Sign.priority : Nat := 8

def Sign.token : Sign → Token
  | .minus => .operator .sub
  | .not => .not

namespace Expr

mutual

def tokens : Expr → List Token
  | .name id => [.name id]
  | .text literal => [.text literal]
  | .group inner => .leftParen :: inner.tokens ++ [.rightParen]
  | .member base field => base.tokens ++ [.dot,.name field]
  | .index base key => base.tokens ++ [.leftBracket] ++ key.tokens ++ [.rightBracket]
  | .call function args => function.tokens ++ [.leftParen] ++ row args ++ [.rightParen]
  | .table items => .leftBrace :: row items ++ [.rightBrace]
  | .unary sign operand => sign.token :: operand.tokens
  | .binary op left right => left.tokens ++ [.operator op] ++ right.tokens

def row : List Expr → List Token
  | [] => []
  | x :: rest => x.tokens ++ tail rest

def tail : List Expr → List Token
  | [] => []
  | x :: rest => .comma :: x.tokens ++ tail rest

end

/-- The priorities with which the operators on the left edge draw to their left. -/
def lefts : Expr → List Nat
  | .binary op left _ => op.left :: left.lefts
  | _ => []

/-- The priorities with which the operators on the right edge draw to their right. -/
def rights : Expr → List Nat
  | .binary op _ right => op.right :: right.rights
  | .unary _ operand => Sign.priority :: operand.rights
  | _ => []

/-- The expression can be called, indexed and asked for a member as it stands. -/
def takesSuffix : Expr → Bool
  | .name _ | .group _ | .member .. | .index .. | .call .. => true
  | _ => false

/-- The expression is no operation. -/
def isPrimary : Expr → Bool
  | .unary .. | .binary .. => false
  | _ => true

mutual

/-- Every operand is drawn by the operator that it belongs to, and every suffix follows what can take
it. -/
def Fits : Expr → Prop
  | .name _ | .text _ => True
  | .group inner => inner.Fits
  | .member base _ => base.takesSuffix = true ∧ base.Fits
  | .index base key => base.takesSuffix = true ∧ base.Fits ∧ key.Fits
  | .call function args => function.takesSuffix = true ∧ function.Fits ∧ AllFit args
  | .table items => AllFit items
  | .unary _ operand => operand.Fits ∧ ∀ p ∈ operand.lefts, Sign.priority < p
  | .binary op left right =>
    left.Fits ∧ right.Fits ∧ (∀ p ∈ left.rights, op.left ≤ p) ∧ ∀ p ∈ right.lefts, op.right < p

def AllFit : List Expr → Prop
  | [] => True
  | x :: rest => x.Fits ∧ AllFit rest

end

mutual

def decideFits : (x : Expr) → Decidable x.Fits
  | .name _ | .text _ => .isTrue trivial
  | .group inner => inner.decideFits
  | .member base _ =>
    have := base.decideFits
    inferInstanceAs (Decidable (_ ∧ _))
  | .index base key =>
    have := base.decideFits
    have := key.decideFits
    inferInstanceAs (Decidable (_ ∧ _ ∧ _))
  | .call function args =>
    have := function.decideFits
    have := decideAllFit args
    inferInstanceAs (Decidable (_ ∧ _ ∧ _))
  | .table items => decideAllFit items
  | .unary _ operand =>
    have := operand.decideFits
    inferInstanceAs (Decidable (_ ∧ ∀ p ∈ operand.lefts, _))
  | .binary op left right =>
    have := left.decideFits
    have := right.decideFits
    inferInstanceAs (Decidable (_ ∧ _ ∧ (∀ p ∈ left.rights, op.left ≤ p) ∧ ∀ p ∈ right.lefts, _))

def decideAllFit : (xs : List Expr) → Decidable (AllFit xs)
  | [] => .isTrue trivial
  | x :: rest =>
    have := x.decideFits
    have := decideAllFit rest
    inferInstanceAs (Decidable (_ ∧ _))

end

instance (x : Expr) : Decidable x.Fits := x.decideFits

end Expr

/-! ## The reader -/

/-- What has been read of an expression that is not complete. -/
inductive Pending where
  | unary (sign : Sign)
  | binary (op : Operator) (left : Expr)
  | group
  | index (base : Expr)
  /-- Arguments of a function, or items of a table. -/
  | row (function : Option Expr) (done : List Expr)

namespace Pending

/-- The priority with which the operator draws to its right. -/
def limit? : Pending → Option Nat
  | .unary _ => some Sign.priority
  | .binary op _ => some op.right
  | _ => none

/-- The token that closes a row, and the expression that it makes. -/
def closer : Option Expr → Token
  | some _ => .rightParen
  | none => .rightBrace

def closed : Option Expr → List Expr → Expr
  | some function, args => .call function args
  | none, items => .table items

end Pending

/-- Completes the operations that draw more strongly than `p`. -/
def settle (p : Nat) : List Pending → Expr → List Pending × Expr
  | .unary sign :: stack, x =>
    if p ≤ Sign.priority then settle p stack (.unary sign x) else (.unary sign :: stack,x)
  | .binary op left :: stack, x =>
    if p ≤ op.right then settle p stack (.binary op left x) else (.binary op left :: stack,x)
  | stack, x => (stack,x)

inductive Phase where
  | operand
  | after (x : Expr)
  | field (x : Expr)

structure Reader where
  stack : List Pending
  phase : Phase

namespace Reader

/-- A token where an operand is due. A row may be closed there only while it is empty. -/
def beginOperand (stack : List Pending) : Token → Option Reader
  | .name id => some ⟨stack,.after (.name id)⟩
  | .text literal => some ⟨stack,.after (.text literal)⟩
  | .not => some ⟨.unary .not :: stack,.operand⟩
  | .operator .sub => some ⟨.unary .minus :: stack,.operand⟩
  | .leftParen => some ⟨.group :: stack,.operand⟩
  | .leftBrace => some ⟨.row none [] :: stack,.operand⟩
  | token =>
    match stack with
    | .row function [] :: rest =>
      if token = Pending.closer function then some ⟨rest,.after (Pending.closed function [])⟩
      else none
    | _ => none

/-- A token behind a complete expression that ends what it stands in. -/
def complete (stack : List Pending) (x : Expr) (token : Token) : Option Reader :=
  match stack with
  | .group :: rest => if token = .rightParen then some ⟨rest,.after (.group x)⟩ else none
  | .index base :: rest =>
    if token = .rightBracket then some ⟨rest,.after (.index base x)⟩ else none
  | .row function done :: rest =>
    if token = .comma then some ⟨.row function (done ++ [x]) :: rest,.operand⟩
    else if token = Pending.closer function then
      some ⟨rest,.after (Pending.closed function (done ++ [x]))⟩
    else none
  | _ => none

def continueAfter (stack : List Pending) (x : Expr) : Token → Option Reader
  | .operator op =>
    let (stack,y) := settle op.left stack x
    some ⟨.binary op y :: stack,.operand⟩
  | .dot => if x.takesSuffix then some ⟨stack,.field x⟩ else none
  | .leftBracket => if x.takesSuffix then some ⟨.index x :: stack,.operand⟩ else none
  | .leftParen => if x.takesSuffix then some ⟨.row (some x) [] :: stack,.operand⟩ else none
  | token =>
    let (stack,y) := settle 0 stack x
    complete stack y token

def step (r : Reader) (token : Token) : Option Reader :=
  match r.phase with
  | .operand => beginOperand r.stack token
  | .after x => continueAfter r.stack x token
  | .field x =>
    match token with
    | .name id => some ⟨r.stack,.after (.member x id)⟩
    | _ => none

def run (r : Reader) : List Token → Option Reader
  | [] => some r
  | token :: rest => (r.step token).bind fun r => r.run rest

def result (r : Reader) : Option Expr :=
  match r.phase with
  | .after x =>
    match settle 0 r.stack x with
    | ([],y) => some y
    | _ => none
  | _ => none

end Reader

def parse (ts : List Token) : Option Expr := (Reader.run ⟨[],.operand⟩ ts).bind Reader.result

/-- The expression that a text is read as. -/
def read (text : String) : Option Expr := (lex text.toList).bind parse

/-! ## Every expression that fits is read -/

namespace Expr

/-- What is pending on the right edge, innermost first. -/
def edge : Expr → List Pending
  | .unary sign operand => operand.edge ++ [.unary sign]
  | .binary op left right => right.edge ++ [.binary op left]
  | _ => []

def last : Expr → Expr
  | .unary _ operand => operand.last
  | .binary _ _ right => right.last
  | x => x

variable {x : Expr}

section

variable (primary : x.isPrimary = true)

include primary

theorem edge_of_isPrimary : x.edge = [] := by
  cases x <;> first | rfl | cases primary

theorem last_of_isPrimary : x.last = x := by
  cases x <;> first | rfl | cases primary

theorem lefts_of_isPrimary : x.lefts = [] := by
  cases x <;> first | rfl | cases primary

theorem rights_of_isPrimary : x.rights = [] := by
  cases x <;> first | rfl | cases primary

end

theorem isPrimary_of_takesSuffix (suffix : x.takesSuffix = true) : x.isPrimary = true := by
  cases x <;> first | rfl | cases suffix

end Expr

/-- The operator on top of the stack gives way to an operator of priority `p`. -/
def Blocks (stack : List Pending) (p : Nat) : Prop := ∀ f ∈ stack.head?, ∀ q ∈ f.limit?, q < p

variable {stack : List Pending}

theorem settle_of_blocks (blocked : Blocks stack p) (x : Expr) : settle p stack x = (stack,x) := by
  cases stack with
  | nil => rfl
  | cons f rest =>
    cases f with
    | unary sign =>
      have low := blocked _ rfl _ rfl
      rw [settle,if_neg (by omega)]
    | binary op left =>
      have low := blocked _ rfl _ rfl
      rw [settle,if_neg (by omega)]
    | _ => rfl

theorem settle_edge (x : Expr) (drawn : ∀ q ∈ x.rights, p ≤ q) (stack : List Pending) :
    settle p (x.edge ++ stack) x.last = settle p stack x := by
  cases x with
  | unary sign operand =>
    simp only [Expr.rights,List.forall_mem_cons] at drawn
    rw [Expr.edge,Expr.last,List.append_assoc,settle_edge operand drawn.2]
    simp [settle,drawn.1]
  | binary op left right =>
    simp only [Expr.rights,List.forall_mem_cons] at drawn
    rw [Expr.edge,Expr.last,List.append_assoc,settle_edge right drawn.2]
    simp [settle,drawn.1]
  | _ => rfl

theorem settle_all (x : Expr) (blocked : Blocks stack 0) : settle 0 (x.edge ++ stack) x.last = (stack,x) := by
  rw [settle_edge x (fun _ _ => Nat.zero_le _),settle_of_blocks blocked]

namespace Reader

theorem run_cons (r : Reader) (token : Token) (rest : List Token) :
    r.run (token :: rest) = (r.step token).bind fun r => r.run rest := rfl

theorem run_delimiter (x : Expr) {stack : List Pending} (ts : List Token) (blocked : Blocks stack 0)
    (delimits : ∀ stack y, continueAfter stack y token =
      complete (settle 0 stack y).1 (settle 0 stack y).2 token) :
    run ⟨x.edge ++ stack,.after x.last⟩ (token :: ts) = (complete stack x token).bind fun r => r.run ts := by
  rw [run_cons]
  change (continueAfter _ _ token).bind _ = _
  rw [delimits,settle_all x blocked]

mutual

theorem run_tokens (x : Expr) (fits : x.Fits) (stack : List Pending)
    (blocked : ∀ p ∈ x.lefts, Blocks stack p) (ts : List Token) :
    run ⟨stack,.operand⟩ (x.tokens ++ ts) = run ⟨x.edge ++ stack,.after x.last⟩ ts := by
  cases x with
  | name | text => rfl
  | unary sign operand =>
    obtain ⟨inner,drawn⟩ := fits
    have rest := run_tokens operand inner (.unary sign :: stack)
      (fun p member => by simpa [Blocks,Pending.limit?] using drawn p member) ts
    simp only [Expr.edge,Expr.last,Expr.tokens,List.append_assoc,List.cons_append,List.nil_append]
    rw [← rest]
    cases sign <;> rfl
  | binary op left right =>
    obtain ⟨first,second,drawn,draws⟩ := fits
    have before := run_tokens left first stack (fun p member => blocked p (by simp [Expr.lefts,member]))
    have behind := run_tokens right second (.binary op left :: stack)
      (fun p member => by simpa [Blocks,Pending.limit?] using draws p member) ts
    have settled : settle op.left (left.edge ++ stack) left.last = (stack,left) := by
      rw [settle_edge left drawn,settle_of_blocks (blocked _ (by simp [Expr.lefts]))]
    simp only [Expr.edge,Expr.last,Expr.tokens,List.append_assoc,List.cons_append,List.nil_append]
    rw [before,run_cons,← behind]
    simp [step,continueAfter,settled]
  | group inner =>
    have rest := run_tokens inner fits (.group :: stack) (by simp [Blocks,Pending.limit?])
    simp only [Expr.tokens,List.append_assoc,List.cons_append,List.nil_append]
    rw [run_cons]
    change run ⟨.group :: stack,.operand⟩ _ = _
    rw [rest,run_delimiter inner ts (by simp [Blocks,Pending.limit?]) fun _ _ => rfl]
    rfl
  | member base field =>
    obtain ⟨suffix,inner⟩ := fits
    have primary := Expr.isPrimary_of_takesSuffix suffix
    have front := run_tokens base inner stack (by simp [Expr.lefts_of_isPrimary primary])
    simp only [Expr.tokens,List.append_assoc,List.cons_append,List.nil_append]
    rw [front,Expr.edge_of_isPrimary primary,Expr.last_of_isPrimary primary,run_cons]
    simp [step,continueAfter,suffix,run_cons,Expr.edge,Expr.last]
  | index base key =>
    obtain ⟨suffix,inner,second⟩ := fits
    have primary := Expr.isPrimary_of_takesSuffix suffix
    have front := run_tokens base inner stack (by simp [Expr.lefts_of_isPrimary primary])
    have behind := run_tokens key second (.index base :: stack) (by simp [Blocks,Pending.limit?])
    simp only [Expr.tokens,List.append_assoc,List.cons_append,List.nil_append]
    rw [front,Expr.edge_of_isPrimary primary,Expr.last_of_isPrimary primary,run_cons]
    simp only [step,continueAfter,suffix,if_true,Option.bind_some,List.nil_append]
    rw [behind,run_delimiter key ts (by simp [Blocks,Pending.limit?]) fun _ _ => rfl]
    rfl
  | call function args =>
    obtain ⟨suffix,inner,all⟩ := fits
    have primary := Expr.isPrimary_of_takesSuffix suffix
    have front := run_tokens function inner stack (by simp [Expr.lefts_of_isPrimary primary])
    have behind := run_row args all (some function) stack ts
    simp only [Expr.tokens,List.append_assoc,List.cons_append,List.nil_append]
    rw [front,Expr.edge_of_isPrimary primary,Expr.last_of_isPrimary primary,run_cons]
    simp only [step,continueAfter,suffix,if_true,Option.bind_some,List.nil_append]
    exact behind
  | table items =>
    have behind := run_row items fits none stack ts
    simp only [Expr.tokens,List.append_assoc,List.cons_append,List.nil_append]
    exact behind

theorem run_row (xs : List Expr) (all : Expr.AllFit xs) (function : Option Expr)
    (stack : List Pending) (ts : List Token) :
    run ⟨.row function [] :: stack,.operand⟩ (Expr.row xs ++ Pending.closer function :: ts) =
      run ⟨stack,.after (Pending.closed function xs)⟩ ts := by
  cases xs with
  | nil => cases function <;> rfl
  | cons x rest =>
    have front := run_tokens x all.1 (.row function [] :: stack) (by simp [Blocks,Pending.limit?])
    have behind := run_tail rest all.2 function [] x stack ts
    rw [Expr.row,List.append_assoc,front]
    exact behind

theorem run_tail (xs : List Expr) (all : Expr.AllFit xs) (function : Option Expr)
    (done : List Expr) (x : Expr) (stack : List Pending) (ts : List Token) :
    run ⟨x.edge ++ .row function done :: stack,.after x.last⟩
        (Expr.tail xs ++ Pending.closer function :: ts) =
      run ⟨stack,.after (Pending.closed function (done ++ x :: xs))⟩ ts := by
  have waiting : Blocks (.row function done :: stack) 0 := by simp [Blocks,Pending.limit?]
  cases xs with
  | nil =>
    rw [Expr.tail,List.nil_append,run_delimiter x ts waiting fun _ _ => by cases function <;> rfl]
    cases function <;> rfl
  | cons y rest =>
    have front := run_tokens y all.1 (.row function (done ++ [x]) :: stack) (by simp [Blocks,Pending.limit?])
    have behind := run_tail rest all.2 function (done ++ [x]) y stack ts
    rw [Expr.tail,List.cons_append,List.cons_append,List.append_assoc,
      run_delimiter x _ waiting fun _ _ => rfl]
    change run ⟨.row function (done ++ [x]) :: stack,.operand⟩ _ = _
    rw [front,behind]
    simp

end

end Reader

variable {x : Expr}

theorem parse_tokens (fits : x.Fits) : parse x.tokens = some x := by
  have whole := Reader.run_tokens x fits [] (by simp [Blocks]) []
  have settled : settle 0 (x.edge ++ []) x.last = ([],x) := settle_all x (by simp [Blocks])
  rw [List.append_nil] at whole
  simp only [List.append_nil] at settled whole
  rw [parse,whole]
  simp [Reader.run,Reader.result,settled]

/-! ## Nothing else is read -/

namespace Pending

def tokens : Pending → List Token
  | .unary sign => [sign.token]
  | .binary op left => left.tokens ++ [.operator op]
  | .group => [.leftParen]
  | .index base => base.tokens ++ [.leftBracket]
  | .row function done =>
    function.elim [.leftBrace] (·.tokens ++ [.leftParen]) ++ done.flatMap (·.tokens ++ [.comma])

def Sound (below : List Pending) : Pending → Prop
  | .unary _ | .group => True
  | .binary op left => left.Fits ∧ (∀ q ∈ left.rights, op.left ≤ q) ∧
      ∀ p ∈ op.left :: left.lefts, Blocks below p
  | .index base => base.takesSuffix = true ∧ base.Fits
  | .row function done =>
    (∀ f ∈ function, f.takesSuffix = true ∧ f.Fits) ∧ Expr.AllFit done

end Pending

def stackTokens : List Pending → List Token
  | [] => []
  | f :: rest => stackTokens rest ++ f.tokens

def SoundStack : List Pending → Prop
  | [] => True
  | f :: rest => f.Sound rest ∧ SoundStack rest

theorem Expr.allFit_append (all : AllFit xs) (fits : x.Fits) : AllFit (xs ++ [x]) := by
  induction xs with
  | nil => exact ⟨fits,trivial⟩
  | cons y rest ih => exact ⟨all.1,ih all.2⟩

theorem Expr.tail_append (xs : List Expr) (x : Expr) : tail (xs ++ [x]) = tail xs ++ .comma :: x.tokens := by
  induction xs with
  | nil => simp [tail]
  | cons y rest ih => simp [tail,ih]

theorem Expr.row_append (xs : List Expr) (x : Expr) :
    row (xs ++ [x]) = xs.flatMap (·.tokens ++ [.comma]) ++ x.tokens := by
  have shifted (y : Expr) (ys : List Expr) :
      y.tokens ++ tail ys ++ [.comma] = (y :: ys).flatMap (·.tokens ++ [.comma]) := by
    induction ys generalizing y with
    | nil => simp [tail]
    | cons z rest ih =>
      have later := ih z
      simp only [tail,List.flatMap_cons,List.append_assoc,List.cons_append] at later ⊢
      rw [later]
      simp
  cases xs with
  | nil => simp [row,tail]
  | cons y rest =>
    rw [← shifted,List.cons_append,row,tail_append]
    simp

theorem Pending.tokens_closed (xs : List Expr) : (Pending.closed function xs).tokens =
      function.elim [.leftBrace] (·.tokens ++ [.leftParen]) ++ Expr.row xs ++ [Pending.closer function] := by
  cases function <;> simp [closed,closer,Expr.tokens]

theorem Pending.fits_closed (given : ∀ f ∈ function, f.takesSuffix = true ∧ f.Fits)
    (all : Expr.AllFit xs) : (Pending.closed function xs).Fits := by
  cases function with
  | none => exact all
  | some f => exact ⟨(given f rfl).1,(given f rfl).2,all⟩

theorem Pending.isPrimary_closed (function : Option Expr) (xs : List Expr) :
    (Pending.closed function xs).isPrimary = true := by
  cases function <;> rfl

/-- The expression fits behind what is pending, and nothing on its edge gives way to `p`. -/
structure Placed (p : Nat) (stack : List Pending) (x : Expr) : Prop where
  below : SoundStack stack
  fits : x.Fits
  blocked : ∀ q ∈ x.lefts, Blocks stack q
  drawn : ∀ q ∈ x.rights, p ≤ q

theorem settle_placed (placed : Placed p stack x) :
    Placed p (settle p stack x).1 (settle p stack x).2 ∧ Blocks (settle p stack x).1 p ∧
      stackTokens (settle p stack x).1 ++ (settle p stack x).2.tokens = stackTokens stack ++ x.tokens := by
  induction stack generalizing x with
  | nil => exact ⟨placed,by simp [settle,Blocks],rfl⟩
  | cons f rest ih =>
    cases f with
    | unary sign =>
      rw [settle]
      split
      · rename_i low
        have joined : Placed p rest (.unary sign x) := by
          refine ⟨placed.below.2,⟨placed.fits,fun q member => ?_⟩,by simp [Expr.lefts],?_⟩
          · exact placed.blocked q member _ rfl _ rfl
          · simpa [Expr.rights,low] using placed.drawn
        have settled := ih joined
        refine ⟨settled.1,settled.2.1,settled.2.2.trans ?_⟩
        simp [stackTokens,Pending.tokens,Expr.tokens]
      · rename_i high
        refine ⟨placed,?_,rfl⟩
        simpa [Blocks,Pending.limit?] using high
    | binary op left =>
      obtain ⟨⟨inner,drawn,blocked⟩,below⟩ := placed.below
      rw [settle]
      split
      · rename_i low
        have joined : Placed p rest (.binary op left x) := by
          refine ⟨below,⟨inner,placed.fits,drawn,fun q member => ?_⟩,blocked,?_⟩
          · exact placed.blocked q member _ rfl _ rfl
          · simpa [Expr.rights,low] using placed.drawn
        have settled := ih joined
        refine ⟨settled.1,settled.2.1,settled.2.2.trans ?_⟩
        simp [stackTokens,Pending.tokens,Expr.tokens]
      · rename_i high
        refine ⟨placed,?_,rfl⟩
        simpa [Blocks,Pending.limit?] using high
    | group | index | row => exact ⟨placed,by simp [settle,Blocks,Pending.limit?],rfl⟩

namespace Reader

def tokens (r : Reader) : List Token := stackTokens r.stack ++
    match r.phase with
    | .operand => []
    | .after x => x.tokens
    | .field x => x.tokens ++ [.dot]

/-- What has been read is an expression that fits, or can be completed to one. -/
structure Sound (r : Reader) : Prop where
  stack : SoundStack r.stack
  phase :
    match r.phase with
    | .operand => True
    | .after x => x.isPrimary = true ∧ x.Fits
    | .field x => x.takesSuffix = true ∧ x.Fits

variable {x : Expr} {stack : List Pending} {r : Reader} {token : Token}

theorem placed_of_isPrimary (p : Nat) (sound : SoundStack stack) (primary : x.isPrimary = true)
    (fits : x.Fits) : Placed p stack x :=
  ⟨sound,fits,by simp [Expr.lefts_of_isPrimary primary],by simp [Expr.rights_of_isPrimary primary]⟩

theorem beginOperand_sound (sound : SoundStack stack) (next : beginOperand stack token = some r) :
    r.Sound ∧ r.tokens = stackTokens stack ++ [token] := by
  have row {function : Option Expr} {rest : List Pending}
      (given : SoundStack (.row function [] :: rest)) (same : token = Pending.closer function) :
      Sound ⟨rest,.after (Pending.closed function [])⟩ ∧ tokens ⟨rest,.after (Pending.closed function [])⟩ =
          stackTokens (.row function [] :: rest) ++ [token] := by
    refine ⟨⟨given.2,Pending.isPrimary_closed ..,Pending.fits_closed given.1.1 given.1.2⟩,?_⟩
    simp [tokens,Pending.tokens_closed,stackTokens,Pending.tokens,Expr.row,same]
  unfold beginOperand at next
  split at next
  · cases next
    exact ⟨⟨sound,rfl,trivial⟩,rfl⟩
  · cases next
    exact ⟨⟨sound,rfl,trivial⟩,rfl⟩
  · cases next
    exact ⟨⟨⟨trivial,sound⟩,trivial⟩,by simp [tokens,stackTokens,Pending.tokens,Sign.token]⟩
  · cases next
    exact ⟨⟨⟨trivial,sound⟩,trivial⟩,by simp [tokens,stackTokens,Pending.tokens,Sign.token]⟩
  · cases next
    exact ⟨⟨⟨trivial,sound⟩,trivial⟩,by simp [tokens,stackTokens,Pending.tokens]⟩
  · cases next
    exact ⟨⟨⟨⟨by simp,trivial⟩,sound⟩,trivial⟩,by simp [tokens,stackTokens,Pending.tokens]⟩
  · split at next
    · split at next
      · rename_i same
        cases next
        exact row sound same
      · cases next
    · cases next

theorem complete_sound (sound : SoundStack stack) (fits : x.Fits) (next : complete stack x token = some r) :
    r.Sound ∧ r.tokens = stackTokens stack ++ x.tokens ++ [token] := by
  unfold complete at next
  split at next
  · split at next
    · rename_i same
      cases next
      exact ⟨⟨sound.2,rfl,fits⟩,by simp [tokens,stackTokens,Pending.tokens,Expr.tokens,same]⟩
    · cases next
  · split at next
    · rename_i same
      cases next
      exact ⟨⟨sound.2,rfl,sound.1.1,sound.1.2,fits⟩,
        by simp [tokens,stackTokens,Pending.tokens,Expr.tokens,same]⟩
    · cases next
  · obtain ⟨⟨given,all⟩,below⟩ := sound
    have more := Expr.allFit_append all fits
    split at next
    · rename_i same
      cases next
      exact ⟨⟨⟨⟨given,more⟩,below⟩,trivial⟩,by simp [tokens,stackTokens,Pending.tokens,same]⟩
    · split at next
      · rename_i same
        cases next
        refine ⟨⟨below,Pending.isPrimary_closed ..,Pending.fits_closed given more⟩,?_⟩
        simp [tokens,stackTokens,Pending.tokens,Pending.tokens_closed,Expr.row_append,same]
      · cases next
  · cases next

theorem continueAfter_sound (sound : SoundStack stack) (primary : x.isPrimary = true) (fits : x.Fits)
    (next : continueAfter stack x token = some r) :
    r.Sound ∧ r.tokens = stackTokens stack ++ x.tokens ++ [token] := by
  unfold continueAfter at next
  split at next
  · rename_i op
    obtain ⟨placed,blocked,kept⟩ := settle_placed (placed_of_isPrimary op.left sound primary fits)
    cases next
    refine ⟨⟨⟨⟨placed.fits,placed.drawn,?_⟩,placed.below⟩,trivial⟩,?_⟩
    · exact List.forall_mem_cons.mpr ⟨blocked,placed.blocked⟩
    · simp [tokens,stackTokens,Pending.tokens,← kept]
  · split at next
    · rename_i suffix
      cases next
      exact ⟨⟨sound,suffix,fits⟩,by simp [tokens]⟩
    · cases next
  · split at next
    · rename_i suffix
      cases next
      exact ⟨⟨⟨⟨suffix,fits⟩,sound⟩,trivial⟩,by simp [tokens,stackTokens,Pending.tokens]⟩
    · cases next
  · split at next
    · rename_i suffix
      cases next
      refine ⟨⟨⟨⟨fun f given => ?_,trivial⟩,sound⟩,trivial⟩, by simp [tokens,stackTokens,Pending.tokens]⟩
      cases given
      exact ⟨suffix,fits⟩
    · cases next
  · obtain ⟨placed,-,kept⟩ := settle_placed (placed_of_isPrimary 0 sound primary fits)
    obtain ⟨after,read⟩ := complete_sound placed.below placed.fits next
    exact ⟨after,by rw [read,kept]⟩

theorem step_sound (sound : r.Sound) (next : r.step token = some r') :
    r'.Sound ∧ r'.tokens = r.tokens ++ [token] := by
  obtain ⟨stack,phase⟩ := r
  obtain ⟨below,given⟩ := sound
  cases phase with
  | operand =>
    obtain ⟨after,read⟩ := beginOperand_sound below next
    exact ⟨after,by simpa [tokens] using read⟩
  | after x => exact continueAfter_sound below given.1 given.2 next
  | field x =>
    simp only [step] at next
    split at next
    · cases next
      exact ⟨⟨below,rfl,given.1,given.2⟩,by simp [tokens,Expr.tokens]⟩
    · cases next

theorem run_sound (sound : r.Sound) (read : r.run ts = some r') : r'.Sound ∧ r'.tokens = r.tokens ++ ts := by
  induction ts generalizing r with
  | nil =>
    cases read
    exact ⟨sound,by simp⟩
  | cons token rest ih =>
    obtain ⟨mid,first,later⟩ := Option.bind_eq_some_iff.mp read
    obtain ⟨after,front⟩ := step_sound sound first
    obtain ⟨last,whole⟩ := ih after later
    exact ⟨last,by simp [whole,front]⟩

theorem result_sound (sound : r.Sound) (read : r.result = some x) : x.Fits ∧ x.tokens = r.tokens := by
  obtain ⟨stack,phase⟩ := r
  obtain ⟨below,given⟩ := sound
  cases phase with
  | operand | field => cases read
  | after y =>
    obtain ⟨placed,-,kept⟩ := settle_placed (placed_of_isPrimary 0 below given.1 given.2)
    simp only [result] at read
    split at read
    · rename_i z settled
      cases read
      rw [settled] at placed kept
      exact ⟨placed.fits,by simpa [stackTokens,tokens] using kept⟩
    · cases read

end Reader

/-- The tokens are read as the one expression that fits and is written with them. -/
theorem parse_eq_some_iff : parse ts = some x ↔ x.Fits ∧ x.tokens = ts := by
  constructor
  · intro read
    obtain ⟨r,run,result⟩ := Option.bind_eq_some_iff.mp read
    have start : Reader.Sound ⟨[],.operand⟩ := ⟨trivial,trivial⟩
    obtain ⟨sound,kept⟩ := Reader.run_sound start run
    obtain ⟨fits,same⟩ := Reader.result_sound sound result
    exact ⟨fits,by rw [same,kept]; rfl⟩
  · rintro ⟨fits,rfl⟩
    exact parse_tokens fits

example : read "not a == b" = some (.binary .eq (.unary .not (.name "a")) (.name "b")) := by rfl

end LuauCompiler.Luau
