import LuauCompiler.Proofs.ListOperations
import Mathlib.Data.List.Perm.Basic

/-! What the operations mean on a list of whole numbers, and what their code does to the array that holds
it. -/
namespace LuauCompiler.Compile

open Text Luau
open Luau.Script (Memory Value Sorting eval evalEach execute item?)

variable {xs : List Int}

/-- What a list becomes, and the number that comes out. -/
structure ListEffect where
  items : List Int
  value : Option Int

namespace ListEffect

def array (f : ListEffect) : List Value := f.items.map .number

def result (f : ListEffect) : Value := (f.value.map .number).getD .nil

end ListEffect

def descended (xs : List Int) : List Int := xs.mergeSort fun a b => b ≤ a

namespace ListOperation

def meaning (numbers : String → Int) (lists : String → List Int) (xs : List Int) : ListOperation → ListEffect
  | append v => ⟨xs ++ [v.value numbers],none⟩
  | insert i v => ⟨xs.insertIdx i (v.value numbers),none⟩
  | pop i => ⟨xs.eraseIdx i,xs[i]?⟩
  | remove v => ⟨xs.erase (v.value numbers),none⟩
  | reverse => ⟨xs.reverse,none⟩
  | sort => ⟨descended xs,none⟩
  | clear => ⟨[],none⟩
  | count v => ⟨xs,some (xs.count (v.value numbers))⟩
  | index v => ⟨xs,(xs.idxOf? (v.value numbers)).map Int.ofNat⟩
  | extend y => ⟨xs ++ lists y,none⟩
  | read i => ⟨xs,xs[(i.value numbers).toNat]?⟩

/-- What the code does, if it is complete: reversing sorts, a value to be removed is taken for a position,
and positions that are found or read are counted from one. -/
def effect? (numbers : String → Int) (xs : List Int) : ListOperation → Option ListEffect
  | remove v =>
    let n := v.value numbers
    some ⟨if 1 ≤ n then xs.eraseIdx (n - 1).toNat else xs,item? xs n⟩
  | reverse => some ⟨descended xs,none⟩
  | index v => some ⟨xs,(xs.idxOf? (v.value numbers)).map fun i : Nat => (i : Int) + 1⟩
  | extend _ => none
  | read i => some ⟨xs,item? xs (i.value numbers)⟩
  | op => some (op.meaning numbers (fun _ => []) xs)

/-- Positions are in the list, and so are values that have to be. -/
def InRange (numbers : String → Int) (xs : List Int) : ListOperation → Prop
  | insert i _ => i ≤ xs.length
  | pop i => i < xs.length
  | remove v | index v => v.value numbers ∈ xs
  | read i => 0 ≤ i.value numbers ∧ i.value numbers < xs.length
  | _ => True

def operand? : ListOperation → Option Operand
  | append v | insert _ v | remove v | count v | index v | read v => some v
  | _ => none

end ListOperation

/-- The list is held by an array under a name, which is not that of the library. -/
structure HoldsList (s : Memory) (x : String) (ref : Nat) (xs : List Int) : Prop where
  library : s.vars.lookup "table" = none
  list : s.value x = .table ref
  items : s.tables[ref]? = some (xs.map .number)

/-! ## The runs -/

section

variable {s : Memory} {ref : Nat}

theorem Operand.evaluates {v : Operand} (known : ∀ id, v = .named id → s.value id = .number (numbers id)) :
    eval sorting v.exp s = some (.number (v.value numbers),s) := by
  cases v with
  | literal n => rfl
  | negated n => rfl
  | named id =>
    change some (s.value id,s) = _
    rw [known id rfl]
    rfl

theorem eval_library (library : s.vars.lookup "table" = none) (each : evalEach sorting args s = some (vs,s)) :
    eval sorting (ListOperation.libraryCall r.name args) s = Script.perform r vs s := by
  have found : Script.Routine.all.find? (·.name = r.name) = some r := by cases r <;> decide
  have other : r.name ≠ "sort" := by cases r <;> decide
  rw [ListOperation.libraryCall,eval,if_pos ⟨rfl,library⟩,if_neg other,found,each]
  · rfl
  · rintro list params body rfl
    cases first : eval sorting list s <;> simp [evalEach,eval,first] at each

theorem descended_ordered (xs : List Int) : (descended xs).Pairwise fun a b => ¬a < b := by
  have merged : (descended xs).Pairwise fun a b => decide (b ≤ a) = true := by
    refine List.pairwise_mergeSort (fun a b c ab bc => ?_) (fun a b => ?_) xs
    · simp only [decide_eq_true_eq] at ab bc ⊢
      omega
    · simp only [Bool.or_eq_true,decide_eq_true_eq]
      omega
  exact merged.imp fun kept => by simpa using kept

theorem descended_unique (perm : ys.Perm xs) (order : ys.Pairwise fun a b => ¬a < b) : ys = descended xs := by
  refine List.Perm.eq_of_pairwise (fun a b _ _ ab ba => ?_) order (descended_ordered xs)
    (perm.trans (List.mergeSort_perm ..).symm)
  omega

def isGreater : Value → Value → Bool
  | .number m,.number n => n < m
  | _,_ => false

theorem isOrder_isGreater (xs : List Int) : Script.IsOrder isGreater (xs.map .number) := by
  refine ⟨?_,?_⟩
  · intro a left b right greater
    obtain ⟨m,-,rfl⟩ := List.mem_map.mp left
    obtain ⟨n,-,rfl⟩ := List.mem_map.mp right
    simp only [isGreater,decide_eq_true_eq,decide_eq_false_iff_not] at greater ⊢
    omega
  · intro a left b middle c right first second
    obtain ⟨m,-,rfl⟩ := List.mem_map.mp left
    obtain ⟨k,-,rfl⟩ := List.mem_map.mp middle
    obtain ⟨n,-,rfl⟩ := List.mem_map.mp right
    simp only [isGreater,decide_eq_false_iff_not] at first second ⊢
    omega

theorem ordered_numbers (perm : zs.Perm (xs.map .number))
    (order : zs.Pairwise fun a b => isGreater b a = false) : zs = (descended xs).map .number := by
  obtain ⟨ys,rfl,same⟩ : Relation.Comp (fun zs ys => zs = ys.map Value.number) List.Perm zs xs := by
    rwa [List.eq_map_comp_perm]
  rw [descended_unique same]
  exact (List.pairwise_map.mp order).imp fun kept => by simpa [isGreater] using kept

theorem descending_answers (m n : Int) : Script.inScope ["a","b"] [.number m,.number n] (execute sorting
      [.give (.compare .greater (.name "a") (.name "b"))]) s = some (some (.bool (n < m)),s) := by
  exact Script.inScope_back [("b",.number n),("a",.number m)] rfl

theorem eval_sort (holds : HoldsList s x ref xs) :
    eval sorting (ListOperation.libraryCall "sort" [.name x,ListOperation.descendingExp]) s =
      some (.nil,s.put ref ((descended xs).map .number)) := by
  have order : Script.sorted sorting (fun a b => Script.inScope ["a","b"] [a,b] (execute sorting
      [.give (.compare .greater (.name "a") (.name "b"))]) s) (xs.map .number) s = some ((descended xs).map .number) := by
    refine Script.sorted_unique (fun a left b right => ?_) (isOrder_isGreater xs) fun zs => ordered_numbers
    obtain ⟨m,-,rfl⟩ := List.mem_map.mp left
    obtain ⟨n,-,rfl⟩ := List.mem_map.mp right
    exact descending_answers m n
  have list : eval sorting (.name x) s = some (.table ref,s) := congrArg (fun v => some (v,s)) holds.list
  rw [ListOperation.libraryCall,ListOperation.descendingExp,eval,if_pos ⟨rfl,holds.library⟩,if_pos rfl,list]
  simp [holds.items,order]

/-- What the counting function has before its caller's variables. -/
def counting (s : Memory) (ref : Nat) (n : Int) (found : Nat) : Memory :=
  { s with vars := ("result",.number found) :: ("val",.number n) :: ("tbl",.table ref) :: s.vars }

theorem count_round (k m n : Int) (found : Nat) :
    Script.inScope ["_","v"] [.number k,.number m] (execute sorting ListOperation.countRound) (counting s ref n found) =
      some (none,counting s ref n (found + if m = n then 1 else 0)) := by
  by_cases same : m = n
  · subst same
    simp [Script.inScope,ListOperation.countRound,execute,eval,Script.compare,Value.truthy,Memory.declare,Memory.value,
      counting,Script.assign,List.lookup_cons]
  · simp [Script.inScope,ListOperation.countRound,execute,eval,Script.compare,Value.truthy,Memory.declare,Memory.value,
      counting,List.lookup_cons,same]

theorem count_rounds (n : Int) (i found : Nat) :
    Script.rounds (fun i v => Script.inScope ["_","v"] [.number (i + 1),v] (execute sorting ListOperation.countRound)) i
      (xs.map .number) (counting s ref n found) = some (none,counting s ref n (found + xs.count n)) := by
  induction xs generalizing i found with
  | nil => rfl
  | cons m xs ih =>
    have same (k : Nat) : (counting s ref n k).tables = s.tables := rfl
    simp only [List.map_cons,Script.rounds,count_round,Option.bind_some,Option.isSome_none,Bool.false_eq_true,if_false,
      same,if_true,ih,List.count_cons]
    simp [Nat.add_comm,Nat.add_left_comm]

theorem eval_count (holds : HoldsList s x ref xs) (operand : eval sorting e s = some (.number n,s)) :
    eval sorting (.call ListOperation.countExp [.name x,e]) s = some (.number (xs.count n),s) := by
  have each : evalEach sorting [.name x,e] s = some ([.table ref,.number n],s) := by
    simp [evalEach,eval,holds.list,operand]
  have counted : Script.rounds (fun i v => Script.inScope ["_","v"] [.number (i + 1),v]
      (execute sorting ListOperation.countRound)) 0 (xs.map .number)
      { s with vars := ("result",.number 0) :: ("val",.number n) :: ("tbl",.table ref) :: s.vars } =
        some (none,counting s ref n (xs.count n)) := by
    rw [← Nat.zero_add (xs.count n)]
    exact count_rounds n 0 0
  have body : execute sorting ListOperation.countBody (s.declare ["tbl","val"] [.table ref,.number n]) =
      some (some (.number (xs.count n)),counting s ref n (xs.count n)) := by
    simp [ListOperation.countBody,execute,eval,Memory.declare,Memory.value,List.lookup_cons,holds.items,counted,counting]
  rw [ListOperation.countExp,eval,each]
  change (Script.inScope ["tbl","val"] [.table ref,.number n] (execute sorting ListOperation.countBody) s >>= fun q => _) = _
  rw [Script.inScope_back [_,_,_] body]
  rfl

theorem item_next (xs : List α) (i : Nat) : item? xs (i + 1) = xs[i]? := by
  rw [item?,if_pos (by omega)]
  simp

theorem item_map (xs : List Int) (k : Int) : item? (xs.map Value.number) k = (item? xs k).map .number := by
  unfold item?
  split <;> simp

theorem idxOf_map_number (xs : List Int) (n : Int) : (xs.map Value.number).idxOf? (.number n) = xs.idxOf? n := by
  induction xs with
  | nil => rfl
  | cons m xs ih => simp [List.idxOf?_cons,ih]

theorem ListOperation.evaluates (op : ListOperation) (holds : HoldsList s x ref xs)
    (known : ∀ id, op.operand? = some (.named id) → s.value id = .number (numbers id))
    (inside : op.InRange numbers xs) {f : ListEffect} (given : op.exp? x = some e)
    (does : op.effect? numbers xs = some f) :
    eval sorting e s = some (f.result,s.put ref f.array) := by
  have list : eval sorting (.name x) s = some (.table ref,s) := congrArg (fun v => some (v,s)) holds.list
  have operand {v : Operand} (used : op.operand? = some v) :
      eval sorting v.exp s = some (.number (v.value numbers),s) :=
    v.evaluates fun id named => known id (used.trans (congrArg some named))
  have kept : s.put ref (xs.map .number) = s := Memory.put_same holds.items
  have single {e : Script.Exp} {v : Value} (value : eval sorting e s = some (v,s)) :
      evalEach sorting [.name x,e] s = some ([.table ref,v],s) := by
    simp [evalEach,list,value]
  cases op with
  | append v =>
    cases given
    cases does
    refine (eval_library (r := .insert) holds.library (single (operand rfl))).trans ?_
    simp [Script.perform,holds.items,meaning,ListEffect.array,ListEffect.result]
  | insert i v =>
    cases given
    cases does
    have low : (1 : Int) ≤ i + 1 := by omega
    have each : evalEach sorting [.name x,.number (i + 1),v.exp] s =
        some ([.table ref,.number (i + 1),.number (v.value numbers)],s) := by
      simp [evalEach,eval,holds.list,operand rfl]
    refine (eval_library (r := .insert) holds.library each).trans ?_
    have room : i ≤ xs.length := inside
    simpa [Script.perform,holds.items,meaning,ListEffect.array,ListEffect.result,List.map_insertIdx,low] using room
  | pop i =>
    cases given
    cases does
    refine (eval_library (r := .remove) holds.library (single rfl)).trans ?_
    have low : (1 : Int) ≤ i + 1 := by omega
    simp [Script.perform,holds.items,meaning,ListEffect.array,ListEffect.result,item_next,List.eraseIdx_map,low]
  | remove v =>
    cases given
    cases does
    refine (eval_library (r := .remove) holds.library (single (operand rfl))).trans ?_
    simp [Script.perform,holds.items,ListEffect.array,ListEffect.result,item_map,List.eraseIdx_map,apply_ite (List.map _)]
  | reverse | sort =>
    cases given
    cases does
    exact eval_sort holds
  | clear =>
    cases given
    cases does
    have each : evalEach sorting [.name x] s = some ([.table ref],s) := by simp [evalEach,list]
    refine (eval_library (r := .clear) holds.library each).trans ?_
    simp [Script.perform,holds.items,meaning,ListEffect.array,ListEffect.result]
  | count v =>
    cases given
    cases does
    refine (eval_count holds (operand rfl)).trans ?_
    rw [ListEffect.array,meaning,kept]
    rfl
  | index v =>
    cases given
    cases does
    refine (eval_library (r := .find) holds.library (single (operand rfl))).trans ?_
    rw [ListEffect.array,kept]
    simp [Script.perform,holds.items,ListEffect.result,idxOf_map_number]
    rfl
  | extend y => cases given
  | read i =>
    cases given
    cases does
    rw [ListEffect.array,kept]
    simp [eval,holds.list,operand rfl,holds.items,item_map,ListEffect.result]

end

/-! ## Where the code does what the operation means -/

namespace ListOperation

def isQuery : ListOperation → Bool
  | pop _ | count _ | index _ | read _ => true
  | _ => false

/-- The code is complete, makes of the list what is wanted and gives the value that is asked for. -/
def Agrees (sorting : Sorting) (s : Memory) (x : String) (ref : Nat) (wanted : ListEffect) (op : ListOperation) :
    Prop :=
  ∃ v, Script.Performs sorting (op.text x) s v (s.put ref wanted.array) ∧ (op.isQuery = true → v = wanted.result)

/-- The lists on which the code of the operation is right. A value may be taken for a position if there are
only such values between the first of them and that position. -/
def Sound (numbers : String → Int) (xs : List Int) : ListOperation → Prop
  | remove v =>
    let n := v.value numbers
    xs.idxOf n < n ∧ ∀ k : Nat, xs.idxOf n ≤ k → k < n → xs[k]? = some n
  | reverse => xs.Pairwise (· ≤ ·)
  | index _ | extend _ => False
  | read i =>
    let n := i.value numbers
    1 ≤ n ∧ xs[n.toNat - 1]? = xs[n.toNat]?
  | _ => True

end ListOperation

theorem eraseIdx_eq_iff (le : i ≤ j) :
    xs.eraseIdx i = xs.eraseIdx j ↔ ∀ k, i ≤ k → k ≤ j → xs[k]? = xs[j]? := by
  constructor
  · intro same k low high
    have step (k : Nat) (low : i ≤ k) (high : k < j) : xs[k]? = xs[k + 1]? := by
      have there := congrArg (·[k]?) same
      simp only [List.getElem?_eraseIdx,if_neg (Nat.not_lt.mpr low),if_pos high] at there
      exact there.symm
    induction left : j - k generalizing k with
    | zero => rw [show k = j by omega]
    | succ left ih => rw [step k low (by omega),ih (k + 1) (by omega) (by omega) (by omega)]
  · intro same
    apply List.ext_getElem?
    intro k
    simp only [List.getElem?_eraseIdx]
    by_cases before : k < i
    · rw [if_pos before,if_pos (by omega)]
    · rw [if_neg before]
      split
      case isTrue inner => rw [same (k + 1) (by omega) (by omega),same k (by omega) (by omega)]
      case isFalse => rfl

theorem remove_right_iff (member : n ∈ xs) : (if 1 ≤ n then xs.eraseIdx (n - 1).toNat else xs) = xs.erase n ↔
      xs.idxOf n < n ∧ ∀ k : Nat, xs.idxOf n ≤ k → k < n → xs[k]? = some n := by
  have inside : xs.idxOf n < xs.length := List.idxOf_lt_length_iff.mpr member
  have found : xs[xs.idxOf n]? = some n := by
    rw [List.getElem?_eq_getElem inside,List.getElem_idxOf]
  have first (k : Nat) (there : xs[k]? = some n) : xs.idxOf n ≤ k := by
    by_contra before
    obtain ⟨_,same⟩ := List.getElem?_eq_some_iff.mp there
    simpa [same] using List.not_of_lt_findIdx (p := (· == n)) (Nat.not_le.mp before)
  have shorter : (xs.erase n).length + 1 = xs.length := by
    rw [List.length_erase_of_mem member]
    omega
  rw [List.erase_eq_eraseIdx_of_idxOf rfl] at shorter ⊢
  constructor
  · intro same
    have low : 1 ≤ n := by
      by_contra negative
      rw [if_neg negative] at same
      rw [← same] at shorter
      omega
    rw [if_pos low] at same
    obtain ⟨i,position,next⟩ : ∃ i : Nat, (n - 1).toNat = i ∧ n = i + 1 := ⟨_,rfl,by omega⟩
    rw [position] at same
    have reached : xs.idxOf n ≤ i := by
      by_contra before
      have there := (eraseIdx_eq_iff (by omega)).mp same i (Nat.le_refl i) (by omega)
      exact before (first i (there.trans found))
    have all := (eraseIdx_eq_iff reached).mp same.symm
    have last : xs[i]? = some n := (all _ (Nat.le_refl _) reached).symm.trans found
    exact ⟨by omega,fun k low high => (all k low (by omega)).trans last⟩
  · rintro ⟨low,all⟩
    obtain ⟨i,position,next⟩ : ∃ i : Nat, (n - 1).toNat = i ∧ n = i + 1 := ⟨_,rfl,by omega⟩
    rw [if_pos (by omega),position]
    refine ((eraseIdx_eq_iff (by omega)).mpr fun k low high => ?_).symm
    rw [all k low (by omega),all i (by omega) (by omega)]

theorem reverse_right_iff (xs : List Int) : descended xs = xs.reverse ↔ xs.Pairwise (· ≤ ·) := by
  constructor
  · intro same
    have order := same ▸ descended_ordered xs
    exact (List.pairwise_reverse.mp order).imp fun kept => Int.not_lt.mp kept
  · intro order
    refine (descended_unique (List.reverse_perm xs) (List.pairwise_reverse.mpr ?_)).symm
    exact order.imp fun kept => Int.not_lt.mpr kept

namespace ListEffect

variable {f g : ListEffect}

theorem array_inj : f.array = g.array ↔ f.items = g.items := List.map_inj_right fun _ _ => Value.number.inj

theorem result_inj : f.result = g.result ↔ f.value = g.value := by
  unfold result
  cases f.value <;> cases g.value <;> simp

end ListEffect

section

variable {sorting : Sorting} {s : Memory} {x : String} {ref : Nat} {xs : List Int} {numbers : String → Int}

namespace ListOperation

variable {op : ListOperation}

variable {f : ListEffect}

section

variable (valid : IsName x) (written : op.Written) (holds : HoldsList s x ref xs)
    (known : ∀ id, op.operand? = some (.named id) → s.value id = .number (numbers id))
    (inside : op.InRange numbers xs)

include valid written holds known inside

theorem performs (does : op.effect? numbers xs = some f) :
    Script.Performs sorting (op.text x) s f.result (s.put ref f.array) := by
  obtain ⟨expression,statement⟩ := op.exp_stat_of_tokens (op.tokens_text valid written)
  obtain ⟨e,given⟩ : ∃ e, op.exp? x = some e := by
    cases op with
    | extend => cases does
    | _ => exact ⟨_,rfl⟩
  have run : eval sorting e s = some (f.result,s.put ref f.array) := op.evaluates holds known inside given does
  refine ⟨e,expression.trans given,run,fun stat read => ?_⟩
  rw [statement,stat?,given] at read
  split at read
  case h_1 call =>
    cases call
    cases read
    rw [execute,run]
    rfl
  case h_2 => cases read

theorem agrees_iff (does : op.effect? numbers xs = some f) (wanted : ListEffect) :
    op.Agrees sorting s x ref wanted ↔
      f.items = wanted.items ∧ (op.isQuery = true → f.value = wanted.value) := by
  have run : Script.Performs sorting (op.text x) s f.result (s.put ref f.array) :=
    performs valid written holds known inside does
  have bound : ref < s.tables.length := (List.getElem?_eq_some_iff.mp holds.items).1
  have items : s.put ref f.array = s.put ref wanted.array ↔ f.items = wanted.items := by
    rw [← ListEffect.array_inj]
    refine ⟨fun same => ?_,fun same => by rw [same]⟩
    have there := congrArg (·.tables[ref]?) same
    simpa [Memory.put,bound] using there
  constructor
  · rintro ⟨v,run',value⟩
    obtain ⟨rfl,same⟩ := run.unique run'
    exact ⟨items.mp same,fun query => ListEffect.result_inj.mp (value query)⟩
  · rintro ⟨same,value⟩
    exact ⟨_,items.mpr same ▸ run,fun query => ListEffect.result_inj.mpr (value query)⟩

theorem agrees_iff_sound (lists : String → List Int) :
    op.Agrees sorting s x ref (op.meaning numbers lists xs) ↔ op.Sound numbers xs := by
  have same {f : ListEffect} (does : op.effect? numbers xs = some f) :
      op.Agrees sorting s x ref (op.meaning numbers lists xs) ↔
        f.items = (op.meaning numbers lists xs).items ∧
          (op.isQuery = true → f.value = (op.meaning numbers lists xs).value) :=
    agrees_iff valid written holds known inside does _
  cases op with
  | append | insert | pop | sort | clear | count =>
    rw [same rfl]
    exact ⟨fun _ => trivial,fun _ => ⟨rfl,fun _ => rfl⟩⟩
  | remove v =>
    rw [same rfl]
    simp only [isQuery,Bool.false_eq_true,false_imp_iff,and_true]
    exact remove_right_iff inside
  | reverse =>
    rw [same rfl]
    simp only [isQuery,Bool.false_eq_true,false_imp_iff,and_true]
    exact reverse_right_iff xs
  | index v =>
    rw [same rfl]
    refine ⟨?_,False.elim⟩
    rintro ⟨-,value⟩
    cases found : xs.idxOf? (v.value numbers) with
    | none => exact absurd inside (List.idxOf?_eq_none_iff.mp found)
    | some i =>
      have counted : some ((i : Int) + 1) = some (i : Int) := by simpa [meaning,found] using value rfl
      have apart := Option.some.inj counted
      omega
  | extend y =>
    refine ⟨?_,False.elim⟩
    rintro ⟨_,⟨e,parsed,-⟩,-⟩
    rw [((extend y).exp_stat_of_tokens ((extend y).tokens_text valid written)).1] at parsed
    cases parsed
  | read i =>
    rw [same rfl]
    obtain ⟨low,high⟩ : 0 ≤ i.value numbers ∧ i.value numbers < xs.length := inside
    simp only [meaning,isQuery,true_imp_iff,true_and,Sound,item?]
    by_cases first : 1 ≤ i.value numbers
    · rw [if_pos first,show (i.value numbers - 1).toNat = (i.value numbers).toNat - 1 by omega]
      exact ⟨fun value => ⟨first,value⟩,fun sound => sound.2⟩
    · rw [if_neg first]
      refine ⟨fun value => ?_,fun sound => absurd sound.1 first⟩
      have outside := List.getElem?_eq_none_iff.mp value.symm
      omega

end

end ListOperation

end

/-- Appending, inserting, popping, clearing, counting and sorting in descending order are compiled to code
that does what they mean. Reversing sorts, so it is right on ascending lists only. Removing takes the value
for a position. An index that is found is greater by one; an item that is read stands one position before,
so reading misses the item that popping takes. Extending a list leaves its loop open. Where the position of
an item to insert or to pop is held by a variable there is no code at all. -/
theorem list_operation_code (op : ListOperation) {config : Option Config} {c : State} {before : List Code} {x : String}
    (valid : IsName x) (written : op.Written) (out : c.output = .block before) :
    (∃ c', Gives (visit config (op.tree x)) c () c' ∧ c'.output = .block (before ++ [.line (op.text x)])) ∧
    (Script.expression? (op.text x) = none ↔ ∃ y, op = .extend y) ∧
    (Script.statement? (op.text x) = none ↔ (∃ y, op = .extend y) ∨ ∃ i, op = .read i) ∧
    (∀ (sorting : Sorting) (s : Memory) (ref : Nat) (xs : List Int) (numbers : String → Int)
        (lists : String → List Int), HoldsList s x ref xs →
      (∀ id, op.operand? = some (.named id) → s.value id = .number (numbers id)) → op.InRange numbers xs →
      (∀ f, op.effect? numbers xs = some f → Script.Performs sorting (op.text x) s f.result (s.put ref f.array)) ∧
      (op.Agrees sorting s x ref (op.meaning numbers lists xs) ↔ op.Sound numbers xs)) ∧
    (∀ (numbers : String → Int) (xs : List Int) (i : Nat),
      ((ListOperation.pop i).effect? numbers xs).map (·.value) =
        ((ListOperation.read (.literal (i + 1))).effect? numbers xs).map (·.value)) ∧
    ∀ (id : String) (v : Operand) (c' : State), IsName id → v.Written →
      ¬Gives (visit config (ListOperation.methodCall x "pop" [.name (some id) .absent] [])) c () c' ∧
        ¬Gives (visit config (ListOperation.methodCall x "insert" [.name (some id) .absent,v.tree] [])) c () c' := by
  obtain ⟨expression,statement⟩ := op.exp_stat_of_tokens (op.tokens_text valid written)
  refine ⟨op.gives_tree valid written out,?_,?_,?_,?_,?_⟩
  · rw [expression]
    cases op <;> simp [ListOperation.exp?]
  · rw [statement]
    cases op <;> simp [ListOperation.stat?,ListOperation.exp?,ListOperation.libraryCall]
  · intro sorting s ref xs numbers lists holds known inside
    exact ⟨fun f does => ListOperation.performs valid written holds known inside does,
      ListOperation.agrees_iff_sound valid written holds known inside lists⟩
  · intro numbers xs i
    exact congrArg some (item_next xs i).symm
  · exact fun id v c' name written => ListOperation.named_position_fails name written

def smallMemory (n : Int) : Memory := ⟨[("x",.table 0),("n",.number n)],[[.number 3,.number 2,.number 2]]⟩

/-- The value two stands at the second position, the value three does not stand at the third. -/
theorem remove_two_not_three :
    let op := ListOperation.remove (.named "n")
    (∃ c', Gives (visit none (op.tree "x")) (.initial .empty) () c' ∧
      c'.output = .block [.line "table.remove(x,n)"]) ∧
    op.Agrees .merge (smallMemory 2) "x" 0 ⟨[3,2],none⟩ ∧
    ¬op.Agrees .merge (smallMemory 3) "x" 0 ⟨[2,2],none⟩ := by
  have holds (n : Int) : HoldsList (smallMemory n) "x" 0 [3,2,2] := ⟨rfl,rfl,rfl⟩
  have held (n : Int) (id : String) (used : (ListOperation.remove (.named "n")).operand? = some (.named id)) :
      (smallMemory n).value id = .number n := by
    cases used
    rfl
  obtain ⟨code,-,-,all,-⟩ := @list_operation_code (.remove (.named "n")) none (.initial .empty) [] "x"
    (by decide) (show IsName "n" by decide) rfl
  refine ⟨code,?_,?_⟩
  · have right := (all .merge (smallMemory 2) 0 [3,2,2] (fun _ => 2) (fun _ => []) (holds 2) (held 2)
      (show (2 : Int) ∈ [3,2,2] by decide)).2
    refine right.mpr ⟨by decide,fun k low high => ?_⟩
    change 1 ≤ k at low
    change (k : Int) < 2 at high
    obtain rfl : k = 1 := by omega
    rfl
  · have right := (all .merge (smallMemory 3) 0 [3,2,2] (fun _ => 3) (fun _ => []) (holds 3) (held 3)
      (show (3 : Int) ∈ [3,2,2] by decide)).2
    intro agrees
    obtain ⟨-,same⟩ := right.mp agrees
    exact absurd (same 1 (by decide) (by decide)) (by decide)

/-- Nothing is read at the position zero. -/
theorem first_item_missed :
    let op := ListOperation.read (.literal 0)
    (visit none (op.tree "x") (.initial .empty)).1.isOk = true ∧
      (visit none (op.tree "x") (.initial .empty)).2.output = .block [.line "x[0]"] ∧
      (op.meaning (fun _ => 0) (fun _ => []) [3,2,2]).value = some 3 ∧
      ((Script.expression? "x[0]").bind fun e => eval .merge e (smallMemory 0)).map (·.1) = some .nil ∧
      ((Script.expression? "x[1]").bind fun e => eval .merge e (smallMemory 0)).map (·.1) = some (.number 3) := by
  decide +kernel

end LuauCompiler.Compile
