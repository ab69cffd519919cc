import LuauCompiler.Compile.Place

/-! What the index splitter computes. It counts the commas outside of parentheses while it reads the
index, but each of them cuts what is left of the index at its first comma, wherever that stands. -/
namespace LuauCompiler

namespace Text

variable {cs : List Char}

/-- How many more parentheses are opened than closed. -/
def parenDepth (cs : List Char) : Int := cs.count '(' - cs.count ')'

def commas (cs : List Char) : List Nat := (List.range cs.length).filter fun i => cs[i]? == some ','

/-- The positions of the commas that stand outside of parentheses. -/
def outerCommas (cs : List Char) : List Nat := (commas cs).filter fun i => parenDepth (cs.take i) == 0

/-- The segments from a position on, cut at the characters at rising positions. -/
def segmentsFrom (cs : List Char) : (start : Nat) → List Nat → List (List Char)
  | start, [] => [cs.drop start]
  | start, i :: rest => (cs.take i).drop start :: segmentsFrom cs (i + 1) rest

def segments (cs : List Char) (positions : List Nat) : List (List Char) := segmentsFrom cs 0 positions

theorem commas_append (front cs : List Char) :
    commas (front ++ cs) = commas front ++ (commas cs).map (front.length + ·) := by
  rw [commas,List.length_append,List.range_add,List.filter_append,List.filter_map]
  have inFront : ∀ i ∈ List.range front.length,
      ((front ++ cs)[i]? == some ',') = (front[i]? == some ',') := by
    intro i inside
    rw [List.getElem?_append_left (List.mem_range.mp inside)]
  have behind : (fun i => (front ++ cs)[i]? == some ',') ∘ (front.length + ·) =
      fun i => cs[i]? == some ',' := by
    funext i
    simp only [Function.comp,List.getElem?_append_right (Nat.le_add_right _ _),Nat.add_sub_cancel_left]
  rw [List.filter_congr inFront,behind]
  rfl

theorem commas_comma (cs : List Char) : commas (',' :: cs) = 0 :: (commas cs).map (1 + ·) :=
  commas_append [','] cs

theorem length_commas (cs : List Char) : (commas cs).length = cs.count ',' := by
  induction cs with
  | nil => rfl
  | cons c cs ih =>
    have whole := commas_append [c] cs
    rw [List.singleton_append] at whole
    rw [whole,List.length_append,List.length_map,ih,List.count_cons,Nat.add_comm]
    by_cases comma : c = ',' <;> simp [comma,commas]

theorem commas_rising (cs : List Char) : (commas cs).Pairwise (· < ·) := List.pairwise_lt_range.filter _

theorem lt_length_of_mem_commas (member : i ∈ commas cs) : i < cs.length :=
  List.mem_range.mp (List.mem_filter.mp member).1

theorem segmentsFrom_append (front cs : List Char) (start : Nat) (positions : List Nat) :
    segmentsFrom (front ++ cs) (front.length + start) (positions.map (front.length + ·)) =
      segmentsFrom cs start positions := by
  induction positions generalizing start with
  | nil => simp [segmentsFrom]
  | cons i rest ih =>
    rw [List.map_cons,segmentsFrom,segmentsFrom,List.take_length_add_append,List.drop_length_add_append,
      Nat.add_assoc,ih]

theorem length_segmentsFrom (cs : List Char) (start : Nat) (positions : List Nat) :
    (segmentsFrom cs start positions).length = positions.length + 1 := by
  induction positions generalizing start with
  | nil => rfl
  | cons i rest ih => simp [segmentsFrom,ih]

theorem segmentsFrom_injective (same : segmentsFrom cs start is = segmentsFrom cs start js)
    (inside : ∀ i ∈ is ++ js, start ≤ i ∧ i < cs.length) (rising : is.Pairwise (· < ·))
    (rising' : js.Pairwise (· < ·)) : is = js := by
  have lengths := congrArg List.length same
  simp only [length_segmentsFrom,Nat.add_right_cancel_iff] at lengths
  induction is generalizing start js with
  | nil => exact (List.length_eq_zero_iff.mp lengths.symm).symm
  | cons i is ih =>
    cases js with
    | nil => simp at lengths
    | cons j js =>
      simp only [segmentsFrom,List.cons.injEq] at same
      have here := inside i (by simp)
      have there := inside j (by simp)
      have widths := congrArg List.length same.1
      simp only [List.length_drop,List.length_take] at widths
      obtain rfl : i = j := by omega
      rw [List.pairwise_cons] at rising rising'
      refine congrArg _ (ih same.2 (fun k member => ?_) rising.2 rising'.2 (by simpa using lengths))
      rcases List.mem_append.mp member with first | second
      · exact ⟨rising.1 k first,(inside k (by simp [first])).2⟩
      · exact ⟨rising'.1 k second,(inside k (by simp [second])).2⟩

end Text

namespace Compile

open Text

variable {cs : List Char}

/-- The text cut at its first commas, `n` of them. -/
def cutFirst : (n : Nat) → List Char → List (List Char)
  | 0, cs => [cs]
  | n + 1, cs => cs.takeWhile (· != ',') :: cutFirst n ((cs.dropWhile (· != ',')).drop 1)

theorem cutFirst_comma (n : Nat) (free : ',' ∉ front) (rest : List Char) :
    cutFirst (n + 1) (front ++ ',' :: rest) = front :: cutFirst n rest := by
  have others : ∀ c ∈ front, (c != ',') = true := fun c member =>
    bne_iff_ne.mpr fun same => free (same ▸ member)
  rw [cutFirst,List.takeWhile_append_of_pos others,List.dropWhile_append_of_pos others]
  simp

theorem comma_split (enough : n + 1 ≤ cs.count ',') :
    ∃ front rest, cs = front ++ ',' :: rest ∧ ',' ∉ front ∧ n ≤ rest.count ',' := by
  have comma : ',' ∈ cs := List.count_pos_iff.mp (by omega)
  obtain ⟨front,rest,rfl,free⟩ := List.eq_append_cons_of_mem comma
  rw [List.count_append,List.count_eq_zero.mpr free,List.count_cons_self] at enough
  exact ⟨front,rest,rfl,free,by omega⟩

theorem cutFirst_eq_segments (enough : n ≤ cs.count ',') :
    cutFirst n cs = segments cs ((commas cs).take n) := by
  induction n generalizing cs with
  | zero => simp [cutFirst,segments,segmentsFrom]
  | succ n ih =>
    obtain ⟨front,rest,rfl,free,fewer⟩ := comma_split enough
    have none : commas front = [] := by
      rw [← List.length_eq_zero_iff,length_commas,List.count_eq_zero.mpr free]
    have behind := segmentsFrom_append (front ++ [',']) rest 0 ((commas rest).take n)
    rw [cutFirst_comma n free,ih fewer,commas_append,none,commas_comma]
    simp only [List.append_assoc,List.singleton_append,List.length_append,List.length_singleton,
      Nat.add_zero] at behind
    simp [segments,segmentsFrom,← behind,Nat.add_assoc,Function.comp_def]

end Compile

namespace Text

theorem outerCommas_concat (cs : List Char) (c : Char) : outerCommas (cs ++ [c]) =
    outerCommas cs ++ if c = ',' ∧ parenDepth cs = 0 then [cs.length] else [] := by
  have inFront : ∀ i ∈ commas cs, (parenDepth ((cs ++ [c]).take i) == 0) = (parenDepth (cs.take i) == 0) := by
    intro i member
    rw [List.take_append_of_le_length (Nat.le_of_lt (lt_length_of_mem_commas member))]
  rw [outerCommas,commas_append,List.filter_append,List.filter_congr inFront]
  by_cases comma : c = ','
  · subst comma
    by_cases outer : parenDepth cs = 0 <;> simp [commas,outerCommas,outer]
  · simp [commas,outerCommas,comma]

theorem length_outerCommas_le (cs : List Char) : (outerCommas cs).length ≤ cs.count ',' :=
  length_commas cs ▸ List.length_filter_le ..

theorem parenDepth_concat (cs : List Char) (c : Char) : parenDepth (cs ++ [c]) =
    parenDepth cs + if c = '(' then 1 else if c = ')' then -1 else 0 := by
  unfold parenDepth
  by_cases opens : c = '('
  · subst opens
    simp
    omega
  · by_cases closes : c = ')'
    · subst closes
      simp
      omega
    · simp [opens,closes]

end Text

namespace Compile

open Text

variable {index read : List Char} {s : Cut}

/-- What holds of the splitter of `index` when it has read the characters `read`. -/
structure HasRead (index read : List Char) (s : Cut) : Prop where
  depth : s.depth = parenDepth read
  cuts : ∀ m, s.pieces ++ cutFirst m s.rest = cutFirst ((outerCommas read).length + m) index
  left : s.rest.count ',' + (outerCommas read).length = index.count ','

theorem HasRead.start (index : List Char) : HasRead index [] ⟨0,[],index⟩ :=
  ⟨rfl,fun m => by simp [outerCommas,commas],by simp [outerCommas,commas]⟩

theorem HasRead.comma_left (invariant : HasRead index read s) (ahead : read ++ [','] <+: index)
    (outer : parenDepth read = 0) : ',' ∈ s.rest := by
  have counted := length_outerCommas_le (read ++ [','])
  have all := ahead.sublist.count_le ','
  have left := invariant.left
  rw [outerCommas_concat,if_pos ⟨rfl,outer⟩,List.length_append,List.length_singleton] at counted
  exact List.count_pos_iff.mp (by omega)

theorem HasRead.step (invariant : HasRead index read s) (ahead : read ++ [c] <+: index) :
    HasRead index (read ++ [c]) (s.step c) := by
  have known := invariant.depth
  have passed (other : ¬(c = ',' ∧ parenDepth read = 0)) : outerCommas (read ++ [c]) = outerCommas read := by
    rw [outerCommas_concat,if_neg other,List.append_nil]
  unfold Cut.step
  split
  · rename_i opens
    subst opens
    have same := passed (by simp)
    exact ⟨by simp [parenDepth_concat,known],by rw [same]; exact invariant.cuts,
      by rw [same]; exact invariant.left⟩
  · rename_i opens
    split
    · rename_i closes
      subst closes
      have same := passed (by simp)
      exact ⟨by simp [parenDepth_concat,known,Int.sub_eq_add_neg],by rw [same]; exact invariant.cuts,
        by rw [same]; exact invariant.left⟩
    · rename_i closes
      have depth : parenDepth (read ++ [c]) = parenDepth read := by
        simp [parenDepth_concat,opens,closes]
      split
      · rename_i outer
        simp only [Bool.and_eq_true,decide_eq_true_eq,known] at outer
        obtain ⟨rfl,outer⟩ := outer
        obtain ⟨front,rest,split,free⟩ := List.eq_append_cons_of_mem (invariant.comma_left ahead outer)
        have more : (outerCommas (read ++ [','])).length = (outerCommas read).length + 1 := by
          simp [outerCommas_concat,outer]
        refine ⟨by rw [depth]; exact known,fun m => ?_,?_⟩
        · have next := invariant.cuts (m + 1)
          rw [cutFirst] at next
          rw [more,Nat.add_assoc,Nat.add_comm 1,← next]
          simp
        · have left := invariant.left
          have others : ∀ c ∈ front, (c != ',') = true := fun c member =>
            bne_iff_ne.mpr fun same => free (same ▸ member)
          rw [more]
          simp only [split,List.dropWhile_append_of_pos others] at left ⊢
          simp [List.count_eq_zero.mpr free] at left ⊢
          omega
      · rename_i inner
        have same := passed (by simpa [known] using inner)
        exact ⟨by rw [depth]; exact known,by rw [same]; exact invariant.cuts,
          by rw [same]; exact invariant.left⟩

theorem HasRead.run (invariant : HasRead index read s) (ahead : read ++ rest <+: index) :
    HasRead index (read ++ rest) (rest.foldl Cut.step s) := by
  induction rest generalizing read s with
  | nil => simpa using invariant
  | cons c rest ih =>
    rw [List.append_cons] at ahead ⊢
    exact ih (invariant.step ((List.prefix_append ..).trans ahead)) ahead

theorem hasRead_foldl (ahead : read <+: index) : HasRead index read (read.foldl Cut.step ⟨0,[],index⟩) :=
  (HasRead.start index).run ahead

theorem splitIndex_eq_cutFirst (index : List Char) :
    splitIndex index = cutFirst (outerCommas index).length index := by
  have cuts := (hasRead_foldl (List.prefix_refl index)).cuts 0
  simpa [splitIndex,cutFirst] using cuts

end Compile

namespace Text

theorem filter_eq_take_iff {is : List Nat} (rising : is.Pairwise (· < ·)) :
    is.take (is.filter p).length = is.filter p ↔ ∀ i ∈ is, p i = false → ∀ j ∈ is.filter p, j < i := by
  induction is with
  | nil => simp
  | cons i is ih =>
    rw [List.pairwise_cons] at rising
    by_cases chosen : p i = true
    · simp only [List.filter_cons_of_pos chosen,List.length_cons,List.take_succ_cons,List.cons.injEq,
        true_and,ih rising.2,List.forall_mem_cons]
      constructor
      · intro above
        exact ⟨by simp [chosen],fun k member other => ⟨rising.1 k member,above k member other⟩⟩
      · intro above k member other
        exact (above.2 k member other).2
    · -- the first number is left out, so nothing may be chosen
      rw [List.filter_cons_of_neg chosen]
      cases first : is.filter p with
      | nil => simp
      | cons j js =>
        have below : i < j := rising.1 j (List.mem_filter.mp (first ▸ List.mem_cons_self)).1
        refine iff_of_false ?_ fun above => ?_
        · simp [Nat.ne_of_lt below]
        · exact Nat.lt_asymm below (above i List.mem_cons_self (by simpa using chosen) j List.mem_cons_self)

end Text

namespace Compile

open Text

theorem splitIndex_eq_segments (index : List Char) :
    splitIndex index = segments index ((commas index).take (outerCommas index).length) := by
  rw [splitIndex_eq_cutFirst,cutFirst_eq_segments (length_outerCommas_le index)]

/-- What holds of a whole text, and goes from what is behind a comma to the text with the comma, holds of
an index and its pieces. -/
theorem splitIndex_induction {motive : List Char → List (List Char) → Prop} (whole : ∀ cs, motive cs [cs])
    (cut : ∀ front rest pieces, motive rest pieces → motive (front ++ ',' :: rest) (front :: pieces))
    (index : List Char) : motive index (splitIndex index) := by
  have enough := length_outerCommas_le index
  rw [splitIndex_eq_cutFirst]
  generalize (outerCommas index).length = n at enough
  induction n generalizing index with
  | zero => exact whole index
  | succ n ih =>
    obtain ⟨front,rest,rfl,free,fewer⟩ := comma_split enough
    rw [cutFirst_comma n free]
    exact cut front rest _ (ih rest fewer)

theorem join_splitIndex (index : List Char) : [','].intercalate (splitIndex index) = index := by
  have joined : splitIndex index ≠ [] ∧ [','].intercalate (splitIndex index) = index := by
    induction index using splitIndex_induction with
    | whole cs => simp
    | cut front rest pieces later =>
      obtain ⟨given,same⟩ := later
      obtain ⟨next,more,rfl⟩ := List.exists_cons_of_ne_nil given
      simp [List.intercalate_cons_cons,same]
  exact joined.2

theorem length_splitIndex (index : List Char) :
    (splitIndex index).length = (outerCommas index).length + 1 := by
  rw [splitIndex_eq_segments,segments,length_segmentsFrom,List.length_take,length_commas,
    Nat.min_eq_left (length_outerCommas_le index)]

/-- What the splitter computes, for every index. Wherever it cuts there is a comma to cut at; the pieces
with commas between them are the index; the cuts are at the first commas, as many as there are outer
commas. So the pieces are the segments between the outer commas exactly if every inner comma stands
behind the last outer one. -/
theorem index_pieces (index : List Char) : (∀ read rest, index = read ++ ',' :: rest → parenDepth read = 0 →
      ',' ∈ (read.foldl Cut.step ⟨0,[],index⟩).rest) ∧
    [','].intercalate (splitIndex index) = index ∧
    (splitIndex index).length = (outerCommas index).length + 1 ∧
    splitIndex index = segments index ((commas index).take (outerCommas index).length) ∧
    (splitIndex index = segments index (outerCommas index) ↔
      ∀ i ∈ commas index, i ∉ outerCommas index → ∀ j ∈ outerCommas index, j < i) := by
  refine ⟨?_,join_splitIndex index,length_splitIndex index,splitIndex_eq_segments index,?_⟩
  · rintro read rest rfl outer
    exact (hasRead_foldl (List.prefix_append ..)).comma_left ⟨rest,by simp⟩ outer
  · have told : segments index ((commas index).take (outerCommas index).length) =
        segments index (outerCommas index) ↔
        (commas index).take (outerCommas index).length = outerCommas index := by
      refine ⟨fun same => segmentsFrom_injective same (fun i member => ⟨Nat.zero_le i,?_⟩)
        ((commas_rising index).take) ((commas_rising index).filter _),fun same => by rw [same]⟩
      rcases List.mem_append.mp member with first | second
      · exact lt_length_of_mem_commas (List.mem_of_mem_take first)
      · exact lt_length_of_mem_commas (List.mem_filter.mp second).1
    rw [splitIndex_eq_segments,told,outerCommas,filter_eq_take_iff (commas_rising index)]
    refine forall₂_congr fun i member => ?_
    simp [member]

/-- The comma between two arguments is cut in place of the one behind the call. -/
example : splitIndex "f(a,b),c".toList = ["f(a".toList,"b),c".toList] ∧
    segments "f(a,b),c".toList (outerCommas "f(a,b),c".toList) = ["f(a,b)".toList,"c".toList] := by
  decide

end Compile

end LuauCompiler
