/-! How a set of texts is listed. A text that is put in a set any number of times comes out of it once. The
order in which texts come out is that of the process, and another process may have another one. -/

namespace LuauCompiler

structure Order where
  list : List String → List String
  nodup (texts : List String) : (list texts).Nodup
  mem_list {texts : List String} {text : String} : text ∈ list texts ↔ text ∈ texts

namespace Order

def insertDistinct (text : String) : List String → List String
  | [] => [text]
  | first :: rest =>
    if text = first then first :: rest
    else if text < first then text :: first :: rest
    else first :: insertDistinct text rest

def sortDistinct (texts : List String) : List String :=
  texts.foldr insertDistinct []

variable {texts : List String}

theorem mem_insertDistinct {text x : String} : x ∈ insertDistinct text texts ↔ x = text ∨ x ∈ texts := by
  fun_induction insertDistinct text texts <;> grind

theorem mem_sortDistinct {x : String} : x ∈ sortDistinct texts ↔ x ∈ texts := by
  induction texts with
  | nil => simp [sortDistinct]
  | cons text rest ih =>
    have step : x ∈ sortDistinct (text :: rest) ↔ x = text ∨ x ∈ sortDistinct rest := mem_insertDistinct
    simp [step,ih]

theorem insertDistinct_sorted {text : String} (sorted : texts.Pairwise (· < ·)) :
    (insertDistinct text texts).Pairwise (· < ·) := by
  fun_induction insertDistinct text texts with
  | case1 => simp
  | case2 rest => exact sorted
  | case3 first rest other less =>
    refine List.pairwise_cons.mpr ⟨fun x member => ?_,sorted⟩
    rcases List.mem_cons.mp member with rfl | later
    · exact less
    · exact String.lt_trans less (List.rel_of_pairwise_cons sorted later)
  | case4 first rest other greater ih =>
    refine List.pairwise_cons.mpr ⟨fun x member => ?_,ih sorted.of_cons⟩
    rcases mem_insertDistinct.mp member with rfl | later
    · grind
    · exact List.rel_of_pairwise_cons sorted later

theorem sortDistinct_sorted (texts : List String) : (sortDistinct texts).Pairwise (· < ·) := by
  induction texts with
  | nil => exact .nil
  | cons text rest ih => exact insertDistinct_sorted ih

/-- The order by code points. -/
def sorted : Order where
  list := sortDistinct
  nodup texts := (sortDistinct_sorted texts).imp fun less => String.ne_of_lt less
  mem_list := mem_sortDistinct

end Order

end LuauCompiler
