import LuauCompiler.Text.Template
import Mathlib.Data.List.Basic

/-! Templates piece by piece. A template is filled from its front to its end, and a field ends where its
closing brace is found. So a template is filled by filling its pieces, as long as no field runs from one
piece into the next. -/
namespace LuauCompiler.Text.Template

variable {values : List (String × String)} {cs after out written : List Char} {field : Field}

variable {seen name rest : List Char}

/-! ## Reading a field -/

theorem scanName_reads (scanned : scanName inside seen cs = some (name,some mark,rest)) :
    ∃ read, cs = read ++ rest ∧ ∀ tail, scanName inside seen (read ++ tail) = some (name,some mark,tail) := by
  induction cs generalizing inside seen with
  | nil => simp [scanName] at scanned
  | cons c cs ih =>
    cases inside with
    | true =>
      obtain ⟨read,rfl,again⟩ := ih (by simpa only [scanName] using scanned)
      exact ⟨c :: read,rfl,fun tail => by simpa only [List.cons_append,scanName] using again tail⟩
    | false =>
      simp only [scanName] at scanned
      split at scanned
      · cases scanned
      rename_i closed
      split at scanned
      · rename_i ends
        cases scanned
        exact ⟨[mark],rfl,fun tail => by
          simp only [List.cons_append,List.nil_append,scanName,if_neg closed,if_pos ends]⟩
      · rename_i goes
        obtain ⟨read,rfl,again⟩ := ih scanned
        exact ⟨c :: read,rfl,fun tail => by
          simpa only [List.cons_append,scanName,if_neg closed,if_neg goes] using again tail⟩

theorem scanLayout_reads (scanned : scanLayout depth seen cs = some (layout,rest)) :
    ∃ read, cs = read ++ rest ∧ ∀ tail, scanLayout depth seen (read ++ tail) = some (layout,tail) := by
  induction cs generalizing depth seen with
  | nil => simp [scanLayout] at scanned
  | cons c cs ih =>
    simp only [scanLayout] at scanned
    split at scanned
    · rename_i opens
      obtain ⟨read,rfl,again⟩ := ih scanned
      exact ⟨c :: read,rfl,fun tail => by
        simpa only [List.cons_append,scanLayout,if_pos opens] using again tail⟩
    rename_i opens
    split at scanned
    · rename_i closes
      cases depth with
      | zero =>
        cases scanned
        exact ⟨[c],rfl,fun tail => by
          simp only [List.cons_append,List.nil_append,scanLayout,if_neg opens,if_pos closes]⟩
      | succ depth =>
        obtain ⟨read,rfl,again⟩ := ih scanned
        exact ⟨c :: read,rfl,fun tail => by
          simpa only [List.cons_append,scanLayout,if_neg opens,if_pos closes] using again tail⟩
    · rename_i closes
      obtain ⟨read,rfl,again⟩ := ih scanned
      exact ⟨c :: read,rfl,fun tail => by
        simpa only [List.cons_append,scanLayout,if_neg opens,if_neg closes] using again tail⟩

/-- How a field goes on behind its name: with the mark that ends the name, the rest of the template, the
field and what follows it. -/
inductive FieldEnds (name : List Char) : Char → List Char → Field → List Char → Prop
  | closed {after : List Char} : FieldEnds name closeBrace after ⟨name,none,[]⟩ after
  | laidOut {rest layout after : List Char} (scanned : scanLayout 0 [] rest = some (layout,after)) :
    FieldEnds name ':' rest ⟨name,none,layout⟩ after
  | converted {after : List Char} (closes : mark ≠ closeBrace) (lays : mark ≠ ':') :
    FieldEnds name mark (conversion :: closeBrace :: after) ⟨name,some conversion,[]⟩ after
  | both {rest layout after : List Char} (closes : mark ≠ closeBrace) (lays : mark ≠ ':')
    (scanned : scanLayout 0 [] rest = some (layout,after)) :
    FieldEnds name mark (conversion :: ':' :: rest) ⟨name,some conversion,layout⟩ after

theorem scanField_iff : scanField cs = .ok (field,after) ↔ ∃ name mark rest,
    scanName false [] cs = some (name,some mark,rest) ∧ FieldEnds name mark rest field after := by
  constructor
  · intro scanned
    unfold scanField at scanned
    split at scanned
    · cases scanned
    · cases scanned
    rename_i name mark rest found
    refine ⟨name,mark,rest,found,?_⟩
    split at scanned
    · rename_i closes
      cases scanned
      subst closes
      exact .closed
    rename_i closes
    split at scanned
    · rename_i lays
      subst lays
      split at scanned
      · cases scanned
      · rename_i laid
        cases scanned
        exact .laidOut laid
    rename_i lays
    split at scanned
    · cases scanned
    · split at scanned
      · cases scanned
      · rename_i laid
        cases scanned
        exact .both closes lays laid
    · split at scanned
      · rename_i ends
        cases scanned
        subst ends
        exact .converted closes lays
      · cases scanned
    · cases scanned
  · rintro ⟨name,mark,rest,scanned,ends⟩
    unfold scanField
    rw [scanned]
    cases ends with
    | closed => rfl
    | laidOut laid => simp [laid,closeBrace]
    | converted closes lays => exact (if_neg closes).trans (if_neg lays)
    | both closes lays laid => simp [closes,lays,laid]

theorem FieldEnds.reads (ends : FieldEnds name mark rest field after) :
    ∃ read, rest = read ++ after ∧ ∀ tail, FieldEnds name mark (read ++ tail) field tail := by
  cases ends with
  | closed => exact ⟨[],rfl,fun tail => .closed⟩
  | laidOut laid =>
    obtain ⟨read,rfl,again⟩ := scanLayout_reads laid
    exact ⟨read,rfl,fun tail => .laidOut (again tail)⟩
  | @converted _ conversion _ closes lays =>
    exact ⟨[conversion,closeBrace],rfl,fun tail => .converted closes lays⟩
  | @both _ conversion _ _ _ closes lays laid =>
    obtain ⟨read,rfl,again⟩ := scanLayout_reads laid
    exact ⟨conversion :: ':' :: read,rfl,fun tail => .both closes lays (again tail)⟩

theorem scanField_reads (scanned : scanField cs = .ok (field,after)) :
    ∃ read, cs = read ++ after ∧ ∀ tail, scanField (read ++ tail) = .ok (field,tail) := by
  obtain ⟨name,mark,rest,found,ends⟩ := scanField_iff.mp scanned
  obtain ⟨read,rfl,again⟩ := scanName_reads found
  obtain ⟨more,rfl,ended⟩ := ends.reads
  refine ⟨read ++ more,(List.append_assoc ..).symm,fun tail => scanField_iff.mpr
    ⟨name,mark,more ++ tail,?_,ended tail⟩⟩
  rw [List.append_assoc]
  exact again _

/-! ## Pieces that close no field -/

/-- A field that is open before the piece is not closed by the piece. -/
structure Seals (piece : List Char) : Prop where
  name : ∀ inside seen name mark rest, scanName inside seen piece ≠ some (name,some mark,rest)
  layout : ∀ depth seen, scanLayout depth seen piece = none
  start : ∃ c d rest, piece = c :: d :: rest ∧ c ∉ [openBrace,closeBrace,':'] ∧ d ∉ [closeBrace,':']

section

variable {name : List Char}

theorem Seals.scanName (seals : Seals piece)
    (scanned : scanName inside seen (cs ++ piece) = some (name,some mark,rest)) :
    ∃ front, Template.scanName inside seen cs = some (name,some mark,front) ∧ rest = front ++ piece := by
  induction cs generalizing inside seen with
  | nil => exact (seals.name _ _ _ _ _ scanned).elim
  | cons c cs ih =>
    cases inside with
    | true => exact ih (by simpa only [List.cons_append,Template.scanName] using scanned)
    | false =>
      simp only [List.cons_append,Template.scanName] at scanned ⊢
      split at scanned
      · cases scanned
      rename_i closed
      rw [if_neg closed]
      split at scanned
      · rename_i ends
        cases scanned
        exact ⟨cs,if_pos ends,rfl⟩
      · rename_i goes
        rw [if_neg goes]
        exact ih scanned

theorem Seals.scanLayout (seals : Seals piece) {layout : List Char}
    (scanned : scanLayout depth seen (cs ++ piece) = some (layout,rest)) :
    ∃ front, Template.scanLayout depth seen cs = some (layout,front) ∧ rest = front ++ piece := by
  induction cs generalizing depth seen with
  | nil =>
    rw [List.nil_append,seals.layout] at scanned
    cases scanned
  | cons c cs ih =>
    simp only [List.cons_append,Template.scanLayout] at scanned ⊢
    split at scanned
    · rename_i opens
      rw [if_pos opens]
      exact ih scanned
    rename_i opens
    rw [if_neg opens]
    split at scanned
    · rename_i closes
      rw [if_pos closes]
      cases depth with
      | zero =>
        cases scanned
        exact ⟨cs,rfl,rfl⟩
      | succ depth => exact ih scanned
    · rename_i closes
      rw [if_neg closes]
      exact ih scanned

theorem Seals.fieldEnds (seals : Seals piece) (ends : FieldEnds name mark (cs ++ piece) field after) :
    ∃ front, FieldEnds name mark cs field front ∧ after = front ++ piece := by
  generalize whole : cs ++ piece = rest at ends
  obtain ⟨c,d,others,rfl,first,second⟩ := seals.start
  cases ends with
  | closed => exact ⟨cs,.closed,whole.symm⟩
  | laidOut laid =>
    subst whole
    obtain ⟨front,here,rfl⟩ := seals.scanLayout laid
    exact ⟨front,.laidOut here,rfl⟩
  | converted closes lays =>
    rcases cs with _ | ⟨x,_ | ⟨y,cs⟩⟩ <;> cases whole
    · simp at second
    · simp at first
    · exact ⟨cs,.converted closes lays,rfl⟩
  | both closes lays laid =>
    rcases cs with _ | ⟨x,_ | ⟨y,cs⟩⟩ <;> cases whole
    · simp at second
    · simp at first
    · obtain ⟨front,here,rfl⟩ := seals.scanLayout laid
      exact ⟨front,.both closes lays here,rfl⟩

theorem Seals.scanField (seals : Seals piece) (scanned : scanField (cs ++ piece) = .ok (field,after)) :
    ∃ front, Template.scanField cs = .ok (field,front) ∧ after = front ++ piece := by
  obtain ⟨name,mark,rest,found,ends⟩ := scanField_iff.mp scanned
  obtain ⟨front,here,rfl⟩ := seals.scanName found
  obtain ⟨last,inside,rfl⟩ := seals.fieldEnds ends
  exact ⟨last,scanField_iff.mpr ⟨name,mark,front,here,inside⟩,rfl⟩

end

/-! ## Filled templates -/

/-- The field at the front of the template is written as the text, and `after` follows it. -/
def FieldText (values : List (String × String)) (cs written after : List Char) : Prop :=
  ∃ field value converted rule, scanField cs = .ok (field,after) ∧
    resolve values field.name = .ok value ∧ value.convert field.conversion = .ok converted ∧
    (if field.layout.contains openBrace then fillFrom values 1 (field.layout.length + 1) field.layout
      else .ok field.layout) = .ok rule ∧ layOut rule converted = .ok written

theorem FieldText.length_le (text : FieldText values cs written after) : after.length ≤ cs.length := by
  obtain ⟨_,_,_,_,scanned,-⟩ := text
  obtain ⟨read,rfl,-⟩ := scanField_reads scanned
  simp

theorem FieldText.append (text : FieldText values cs written after) (tail : List Char) :
    FieldText values (cs ++ tail) written (after ++ tail) := by
  obtain ⟨field,value,converted,rule,scanned,others⟩ := text
  obtain ⟨read,rfl,again⟩ := scanField_reads scanned
  exact ⟨field,value,converted,rule,by rw [List.append_assoc]; exact again _,others⟩

theorem FieldText.ne_nil (text : FieldText values cs written after) : cs ≠ [] := by
  obtain ⟨_,_,_,_,scanned,-⟩ := text
  rintro rfl
  simp [scanField,scanName] at scanned

inductive Fills (values : List (String × String)) : List Char → List Char → Prop
  | nil : Fills values [] []
  | plain {cs out : List Char} (opens : c ≠ openBrace) (closes : c ≠ closeBrace)
    (rest : Fills values cs out) : Fills values (c :: cs) (c :: out)
  | doubled {cs out : List Char} (brace : c = openBrace ∨ c = closeBrace)
    (rest : Fills values cs out) : Fills values (c :: c :: cs) (c :: out)
  | field {cs written after out : List Char} (single : cs.head? ≠ some openBrace)
    (text : FieldText values cs written after) (rest : Fills values after out) :
    Fills values (openBrace :: cs) (written ++ out)

theorem bind_eq_ok {α β : Type} {e : Except Failure α} {f : α → Except Failure β} {b : β} :
    (e >>= f) = .ok b ↔ ∃ a, e = .ok a ∧ f a = .ok b := by
  cases e with
  | error => simp [bind,Except.bind]
  | ok a => simp [bind,Except.bind]

theorem map_eq_ok {α β : Type} {e : Except Failure α} {f : α → β} {b : β} :
    e.map f = .ok b ↔ ∃ a, e = .ok a ∧ b = f a := by
  cases e with
  | error => simp [Except.map]
  | ok a => simp [Except.map,eq_comm]

theorem fieldText_iff : (do
      let (field, after) ← scanField cs
      let value ← resolve values field.name
      let value ← value.convert field.conversion
      let rule ←
        if field.layout.contains openBrace then
          fillFrom values 1 (field.layout.length + 1) field.layout
        else .ok field.layout
      let written ← layOut rule value
      return written ++ (← fillFrom values 2 fuel after) : Except Failure (List Char)) = .ok out ↔
    ∃ written after later, FieldText values cs written after ∧
      fillFrom values 2 fuel after = .ok later ∧ out = written ++ later := by
  constructor
  · intro filled
    obtain ⟨⟨field,after⟩,scanned,filled⟩ := bind_eq_ok.mp filled
    obtain ⟨value,resolved,filled⟩ := bind_eq_ok.mp filled
    obtain ⟨converted,changed,filled⟩ := bind_eq_ok.mp filled
    have last {rule : Except Failure (List Char)} (ruled : rule = if field.layout.contains openBrace then
          fillFrom values 1 (field.layout.length + 1) field.layout else .ok field.layout)
        (filled : (do
          let rule ← rule
          let written ← layOut rule converted
          return written ++ (← fillFrom values 2 fuel after) : Except Failure (List Char)) = .ok out) :
        ∃ written after later, FieldText values cs written after ∧
          fillFrom values 2 fuel after = .ok later ∧ out = written ++ later := by
      obtain ⟨layout,known,filled⟩ := bind_eq_ok.mp filled
      obtain ⟨written,laid,filled⟩ := bind_eq_ok.mp filled
      obtain ⟨later,more,whole⟩ := bind_eq_ok.mp filled
      cases whole
      exact ⟨written,after,later,⟨field,value,converted,layout,scanned,resolved,changed,
        ruled.symm.trans known,laid⟩,more,rfl⟩
    split at filled
    · rename_i nests
      exact last (if_pos nests).symm filled
    · rename_i plain
      exact last (if_neg plain).symm filled
  · rintro ⟨written,after,later,⟨field,value,converted,rule,scanned,resolved,changed,known,laid⟩,more,rfl⟩
    refine bind_eq_ok.mpr ⟨(field,after),scanned,bind_eq_ok.mpr ⟨value,resolved,bind_eq_ok.mpr
      ⟨converted,changed,?_⟩⟩⟩
    have last : (do
        let written ← layOut rule converted
        return written ++ (← fillFrom values 2 fuel after) : Except Failure (List Char)) =
          .ok (written ++ later) :=
      bind_eq_ok.mpr ⟨written,laid,bind_eq_ok.mpr ⟨later,more,rfl⟩⟩
    dsimp only
    by_cases nests : field.layout.contains openBrace = true
    · rw [if_pos nests] at known ⊢
      exact bind_eq_ok.mpr ⟨rule,known,last⟩
    · rw [if_neg nests] at known ⊢
      exact bind_eq_ok.mpr ⟨rule,known,last⟩

/-- One step of filling: the template starts with a plain character, a doubled brace or a field. -/
theorem fillFrom_cons {c : Char} : fillFrom values 2 (fuel + 1) (c :: cs) = .ok out ↔
    (c ≠ openBrace ∧ c ≠ closeBrace ∧ ∃ later, fillFrom values 2 fuel cs = .ok later ∧ out = c :: later) ∨
    ((c = openBrace ∨ c = closeBrace) ∧
      ∃ rest later, cs = c :: rest ∧ fillFrom values 2 fuel rest = .ok later ∧ out = c :: later) ∨
    (c = openBrace ∧ cs.head? ≠ some openBrace ∧ ∃ written after later, FieldText values cs written after ∧
      fillFrom values 2 fuel after = .ok later ∧ out = written ++ later) := by
  rw [fillFrom.eq_def]
  by_cases opens : c = openBrace
  · subst opens
    cases cs with
    | nil => simp [FieldText,scanField,scanName]
    | cons d rest =>
      by_cases again : d = openBrace
      · subst again
        simp [map_eq_ok]
      · have field := @fieldText_iff values (d :: rest) out fuel
        simp only [if_neg again,if_true]
        rw [field]
        simp [again]
  · by_cases closes : c = closeBrace
    · subst closes
      cases cs with
      | nil => simp [opens]
      | cons d rest =>
        by_cases again : d = closeBrace
        · subst again
          simp [opens,map_eq_ok]
        · simp [opens,again]
    · simp [opens,closes,map_eq_ok]

theorem fillFrom_nil (fuel : Nat) : fillFrom values 2 fuel [] = .ok out ↔ Fills values [] out := by
  have empty : fillFrom values 2 fuel [] = .ok [] := by
    rw [fillFrom.eq_def]
    cases fuel <;> rfl
  rw [empty]
  constructor
  · intro same
    cases same
    exact .nil
  · intro fills
    cases fills
    rfl

theorem fillFrom_iff (enough : cs.length ≤ fuel) :
    fillFrom values 2 fuel cs = .ok out ↔ Fills values cs out := by
  induction fuel generalizing cs out with
  | zero =>
    obtain rfl := List.length_eq_zero_iff.mp (Nat.le_zero.mp enough)
    exact fillFrom_nil 0
  | succ fuel ih =>
    cases cs with
    | nil => exact fillFrom_nil _
    | cons c rest =>
      have short : rest.length ≤ fuel := Nat.le_of_succ_le_succ enough
      rw [fillFrom_cons]
      constructor
      · rintro (⟨opens,closes,later,filled,rfl⟩ | ⟨brace,cs,later,rfl,filled,rfl⟩ |
          ⟨rfl,single,written,after,later,text,filled,rfl⟩)
        · exact .plain opens closes ((ih short).mp filled)
        · exact .doubled brace ((ih (Nat.le_of_succ_le short)).mp filled)
        · exact .field single text ((ih (Nat.le_trans text.length_le short)).mp filled)
      · intro fills
        cases fills with
        | plain opens closes later => exact .inl ⟨opens,closes,_,(ih short).mpr later,rfl⟩
        | doubled brace later =>
          exact .inr (.inl ⟨brace,_,_,rfl,(ih (Nat.le_of_succ_le short)).mpr later,rfl⟩)
        | field single text later =>
          exact .inr (.inr ⟨rfl,single,_,_,_,text,(ih (Nat.le_trans text.length_le short)).mpr later,rfl⟩)

theorem Fills.unique (first : Fills values cs out) (second : Fills values cs other) : out = other := by
  have filled := (fillFrom_iff (Nat.le_refl _)).mpr first
  rw [(fillFrom_iff (Nat.le_refl _)).mpr second] at filled
  exact (Except.ok.inj filled).symm

theorem fill_iff {template text : String} :
    fill values template = .ok text ↔ Fills values template.toList text.toList := by
  rw [fill,map_eq_ok,← fillFrom_iff (Nat.le_succ _),String.length_toList]
  constructor
  · rintro ⟨characters,filled,rfl⟩
    rwa [String.toList_ofList]
  · intro filled
    exact ⟨text.toList,filled,String.ofList_toList.symm⟩

/-! ## Pieces of a template -/

theorem Fills.append (first : Fills values cs out) (second : Fills values more rest) :
    Fills values (cs ++ more) (out ++ rest) := by
  induction first with
  | nil => exact second
  | plain opens closes _ ih => exact .plain opens closes ih
  | doubled brace _ ih => exact .doubled brace ih
  | field single text _ ih =>
    rw [List.cons_append,List.append_assoc]
    refine .field ?_ (text.append more) ih
    rwa [List.head?_append_of_ne_nil _ text.ne_nil]

theorem Fills.plainText (plain : ∀ c ∈ cs, c ≠ openBrace ∧ c ≠ closeBrace) : Fills values cs cs := by
  induction cs with
  | nil => exact .nil
  | cons c cs ih =>
    obtain ⟨⟨opens,closes⟩,others⟩ := List.forall_mem_cons.mp plain
    exact .plain opens closes (ih others)

theorem Fills.plain_append (plain : ∀ c ∈ front, c ≠ openBrace ∧ c ≠ closeBrace) :
    Fills values (front ++ cs) out ↔ ∃ rest, Fills values cs rest ∧ out = front ++ rest := by
  constructor
  · intro fills
    induction front generalizing out with
    | nil => exact ⟨out,fills,rfl⟩
    | cons c front ih =>
      obtain ⟨⟨opens,closes⟩,others⟩ := List.forall_mem_cons.mp plain
      rw [List.cons_append] at fills
      generalize whole : front ++ cs = all at fills
      cases fills with
      | plain _ _ later =>
        obtain ⟨rest,filled,rfl⟩ := ih others (whole ▸ later)
        exact ⟨rest,filled,rfl⟩
      | doubled brace => exact (brace.elim opens closes).elim
      | field => exact (opens rfl).elim
  · rintro ⟨rest,fills,rfl⟩
    exact (Fills.plainText plain).append fills

theorem Seals.fieldText (seals : Seals piece) (text : FieldText values (cs ++ piece) written after) :
    ∃ front, FieldText values cs written front ∧ after = front ++ piece := by
  obtain ⟨field,value,converted,rule,scanned,others⟩ := text
  obtain ⟨front,here,rfl⟩ := seals.scanField scanned
  exact ⟨front,⟨field,value,converted,rule,here,others⟩,rfl⟩

theorem Seals.fills (seals : Seals piece) :
    Fills values (cs ++ piece) out ↔ ∃ front back, Fills values cs front ∧ Fills values piece back ∧
      out = front ++ back := by
  constructor
  · intro fills
    obtain ⟨c,d,others,start,first,-⟩ := seals.start
    have own {all out : List Char} (fills : Fills values all out) (whole : [] ++ piece = all) :
        ∃ front back, Fills values [] front ∧ Fills values piece back ∧ out = front ++ back := by
      subst whole
      exact ⟨[],out,.nil,fills,rfl⟩
    generalize whole : cs ++ piece = all at fills
    induction fills generalizing cs with
    | nil => simp [start] at whole
    | plain opens closes later ih =>
      cases cs with
      | nil => exact own (.plain opens closes later) whole
      | cons y cs =>
        cases whole
        obtain ⟨front,back,fills,last,rfl⟩ := ih rfl
        exact ⟨_,back,.plain opens closes fills,last,rfl⟩
    | doubled brace later ih =>
      rcases cs with _ | ⟨y,_ | ⟨z,cs⟩⟩
      · exact own (.doubled brace later) whole
      · rw [start] at whole
        cases whole
        rcases brace with rfl | rfl <;> simp at first
      · cases whole
        obtain ⟨front,back,fills,last,rfl⟩ := ih rfl
        exact ⟨_,back,.doubled brace fills,last,rfl⟩
    | field single text later ih =>
      cases cs with
      | nil => exact own (.field single text later) whole
      | cons y cs =>
        rw [List.cons_append,List.cons.injEq] at whole
        obtain ⟨rfl,rfl⟩ := whole
        obtain ⟨rest,here,rfl⟩ := seals.fieldText text
        obtain ⟨front,back,fills,last,rfl⟩ := ih rfl
        refine ⟨_,back,.field ?_ here fills,last,(List.append_assoc ..).symm⟩
        rwa [List.head?_append_of_ne_nil _ here.ne_nil] at single
  · rintro ⟨front,back,fills,last,rfl⟩
    exact fills.append last

end LuauCompiler.Text.Template
