import LuauCompiler.Proofs.Run

/-! Steps that add lines and no other code. What a step gives or adds is described by a predicate,
and what it does to the rest of the state by a relation that disregards the output. -/
namespace LuauCompiler.Compile

variable {α : Type}

/-- A relation that steps may be followed along while code is written aside. -/
class Calm (R : State → State → Prop) : Prop where
  refl : ∀ s, R s s
  trans : ∀ {s t u}, R s t → R t u → R s u
  frames : ∀ {s t}, R s t → t.frames = s.frames
  aside : ∀ s output current, R s { s with output, current }
  need : ∀ s helper, R s { s with ledger := s.ledger.need helper }

variable {R : State → State → Prop} {I : Frame → Prop}

/-- Under a frame in `I` the step gives values in `P` and leaves the output alone. -/
structure Tells (R : State → State → Prop) (I : Frame → Prop) (P : α → Prop) (c : Compile α) :
    Prop where
  run : ∀ s a t, I s.frames.top → Gives c s a t → R s t ∧ t.output = s.output ∧ P a

/-- Under a frame in `I` the step adds lines that are in `P`. -/
structure Says (R : State → State → Prop) (I : Frame → Prop) (P : List String → Prop)
    (c : Compile Unit) : Prop where
  run : ∀ s before t, I s.frames.top → s.output = .block before → Gives c s () t →
    R s t ∧ ∃ lines, t.output = .block (before ++ lines.map .line) ∧ P lines

namespace Tells

variable [Calm R] {P : α → Prop}

omit [Calm R] in
theorem mono (step : Tells R I P c) (weaker : ∀ a, P a → P' a) : Tells R I P' c := by
  refine ⟨fun s a t frame run => ?_⟩
  obtain ⟨related,out,holds⟩ := step.run s a t frame run
  exact ⟨related,out,weaker a holds⟩

theorem pure (holds : P a) : Tells R I P (Pure.pure a) := by
  refine ⟨fun s b t _ run => ?_⟩
  obtain ⟨rfl,rfl⟩ := gives_pure.mp run
  exact ⟨Calm.refl _,rfl,holds⟩

theorem bind (first : Tells R I P c) (rest : ∀ a, P a → Tells R I Q (f a)) : Tells R I Q (c >>= f) := by
  refine ⟨fun s b t frame run => ?_⟩
  obtain ⟨a,u,before,after⟩ := gives_bind.mp run
  obtain ⟨related,out,holds⟩ := first.run s a u frame before
  obtain ⟨later,out',holds'⟩ := (rest a holds).run u b t (by rw [Calm.frames related]; exact frame) after
  exact ⟨Calm.trans related later,out'.trans out,holds'⟩

omit [Calm R] in
theorem fail (e : Failure) : Tells R I P (Compile.fail e) := ⟨fun _ _ _ _ run => absurd run gives_fail⟩

omit [Calm R] in
theorem reject (message : String) : Tells R I P (Compile.reject message) :=
  ⟨fun _ _ _ _ run => absurd run gives_reject⟩

omit [Calm R] in
theorem ite [Decidable p] (yes : p → Tells R I P c) (no : ¬p → Tells R I P d) :
    Tells R I P (if p then c else d) := by
  split <;> rename_i h
  · exact yes h
  · exact no h

theorem guarded [Decidable p] (first : Tells R I T c) (rest : Tells R I Q d) :
    Tells R I Q (if p then (c >>= fun _ => d) else d) :=
  ite (fun _ => bind first fun _ _ => rest) fun _ => rest

theorem ofExcept (holds : ∀ a, e = .ok a → P a) : Tells R I P (Compile.ofExcept e) := by
  cases e with
  | ok a => exact pure (holds a rfl)
  | error e => exact fail e

theorem get : Tells R I (fun _ => True) Compile.get :=
  ⟨fun s _ t _ run => by cases run; exact ⟨Calm.refl s,rfl,trivial⟩⟩

theorem tagOf (name : String) : Tells R I (fun _ => True) (Compile.tagOf name) :=
  ⟨fun s _ t _ run => by cases run; exact ⟨Calm.refl s,rfl,trivial⟩⟩

theorem frame : Tells R I I Compile.frame :=
  ⟨fun s _ t inside run => by cases run; exact ⟨Calm.refl s,rfl,inside⟩⟩

theorem needs (helper : String) : Tells R I (fun _ => True) (Compile.needs helper) :=
  ⟨fun s _ t _ run => by cases run; exact ⟨Calm.need s helper,rfl,trivial⟩⟩

theorem all (steps : ∀ c ∈ cs, Tells R I P c) : Tells R I (fun as => ∀ a ∈ as, P a) (Compile.all cs) := by
  induction cs with
  | nil => exact pure (by simp)
  | cons c rest ih =>
    refine bind (steps c (by simp)) fun a holds => ?_
    refine bind (ih fun d member => steps d (by simp [member])) fun as others => ?_
    exact pure (by simpa [holds] using others)

end Tells

@[simp] theorem linesOf_map_line (lines : List String) : linesOf? (lines.map .line) = some lines := by
  induction lines with
  | nil => rfl
  | cons text rest ih => simp [linesOf?,ih]

namespace Says

variable [Calm R]

omit [Calm R] in
theorem mono (step : Says R I P c) (weaker : ∀ lines, P lines → Q lines) : Says R I Q c := by
  refine ⟨fun s before t frame out run => ?_⟩
  obtain ⟨related,lines,added,holds⟩ := step.run s before t frame out run
  exact ⟨related,lines,added,weaker lines holds⟩

theorem nothing (holds : P []) : Says R I P (Pure.pure ()) := by
  refine ⟨fun s before t _ out run => ?_⟩
  obtain ⟨_,rfl⟩ := gives_pure.mp run
  exact ⟨Calm.refl _,[],by simp [out],holds⟩

theorem emit (holds : P [text]) : Says R I P (Compile.emit text) := by
  refine ⟨fun s before t _ out run => ?_⟩
  obtain ⟨old,same,rfl⟩ := gives_emit.mp run
  rw [out] at same
  cases same
  exact ⟨Calm.aside s _ s.current,[text],rfl,holds⟩

omit [Calm R] in
theorem of_tells (step : Tells R I T c) (holds : P []) : Says R I P c := by
  refine ⟨fun s before t frame out run => ?_⟩
  obtain ⟨related,same,_⟩ := step.run s () t frame run
  exact ⟨related,[],by simp [same,out],holds⟩

omit [Calm R] in
theorem fail (e : Failure) : Says R I P (Compile.fail e) := ⟨fun _ _ _ _ _ run => absurd run gives_fail⟩

omit [Calm R] in
theorem reject (message : String) : Says R I P (Compile.reject message) :=
  ⟨fun _ _ _ _ _ run => absurd run gives_reject⟩

omit [Calm R] in
theorem ite [Decidable p] (yes : p → Says R I P c) (no : ¬p → Says R I P d) :
    Says R I P (if p then c else d) := by
  split <;> rename_i h
  · exact yes h
  · exact no h

theorem after {c : Compile α} {f : α → Compile Unit} (first : Tells R I T c)
    (rest : ∀ a, T a → Says R I P (f a)) : Says R I P (c >>= f) := by
  refine ⟨fun s before t frame out run => ?_⟩
  obtain ⟨a,u,earlier,later⟩ := gives_bind.mp run
  obtain ⟨related,same,holds⟩ := first.run s a u frame earlier
  obtain ⟨related',lines,added,holds'⟩ := (rest a holds).run u before t
    (by rw [Calm.frames related]; exact frame) (same.trans out) later
  exact ⟨Calm.trans related related',lines,added,holds'⟩

theorem guarded [Decidable p] {c : Compile α} (first : Tells R I T c) (rest : Says R I P d) :
    Says R I P (if p then (c >>= fun _ => d) else d) :=
  ite (fun _ => after first fun _ _ => rest) fun _ => rest

theorem append (first : Says R I P c) (second : Says R I Q (f ()))
    (join : ∀ xs ys, P xs → Q ys → T (xs ++ ys)) : Says R I T (c >>= f) := by
  refine ⟨fun s before t frame out run => ?_⟩
  obtain ⟨u,earlier,later⟩ := gives_unit_bind.mp run
  obtain ⟨related,xs,added,holds⟩ := first.run s before u frame out earlier
  obtain ⟨related',ys,added',holds'⟩ := second.run u _ t
    (by rw [Calm.frames related]; exact frame) added later
  exact ⟨Calm.trans related related',xs ++ ys,by simp [added'],join xs ys holds holds'⟩

theorem line (rest : Says R I Q (f ())) (join : ∀ lines, Q lines → P (text :: lines)) :
    Says R I P (Compile.emit text >>= f) :=
  append (P := fun lines => lines = [text]) (emit rfl) rest fun xs ys hx hy => by
    simpa [hx] using join ys hy

theorem inline (step : Says R I P c) (join : ∀ lines, P lines → T (String.intercalate " " lines)) :
    Tells R I T (Compile.inline c) := by
  refine ⟨fun s text t frame run => ?_⟩
  obtain ⟨u,lines,inner,read,rfl,rfl⟩ := gives_inline.mp run
  obtain ⟨related,lines',added,holds⟩ := step.run { s with output := .block [] } [] u frame rfl inner
  have same : lines' = lines := by simpa [added,Code.entries?] using read
  subst same
  exact ⟨Calm.trans (Calm.aside s _ _) (Calm.trans related (Calm.aside u _ _)),rfl,join _ holds⟩

end Says

end LuauCompiler.Compile
