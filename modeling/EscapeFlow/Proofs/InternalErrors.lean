import EscapeFlow.Proofs.AnalysisRun
import EscapeFlow.Proofs.Batches
import EscapeFlow.Proofs.DraftTables
import EscapeFlow.Proofs.WellFormed

/-!
# Which failures are the fault of the input

An analysis that fails says so with an error, and the error blames either the program or the
analysis itself.  The checks of a draft look at the operand of each address only, and refuse one
that is an address or the result of a call.  They accept a part of one, as in `&(&x).a`, and then
the analysis stops on a hole that takes the address of an address (`internal_error_of_fresh_part`),
or, for a call, may stop on a tee of a hole that takes an address.  It stops on no other error of
its own, and on these for no other reason:

    d.build = .ok p → c.validate = .ok () → (analyze c p m).result = .error e →
      e.isInput = true ∨ e.isHoleFault = true ∧ p.TakesFreshPart      (analyze_error_isInput_or)

The part that matters is building, where holes are shifted on the way through expressions and
summaries (`build_gives`).  What is left of the analysis fails on functions that are unknown or
summarised twice, and both are faults of the input.
-/

namespace EscapeFlow

open BatchGraph

/-! ## Failures of a computation -/

/-- If the computation fails, `P` holds of the error. -/
def FailsWith (P : Error → Prop) {α : Type} (x : Except Error α) : Prop :=
  ∀ e, x = .error e → P e

namespace FailsWith

variable {P : Error → Prop} {α β : Type}

theorem ok (a : α) : FailsWith P (.ok a) := nofun

theorem error {e : Error} (h : P e) : FailsWith P (.error e : Except Error α) := by
  intro e' he
  cases he
  exact h

theorem bind {x : Except Error α} {f : α → Except Error β} (hx : FailsWith P x)
    (hf : ∀ a, FailsWith P (f a)) : FailsWith P (x >>= f) := by
  intro e he
  rcases bind_eq_error.1 he with he | ⟨a, -, he⟩
  · exact hx e he
  · exact hf a e he

theorem map {x : Except Error α} (hx : FailsWith P x) (f : α → β) : FailsWith P (x.map f) := by
  cases x with
  | ok a => exact ok (f a)
  | error e => exact error (hx e rfl)

theorem mapM {f : α → Except Error β} {xs : List α} (h : ∀ a ∈ xs, FailsWith P (f a)) :
    FailsWith P (xs.mapM f) := by
  intro e he
  obtain ⟨a, ha, hfa⟩ := exists_of_mapM_eq_error he
  exact h a ha e hfa

theorem foldlM {f : β → α → Except Error β} {xs : List α}
    (h : ∀ a ∈ xs, ∀ b, FailsWith P (f b a)) (b : β) : FailsWith P (xs.foldlM f b) := by
  induction xs generalizing b with
  | nil => exact ok b
  | cons a xs ih =>
    rw [List.foldlM_cons]
    refine (h a List.mem_cons_self b).bind fun b' => ?_
    exact ih (fun a' ha' => h a' (List.mem_cons_of_mem _ ha')) b'

end FailsWith

/-! ## Parts of values that are made on the spot -/

namespace Expr

/-- The address of a field, or of an element of an array, that belongs to a value which is made
when the expression is evaluated. -/
def isFreshPartAddress : Expr → Bool
  | .addrOf (.field base _) | .addrOf (.index .array base _) => base.root.isFresh
  | _ => false

/-- What is addressable is a header that gets a cell, a part of something else, or no value that is
made on the spot. -/
theorem needsCell_or_of_isAddressable {x : Expr} (hx : x.isAddressable = true)
    (h : isFreshPartAddress (.addrOf x) = false) :
    Build.needsCell x = true ∨ x.root.isFresh = false := by
  cases x with
  | field base name => exact .inr h
  | index kind base i => cases kind <;> exact .inr h
  | composite kind s es => cases kind <;> first | exact .inl rfl | exact .inr rfl
  | mapLit s es => exact .inl rfl
  | addrOf _ | call _ _ | new _ | closure _ _ => cases hx
  | _ => exact .inr rfl

end Expr

/-- The body of some function that is analysed takes the address of a part of a value that is made
on the spot. -/
def Program.TakesFreshPart (p : Program) : Prop :=
  ∃ b ∈ (Plan.ofProgram p).batches, ∃ f ∈ b.functions, ∃ decl, p.function? f = some decl ∧
    ∃ e ∈ bodyExprs decl.stmts, e.isFreshPartAddress = true

/-- The operand of each address in a program that is accepted is addressable. -/
theorem Draft.isAddressable_of_build {d : Draft} {p : Program} (h : d.build = .ok p) {f : FuncId}
    {decl : Function} (hf : p.function? f = some decl) {x : Expr}
    (hx : .addrOf x ∈ bodyExprs decl.stmts) : x.isAddressable = true := by
  have hfault : (if x.isAddressable then none else _) = (none : Option Error) :=
    (checked_of_build h hf).2 _ hx
  by_contra hnot
  rw [if_neg hnot] at hfault
  cases hfault

/-! ## The stages of an analysis -/

section

variable {P : Error → Prop} (hP : ∀ e, e.isInput = true → P e)

include hP

theorem BatchGraph.declarations_failsWith (p : Program) (fs : List FuncId) :
    FailsWith P (declarations p fs) := by
  refine .mapM fun f _ => ?_
  cases p.function? f with
  | some decl => exact .ok decl
  | none => exact .error (hP _ rfl)

theorem Report.merge_failsWith (r : Report) (out : BatchOutput) : FailsWith P (r.merge out) := by
  have hinsert : ∀ (s : SummaryStore) (x : Summary), FailsWith P (s.insert x) := by
    intro s x
    unfold SummaryStore.insert
    split
    · exact .error (hP _ rfl)
    · exact .ok _
  unfold merge
  exact (FailsWith.foldlM (fun x _ s => hinsert s x) r.summaries).bind fun _ => .ok _

/-- Going through the waves of a plan fails as the batches do, or on the input. -/
theorem Analysis.analyze_failsWith {m : Machine} {c : Config} {p : Program}
    (hc : c.validate = .ok ())
    (h : ∀ b ∈ (Plan.ofProgram p).batches, ∀ summary?,
      FailsWith P (BatchRun.analyze c p b summary? m.adder)) :
    FailsWith P (analyze c p m).result := by
  have hwave : ∀ w ∈ numberedWaves p, ∀ r, FailsWith P (runWave m c p r w).result := by
    intro w hw r
    rw [result_runWave]
    refine FailsWith.bind (fun e he => ?_) fun outs => ?_
    · obtain ⟨b, hb, he⟩ := exists_of_outputs_eq_error he
      refine h b (Plan.mem_flatten_waves.1 (List.mem_flatten.2 ⟨w.2, ?_, hb⟩)) _ e he
      rw [← map_snd_numberedWaves]
      exact List.mem_map.2 ⟨w, hw, rfl⟩
    · exact .foldlM (fun out _ r => r.merge_failsWith hP out) r
  unfold analyze
  rw [Traced.result_bind]
  refine .bind ?_ fun _ => ?_
  · unfold checkConfig
    rw [hc]
    exact .ok ()
  · rw [result_runProgram, Traced.result_foldlM]
    exact (FailsWith.foldlM hwave {}).bind fun r => .ok _

end

/-- Building fails on the input or on a hole, and on a hole only if the address of a value that is
made on the spot, or of a part of one, is taken. -/
theorem BatchGraph.build_failsWith {p : Program} {fs : List FuncId}
    (summary? : FuncId → Option Summary) (o : BuildOptions) {fresh : Prop}
    (h : ¬ fresh → ∀ f ∈ fs, ∀ decl, p.function? f = some decl → ∀ x,
      .addrOf x ∈ bodyExprs decl.stmts → Build.needsCell x = true ∨ x.root.isFresh = false) :
    FailsWith (fun e => e.isInput = true ∨ e.isHoleFault = true ∧ fresh)
      (build p fs summary? o) := by
  intro e he
  cases hds : declarations p fs with
  | error e' =>
    unfold build at he
    rw [hds] at he
    cases he
    exact .inl (declarations_failsWith (fun _ => id) p fs _ hds)
  | ok ds =>
    let W : Watch := ⟨scene p fs summary? o ds, fun _ => False, ¬ fresh⟩
    have hadmits : ∀ d ∈ ds, ∀ a ∈ bodyExprs d.stmts, W.Admits a := by
      intro d hd a ha
      obtain ⟨f, hf, hfd⟩ := mem_of_forall₂ (forall₂_of_declarations hds) hd
      refine ⟨fun _ _ hlit => hlit.elim, ?_⟩
      rintro hstrict x rfl
      exact h hstrict f hf d hfd x ha
    have hgives := build_gives (W := W) hds rfl hadmits
    rw [he] at hgives
    exact hgives.imp_right fun hfault => ⟨hfault.2, not_not.1 hfault.1⟩

/-- The analysis of a program that is accepted, under a configuration that is valid, fails on the
input, or it takes the address of a part of a value that is made on the spot and fails on a hole. -/
theorem analyze_error_isInput_or {d : Draft} {p : Program} (hp : d.build = .ok p) {m : Machine}
    {c : Config} (hc : c.validate = .ok ()) {e : Error} (h : (analyze c p m).result = .error e) :
    e.isInput = true ∨ e.isHoleFault = true ∧ p.TakesFreshPart := by
  refine Analysis.analyze_failsWith
    (P := fun e => e.isInput = true ∨ e.isHoleFault = true ∧ p.TakesFreshPart)
    (fun _ => .inl) hc (fun b hb summary? => ?_) e h
  rw [BatchRun.analyze_eq]
  refine (build_failsWith summary? _ fun hfresh f hf decl hdecl x hx => ?_).map _
  refine Expr.needsCell_or_of_isAddressable (Draft.isAddressable_of_build hp hdecl hx) ?_
  by_contra hpart
  exact hfresh ⟨b, hb, f, hf, decl, hdecl, _, hx, Bool.eq_true_of_not_eq_false hpart⟩

/-- A function that stores the address of a field of `whole` in a variable and returns `values`. -/
def addressOfField (whole : Expr) (values : List Expr) : Program where
  functions := #[
    { id := ⟨0⟩
      name := "f"
      locals := [⟨0⟩, ⟨1⟩]
      body := some [.assign [.ident ⟨1⟩] [.addrOf (.field whole "a")], .ret values] }]
  vars := #[⟨⟨0⟩, "x", .localVar, some ⟨0⟩⟩, ⟨⟨1⟩, "y", .localVar, some ⟨0⟩⟩]

theorem analyze_error_isInput_or_count :
    ∃ p e, (⟨p, 0⟩ : Draft).build = .ok p ∧
      (analyze (Config.ofPreset .custom) p).result = .error e ∧ ¬ p.TakesFreshPart ∧
      e.isInput = true := by
  let p := addressOfField (.ident ⟨0⟩) [.ident ⟨0⟩]
  have hbuild : (⟨p, 0⟩ : Draft).build = .ok p := by cbv
  have herror : (analyze (Config.ofPreset .custom) p).result =
      .error (.malformed (.returnCount "f" 1 0)) := by cbv
  have hparts : (p.functions.toList.flatMap fun decl => bodyExprs decl.stmts).all
      (!·.isFreshPartAddress) = true := by cbv
  have hfresh : ¬ p.TakesFreshPart := by
    rintro ⟨b, -, f, -, decl, hdecl, e, he, hpart⟩
    have hmem := Array.mem_toList_iff.2 (Array.mem_of_getElem? hdecl)
    have hnot := List.all_eq_true.1 hparts e (List.mem_flatMap.2 ⟨decl, hmem, he⟩)
    rw [hpart] at hnot
    cases hnot
  refine ⟨p, _, hbuild, herror, hfresh, ?_⟩
  exact (analyze_error_isInput_or hbuild rfl herror).resolve_right fun h => hfresh h.2

/-- A program that is accepted and whose analysis fails on a hole. -/
theorem internal_error_of_fresh_part :
    ∃ (d : Draft) (p : Program), d.Made ∧ d.build = .ok p ∧
      (Config.ofPreset .custom).validate = .ok () ∧
      (analyze (Config.ofPreset .custom) p).result =
        .error (.internal (.holeBelowAddress (-2))) := by
  let p := addressOfField (.addrOf (.ident ⟨0⟩)) []
  have hf := ((Draft.Made.empty.function "f").localVar ⟨0⟩ "x").localVar ⟨0⟩ "y"
  refine ⟨⟨p, 0⟩, p, .setBody (f := ⟨0⟩) hf rfl, ?_, rfl, ?_⟩
  all_goals cbv

end EscapeFlow
