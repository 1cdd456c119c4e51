import EscapeFlow.Program.Basic
import Mathlib.Data.Finset.Card
import Mathlib.Logic.Relation

/-!
# Functions inside functions

A closure lies in the function it is written in and in all functions around that one.  What a
chain of enclosing functions leads to, it leads to in no more steps than there are functions, for
a chain that is longer comes to some function twice and can be cut (`StepsOut.shorten`).  So the
bounded search for an enclosing function misses none, circles or not:

    p.containsClosure g f ↔ f ≠ g ∧ p.LiesIn f g                      (containsClosure_iff)
    c ∈ p.nestedClosures f ↔ c ≠ f ∧ p.LiesIn c f                     (mem_nestedClosures_iff)

Where no chain comes back to where it was, the bounded climb gets to its end:

    p.outermost f = g ↔ p.LiesIn f g ∧ p.enclosing? g = none          (outermost_eq_iff)
-/

namespace EscapeFlow.Program

open Relation

/-- Each function stores its position in the table, which is a natural number of any size. -/
def Indexed (p : Program) : Prop := ∀ f decl, p.function? f = some decl → decl.id = f

/-- `f` is `g` or a closure inside `g`, at any depth. -/
abbrev LiesIn (p : Program) : FuncId → FuncId → Prop :=
  ReflTransGen fun f g => p.enclosing? f = some g

/-- Chains of enclosing functions stay in the table and have no circle. -/
structure WellNested (p : Program) : Prop where
  inTable : ∀ f g, p.enclosing? f = some g → (p.function? g).isSome
  acyclic : ∀ f, ¬ TransGen (fun f g => p.enclosing? f = some g) f f

def Acyclic (p : Program) : Prop := ∀ f, ¬ TransGen (fun f g => p.enclosing? f = some g) f f

variable {p : Program}

instance : Coe p.WellNested p.Acyclic := ⟨WellNested.acyclic⟩

/-! ## The table -/

theorem function?_isSome {f : FuncId} : (p.function? f).isSome ↔ f.index < p.functions.size := by
  simp [function?]

theorem function?_of_enclosing? {f g : FuncId} (h : p.enclosing? f = some g) :
    (p.function? f).isSome := by
  unfold enclosing? at h
  cases hf : p.function? f with
  | none => simp [hf] at h
  | some decl => rfl

theorem Indexed.mem_functions (hp : p.Indexed) {decl : Function} :
    decl ∈ p.functions.toList ↔ p.function? decl.id = some decl := by
  rw [Array.mem_toList_iff, Array.mem_iff_getElem?]
  constructor
  · rintro ⟨i, hi⟩
    rw [hp ⟨i⟩ decl hi]
    exact hi
  · exact fun h => ⟨decl.id.index, h⟩

/-- The handles stored in a table are its positions in order if each entry stores its own. -/
theorem map_eq_range {α β : Type} {xs : Array α} {handle : α → β} {mk : Nat → β}
    (h : ∀ i x, xs[i]? = some x → handle x = mk i) :
    xs.toList.map handle = (List.range xs.size).map mk := by
  refine List.ext_getElem (by simp) fun i h₁ h₂ => ?_
  have hi : i < xs.size := by simpa using h₁
  rw [List.getElem_map, List.getElem_map, List.getElem_range]
  exact h i _ (Array.getElem?_eq_getElem hi)

theorem Indexed.ids_eq (hp : p.Indexed) :
    p.functions.toList.map (·.id) = (List.range p.functions.size).map FuncId.mk :=
  map_eq_range fun i decl h => hp ⟨i⟩ decl h

theorem indexed_of_ids
    (h : p.functions.toList.map (·.id) = (List.range p.functions.size).map FuncId.mk) :
    p.Indexed := by
  intro f decl hf
  have hlt := function?_isSome.1 (hf ▸ rfl : (p.function? f).isSome)
  have hid : (p.functions.toList.map (·.id))[f.index]? = some decl.id := by
    rw [List.getElem?_map, Array.getElem?_toList, show p.functions[f.index]? = some decl from hf]
    rfl
  rw [h, List.getElem?_map, List.getElem?_range hlt] at hid
  exact (Option.some.inj hid).symm

/-- No two entries of the table store the same handle. -/
theorem Indexed.nodup_ids (hp : p.Indexed) : (p.functions.toList.map (·.id)).Nodup := by
  rw [hp.ids_eq]
  exact List.nodup_range.map fun _ _ => FuncId.mk.inj

/-- Closures that come after the function they lie in cannot lie in a circle. -/
theorem wellNested_of_lt (h : ∀ f g, p.enclosing? f = some g → g.index < f.index) :
    p.WellNested where
  inTable f g hfg := by
    have hf := function?_isSome.1 (function?_of_enclosing? hfg)
    exact function?_isSome.2 (Nat.lt_trans (h f g hfg) hf)
  acyclic f hcircle := by
    have hlt : ∀ g, TransGen (fun f g => p.enclosing? f = some g) f g → g.index < f.index := by
      intro g hg
      induction hg with
      | single hstep => exact h _ _ hstep
      | tail _ hstep ih => exact Nat.lt_trans (h _ _ hstep) ih
    exact Nat.lt_irrefl _ (hlt f hcircle)

theorem Indexed.wellNested (hp : p.Indexed)
    (h : ∀ decl ∈ p.functions.toList, ∀ g ∈ decl.enclosing, g.index < decl.id.index) :
    p.WellNested := by
  refine wellNested_of_lt fun f g hfg => ?_
  obtain ⟨decl, hf, hg⟩ := Option.bind_eq_some_iff.1 hfg
  have hid := hp f decl hf
  have hlt := h decl (hp.mem_functions.2 (hid ▸ hf)) g hg
  rwa [hid] at hlt

/-! ## Climbing -/

theorem climb_succ (n : Nat) (f : FuncId) :
    p.climb (n + 1) f = (p.enclosing? (p.climb n f)).getD (p.climb n f) := by
  induction n generalizing f with
  | zero =>
    unfold climb climb
    cases p.enclosing? f <;> rfl
  | succ n ih =>
    rw [climb, climb]
    cases h : p.enclosing? f with
    | none => simp [h]
    | some g => exact ih g

theorem liesIn_climb (n : Nat) (f : FuncId) : p.LiesIn f (p.climb n f) := by
  induction n with
  | zero => exact .refl
  | succ n ih =>
    rw [climb_succ]
    cases h : p.enclosing? (p.climb n f) with
    | none => exact ih
    | some g => exact ih.tail h

/-- Where a climb has not ended, each step went on to another function. -/
theorem transGen_climb {n m : Nat} (hnm : n < m) {f : FuncId}
    (h : ∀ k, n ≤ k → k < m → (p.enclosing? (p.climb k f)).isSome) :
    TransGen (fun f g => p.enclosing? f = some g) (p.climb n f) (p.climb m f) := by
  induction m, hnm using Nat.le_induction with
  | base =>
    obtain ⟨g, hg⟩ := Option.isSome_iff_exists.1 (h n (Nat.le_refl _) (Nat.lt_succ_self _))
    rw [climb_succ, hg]
    exact .single hg
  | succ m hm ih =>
    obtain ⟨g, hg⟩ := Option.isSome_iff_exists.1 (h m (by omega) (Nat.lt_succ_self _))
    rw [climb_succ, hg]
    exact (ih fun k hk hkm => h k hk (by omega)).tail hg

theorem climb_of_top {n : Nat} {f : FuncId} (h : p.enclosing? (p.climb n f) = none) {m : Nat}
    (hm : n ≤ m) : p.climb m f = p.climb n f := by
  induction m, hm using Nat.le_induction with
  | base => rfl
  | succ m _ ih =>
    rw [climb_succ, ih, h]
    rfl

/-- There are more places on a climb of as many steps as there are functions, so if all of them are
functions of the program, one is met twice. -/
theorem exists_climb_eq {f : FuncId}
    (h : ∀ k, k ≤ p.functions.size → (p.function? (p.climb k f)).isSome) :
    ∃ i j, i < j ∧ j ≤ p.functions.size ∧ p.climb i f = p.climb j f := by
  obtain ⟨i, hi, j, hj, hij, heq⟩ :=
    Finset.exists_ne_map_eq_of_card_lt_of_maps_to (s := Finset.range (p.functions.size + 1))
      (t := Finset.range p.functions.size) (f := fun k => (p.climb k f).index) (by simp) (by
        intro k hk
        simpa using function?_isSome.1 (h k (by simpa [Nat.lt_succ_iff] using hk)))
  simp only [Finset.mem_range] at hi hj
  rcases Nat.lt_or_gt_of_ne hij with hlt | hlt
  · exact ⟨i, j, hlt, by omega, congrArg FuncId.mk heq⟩
  · exact ⟨j, i, hlt, by omega, congrArg FuncId.mk heq.symm⟩

/-- After as many steps as there are functions a climb has ended, or it goes round in a circle. -/
theorem climb_top_or_circle (f : FuncId) :
    p.enclosing? (p.climb p.functions.size f) = none ∨
      ∃ g, p.LiesIn f g ∧ TransGen (fun f g => p.enclosing? f = some g) g g := by
  by_contra! hend
  obtain ⟨hend, hacyclic⟩ := hend
  have hsome : ∀ k, k ≤ p.functions.size → (p.enclosing? (p.climb k f)).isSome := by
    intro k hk
    rw [Option.isSome_iff_ne_none]
    intro h
    exact hend (by rw [climb_of_top h hk, h])
  obtain ⟨i, j, hij, hj, heq⟩ := exists_climb_eq fun k hk => by
    obtain ⟨g, hg⟩ := Option.isSome_iff_exists.1 (hsome k hk)
    exact function?_of_enclosing? hg
  have hgen := transGen_climb hij fun k _ hk => hsome k (by omega)
  rw [← heq] at hgen
  exact hacyclic _ (liesIn_climb i f) hgen

theorem Acyclic.climb_top (hn : p.Acyclic) (f : FuncId) :
    p.enclosing? (p.climb p.functions.size f) = none :=
  (climb_top_or_circle f).resolve_right fun ⟨g, _, hg⟩ => hn g hg

/-! ## Outermost functions -/

theorem LiesIn.eq_of_top {f g : FuncId} (h : p.LiesIn f g) (hf : p.enclosing? f = none) :
    g = f := by
  rcases h.cases_head with rfl | ⟨x, hx, -⟩
  · rfl
  · rw [hf] at hx
    cases hx

theorem LiesIn.top_unique {f g h : FuncId} (hg : p.LiesIn f g) (hh : p.LiesIn f h)
    (hgt : p.enclosing? g = none) (hht : p.enclosing? h = none) : g = h := by
  induction hg using ReflTransGen.head_induction_on with
  | refl => exact (hh.eq_of_top hgt).symm
  | head hstep _ ih =>
    rcases hh.cases_head with rfl | ⟨x, hx, hrest⟩
    · rw [hht] at hstep
      cases hstep
    · rw [hstep] at hx
      cases hx
      exact ih hrest

/-- The outermost function is the one that the chain of enclosing functions ends with. -/
theorem Acyclic.outermost_eq_iff (hn : p.Acyclic) {f g : FuncId} :
    p.outermost f = g ↔ p.LiesIn f g ∧ p.enclosing? g = none := by
  have htop := hn.climb_top f
  have hout : p.outermost f = p.climb p.functions.size f :=
    climb_of_top htop (Nat.le_succ _)
  rw [hout]
  constructor
  · rintro rfl
    exact ⟨liesIn_climb _ f, htop⟩
  · rintro ⟨hg, hgt⟩
    exact (liesIn_climb _ f).top_unique hg htop hgt

theorem Acyclic.liesIn_outermost (hn : p.Acyclic) (f : FuncId) : p.LiesIn f (p.outermost f) :=
  (hn.outermost_eq_iff.1 rfl).1

theorem Acyclic.enclosing?_outermost (hn : p.Acyclic) (f : FuncId) :
    p.enclosing? (p.outermost f) = none :=
  (hn.outermost_eq_iff.1 rfl).2

theorem WellNested.outermost_eq_iff (hn : p.WellNested) {f g : FuncId} :
    p.outermost f = g ↔ p.LiesIn f g ∧ p.enclosing? g = none :=
  Acyclic.outermost_eq_iff hn

theorem WellNested.liesIn_outermost (hn : p.WellNested) (f : FuncId) :
    p.LiesIn f (p.outermost f) :=
  Acyclic.liesIn_outermost hn f

theorem function?_of_liesIn (hin : ∀ f g, p.enclosing? f = some g → (p.function? g).isSome)
    {f g : FuncId} (h : p.LiesIn f g) (hf : (p.function? f).isSome) : (p.function? g).isSome := by
  cases h with
  | refl => exact hf
  | tail _ hstep => exact hin _ _ hstep

theorem WellNested.function?_of_liesIn (hn : p.WellNested) {f g : FuncId} (h : p.LiesIn f g)
    (hf : (p.function? f).isSome) : (p.function? g).isSome :=
  Program.function?_of_liesIn hn.inTable h hf

/-! ## Steps outwards -/

/-- `n` steps outwards lead from one function to another. -/
def StepsOut (p : Program) : Nat → FuncId → FuncId → Prop
  | 0, f, g => f = g
  | n + 1, f, g => ∃ outer, p.enclosing? f = some outer ∧ p.StepsOut n outer g

namespace StepsOut

variable {f g h : FuncId} {m n : Nat}

theorem trans (hfg : p.StepsOut m f g) (hgh : p.StepsOut n g h) : p.StepsOut (m + n) f h := by
  induction m generalizing f with
  | zero =>
    cases hfg
    rwa [Nat.zero_add]
  | succ m ih =>
    obtain ⟨outer, hstep, hrest⟩ := hfg
    rw [Nat.succ_add]
    exact ⟨outer, hstep, ih hrest⟩

theorem climb_eq (hfg : p.StepsOut n f g) : p.climb n f = g := by
  induction n generalizing f with
  | zero => exact hfg
  | succ n ih =>
    obtain ⟨outer, hstep, hrest⟩ := hfg
    unfold climb
    rw [hstep]
    exact ih hrest

/-- Some steps lead to where a climb of as many steps ends, and the others go on from there. -/
theorem split (hfg : p.StepsOut (m + n) f g) :
    p.StepsOut m f (p.climb m f) ∧ p.StepsOut n (p.climb m f) g := by
  induction m generalizing f with
  | zero =>
    rw [Nat.zero_add] at hfg
    exact ⟨rfl, hfg⟩
  | succ m ih =>
    rw [Nat.succ_add] at hfg
    obtain ⟨outer, hstep, hrest⟩ := hfg
    obtain ⟨hfirst, hlast⟩ := ih hrest
    rw [climb, hstep]
    exact ⟨⟨outer, hstep, hfirst⟩, hlast⟩

theorem function?_climb (hfg : p.StepsOut n f g) {k : Nat} (hk : k < n) :
    (p.function? (p.climb k f)).isSome := by
  obtain ⟨d, rfl⟩ : ∃ d, n = k + (d + 1) := ⟨n - k - 1, by omega⟩
  obtain ⟨outer, hstep, -⟩ := hfg.split.2
  exact function?_of_enclosing? hstep

/-- A function that is met at all is met after at most as many steps as there are functions. -/
theorem shorten (hn : 0 < n) (hfg : p.StepsOut n f g) :
    ∃ k, 0 < k ∧ k ≤ p.functions.size ∧ p.StepsOut k f g := by
  induction n using Nat.strong_induction_on with
  | _ n ih =>
    by_cases hle : n ≤ p.functions.size
    · exact ⟨n, hn, hle, hfg⟩
    · -- the way from one place to itself is left out
      obtain ⟨i, j, hij, hj, heq⟩ :=
        exists_climb_eq fun k hk => hfg.function?_climb (show k < n by omega)
      obtain ⟨b, rfl⟩ : ∃ b, n = j + b := ⟨n - j, by omega⟩
      obtain ⟨a, rfl⟩ : ∃ a, j = i + a := ⟨j - i, by omega⟩
      have hlast := hfg.split.2
      rw [← heq] at hlast
      rw [Nat.add_assoc] at hfg
      exact ih (i + b) (by omega) (by omega) (hfg.split.1.trans hlast)

end StepsOut

theorem transGen_iff_stepsOut {f g : FuncId} :
    TransGen (fun f g => p.enclosing? f = some g) f g ↔ ∃ n, 0 < n ∧ p.StepsOut n f g := by
  constructor
  · intro h
    induction h using TransGen.head_induction_on with
    | single hstep => exact ⟨1, Nat.one_pos, _, hstep, rfl⟩
    | head hstep _ ih =>
      obtain ⟨n, -, hn⟩ := ih
      exact ⟨n + 1, Nat.succ_pos n, _, hstep, hn⟩
  · rintro ⟨n, hpos, h⟩
    induction n generalizing f with
    | zero => exact absurd hpos (Nat.lt_irrefl 0)
    | succ n ih =>
      obtain ⟨outer, hstep, hrest⟩ := h
      cases n with
      | zero =>
        cases hrest
        exact .single hstep
      | succ n => exact .head hstep (ih (Nat.succ_pos n) hrest)

/-! ## Closures -/

theorem meets_iff_stepsOut {outer : FuncId} {n : Nat} {f : FuncId} :
    p.meets outer n f = true ↔ ∃ k, k < n ∧ p.StepsOut (k + 1) f outer := by
  induction n generalizing f with
  | zero =>
    refine ⟨nofun, ?_⟩
    rintro ⟨k, hk, -⟩
    omega
  | succ n ih =>
    unfold meets
    cases hf : p.enclosing? f with
    | none =>
      refine ⟨nofun, ?_⟩
      rintro ⟨k, -, g, hg, -⟩
      rw [hf] at hg
      cases hg
    | some g =>
      simp only [Bool.or_eq_true, decide_eq_true_eq, ih]
      constructor
      · rintro (rfl | ⟨k, hk, hsteps⟩)
        · exact ⟨0, by omega, g, hf, rfl⟩
        · exact ⟨k + 1, by omega, g, hf, hsteps⟩
      · rintro ⟨k, hk, g', hg', hsteps⟩
        rw [hf] at hg'
        cases hg'
        cases k with
        | zero => exact .inl hsteps
        | succ k => exact .inr ⟨k, by omega, hsteps⟩

/-- A search of as many steps as there are functions, or more, misses no enclosing function. -/
theorem meets_iff_transGen {outer : FuncId} {n : Nat} (hn : p.functions.size ≤ n) {f : FuncId} :
    p.meets outer n f = true ↔ TransGen (fun f g => p.enclosing? f = some g) f outer := by
  rw [meets_iff_stepsOut, transGen_iff_stepsOut]
  constructor
  · rintro ⟨k, -, hsteps⟩
    exact ⟨k + 1, Nat.succ_pos k, hsteps⟩
  · rintro ⟨m, hm, hsteps⟩
    obtain ⟨k, hk, hle, hshort⟩ := hsteps.shorten hm
    exact ⟨k - 1, by omega, by rwa [Nat.sub_add_cancel hk]⟩

theorem containsClosure_iff_transGen {g f : FuncId} :
    p.containsClosure g f = true ↔
      g ≠ f ∧ TransGen (fun f g => p.enclosing? f = some g) f g := by
  unfold containsClosure
  rw [Bool.and_eq_true, decide_eq_true_eq, meets_iff_transGen (Nat.le_succ _)]

theorem containsClosure_iff {g f : FuncId} :
    p.containsClosure g f = true ↔ f ≠ g ∧ p.LiesIn f g := by
  rw [containsClosure_iff_transGen, ne_comm]
  refine and_congr_right fun hne => ?_
  rw [LiesIn, reflTransGen_iff_eq_or_transGen]
  exact ⟨.inr, fun h => h.resolve_left hne.symm⟩

theorem Indexed.mem_nestedClosures (hp : p.Indexed) {f c : FuncId} :
    c ∈ p.nestedClosures f ↔ (p.enclosing? c).isSome ∧ p.containsClosure f c = true := by
  unfold nestedClosures enclosing?
  simp only [List.mem_map, List.mem_filter, hp.mem_functions, Bool.and_eq_true, Function.isClosure]
  constructor
  · rintro ⟨decl, ⟨hdecl, hcl, hcont⟩, rfl⟩
    rw [hdecl]
    exact ⟨hcl, hcont⟩
  · rintro ⟨hcl, hcont⟩
    cases hdecl : p.function? c with
    | none => simp [hdecl] at hcl
    | some decl =>
      have hid := hp c decl hdecl
      rw [hdecl] at hcl
      exact ⟨decl, ⟨hid ▸ hdecl, hcl, hid ▸ hcont⟩, hid⟩

theorem Indexed.nodup_nestedClosures (hp : p.Indexed) (f : FuncId) :
    (p.nestedClosures f).Nodup :=
  hp.nodup_ids.sublist (List.filter_sublist.map _)

/-- The closures of a function are the other functions that lie in it. -/
theorem mem_nestedClosures_iff (hp : p.Indexed) {f c : FuncId} :
    c ∈ p.nestedClosures f ↔ c ≠ f ∧ p.LiesIn c f := by
  rw [hp.mem_nestedClosures, containsClosure_iff]
  constructor
  · exact fun h => h.2
  · rintro ⟨hne, hlies⟩
    refine ⟨?_, hne, hlies⟩
    rcases hlies.cases_head with rfl | ⟨g, hg, -⟩
    · exact absurd rfl hne
    · rw [hg]
      rfl

/-- No closure is inside two functions that lie in no other. -/
theorem disjoint_nestedClosures (hp : p.Indexed) {f g : FuncId} (hf : p.enclosing? f = none)
    (hg : p.enclosing? g = none) (hne : f ≠ g) :
    (p.nestedClosures f).Disjoint (p.nestedClosures g) := by
  intro c hcf hcg
  have hlies := ((mem_nestedClosures_iff hp).1 hcf).2
  have hlies' := ((mem_nestedClosures_iff hp).1 hcg).2
  exact hne (hlies.top_unique hlies' hf hg)

end EscapeFlow.Program
