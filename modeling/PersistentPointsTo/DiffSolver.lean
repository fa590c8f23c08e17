import PersistentPointsTo.StoreSemantics
import PersistentPointsTo.TransferEffect

namespace PersistentPointsTo

/-! ### Diff propagation against full propagation

The solver is not part of this header. Over copy edges `src → dst` it visits keys in a fixed
order: `computeDiffPts(src, getPts(src))`, and when that reports a diff, `unionPts(dst, diff)`
with `getDiffPts(src)` for every successor `dst`; it repeats the visits until a pass in which no
`computeDiffPts` reports a diff. Full propagation instead makes `unionPts(dst, src)` on every
edge until no union changes a set. From a store whose propagated sets have already reached every
successor (`PropagatedWithin`), both loops stop on the least sets that every edge's constraint
holds of, so they agree. -/

section Edges

variable {Key Data : Type} [DecidableEq Key]

/-- The successors of `src` along the copy edges `E`. -/
def succs (E : List (Key × Key)) (src : Key) : List Key :=
  (E.filter fun e => e.1 = src).map Prod.snd

theorem mem_succs {E : List (Key × Key)} {src dst : Key} : dst ∈ succs E src ↔ (src, dst) ∈ E := by
  simp [succs]

/-- Every copy edge out of a key of `ns` has its source's set inside its destination's. -/
def EdgesClosed (E : List (Key × Key)) (ns : List Key) (σ : Key → Finset Data) : Prop :=
  ∀ e ∈ E, e.1 ∈ ns → σ e.1 ⊆ σ e.2

end Edges

section Bound

variable {Key Data ID : Type} [DecidableEq Key] [LinearOrder Data] [DecidableEq ID]
variable {c : PersistentPointsToCache ID Data}

omit [DecidableEq ID] in
/-- Every edge holds of the union of all sets put on the keys the store or the edges name, and
that valuation is empty off those finitely many keys. -/
theorem PersistentPTData.exists_edges_bound (s : PersistentPTData Key Data ID)
    (E : List (Key × Key)) (ns : List Key) :
    ∃ (K : Finset Key) (ρ : Key → Finset Data),
      EdgesClosed E ns ρ ∧ (∀ k ∉ K, ρ k = ∅) ∧ s.ptsOf c ≤ ρ := by
  let K := (s.ptsMap.keys ++ E.map Prod.fst ++ E.map Prod.snd).toFinset
  refine ⟨K, fun k => if k ∈ K then K.biUnion (s.ptsOf c) else ∅, fun e he _ => ?_,
    fun k hk => if_neg hk, fun k => ?_⟩
  · have h₁ : e.1 ∈ K := List.mem_toFinset.mpr
      (List.mem_append_left _ (List.mem_append_right _ (List.mem_map_of_mem _ he)))
    have h₂ : e.2 ∈ K := List.mem_toFinset.mpr (List.mem_append_right _ (List.mem_map_of_mem _ he))
    simp only [if_pos h₁, if_pos h₂, subset_refl]
  · dsimp only
    split_ifs with hk
    · exact Finset.subset_biUnion_of_mem _ hk
    · have hm : k ∉ s.ptsMap := fun hm => hk (List.mem_toFinset.mpr
        (List.mem_append_left _ (List.mem_append_left _ (AList.mem_keys.mpr hm))))
      simp [ptsOf, ptsId, valueAt_of_not_mem hm]

end Bound

/-! ### Full propagation -/

section Full

variable {Key Data ID : Type} [DecidableEq Key] [LinearOrder Data] [DecidableEq ID]
variable (c : PersistentPointsToCache ID Data)

/-- Full propagation along the copy edge `src → dst`: `unionPts(dst, src)`. -/
def propagateEdge (s : PersistentPTData Key Data ID) (e : Key × Key) :
    Bool × PersistentPTData Key Data ID :=
  s.unionPts c e.2 e.1

variable {c}

theorem propagateEdge_spec (s : PersistentPTData Key Data ID) (e : Key × Key) :
    (propagateEdge c s e).2.ptsOf c =
      Function.update (s.ptsOf c) e.2 (s.ptsOf c e.2 ∪ s.ptsOf c e.1) ∧
    ((propagateEdge c s e).1 = true ↔ (propagateEdge c s e).2.ptsOf c ≠ s.ptsOf c) := by
  obtain ⟨h₁, h₂⟩ := s.step_write (c := c) (rfl : (PTDataOp.unionPts e.2 e.1).write (s.ptsOf c) = _)
  refine ⟨h₁, (h₂ (propagateEdge c s e).1 rfl).trans ?_⟩
  rw [show (propagateEdge c s e).2 = s.step c (.unionPts e.2 e.1) from rfl, h₁, Ne, Ne,
    Function.update_eq_self_iff]

theorem ptsOf_le_propagateEdge (s : PersistentPTData Key Data ID) (e : Key × Key) :
    s.ptsOf c ≤ (propagateEdge c s e).2.ptsOf c := by
  rw [(propagateEdge_spec s e).1]
  exact PersistentPTData.subset_update_union _ _ _

variable {E : List (Key × Key)} {ns : List Key} {ρ : Key → Finset Data}

/-- A union along an edge out of `ns` keeps the sets below a valuation every such edge holds of. -/
theorem propagateEdge_le (hρ : EdgesClosed E ns ρ) {s : PersistentPTData Key Data ID}
    (hs : s.ptsOf c ≤ ρ) {e : Key × Key} (he : e ∈ E.filter fun e => e.1 ∈ ns) :
    (propagateEdge c s e).2.ptsOf c ≤ ρ := by
  obtain ⟨heE, hns⟩ := List.mem_filter.mp he
  rw [(propagateEdge_spec s e).1]
  intro k
  rw [Function.update_apply]
  split_ifs with hk
  · subst hk
    exact Finset.union_subset (hs _) ((hs _).trans (hρ e heE (of_decide_eq_true hns)))
  · exact hs k

/-- A union that changes nothing found its edge closed. -/
theorem closed_of_propagateEdge_fst (s : PersistentPTData Key Data ID) (e : Key × Key)
    (h : (propagateEdge c s e).1 = false) :
    (propagateEdge c s e).2.ptsOf c = s.ptsOf c ∧ s.ptsOf c e.1 ⊆ s.ptsOf c e.2 := by
  have hu : (propagateEdge c s e).2.ptsOf c = s.ptsOf c :=
    not_not.mp fun hn => by simp [(propagateEdge_spec s e).2.mpr hn] at h
  refine ⟨hu, ?_⟩
  have := congrFun ((propagateEdge_spec s e).1.symm.trans hu) e.2
  rw [Function.update_same] at this
  exact Finset.union_eq_left.mp this

/-! ### The full-propagation loop -/

variable {s p : PersistentPTData Key Data ID} {fuel : ℕ}

theorem le_fullSolve
    (hp : runUntilQuiet (propagateEdge c) (E.filter fun e => e.1 ∈ ns) fuel s = some p) :
    s.ptsOf c ≤ p.ptsOf c :=
  runUntilQuiet_induction (fun t : PersistentPTData Key Data ID => s.ptsOf c ≤ t.ptsOf c)
    (fun t e _ ht => ht.trans (ptsOf_le_propagateEdge t e)) le_rfl hp

theorem fullSolve_le (hρ : EdgesClosed E ns ρ) (h₀ : s.ptsOf c ≤ ρ)
    (hp : runUntilQuiet (propagateEdge c) (E.filter fun e => e.1 ∈ ns) fuel s = some p) :
    p.ptsOf c ≤ ρ :=
  runUntilQuiet_induction (fun t : PersistentPTData Key Data ID => t.ptsOf c ≤ ρ)
    (fun _ _ he ht => propagateEdge_le hρ ht he) h₀ hp

/-- A pass in which no union changes a set ends on sets every edge out of `ns` holds of. -/
theorem fullSolve_closed
    (hp : runUntilQuiet (propagateEdge c) (E.filter fun e => e.1 ∈ ns) fuel s = some p) :
    EdgesClosed E ns (p.ptsOf c) := by
  obtain ⟨s₀, -, hq, rfl⟩ := runUntilQuiet_eq_some (fun _ : PersistentPTData Key Data ID => True)
    (fun _ _ => trivial) fuel s p trivial hp
  obtain ⟨hfin, hall⟩ := runPass_quiet (fun _ : PersistentPTData Key Data ID => True)
    (PersistentPTData.ptsOf c) (fun e σ => σ e.1 ⊆ σ e.2)
    (fun s e _ _ hf => ⟨trivial, closed_of_propagateEdge_fst s e hf⟩) trivial hq
  intro e he hns
  rw [hfin]
  exact hall e (List.mem_filter.mpr ⟨he, decide_eq_true hns⟩)

/-- Each pass that changes a set raises their sizes over the keys a closed bound is non-empty on,
and the bound caps them, so the loop stops. -/
theorem fullSolve_isSome (s : PersistentPTData Key Data ID) (E : List (Key × Key))
    (ns : List Key) :
    ∃ B, ∀ fuel, B < fuel →
      (runUntilQuiet (propagateEdge c) (E.filter fun e => e.1 ∈ ns) fuel s).isSome := by
  obtain ⟨K, ρ, hρ, hK, h₀⟩ := s.exists_edges_bound (c := c) E ns
  have hle : ∀ t : PersistentPTData Key Data ID, t.ptsOf c ≤ ρ →
      (runPass (propagateEdge c) (E.filter fun e => e.1 ∈ ns) t).2.ptsOf c ≤ ρ :=
    fun _ => runPass_induction (fun t : PersistentPTData Key Data ID => t.ptsOf c ≤ ρ)
      (fun _ _ he ht => propagateEdge_le hρ ht he)
  refine ⟨∑ k ∈ K, (ρ k).card, fun fuel hfuel => ?_⟩
  exact runUntilQuiet_isSome (fun t : PersistentPTData Key Data ID => t.ptsOf c ≤ ρ)
    (fun t => ∑ k ∈ K, (t.ptsOf c k).card) _ hle
    (fun _ ht => Finset.sum_le_sum fun k _ => Finset.card_le_card (ht k))
    (fun t ht hb => sum_card_lt_sum_card (runPass_mono ptsOf_le_propagateEdge _ t)
      ((runPass_fst_iff ptsOf_le_propagateEdge (fun t e => (propagateEdge_spec t e).2) _ t).mp hb)
      (hle t ht) hK) fuel s h₀ (by omega)

end Full

/-! ### Diff propagation -/

section Diff

variable {Key Data ID : Type} [DecidableEq Key] [LinearOrder Data] [DecidableEq ID]
variable (c : PersistentPointsToCache ID Data) (E : List (Key × Key))

/-- `unionPts(dst, getDiffPts(src))`: the successor `dst` receives the diff of `src`. -/
def pushDiff (src : Key) (s : PersistentDiffPTData Key Data ID) (dst : Key) :
    PersistentDiffPTData Key Data ID :=
  let r := s.getDiffPts c src
  (r.2.unionPtsData c dst r.1).2

/-- The solver's visit of `src`: `computeDiffPts(src, getPts(src))`, and when it reports a diff,
the diff pushed to every successor of `src`. The visit returns what `computeDiffPts` returned. -/
def diffVisit (s : PersistentDiffPTData Key Data ID) (src : Key) :
    Bool × PersistentDiffPTData Key Data ID :=
  let r := s.getPts c src
  let d := r.2.computeDiffPts c src r.1
  (d.1, if d.1 then (succs E src).foldl (pushDiff c src) d.2 else d.2)

/-- What the diff solver relies on: every propagated set lies inside its key's set and has
already reached every successor of its key. -/
structure PropagatedWithin (s : PersistentDiffPTData Key Data ID) : Prop where
  propa_subset_pts : ∀ k, s.propaOf c k ⊆ s.ptsOf c k
  propa_subset_succ : ∀ e ∈ E, s.propaOf c e.1 ⊆ s.ptsOf c e.2

variable {c E}

theorem sets_getPts (s : PersistentDiffPTData Key Data ID) (k : Key) :
    (s.getPts c k).2.sets c = s.sets c :=
  s.sets_step (.base (.getPts k))

theorem sets_computeDiffPts (s : PersistentDiffPTData Key Data ID) (k : Key) (all : Finset Data) :
    (s.computeDiffPts c k all).2.sets c =
      ⟨(s.sets c).pts, Function.update (s.sets c).diff k (all \ (s.sets c).propa k),
        Function.update (s.sets c).propa k all⟩ :=
  s.sets_step (.computeDiffPts k all)

theorem sets_pushDiff (s : PersistentDiffPTData Key Data ID) (src dst : Key) :
    (pushDiff c src s dst).sets c =
      ⟨Function.update (s.sets c).pts dst ((s.sets c).pts dst ∪ (s.sets c).diff src),
        (s.sets c).diff, (s.sets c).propa⟩ := by
  show ((s.step c (.getDiffPts src)).step c (.base (.unionPtsData dst (s.diffOf c src)))).sets c = _
  rw [PersistentDiffPTData.sets_step, PersistentDiffPTData.sets_step]
  exact congrArg (fun σ => (⟨σ, s.diffOf c, s.propaOf c⟩ : DiffSets Key Data))
    (PTDataOp.apply_of_write rfl)

/-- Pushing the diff of `src` to each key of `L` joins it into their sets and nothing else. -/
theorem sets_foldl_pushDiff (src : Key) (L : List Key) (s : PersistentDiffPTData Key Data ID) :
    (L.foldl (pushDiff c src) s).sets c =
      ⟨fun k => if k ∈ L then (s.sets c).pts k ∪ (s.sets c).diff src else (s.sets c).pts k,
        (s.sets c).diff, (s.sets c).propa⟩ := by
  induction L generalizing s with
  | nil => rfl
  | cons dst L ih =>
    rw [List.foldl_cons, ih, sets_pushDiff]
    simp only [DiffSets.mk.injEq, and_true]
    funext k
    by_cases hk : k = dst
    · subst hk; simp [Finset.union_assoc]
    · simp [Function.update_noteq hk, hk]

/-- A visit of `src` marks all of `src`'s set propagated, and when some of it was not, joins that
diff into every successor. -/
theorem sets_diffVisit (s : PersistentDiffPTData Key Data ID) (src : Key) :
    (diffVisit c E s src).2.sets c =
      ⟨fun k => if k ∈ succs E src then s.ptsOf c k ∪ (s.ptsOf c src \ s.propaOf c src)
        else s.ptsOf c k,
        Function.update (s.diffOf c) src (s.ptsOf c src \ s.propaOf c src),
        Function.update (s.propaOf c) src (s.ptsOf c src)⟩ := by
  have h₂ := sets_computeDiffPts (c := c) (s.getPts c src).2 src (s.getPts c src).1
  rw [sets_getPts] at h₂
  have hflag := (PersistentDiffPTData.computeDiffPts_spec (c := c) (s.getPts c src).2 src src
    (s.getPts c src).1).1
  simp only [diffVisit]
  split_ifs with hb
  · rw [sets_foldl_pushDiff, h₂]
    simp only [Function.update_same]
    rfl
  · have hD : s.ptsOf c src \ s.propaOf c src = ∅ := not_not.mp fun hn => hb (hflag.mpr hn)
    rw [h₂]
    refine congrArg (fun σ => (⟨σ, _, _⟩ : DiffSets Key Data)) (funext fun k => ?_)
    show s.ptsOf c k = if k ∈ succs E src then s.ptsOf c k ∪ (s.ptsOf c src \ s.propaOf c src)
      else s.ptsOf c k
    rw [hD, Finset.union_empty, ite_self]

theorem diffVisit_fst (s : PersistentDiffPTData Key Data ID) (src : Key) :
    (diffVisit c E s src).1 = true ↔ s.ptsOf c src \ s.propaOf c src ≠ ∅ :=
  (PersistentDiffPTData.computeDiffPts_spec (c := c) (s.getPts c src).2 src src (s.ptsOf c src)).1

theorem ptsOf_diffVisit (s : PersistentDiffPTData Key Data ID) (src k : Key) :
    (diffVisit c E s src).2.ptsOf c k = if k ∈ succs E src then
      s.ptsOf c k ∪ (s.ptsOf c src \ s.propaOf c src) else s.ptsOf c k :=
  congrFun (congrArg DiffSets.pts (sets_diffVisit s src)) k

theorem propaOf_diffVisit (s : PersistentDiffPTData Key Data ID) (src : Key) :
    (diffVisit c E s src).2.propaOf c = Function.update (s.propaOf c) src (s.ptsOf c src) :=
  congrArg DiffSets.propa (sets_diffVisit s src)

theorem ptsOf_le_diffVisit (s : PersistentDiffPTData Key Data ID) (src : Key) :
    s.ptsOf c ≤ (diffVisit c E s src).2.ptsOf c := by
  intro k
  rw [ptsOf_diffVisit]
  split_ifs
  · exact Finset.subset_union_left
  · exact subset_refl _

/-- A visit keeps what the propagated sets have reached. -/
theorem PropagatedWithin.diffVisit {s : PersistentDiffPTData Key Data ID}
    (h : PropagatedWithin c E s) (src : Key) : PropagatedWithin c E (diffVisit c E s src).2 := by
  have hle := ptsOf_le_diffVisit (c := c) (E := E) s src
  refine ⟨fun k => ?_, fun e he => ?_⟩
  · rw [propaOf_diffVisit, Function.update_apply]
    split_ifs with hk
    · subst hk; exact hle k
    · exact (h.propa_subset_pts k).trans (hle k)
  · rw [propaOf_diffVisit, Function.update_apply, ptsOf_diffVisit]
    split_ifs with h₁ h₂
    · subst h₁
      intro x hx
      by_cases hxp : x ∈ s.propaOf c e.1
      · exact Finset.mem_union_left _ (h.propa_subset_succ e he hxp)
      · exact Finset.mem_union_right _ (Finset.mem_sdiff.mpr ⟨hx, hxp⟩)
    · exact absurd (mem_succs.mpr (h₁ ▸ he)) h₂
    · exact (h.propa_subset_succ e he).trans Finset.subset_union_left
    · exact h.propa_subset_succ e he

variable {ns : List Key} {ρ : Key → Finset Data}

/-- A visit of a key of `ns` keeps the sets below a valuation every edge out of `ns` holds of. -/
theorem diffVisit_le (hρ : EdgesClosed E ns ρ) {s : PersistentDiffPTData Key Data ID}
    (hs : s.ptsOf c ≤ ρ) {src : Key} (hsrc : src ∈ ns) : (diffVisit c E s src).2.ptsOf c ≤ ρ := by
  intro k
  rw [ptsOf_diffVisit]
  split_ifs with hk
  · exact Finset.union_subset (hs k)
      (Finset.sdiff_subset.trans ((hs src).trans (hρ _ (mem_succs.mp hk) hsrc)))
  · exact hs k

/-- A visit that reports no diff changes no set and finds every edge out of its key closed. -/
theorem closed_of_diffVisit_fst {s : PersistentDiffPTData Key Data ID}
    (h : PropagatedWithin c E s) {src : Key} (hf : (diffVisit c E s src).1 = false) :
    (diffVisit c E s src).2.ptsOf c = s.ptsOf c ∧
      ∀ dst, (src, dst) ∈ E → s.ptsOf c src ⊆ s.ptsOf c dst := by
  have hD : s.ptsOf c src \ s.propaOf c src = ∅ :=
    not_not.mp fun hn => by simp [(diffVisit_fst s src).mpr hn] at hf
  refine ⟨funext fun k => by simp [ptsOf_diffVisit, hD], fun dst he => ?_⟩
  exact (Finset.sdiff_eq_empty_iff_subset.mp hD).trans (h.propa_subset_succ _ he)

/-- The solver's measure over the keys `K`: the sizes of the points-to and propagated sets. -/
theorem diffVisit_measure {K : Finset Key} (hK : ∀ k ∉ K, ρ k = ∅)
    {s : PersistentDiffPTData Key Data ID} (h : PropagatedWithin c E s) (hs : s.ptsOf c ≤ ρ)
    (src : Key) :
    (∑ k ∈ K, ((s.ptsOf c k).card + (s.propaOf c k).card) ≤
      ∑ k ∈ K, (((diffVisit c E s src).2.ptsOf c k).card +
        ((diffVisit c E s src).2.propaOf c k).card)) ∧
    ((diffVisit c E s src).1 = true →
      ∑ k ∈ K, ((s.ptsOf c k).card + (s.propaOf c k).card) <
        ∑ k ∈ K, (((diffVisit c E s src).2.ptsOf c k).card +
          ((diffVisit c E s src).2.propaOf c k).card)) := by
  have hpts := ptsOf_le_diffVisit (c := c) (E := E) s src
  have hpropa : s.propaOf c ≤ (diffVisit c E s src).2.propaOf c := by
    intro k
    rw [propaOf_diffVisit, Function.update_apply]
    split_ifs with hk
    · subst hk; exact h.propa_subset_pts k
    · exact subset_refl _
  have hpoint : ∀ k ∈ K, (s.ptsOf c k).card + (s.propaOf c k).card ≤
      ((diffVisit c E s src).2.ptsOf c k).card + ((diffVisit c E s src).2.propaOf c k).card :=
    fun k _ => Nat.add_le_add (Finset.card_le_card (hpts k)) (Finset.card_le_card (hpropa k))
  refine ⟨Finset.sum_le_sum hpoint, fun ht => Finset.sum_lt_sum hpoint ⟨src, ?_, ?_⟩⟩
  · by_contra hn
    have hD := (diffVisit_fst s src).mp ht
    have h₀ : s.ptsOf c src = ∅ := Finset.subset_empty.mp (hK src hn ▸ hs src)
    exact hD (by rw [h₀, Finset.empty_sdiff])
  · have hlt : s.propaOf c src ⊂ (diffVisit c E s src).2.propaOf c src := by
      rw [propaOf_diffVisit, Function.update_same]
      refine Finset.ssubset_iff_subset_ne.mpr ⟨h.propa_subset_pts src, fun he => ?_⟩
      exact (diffVisit_fst s src).mp ht (by rw [he, Finset.sdiff_self])
    exact Nat.add_lt_add_of_le_of_lt (Finset.card_le_card (hpts src)) (Finset.card_lt_card hlt)

/-- The calls of the base interface that remove nothing keep what the propagated sets have
reached. -/
theorem PropagatedWithin.stepBase {s : PersistentDiffPTData Key Data ID}
    (h : PropagatedWithin c E s) {op : PTDataOp Key Data} (hg : PersistentPTData.Growing op) :
    PropagatedWithin c E (s.step c (.base op)) := by
  have hc : op ≠ .clear := by rintro rfl; exact hg
  have hp : ∀ k, (s.step c (.base op)).propaOf c k = s.propaOf c k :=
    fun k => (PersistentDiffPTData.diffOf_stepBase s hc k).2
  have hm : ∀ k, s.ptsOf c k ⊆ (s.step c (.base op)).ptsOf c k := fun k => by
    change _ ⊆ (s.stepBase c op).persPTData.ptsOf c k
    rw [PersistentDiffPTData.persPTData_stepBase]
    exact s.persPTData.ptsOf_step_mono hg k
  exact ⟨fun k => hp k ▸ (h.propa_subset_pts k).trans (hm k),
    fun e he => hp e.1 ▸ (h.propa_subset_succ e he).trans (hm e.2)⟩

omit [DecidableEq ID] in
/-- `updatePropaPtsMap(src, dst)` keeps of `dst`'s propagated set only what `src`'s holds too, so
`dst` may take over every edge out of `src`. -/
theorem PropagatedWithin.updatePropaPtsMap {s : PersistentDiffPTData Key Data ID}
    (h : PropagatedWithin c E s) (src dst : Key) :
    PropagatedWithin c (E ++ (succs E src).map fun y => (dst, y))
      (s.updatePropaPtsMap c src dst) := by
  have hpr := fun k => (PersistentDiffPTData.updatePropaPtsMap_spec (c := c) s src dst k).2.2
  have hsub : ∀ k, (s.updatePropaPtsMap c src dst).propaOf c k ⊆ s.propaOf c k := fun k => by
    rw [hpr]
    split_ifs with hk
    · subst hk; exact Finset.inter_subset_left
    · exact subset_refl _
  refine ⟨fun k => (hsub k).trans (h.propa_subset_pts k), fun e he => ?_⟩
  rcases List.mem_append.mp he with he | he
  · exact (hsub e.1).trans (h.propa_subset_succ e he)
  · obtain ⟨y, hy, rfl⟩ := List.mem_map.mp he
    rw [hpr, if_pos rfl]
    exact Finset.inter_subset_right.trans (h.propa_subset_succ _ (mem_succs.mp hy))

omit [DecidableEq ID] in
/-- After `clearPropaPts(var)`, edges out of `var` may be added: nothing of `var` counts as
propagated. -/
theorem PropagatedWithin.clearPropaPts {s : PersistentDiffPTData Key Data ID}
    (h : PropagatedWithin c E s) {var : Key} {E' : List (Key × Key)}
    (hE : ∀ e ∈ E', e.1 ≠ var → e ∈ E) : PropagatedWithin c E' (s.clearPropaPts c var) := by
  have hpr := fun k => (PersistentDiffPTData.clearPropaPts_spec (c := c) s var k).2.2
  refine ⟨fun k => ?_, fun e he => ?_⟩
  · rw [hpr]
    split_ifs
    · exact Finset.empty_subset _
    · exact h.propa_subset_pts k
  · rw [hpr]
    split_ifs with hk
    · exact Finset.empty_subset _
    · exact h.propa_subset_succ e (hE e he hk)

omit [DecidableEq ID] in
theorem PropagatedWithin.of_propaOf_eq_empty {s : PersistentDiffPTData Key Data ID}
    (h : ∀ k, s.propaOf c k = ∅) : PropagatedWithin c E s :=
  ⟨fun k => h k ▸ Finset.empty_subset _, fun e _ => h e.1 ▸ Finset.empty_subset _⟩

/-! ### The diff solver's loop -/

variable {s d : PersistentDiffPTData Key Data ID} {fuel : ℕ}

theorem le_diffSolve (hd : runUntilQuiet (diffVisit c E) ns fuel s = some d) :
    s.ptsOf c ≤ d.ptsOf c :=
  runUntilQuiet_induction (fun t : PersistentDiffPTData Key Data ID => s.ptsOf c ≤ t.ptsOf c)
    (fun t src _ ht => ht.trans (ptsOf_le_diffVisit t src)) le_rfl hd

theorem diffSolve_le (hρ : EdgesClosed E ns ρ) (h₀ : s.ptsOf c ≤ ρ)
    (hd : runUntilQuiet (diffVisit c E) ns fuel s = some d) : d.ptsOf c ≤ ρ :=
  runUntilQuiet_induction (fun t : PersistentDiffPTData Key Data ID => t.ptsOf c ≤ ρ)
    (fun _ _ hsrc ht => diffVisit_le hρ ht hsrc) h₀ hd

/-- A pass of visits that reports no diff ends on sets every edge out of `ns` holds of. -/
theorem diffSolve_closed (h : PropagatedWithin c E s)
    (hd : runUntilQuiet (diffVisit c E) ns fuel s = some d) : EdgesClosed E ns (d.ptsOf c) := by
  obtain ⟨s₀, hs₀, hq, rfl⟩ := runUntilQuiet_eq_some (PropagatedWithin c E)
    (fun _ h => runPass_induction _ (fun _ src _ ht => ht.diffVisit src) h) fuel s d h hd
  obtain ⟨hfin, hall⟩ := runPass_quiet (PropagatedWithin c E) (PersistentDiffPTData.ptsOf c)
    (fun src σ => ∀ dst, (src, dst) ∈ E → σ src ⊆ σ dst)
    (fun _ src _ ht hf => ⟨ht.diffVisit src, closed_of_diffVisit_fst ht hf⟩) hs₀ hq
  intro e he hns
  rw [hfin]
  exact hall e.1 hns e.2 he

/-- Each pass that reports a diff raises the sizes of the points-to and propagated sets over the
keys a closed bound is non-empty on, and the bound caps them, so the loop stops. -/
theorem diffSolve_isSome (h : PropagatedWithin c E s) :
    ∃ B, ∀ fuel, B < fuel → (runUntilQuiet (diffVisit c E) ns fuel s).isSome := by
  obtain ⟨K, ρ, hρ, hK, h₀⟩ := s.persPTData.exists_edges_bound (c := c) E ns
  have hstep : ∀ (t : PersistentDiffPTData Key Data ID) src, src ∈ ns →
      PropagatedWithin c E t ∧ t.ptsOf c ≤ ρ →
      PropagatedWithin c E (diffVisit c E t src).2 ∧ (diffVisit c E t src).2.ptsOf c ≤ ρ :=
    fun _ src hsrc ht => ⟨ht.1.diffVisit src, diffVisit_le hρ ht.2 hsrc⟩
  refine ⟨∑ k ∈ K, ((ρ k).card + (ρ k).card), fun fuel hfuel => ?_⟩
  exact runUntilQuiet_isSome (fun t => PropagatedWithin c E t ∧ t.ptsOf c ≤ ρ)
    (fun t => ∑ k ∈ K, ((t.ptsOf c k).card + (t.propaOf c k).card)) _
    (fun _ ht => runPass_induction _ hstep ht)
    (fun _ ht => Finset.sum_le_sum fun k _ => Nat.add_le_add (Finset.card_le_card (ht.2 k))
      (Finset.card_le_card ((ht.1.propa_subset_pts k).trans (ht.2 k))))
    (fun _ ht hb => runPass_measure _ _ (fun t src hsrc ht =>
      ⟨hstep t src hsrc ht, (diffVisit_measure hK ht.1 ht.2 src).1,
        (diffVisit_measure hK ht.1 ht.2 src).2⟩) ht hb)
    fuel s ⟨h, h₀⟩ (by omega)

end Diff

/-! ### The diff solver against full propagation -/

section Agreement

variable {Key Data ID : Type} [DecidableEq Key] [LinearOrder Data] [DecidableEq ID]
variable {c : PersistentPointsToCache ID Data}

/-- Under `PropagatedWithin`, the diff solver's loop stops, on the least sets above its start that
every copy edge out of the visited keys holds of. -/
theorem diff_solver_stops_on_least_solution (s : PersistentDiffPTData Key Data ID)
    (E : List (Key × Key)) (ns : List Key) (h : PropagatedWithin c E s) :
    (∃ B, ∀ fuel, B < fuel → (runUntilQuiet (diffVisit c E) ns fuel s).isSome) ∧
    ∀ fuel d, runUntilQuiet (diffVisit c E) ns fuel s = some d →
      EdgesClosed E ns (d.ptsOf c) ∧ s.ptsOf c ≤ d.ptsOf c ∧
      ∀ ρ, EdgesClosed E ns ρ → s.ptsOf c ≤ ρ → d.ptsOf c ≤ ρ :=
  ⟨diffSolve_isSome h, fun _ _ hd =>
    ⟨diffSolve_closed h hd, le_diffSolve hd, fun _ hρ h₀ => diffSolve_le hρ h₀ hd⟩⟩

theorem diff_solver_on_a_cycle :
    let c : PersistentPointsToCache (Finset ℕ) ℕ := finsetCache ℕ
    let s₀ : PersistentDiffPTData ℕ ℕ (Finset ℕ) :=
      (PersistentDiffPTData.init false).step c (.base (.addPts 0 5))
    let E : List (ℕ × ℕ) := [(0, 1), (1, 2), (2, 0)]
    PropagatedWithin c E s₀ ∧
    (∃ B, ∀ fuel, B < fuel → (runUntilQuiet (diffVisit c E) [0, 1, 2] fuel s₀).isSome) ∧
    ∀ fuel d, runUntilQuiet (diffVisit c E) [0, 1, 2] fuel s₀ = some d →
      EdgesClosed E [0, 1, 2] (d.ptsOf c) ∧ s₀.ptsOf c ≤ d.ptsOf c ∧
      ∀ ρ, EdgesClosed E [0, 1, 2] ρ → s₀.ptsOf c ≤ ρ → d.ptsOf c ≤ ρ :=
  ⟨.of_propaOf_eq_empty fun _ => rfl,
    diff_solver_stops_on_least_solution _ _ _ (.of_propaOf_eq_empty fun _ => rfl)⟩

/- Without `PropagatedWithin` the loop can stop short: after `computeDiffPts(0, {5})` with nothing
pushed, the edge `0 → 1` never receives `5`, which full propagation gives it. -/
example :
    let c : PersistentPointsToCache (Finset ℕ) ℕ := finsetCache ℕ
    let s₁ : PersistentDiffPTData ℕ ℕ (Finset ℕ) :=
      ((PersistentDiffPTData.init false).step c (.base (.addPts 0 5))).step c
        (.computeDiffPts 0 {5})
    (runUntilQuiet (diffVisit c [(0, 1)]) [0] 2 s₁).map (fun d => d.ptsOf c 1) = some ∅ ∧
      (runUntilQuiet (propagateEdge c) [(0, 1)] 2 s₁.persPTData).map (fun p => p.ptsOf c 1) =
        some {5} := by
  decide

/-- Diff propagation computes what full propagation computes: under `PropagatedWithin`, both loops
stop, on the same points-to sets. -/
theorem diff_solver_agrees_with_full_propagation (s : PersistentDiffPTData Key Data ID)
    (E : List (Key × Key)) (ns : List Key) (h : PropagatedWithin c E s) :
    (∃ B, ∀ fuel, B < fuel → (runUntilQuiet (diffVisit c E) ns fuel s).isSome ∧
      (runUntilQuiet (propagateEdge c) (E.filter fun e => e.1 ∈ ns) fuel s.persPTData).isSome) ∧
    ∀ fuel₁ fuel₂ d p, runUntilQuiet (diffVisit c E) ns fuel₁ s = some d →
      runUntilQuiet (propagateEdge c) (E.filter fun e => e.1 ∈ ns) fuel₂ s.persPTData = some p →
      d.ptsOf c = p.ptsOf c := by
  obtain ⟨B₁, hB₁⟩ := fullSolve_isSome (c := c) s.persPTData E ns
  obtain ⟨B₂, hB₂⟩ : ∃ B, ∀ fuel, B < fuel → (runUntilQuiet (diffVisit c E) ns fuel s).isSome :=
    diffSolve_isSome h
  refine ⟨⟨B₁ + B₂, fun fuel hf => ⟨hB₂ fuel (by omega), hB₁ fuel (by omega)⟩⟩,
    fun _ _ d p hd hp => le_antisymm ?_ ?_⟩
  · exact diffSolve_le (fullSolve_closed hp) (le_fullSolve hp) hd
  · exact fullSolve_le (diffSolve_closed h hd) (le_diffSolve hd) hp

theorem diff_and_full_propagation_on_a_cycle :
    let c : PersistentPointsToCache (Finset ℕ) ℕ := finsetCache ℕ
    let s₀ : PersistentDiffPTData ℕ ℕ (Finset ℕ) :=
      (PersistentDiffPTData.init false).step c (.base (.addPts 0 5))
    let E : List (ℕ × ℕ) := [(0, 1), (1, 2), (2, 0)]
    PropagatedWithin c E s₀ ∧
    (∃ B, ∀ fuel, B < fuel → (runUntilQuiet (diffVisit c E) [0, 1, 2] fuel s₀).isSome ∧
      (runUntilQuiet (propagateEdge c) (E.filter fun e => e.1 ∈ [0, 1, 2]) fuel
        s₀.persPTData).isSome) ∧
    ∀ fuel₁ fuel₂ d p, runUntilQuiet (diffVisit c E) [0, 1, 2] fuel₁ s₀ = some d →
      runUntilQuiet (propagateEdge c) (E.filter fun e => e.1 ∈ [0, 1, 2]) fuel₂
        s₀.persPTData = some p →
      d.ptsOf c = p.ptsOf c :=
  ⟨.of_propaOf_eq_empty fun _ => rfl,
    diff_solver_agrees_with_full_propagation _ _ _ (.of_propaOf_eq_empty fun _ => rfl)⟩

/-- `PropagatedWithin` survives the base calls that remove nothing and the solver's visits;
`updatePropaPtsMap` lets edges be taken over and `clearPropaPts` lets edges be added. -/
theorem propagated_within_kept (s : PersistentDiffPTData Key Data ID) (E : List (Key × Key))
    (h : PropagatedWithin c E s) :
    (∀ op, PersistentPTData.Growing op → PropagatedWithin c E (s.step c (.base op))) ∧
    (∀ src, PropagatedWithin c E (diffVisit c E s src).2) ∧
    (∀ src dst, PropagatedWithin c (E ++ (succs E src).map fun y => (dst, y))
      (s.updatePropaPtsMap c src dst)) ∧
    (∀ var E', (∀ e ∈ E', e.1 ≠ var → e ∈ E) → PropagatedWithin c E' (s.clearPropaPts c var)) :=
  ⟨fun _ hg => h.stepBase hg, h.diffVisit, h.updatePropaPtsMap,
    fun _ _ hE => h.clearPropaPts hE⟩

theorem propagated_within_after_a_visit :
    let c : PersistentPointsToCache (Finset ℕ) ℕ := finsetCache ℕ
    let E : List (ℕ × ℕ) := [(0, 1)]
    let s₁ : PersistentDiffPTData ℕ ℕ (Finset ℕ) :=
      (diffVisit c E ((PersistentDiffPTData.init false).step c (.base (.addPts 0 5))) 0).2
    s₁.propaOf c 0 = {5} ∧ s₁.ptsOf c 1 = {5} ∧ PropagatedWithin c E s₁ ∧
    (∀ op, PersistentPTData.Growing op → PropagatedWithin c E (s₁.step c (.base op))) ∧
    (∀ src, PropagatedWithin c E (diffVisit c E s₁ src).2) ∧
    (∀ src dst, PropagatedWithin c (E ++ (succs E src).map fun y => (dst, y))
      (s₁.updatePropaPtsMap c src dst)) ∧
    (∀ var E', (∀ e ∈ E', e.1 ≠ var → e ∈ E) → PropagatedWithin c E' (s₁.clearPropaPts c var)) :=
  have h₀ : PropagatedWithin (finsetCache ℕ) [(0, 1)]
      ((PersistentDiffPTData.init false).step (finsetCache ℕ) (.base (.addPts 0 5))) :=
    .of_propaOf_eq_empty fun _ => rfl
  ⟨by decide, by decide, h₀.diffVisit 0, propagated_within_kept _ _ (h₀.diffVisit 0)⟩

end Agreement

end PersistentPointsTo
