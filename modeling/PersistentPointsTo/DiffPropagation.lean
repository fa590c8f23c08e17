import PersistentPointsTo.ExactUpdate

namespace PersistentPointsTo

namespace PersistentPTData

variable {Key Data ID : Type} [DecidableEq Key] [LinearOrder Data] [DecidableEq ID]
variable {c : PersistentPointsToCache ID Data}

/-- The base calls that remove no element from any set: everything but the three clears. -/
def Growing : PTDataOp Key Data → Prop
  | .clear | .clearPts _ _ | .clearFullPts _ => False
  | _ => True

theorem subset_update_union {α : Type} [DecidableEq α] (σ : α → Finset Data) (dst : α)
    (X : Finset Data) (k : α) : σ k ⊆ Function.update σ dst (σ dst ∪ X) k := by
  rw [Function.update_apply]
  split_ifs with hk
  · subst hk; exact Finset.subset_union_left
  · exact Finset.Subset.refl _

/-- A call that removes nothing leaves every points-to set at least as large. -/
theorem ptsOf_step_mono (s : PersistentPTData Key Data ID) {op : PTDataOp Key Data}
    (h : Growing op) (k : Key) : s.ptsOf c k ⊆ (s.step c op).ptsOf c k := by
  cases op with
  | clear | clearPts | clearFullPts => exact h.elim
  | getPts var => simp [step, getPts]
  | getRevPts data =>
    simp only [step, getRevPts]
    split_ifs <;> exact Finset.Subset.refl _
  | addPts dst e =>
    rw [(s.step_write (rfl : (PTDataOp.addPts dst e).write (s.ptsOf c) = _)).1]
    exact subset_update_union _ _ _ _
  | unionPts dst src =>
    rw [(s.step_write (rfl : (PTDataOp.unionPts dst src).write (s.ptsOf c) = _)).1]
    exact subset_update_union _ _ _ _
  | unionPtsData dst ds =>
    rw [(s.step_write (rfl : (PTDataOp.unionPtsData dst ds).write (s.ptsOf c) = _)).1]
    exact subset_update_union _ _ _ _

end PersistentPTData

namespace PersistentDiffPTData

variable {Key Data ID : Type} [DecidableEq Key] [LinearOrder Data] [DecidableEq ID]
variable {c : PersistentPointsToCache ID Data}

/-- A solver's calls: `computeDiffPts(k, S)` only with `S = getPts(k)`. -/
def SolverCall (c : PersistentPointsToCache ID Data) (s : PersistentDiffPTData Key Data ID) :
    DiffPTDataOp Key Data → Prop
  | .computeDiffPts var all => all = s.ptsOf c var
  | _ => True

/-- The solver's calls without `clearPts` and `clearFullPts`. -/
def GrowingCall (c : PersistentPointsToCache ID Data) (s : PersistentDiffPTData Key Data ID) :
    DiffPTDataOp Key Data → Prop
  | .base (.clearPts _ _) | .base (.clearFullPts _) => False
  | op => SolverCall c s op

/-- A run from `s` whose every call satisfies `P` in the state it is made in. -/
def Follows (c : PersistentPointsToCache ID Data)
    (P : PersistentDiffPTData Key Data ID → DiffPTDataOp Key Data → Prop) :
    PersistentDiffPTData Key Data ID → List (DiffPTDataOp Key Data) → Prop
  | _, [] => True
  | s, op :: ops => P s op ∧ Follows c P (s.step c op) ops

/-- The set the last `computeDiffPts(k, ·)` was passed, updated by one call; `clear` forgets
it, as the store forgets every set. -/
def lastComputedStep (last : Key → Finset Data) : DiffPTDataOp Key Data → Key → Finset Data
  | .base .clear => fun _ => ∅
  | .computeDiffPts var all => Function.update last var all
  | _ => last

/-- The set the last `computeDiffPts(k, ·)` of a run since its last `clear` was passed, `∅` if
there was none. -/
def lastComputed (ops : List (DiffPTDataOp Key Data)) : Key → Finset Data :=
  ops.foldl lastComputedStep fun _ => ∅

omit [LinearOrder Data] in
theorem lastComputedStep_base (last : Key → Finset Data) {op : PTDataOp Key Data}
    (h : op ≠ .clear) : lastComputedStep last (.base op) = last := by
  cases op
  case clear => exact absurd rfl h
  all_goals rfl

omit [DecidableEq ID] in
@[simp] theorem propaOf_clear (s : PersistentDiffPTData Key Data ID) (k : Key) :
    s.clear.propaOf c k = ∅ := by
  simp [clear, propaOf, propaId]

omit [DecidableEq ID] in
@[simp] theorem ptsOf_clear (s : PersistentDiffPTData Key Data ID) (k : Key) :
    s.clear.ptsOf c k = ∅ := by
  simp [clear, ptsOf]

/-- What the propagated sets keep to along a run without removals: each lies inside its key's
points-to set and inside the set last passed to `computeDiffPts` for the key. -/
def PropaInv (c : PersistentPointsToCache ID Data) (s : PersistentDiffPTData Key Data ID)
    (last : Key → Finset Data) : Prop :=
  ∀ k, s.propaOf c k ⊆ s.ptsOf c k ∧ s.propaOf c k ⊆ last k

omit [DecidableEq ID] in
theorem PropaInv.init (reversePT : Bool) :
    PropaInv c (init reversePT : PersistentDiffPTData Key Data ID) fun _ => ∅ := fun k => by
  simp [PersistentDiffPTData.init, propaOf, propaId]

theorem PropaInv.step {s : PersistentDiffPTData Key Data ID} {last : Key → Finset Data}
    (h : PropaInv c s last) {op : DiffPTDataOp Key Data} (hop : GrowingCall c s op) :
    PropaInv c (s.step c op) (lastComputedStep last op) := by
  intro k
  cases op with
  | base op =>
    by_cases hc : op = .clear
    · subst hc; simp [PersistentDiffPTData.step, stepBase]
    -- not `clear`, and the run makes no `clearPts` or `clearFullPts`
    have hg : PersistentPTData.Growing op := by cases op <;> trivial
    have hp : (s.stepBase c op).propaOf c k = s.propaOf c k := (diffOf_stepBase s hc k).2
    have hm : s.ptsOf c k ⊆ (s.stepBase c op).ptsOf c k := by
      change _ ⊆ (s.stepBase c op).persPTData.ptsOf c k
      rw [persPTData_stepBase]; exact s.persPTData.ptsOf_step_mono hg k
    simp only [PersistentDiffPTData.step, lastComputedStep_base last hc, hp]
    exact ⟨(h k).1.trans hm, (h k).2⟩
  | getDiffPts var => exact h k
  | computeDiffPts var all =>
    have hall : all = s.ptsOf c var := hop
    obtain ⟨-, hp, -, hpr⟩ := computeDiffPts_spec (c := c) s var k all
    have hpts : (s.computeDiffPts c var all).2.ptsOf c k = s.ptsOf c k := by
      simp only [ptsOf, hp]
    simp only [PersistentDiffPTData.step, lastComputedStep, hpr, hpts, Function.update_apply]
    split_ifs with hk
    · subst hk; exact ⟨hall.le, le_rfl⟩
    · exact h k
  | updatePropaPtsMap src dst =>
    obtain ⟨hp, -, hpr⟩ := updatePropaPtsMap_spec (c := c) s src dst k
    have hsub : (s.updatePropaPtsMap c src dst).propaOf c k ⊆ s.propaOf c k := by
      rw [hpr]; split_ifs with hk
      · subst hk; exact Finset.inter_subset_left
      · exact Finset.Subset.refl _
    simp only [PersistentDiffPTData.step, lastComputedStep, ptsOf, hp]
    exact ⟨hsub.trans (h k).1, hsub.trans (h k).2⟩
  | clearPropaPts var =>
    obtain ⟨hp, -, hpr⟩ := clearPropaPts_spec (c := c) s var k
    have hsub : (s.clearPropaPts c var).propaOf c k ⊆ s.propaOf c k := by
      rw [hpr]; split_ifs <;> simp
    simp only [PersistentDiffPTData.step, lastComputedStep, ptsOf, hp]
    exact ⟨hsub.trans (h k).1, hsub.trans (h k).2⟩

theorem PropaInv.foldl {s : PersistentDiffPTData Key Data ID} {last : Key → Finset Data}
    (h : PropaInv c s last) {ops : List (DiffPTDataOp Key Data)} (hops : Follows c (GrowingCall c) s ops) :
    PropaInv c (ops.foldl (PersistentDiffPTData.step c) s) (ops.foldl lastComputedStep last) := by
  induction ops generalizing s last with
  | nil => exact h
  | cons op ops ih => exact ih (h.step hops.1) hops.2

/-- `computeDiffPts(k, getPts(k))` when `propa[k]` lies inside `getPts(k)` and the last set
passed: the diff is what is new, returned iff non-empty, and holds all added since. -/
theorem computeDiffPts_of_propa_subset (s : PersistentDiffPTData Key Data ID) (k : Key)
    {last : Finset Data} (hpts : s.propaOf c k ⊆ s.ptsOf c k) (hlast : s.propaOf c k ⊆ last) :
    (s.computeDiffPts c k (s.ptsOf c k)).2.diffOf c k = s.ptsOf c k \ s.propaOf c k ∧
    (s.computeDiffPts c k (s.ptsOf c k)).2.diffOf c k ∪ s.propaOf c k = s.ptsOf c k ∧
    ((s.computeDiffPts c k (s.ptsOf c k)).1 = true ↔ s.ptsOf c k \ s.propaOf c k ≠ ∅) ∧
    s.ptsOf c k \ last ⊆ (s.computeDiffPts c k (s.ptsOf c k)).2.diffOf c k := by
  obtain ⟨h1, -, h3, -⟩ := computeDiffPts_spec (c := c) s k k (s.ptsOf c k)
  rw [if_pos rfl] at h3
  exact ⟨h3, by rw [h3, Finset.sdiff_union_of_subset hpts], h1,
    h3 ▸ Finset.sdiff_subset_sdiff le_rfl hlast⟩

/-- After `addPts(0, 1)`, `computeDiffPts(0, {1})` and `clearPts(0, 1)`, 1 is still propagated for
key 0, which no longer points to it. -/
theorem propa_not_subset_after_clearPts :
    Follows (finsetCache ℕ) (SolverCall (finsetCache ℕ)) (init false)
      [.base (.addPts 0 1), .computeDiffPts 0 {1}, .base (.clearPts 0 1)] ∧
    ¬ (([.base (.addPts 0 1), .computeDiffPts 0 {1}, .base (.clearPts 0 1)] :
      List (DiffPTDataOp ℕ ℕ)).foldl (step (finsetCache ℕ)) (init false : PersistentDiffPTData ℕ ℕ _)).propaOf
        (finsetCache ℕ) 0 ⊆
      (([.base (.addPts 0 1), .computeDiffPts 0 {1}, .base (.clearPts 0 1)] :
      List (DiffPTDataOp ℕ ℕ)).foldl (step (finsetCache ℕ)) (init false : PersistentDiffPTData ℕ ℕ _)).ptsOf
        (finsetCache ℕ) 0 :=
  ⟨⟨trivial, by unfold SolverCall; decide, trivial, trivial⟩, by decide⟩

/-- Without `clearPts` and `clearFullPts`, a solver run keeps `propa[k] ⊆ getPts(k)`, and the
next `computeDiffPts(k, getPts(k))` reports every element added since the previous one. -/
theorem propa_subset_without_removal (reversePT : Bool) (ops : List (DiffPTDataOp Key Data))
    (hops : Follows c (GrowingCall c) (init reversePT) ops) (k : Key) :
    let s := ops.foldl (step c) (init reversePT)
    s.propaOf c k ⊆ s.ptsOf c k ∧
    (s.computeDiffPts c k (s.ptsOf c k)).2.diffOf c k = s.ptsOf c k \ s.propaOf c k ∧
    (s.computeDiffPts c k (s.ptsOf c k)).2.diffOf c k ∪ s.propaOf c k = s.ptsOf c k ∧
    ((s.computeDiffPts c k (s.ptsOf c k)).1 = true ↔ s.ptsOf c k \ s.propaOf c k ≠ ∅) ∧
    s.ptsOf c k \ lastComputed ops k ⊆ (s.computeDiffPts c k (s.ptsOf c k)).2.diffOf c k := by
  intro s
  obtain ⟨hpts, hlast⟩ := (PropaInv.init (c := c) reversePT).foldl hops k
  exact ⟨hpts, computeDiffPts_of_propa_subset s k hpts hlast⟩

theorem propa_subset_after_clear_and_readd :
    let ops : List (DiffPTDataOp ℕ ℕ) :=
      [.base (.addPts 0 1), .computeDiffPts 0 {1}, .base .clear, .base (.addPts 0 1)]
    let s : PersistentDiffPTData ℕ ℕ (Finset ℕ) := ops.foldl (step (finsetCache ℕ)) (init false)
    Follows (finsetCache ℕ) (GrowingCall (finsetCache ℕ)) (init false) ops ∧
    s.ptsOf (finsetCache ℕ) 0 \ lastComputed ops 0 = {1} ∧
    (s.propaOf (finsetCache ℕ) 0 ⊆ s.ptsOf (finsetCache ℕ) 0 ∧
    (s.computeDiffPts (finsetCache ℕ) 0 (s.ptsOf (finsetCache ℕ) 0)).2.diffOf (finsetCache ℕ) 0 =
      s.ptsOf (finsetCache ℕ) 0 \ s.propaOf (finsetCache ℕ) 0 ∧
    (s.computeDiffPts (finsetCache ℕ) 0 (s.ptsOf (finsetCache ℕ) 0)).2.diffOf (finsetCache ℕ) 0 ∪
      s.propaOf (finsetCache ℕ) 0 = s.ptsOf (finsetCache ℕ) 0 ∧
    ((s.computeDiffPts (finsetCache ℕ) 0 (s.ptsOf (finsetCache ℕ) 0)).1 = true ↔
      s.ptsOf (finsetCache ℕ) 0 \ s.propaOf (finsetCache ℕ) 0 ≠ ∅) ∧
    s.ptsOf (finsetCache ℕ) 0 \ lastComputed ops 0 ⊆
      (s.computeDiffPts (finsetCache ℕ) 0 (s.ptsOf (finsetCache ℕ) 0)).2.diffOf (finsetCache ℕ) 0) :=
  have h : Follows (finsetCache ℕ) (GrowingCall (finsetCache ℕ))
      (init false : PersistentDiffPTData ℕ ℕ (Finset ℕ))
      [.base (.addPts 0 1), .computeDiffPts 0 {1}, .base .clear, .base (.addPts 0 1)] :=
    ⟨trivial, by unfold GrowingCall SolverCall; decide, trivial, trivial, trivial⟩
  ⟨h, by decide, propa_subset_without_removal false _ h 0⟩

end PersistentDiffPTData

end PersistentPointsTo
