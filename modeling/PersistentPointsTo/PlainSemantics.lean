import PersistentPointsTo.TransferEffect
import PersistentPointsTo.ExactUpdate

namespace PersistentPointsTo

/-! ### The sets a data-flow store is meant to hold

`DFPTDataOp.apply` gives the sets after each call from the sets before it. The plain store
computes it exactly; the incremental store, which skips the unions whose source is unflagged,
never holds more. -/

section Abstract

variable {Key Data LocID : Type} [DecidableEq Key] [DecidableEq LocID] [DecidableEq Data]

/-- The sets after a transfer: `dst ∪= src` for a single-destination transfer, and
`OUT[loc][k] ∪= IN[loc][k]` for every key but a strongly updated singleton for
`updateAllDFOutFromIn(loc, v, su)`. -/
def DFTransfer.apply (σ : Slot Key LocID → Finset Data) :
    DFTransfer Key LocID → Slot Key LocID → Finset Data
  | .updateAllDFOutFromIn loc v su => Slot.joinInToOut σ loc fun k => ¬(su = true ∧ k = v)
  | .clearAllDFOutUpdatedVar _ => σ
  | t => match t.route with
    | some r => fun y => if y = r.1 then σ r.1 ∪ σ r.2 else σ y
    | none => σ

/-- The sets after a call: `clear` empties every top-level set, a single-destination call
writes its set, a transfer joins as `DFTransfer.apply` says, and a read changes nothing. -/
def DFPTDataOp.apply (σ : Slot Key LocID → Finset Data) :
    DFPTDataOp Key Data LocID → Slot Key LocID → Finset Data
  | .base .clear => fun y => if y.isDF then σ y else ∅
  | .transfer t => t.apply σ
  | op => ((op.write σ).map fun w => Function.update σ w.1 w.2).getD σ

variable {σ τ : Slot Key LocID → Finset Data}

theorem DFTransfer.apply_of_route {t : DFTransfer Key LocID} {dst src : Slot Key LocID}
    (h : t.route = some (dst, src)) :
    t.apply σ = fun y => if y = dst then σ dst ∪ σ src else σ y := by
  cases t <;> simp only [route, Option.some.injEq, Prod.mk.injEq, reduceCtorEq] at h <;>
    obtain ⟨rfl, rfl⟩ := h <;> rfl

theorem DFTransfer.apply_mono (t : DFTransfer Key LocID) (h : σ ≤ τ) : t.apply σ ≤ t.apply τ := by
  cases hr : t.route with
  | some r =>
    obtain ⟨dst, src⟩ := r
    rw [apply_of_route hr, apply_of_route hr]
    intro y
    dsimp only
    split_ifs
    · exact Finset.union_subset_union (h dst) (h src)
    · exact h y
  | none =>
    cases t <;> simp only [route, reduceCtorEq] at hr
    case updateAllDFOutFromIn loc v su =>
      intro y
      cases y with
      | dfOut l k =>
        simp only [DFTransfer.apply, Slot.joinInToOut]
        split_ifs
        · exact Finset.union_subset_union (h _) (h _)
        · exact h _
      | _ => exact h _
    case clearAllDFOutUpdatedVar => exact h

/-- A transfer only adds to the sets. -/
theorem DFTransfer.le_apply (t : DFTransfer Key LocID) : σ ≤ t.apply σ := by
  cases hr : t.route with
  | some r =>
    obtain ⟨dst, src⟩ := r
    rw [apply_of_route hr]
    intro y
    dsimp only
    split_ifs with hy
    · subst hy; exact Finset.subset_union_left
    · exact le_rfl
  | none =>
    cases t <;> simp only [route, reduceCtorEq] at hr
    case updateAllDFOutFromIn loc v su => exact Slot.subset_joinInToOut σ loc _
    case clearAllDFOutUpdatedVar => exact le_rfl

/-- What a transfer call may do is at most what the transfer means. -/
theorem TransferEffect.le_apply {t : DFTransfer Key LocID} {σ' : Slot Key LocID → Finset Data}
    {b : Bool} (he : TransferEffect σ t σ' b) (h : σ ≤ τ) : σ' ≤ t.apply τ := by
  cases he with
  | skip => exact h.trans t.le_apply
  | @route dst src b ht hb =>
    rw [DFTransfer.apply_of_route ht]
    intro y
    dsimp only
    split_ifs
    · exact Finset.union_subset_union (h dst) (h src)
    · exact h y
  | bulk ht hp =>
    subst ht
    intro y
    cases y with
    | dfOut l k =>
      simp only [DFTransfer.apply, Slot.joinInToOut]
      split_ifs with h1 h2
      · exact Finset.union_subset_union (h _) (h _)
      · exact absurd ⟨h1.1, hp k h1.2⟩ h2
      · exact (h _).trans Finset.subset_union_left
      · exact h _
    | _ => exact h _

theorem DFPTDataOp.apply_mono (op : DFPTDataOp Key Data LocID) (h : σ ≤ τ) :
    op.apply σ ≤ op.apply τ := by
  cases op with
  | base op =>
    cases op
    case clear => intro y; simp only [apply]; split_ifs <;> simp [h y]
    case getPts | getRevPts => exact h
    all_goals refine update_le_update_iff.mpr ⟨?_, fun j _ => h j⟩
    case addPts | unionPtsData => exact Finset.union_subset_union (h _) subset_rfl
    case unionPts => exact Finset.union_subset_union (h _) (h _)
    case clearPts => exact Finset.sdiff_subset_sdiff (h _) subset_rfl
    case clearFullPts => exact subset_rfl
  | transfer t => exact t.apply_mono h
  | _ => exact h

/-- A single-destination call means writing its set. -/
theorem DFPTDataOp.apply_of_write {op : DFPTDataOp Key Data LocID} {dst : Slot Key LocID}
    {new : Finset Data} (h : op.write σ = some (dst, new)) :
    op.apply σ = Function.update σ dst new := by
  cases op with
  | base op =>
    cases op
    case clear => simp [write, PTDataOp.write] at h
    all_goals simp only [apply, h, Option.map_some', Option.getD_some]
  | transfer t =>
    obtain ⟨⟨d, src⟩, hr, he⟩ := Option.map_eq_some'.mp h
    cases he
    rw [apply, DFTransfer.apply_of_route hr]
    funext y
    rw [Function.update_apply]
  | _ => simp [write] at h

end Abstract

/-! ### The plain store computes it, the incremental store stays within it -/

section Stores

variable {Key Data ID LocID : Type} [LinearOrder Key] [LinearOrder Data] [DecidableEq ID]
  [DecidableEq LocID]
variable {c : PersistentPointsToCache ID Data}

/-- A key with no entry in `IN[loc]` adds nothing to `OUT[loc]`, so the plain bulk transfer
joins over every key. -/
theorem PersistentDFPTData.ptsAt_transfer (s : PersistentDFPTData Key Data ID LocID)
    (t : DFTransfer Key LocID) : (s.transfer c t).2.ptsAt c = t.apply (s.ptsAt c) := by
  cases hr : t.route with
  | some r =>
    obtain ⟨dst, src⟩ := r
    rw [transfer_of_route s hr, DFTransfer.apply_of_route hr]
    exact funext (ptsAt_unionPtsThroughIds s dst src)
  | none =>
    cases t <;> simp only [DFTransfer.route, reduceCtorEq] at hr
    case updateAllDFOutFromIn loc v su =>
      change (s.updateAllDFOutFromIn c loc v su).2.ptsAt c = _
      rw [(updateAllDFOutFromIn_spec (c := c) s loc v su).2]
      funext y
      cases y with
      | dfOut l k =>
        simp only [DFTransfer.apply, Slot.joinInToOut]
        by_cases hin : s.hasDFInSetVar loc k = true
        · simp [hin]
        · by_cases hl : l = loc
          · subst hl
            simp [hin, ptsAt_dfIn_of_not_hasDFInSetVar s (Bool.eq_false_iff.mpr hin)]
          · simp [hl]
      | _ => rfl
    case clearAllDFOutUpdatedVar => rfl

theorem PersistentDFPTData.ptsAt_step_of_write (s : PersistentDFPTData Key Data ID LocID)
    {op : DFPTDataOp Key Data LocID} {dst : Slot Key LocID} {new : Finset Data}
    (h : op.write (s.ptsAt c) = some (dst, new)) : (s.step c op).ptsAt c = op.apply (s.ptsAt c) :=
  (step_write s h).1.trans (DFPTDataOp.apply_of_write h).symm

/-- Every call of the plain data-flow store leaves exactly the sets `DFPTDataOp.apply` gives. -/
theorem PersistentDFPTData.ptsAt_step (s : PersistentDFPTData Key Data ID LocID)
    (op : DFPTDataOp Key Data LocID) : (s.step c op).ptsAt c = op.apply (s.ptsAt c) := by
  cases op with
  | transfer t => exact ptsAt_transfer s t
  | base op =>
    cases op
    case clear =>
      funext y
      cases y
      case top k => exact s.persPTData.ptsOf_clear k
      all_goals rfl
    case getPts var => exact funext (ptsAt_touchSlot s (.top var))
    case getRevPts => rfl
    all_goals exact ptsAt_step_of_write s rfl
  | getDFInPtsSet loc var => exact funext (ptsAt_touchSlot s (.dfIn loc var))
  | getDFOutPtsSet loc var => exact funext (ptsAt_touchSlot s (.dfOut loc var))

/-- Every call of the incremental store leaves sets within what the call means for any sets
at least its own. -/
theorem PersistentIncDFPTData.ptsAt_step_le (s : PersistentIncDFPTData Key Data ID LocID)
    (op : DFPTDataOp Key Data LocID) {σ : Slot Key LocID → Finset Data} (h : s.ptsAt c ≤ σ) :
    (s.step c op).ptsAt c ≤ op.apply σ := by
  cases op with
  | transfer t => exact (transfer_effect s t).le_apply h
  | _ =>
    rw [show (s.step c _).ptsAt c = _ from
      congrArg (PersistentDFPTData.ptsAt c) (step_of_not_transfer s (by simp)).1,
      PersistentDFPTData.ptsAt_step]
    exact DFPTDataOp.apply_mono _ h

/-- Over any run the plain store holds exactly the sets its calls mean. -/
theorem plain_run_computes_apply (s : PersistentDFPTData Key Data ID LocID)
    (ops : List (DFPTDataOp Key Data LocID)) :
    (ops.foldl (PersistentDFPTData.step c) s).ptsAt c = ops.foldl DFPTDataOp.apply (s.ptsAt c) := by
  induction ops generalizing s with
  | nil => rfl
  | cons op ops ih => rw [List.foldl_cons, List.foldl_cons, ih, PersistentDFPTData.ptsAt_step]

theorem PersistentIncDFPTData.ptsAt_foldl_le {ops : List (DFPTDataOp Key Data LocID)}
    {i : PersistentIncDFPTData Key Data ID LocID} {d : PersistentDFPTData Key Data ID LocID}
    (h : i.ptsAt c ≤ d.ptsAt c) :
    (ops.foldl (step c) i).ptsAt c ≤ (ops.foldl (PersistentDFPTData.step c) d).ptsAt c := by
  induction ops generalizing i d with
  | nil => exact h
  | cons op ops ih => exact ih ((ptsAt_step_le i op h).trans (PersistentDFPTData.ptsAt_step d op).ge)

/-- After the same calls from fresh stores, the incremental store never holds more than the plain
store on any slot. -/
theorem incremental_run_within_plain (reversePT : Bool) (ops : List (DFPTDataOp Key Data LocID)) :
    (ops.foldl (PersistentIncDFPTData.step c) (PersistentIncDFPTData.init reversePT)).ptsAt c ≤
      (ops.foldl (PersistentDFPTData.step c) (PersistentDFPTData.init reversePT)).ptsAt c :=
  PersistentIncDFPTData.ptsAt_foldl_le le_rfl

/-- No call of the plain store takes an element out of an IN or OUT set. -/
theorem PersistentDFPTData.ptsAt_le_step (s : PersistentDFPTData Key Data ID LocID)
    (op : DFPTDataOp Key Data LocID) {y : Slot Key LocID} (hy : y.isDF = true) :
    s.ptsAt c y ⊆ (s.step c op).ptsAt c y := by
  cases op with
  | transfer t => exact (transfer_effect s t).mono y
  | _ => exact (ptsAt_step_of_not_transfer s (by simp) hy).ge

/-- No call of the incremental store takes an element out of an IN or OUT set. -/
theorem PersistentIncDFPTData.ptsAt_le_step (s : PersistentIncDFPTData Key Data ID LocID)
    (op : DFPTDataOp Key Data LocID) {y : Slot Key LocID} (hy : y.isDF = true) :
    s.ptsAt c y ⊆ (s.step c op).ptsAt c y := by
  cases op with
  | transfer t => exact (transfer_effect s t).mono y
  | _ =>
    rw [show (s.step c _).ptsAt c y = _ from
      congrArg (PersistentDFPTData.ptsAt c · y) (step_of_not_transfer s (by simp)).1]
    exact PersistentDFPTData.ptsAt_le_step _ _ hy

/-- No call of either data-flow store, `clear`, `clearPts` and `clearFullPts` included, removes an
element from an IN or OUT set. -/
theorem dataflow_sets_only_grow (s : PersistentDFPTData Key Data ID LocID)
    (i : PersistentIncDFPTData Key Data ID LocID) (ops : List (DFPTDataOp Key Data LocID))
    {y : Slot Key LocID} (hy : y.isDF = true) :
    s.ptsAt c y ⊆ (ops.foldl (PersistentDFPTData.step c) s).ptsAt c y ∧
      i.ptsAt c y ⊆ (ops.foldl (PersistentIncDFPTData.step c) i).ptsAt c y := by
  induction ops generalizing s i with
  | nil => exact ⟨subset_refl _, subset_refl _⟩
  | cons op ops ih =>
    obtain ⟨h₁, h₂⟩ := ih (s.step c op) (i.step c op)
    exact ⟨(s.ptsAt_le_step op hy).trans h₁, (i.ptsAt_le_step op hy).trans h₂⟩

theorem dataflow_sets_kept_through_clear :
    let c : PersistentPointsToCache (Finset ℕ) ℕ := finsetCache ℕ
    let d₀ : PersistentDFPTData ℕ ℕ (Finset ℕ) ℕ :=
      ((PersistentDFPTData.init false).step c (.base (.addPts 0 5))).step c
        (.transfer (.updateATVPts 0 0 0))
    let i₀ : PersistentIncDFPTData ℕ ℕ (Finset ℕ) ℕ :=
      ((PersistentIncDFPTData.init false).step c (.base (.addPts 0 5))).step c
        (.transfer (.updateATVPts 0 0 0))
    let ops : List (DFPTDataOp ℕ ℕ ℕ) := [.base .clear, .base (.clearFullPts 0)]
    (Slot.dfOut 0 0 : Slot ℕ ℕ).isDF = true ∧
      d₀.ptsAt c (.dfOut 0 0) ⊆ (ops.foldl (PersistentDFPTData.step c) d₀).ptsAt c (.dfOut 0 0) ∧
      i₀.ptsAt c (.dfOut 0 0) ⊆ (ops.foldl (PersistentIncDFPTData.step c) i₀).ptsAt c (.dfOut 0 0) :=
  ⟨rfl, dataflow_sets_only_grow _ _ _ rfl⟩

end Stores

end PersistentPointsTo
