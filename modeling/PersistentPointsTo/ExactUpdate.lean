import PersistentPointsTo.DiffPTData
import PersistentPointsTo.VersionedPTData
import PersistentPointsTo.IncDFPTData

namespace PersistentPointsTo

/-! ### What a single-destination call is for

Each mutating call of the interfaces writes one set, computed from the sets before the call;
`write` names that set and its new value, and every store is shown to write it and nothing
else. -/

namespace PTDataOp

variable {Key Data : Type} [DecidableEq Key] [DecidableEq Data]

/-- The set a mutating call of the base interface writes and what it holds afterwards, from the
sets `σ` before the call. -/
def write (σ : Key → Finset Data) : PTDataOp Key Data → Option (Key × Finset Data)
  | .addPts dstKey element => some (dstKey, σ dstKey ∪ {element})
  | .unionPts dstKey srcKey => some (dstKey, σ dstKey ∪ σ srcKey)
  | .unionPtsData dstKey srcData => some (dstKey, σ dstKey ∪ srcData)
  | .clearPts var element => some (var, σ var \ {element})
  | .clearFullPts var => some (var, ∅)
  | _ => none

omit [DecidableEq Key] in
theorem ne_clear_of_write {σ : Key → Finset Data} {op : PTDataOp Key Data} {w : Key × Finset Data}
    (h : op.write σ = some w) : op ≠ .clear := by
  rintro rfl; simp [write] at h

end PTDataOp

namespace VersionedPTDataOp

variable {Key VersionedKey Data : Type} [DecidableEq Key] [DecidableEq VersionedKey]
  [DecidableEq Data]

/-- The set a mutating call of the versioned store writes, over both key spaces. -/
def write (σ : Key ⊕ VersionedKey → Finset Data) :
    VersionedPTDataOp Key VersionedKey Data → Option ((Key ⊕ VersionedKey) × Finset Data)
  | .key op => (op.write (σ ∘ Sum.inl)).map fun w => (.inl w.1, w.2)
  | .versionedKey op => (op.write (σ ∘ Sum.inr)).map fun w => (.inr w.1, w.2)
  | .unionPtsVersionedKeyKey dstVar srcVar => some (.inr dstVar, σ (.inr dstVar) ∪ σ (.inl srcVar))
  | .unionPtsKeyVersionedKey dstVar srcVar => some (.inl dstVar, σ (.inl dstVar) ∪ σ (.inr srcVar))

end VersionedPTDataOp

namespace DFPTDataOp

variable {Key Data LocID : Type} [DecidableEq Key] [DecidableEq Data] [DecidableEq LocID]

/-- The slot a single-destination call of a data-flow store writes: a top-level key for the
base interface, the routed destination for a transfer. -/
def write (σ : Slot Key LocID → Finset Data) :
    DFPTDataOp Key Data LocID → Option (Slot Key LocID × Finset Data)
  | .base op => (op.write fun k => σ (.top k)).map fun w => (.top w.1, w.2)
  | .transfer t => t.route.map fun r => (r.1, σ r.1 ∪ σ r.2)
  | _ => none

/-- The slot whose flag the incremental store tests before the call, if it tests one. -/
def guard : DFPTDataOp Key Data LocID → Option (Slot Key LocID)
  | .transfer t => t.guard
  | _ => none

end DFPTDataOp

/-! ### The base store -/

namespace PersistentPTData

variable {Key Data ID : Type} [DecidableEq Key] [LinearOrder Data] [DecidableEq ID]
variable {c : PersistentPointsToCache ID Data}

theorem unionPtsFromId_exact (s : PersistentPTData Key Data ID) (k : Key) (id : ID) :
    (s.unionPtsFromId c k id).2.ptsOf c = Function.update (s.ptsOf c) k (s.ptsOf c k ∪ c.getActualPts id) ∧
    ((s.unionPtsFromId c k id).1 = true ↔ s.ptsOf c k ∪ c.getActualPts id ≠ s.ptsOf c k) := by
  refine ⟨funext fun k' => ?_, ?_⟩
  · rw [ptsOf_unionPtsFromId, Function.update_apply]
  · rw [unionPtsFromId_fst, Ne, Finset.union_eq_left]

/-- A mutating call writes exactly its set and reports whether it moved. -/
theorem step_write (s : PersistentPTData Key Data ID) {op : PTDataOp Key Data} {dst : Key}
    {new : Finset Data} (h : op.write (s.ptsOf c) = some (dst, new)) :
    (s.step c op).ptsOf c = Function.update (s.ptsOf c) dst new ∧
    ∀ b, s.result c op = some b → (b = true ↔ new ≠ s.ptsOf c dst) := by
  cases op <;> simp only [PTDataOp.write, Option.some.injEq, Prod.mk.injEq, reduceCtorEq] at h <;>
    obtain ⟨rfl, rfl⟩ := h
  case addPts k d =>
    have := unionPtsFromId_exact (c := c) s k (c.emplacePts {d})
    rw [c.getActualPts_emplacePts] at this
    exact ⟨this.1, fun b hb => Option.some.inj hb ▸ this.2⟩
  case unionPts k k' =>
    have := unionPtsFromId_exact (c := c) (s.touchPts c k') k (s.ptsId c k')
    have ht : (s.touchPts c k').ptsOf c = s.ptsOf c := funext (ptsOf_touchPts s k')
    rw [ht] at this
    exact ⟨this.1, fun b hb => Option.some.inj hb ▸ this.2⟩
  case unionPtsData k ds =>
    have := unionPtsFromId_exact (c := c) s k (c.emplacePts ds)
    rw [c.getActualPts_emplacePts] at this
    exact ⟨this.1, fun b hb => Option.some.inj hb ▸ this.2⟩
  case clearPts k d =>
    exact ⟨funext fun k' => by rw [step, ptsOf_clearPts, Function.update_apply], by simp [result]⟩
  case clearFullPts k =>
    exact ⟨funext fun k' => by rw [step, ptsOf_clearFullPts, Function.update_apply],
      by simp [result]⟩

end PersistentPTData

/-! ### The diff and versioned stores -/

namespace PersistentDiffPTData

variable {Key Data ID : Type} [DecidableEq Key] [LinearOrder Data] [DecidableEq ID]
variable {c : PersistentPointsToCache ID Data}

/-- A base call on the diff store writes its set in `persPTData` and leaves the diff and
propagated sets alone. -/
theorem step_write (s : PersistentDiffPTData Key Data ID) {op : PTDataOp Key Data} {dst : Key}
    {new : Finset Data} (h : op.write (s.ptsOf c) = some (dst, new)) :
    (s.step c (.base op)).ptsOf c = Function.update (s.ptsOf c) dst new ∧
    (s.step c (.base op)).diffOf c = s.diffOf c ∧ (s.step c (.base op)).propaOf c = s.propaOf c ∧
    ∀ b, s.result c (.base op) = some b → (b = true ↔ new ≠ s.ptsOf c dst) := by
  obtain ⟨h1, h2⟩ := s.persPTData.step_write h
  have hd := diffOf_stepBase (c := c) s (PTDataOp.ne_clear_of_write h)
  refine ⟨?_, funext fun k => (hd k).1, funext fun k => (hd k).2, fun b hb => h2 b ?_⟩
  · change (s.stepBase c op).persPTData.ptsOf c = _
    rw [persPTData_stepBase, h1]; rfl
  · cases op <;> simp_all [result, PersistentPTData.result, addPts, unionPts, unionPtsData,
      delegate, PTDataOp.write]

end PersistentDiffPTData

namespace PersistentVersionedPTData

variable {Key VersionedKey Data ID : Type} [DecidableEq Key] [DecidableEq VersionedKey]
  [LinearOrder Data] [DecidableEq ID]
variable {c : PersistentPointsToCache ID Data}

/-- The versioned store writes exactly the set of a call's destination, in its own key space,
and leaves every other key of both spaces alone. -/
theorem step_write (s : PersistentVersionedPTData Key VersionedKey Data ID)
    {op : VersionedPTDataOp Key VersionedKey Data} {dst : Key ⊕ VersionedKey} {new : Finset Data}
    (h : op.write (s.ptsOf c) = some (dst, new)) :
    (s.step c op).ptsOf c = Function.update (s.ptsOf c) dst new ∧
    ∀ b, s.result c op = some b → (b = true ↔ new ≠ s.ptsOf c dst) := by
  cases op with
  | key op =>
    obtain ⟨⟨k, S⟩, hw, he⟩ := Option.map_eq_some'.mp h
    cases he
    obtain ⟨h1, h2⟩ := s.tlPTData.step_write hw
    obtain ⟨ht, ha⟩ := stepKey_spaces (c := c) s (PTDataOp.ne_clear_of_write hw)
    refine ⟨funext fun y => ?_, fun b hb => h2 b ?_⟩
    · cases y with
      | inl k' => simp only [step, ptsOf, ht, h1, Function.update_apply, Sum.inl.injEq]
      | inr vk => simp [step, ptsOf, ha]
    · cases op <;> simp_all [result, PersistentPTData.result, addPts, unionPts, unionPtsData,
        onTl, PTDataOp.write]
  | versionedKey op =>
    obtain ⟨⟨k, S⟩, hw, he⟩ := Option.map_eq_some'.mp h
    cases he
    obtain ⟨h1, h2⟩ := s.atPTData.step_write hw
    obtain ⟨ha, ht⟩ := stepVersionedKey_spaces (c := c) s (PTDataOp.ne_clear_of_write hw)
    refine ⟨funext fun y => ?_, fun b hb => h2 b ?_⟩
    · cases y with
      | inl k' => simp [step, ptsOf, ht]
      | inr vk => simp only [step, ptsOf, ha, h1, Function.update_apply, Sum.inr.injEq]
    · cases op <;> simp_all [result, PersistentPTData.result, addPtsVersionedKey,
        unionPtsVersionedKey, unionPtsDataVersionedKey, onAt, PTDataOp.write]
  | unionPtsVersionedKeyKey vk k =>
    simp only [VersionedPTDataOp.write, Option.some.injEq, Prod.mk.injEq] at h
    obtain ⟨rfl, rfl⟩ := h
    obtain ⟨h1, h2⟩ := s.atPTData.unionPtsFromId_exact (c := c) vk (s.tlPTData.ptsId c k)
    refine ⟨funext fun y => ?_, fun b hb => Option.some.inj hb ▸ h2⟩
    cases y with
    | inl k' => simp [step, unionPtsVersionedKeyKey, onAt, ptsOf]
    | inr vk' =>
      simp only [step, unionPtsVersionedKeyKey, onAt, ptsOf, h1, Function.update_apply,
        Sum.inr.injEq]; rfl
  | unionPtsKeyVersionedKey k vk =>
    simp only [VersionedPTDataOp.write, Option.some.injEq, Prod.mk.injEq] at h
    obtain ⟨rfl, rfl⟩ := h
    obtain ⟨h1, h2⟩ := s.tlPTData.unionPtsFromId_exact (c := c) k (s.atPTData.ptsId c vk)
    refine ⟨funext fun y => ?_, fun b hb => Option.some.inj hb ▸ h2⟩
    cases y with
    | inl k' =>
      simp only [step, unionPtsKeyVersionedKey, onTl, ptsOf, h1, Function.update_apply,
        Sum.inl.injEq]; rfl
    | inr vk' => simp [step, unionPtsKeyVersionedKey, onTl, ptsOf]

end PersistentVersionedPTData

/-! ### The data-flow stores -/

namespace PersistentDFPTData

variable {Key Data ID LocID : Type} [DecidableEq Key] [LinearOrder Data] [DecidableEq ID]
  [DecidableEq LocID]
variable {c : PersistentPointsToCache ID Data}

omit [DecidableEq ID] in
/-- A store that differs only in `persPTData`, at one key, differs only at that top-level slot. -/
theorem ptsAt_update_top {s s' : PersistentDFPTData Key Data ID LocID}
    (hin : s'.dfInPtsMap = s.dfInPtsMap) (hout : s'.dfOutPtsMap = s.dfOutPtsMap) {k : Key}
    {new : Finset Data} (h : s'.persPTData.ptsOf c = Function.update (s.persPTData.ptsOf c) k new) :
    s'.ptsAt c = Function.update (s.ptsAt c) (.top k) new := by
  funext y
  cases y with
  | top k' =>
    change s'.persPTData.ptsOf c k' = _
    rw [h, Function.update_apply, Function.update_apply]
    simp only [Slot.top.injEq]; rfl
  | dfIn l k' => simp [ptsAt, idAt, hin]
  | dfOut l k' => simp [ptsAt, idAt, hout]

theorem result_transfer_of_route (s : PersistentDFPTData Key Data ID LocID) {t : DFTransfer Key LocID}
    {p : Slot Key LocID × Slot Key LocID} (h : t.route = some p) :
    s.result c (.transfer t) = some (s.transfer c t).1 := by
  cases t <;> first | rfl | simp [DFTransfer.route] at h

/-- A single-destination call of the data-flow store writes exactly its slot and reports
whether it moved; a base call writes its top-level slot. -/
theorem step_write (s : PersistentDFPTData Key Data ID LocID) {op : DFPTDataOp Key Data LocID}
    {dst : Slot Key LocID} {new : Finset Data} (h : op.write (s.ptsAt c) = some (dst, new)) :
    (s.step c op).ptsAt c = Function.update (s.ptsAt c) dst new ∧
    ∀ b, s.result c op = some b → (b = true ↔ new ≠ s.ptsAt c dst) := by
  cases op with
  | base op =>
    obtain ⟨⟨k, S⟩, hw, he⟩ := Option.map_eq_some'.mp h
    cases he
    obtain ⟨h1, h2⟩ := s.persPTData.step_write hw
    have hp : (s.stepBase c op).persPTData = s.persPTData.step c op := by
      cases op <;> first | rfl | simp [PTDataOp.write] at hw
    obtain ⟨hin, hout⟩ := stepBase_df_maps (c := c) s op
    refine ⟨ptsAt_update_top hin hout (hp ▸ h1), fun b hb => h2 b ?_⟩
    cases op <;> exact hb
  | transfer t =>
    obtain ⟨⟨dst', src⟩, hr, he⟩ := Option.map_eq_some'.mp h
    cases he
    have ht := transfer_of_route (c := c) s hr
    refine ⟨funext fun y => ?_, fun b hb => ?_⟩
    · change (s.transfer c t).2.ptsAt c y = _
      rw [ht, ptsAt_unionPtsThroughIds, Function.update_apply]
    · rw [result_transfer_of_route s hr, Option.some.injEq] at hb
      rw [← hb, ht, unionPtsThroughIds_fst, Ne, Finset.union_eq_left]
  | _ => simp [DFPTDataOp.write] at h

end PersistentDFPTData

namespace PersistentIncDFPTData

variable {Key Data ID LocID : Type} [LinearOrder Key] [LinearOrder Data] [DecidableEq ID]
  [DecidableEq LocID]
variable {c : PersistentPointsToCache ID Data}

/-- A single-destination call of the incremental store: when the flag it tests is clear it
changes no set and returns false; otherwise it writes as the data-flow store does. -/
theorem step_write (s : PersistentIncDFPTData Key Data ID LocID) {op : DFPTDataOp Key Data LocID}
    {dst : Slot Key LocID} {new : Finset Data} (h : op.write (s.ptsAt c) = some (dst, new)) :
    (op.guard.all s.flagged = false → (s.step c op).ptsAt c = s.ptsAt c ∧ s.result c op = some false) ∧
    (op.guard.all s.flagged = true →
      (s.step c op).ptsAt c = Function.update (s.ptsAt c) dst new ∧
      ∀ b, s.result c op = some b → (b = true ↔ new ≠ s.ptsAt c dst)) := by
  cases op with
  | base op =>
    refine ⟨fun hg => by simp [DFPTDataOp.guard] at hg, fun _ => ?_⟩
    obtain ⟨h1, h2⟩ := s.toPersistentDFPTData.step_write h
    exact ⟨h1, fun b hb => h2 b (by cases op <;> exact hb)⟩
  | transfer t =>
    obtain ⟨⟨dst', src⟩, hr, he⟩ := Option.map_eq_some'.mp h
    cases he
    obtain ⟨hoff, hon⟩ := transfer_of_route (c := c) s hr
    have hres : s.result c (.transfer t) = some (s.transfer c t).1 := by
      cases t <;> first | rfl | simp [DFTransfer.route] at hr
    refine ⟨fun hg => ?_, fun hg => ?_⟩
    · have := hoff hg
      exact ⟨by change (s.transfer c t).2.ptsAt c = _; rw [this], by rw [hres, this]⟩
    · obtain ⟨h1, h2, -⟩ := hon hg
      refine ⟨funext fun y => ?_, fun b hb => ?_⟩
      · change (s.transfer c t).2.toPersistentDFPTData.ptsAt c y = _
        rw [h2, PersistentDFPTData.ptsAt_unionPtsThroughIds, Function.update_apply]
      · rw [hres, Option.some.injEq] at hb
        rw [← hb, h1, Ne, Finset.union_eq_left]
  | _ => simp [DFPTDataOp.write] at h

end PersistentIncDFPTData

section

variable {Key VersionedKey Data ID LocID : Type} [LinearOrder Key] [DecidableEq VersionedKey]
  [LinearOrder Data] [DecidableEq ID] [DecidableEq LocID]
variable {c : PersistentPointsToCache ID Data}

end

end PersistentPointsTo
