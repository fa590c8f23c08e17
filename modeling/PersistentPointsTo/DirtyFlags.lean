import PersistentPointsTo.IncDFPTData

namespace PersistentPointsTo

namespace PersistentIncDFPTData

variable {Key Data ID LocID : Type} [LinearOrder Key] [LinearOrder Data] [DecidableEq ID]
  [DecidableEq LocID]
variable {c : PersistentPointsToCache ID Data}

/-- What one call may do to an IN or OUT slot: its set only grows, a change is flagged, a flag
is only set on a change, and a flag is only taken away from a set the call leaves alone. -/
structure FlagStep (c : PersistentPointsToCache ID Data) (s s' : PersistentIncDFPTData Key Data ID LocID)
    (y : Slot Key LocID) : Prop where
  mono : s.ptsAt c y ⊆ s'.ptsAt c y
  flagged_of_ne : s'.ptsAt c y ≠ s.ptsAt c y → s'.flagged y = true
  ne_of_flagged : s'.flagged y = true → s.flagged y = false → s'.ptsAt c y ≠ s.ptsAt c y
  eq_of_taken : s.flagged y = true → s'.flagged y = false → s'.ptsAt c y = s.ptsAt c y

omit [DecidableEq ID] in
/-- A call that leaves the set alone and sets no flag on it. -/
theorem FlagStep.of_eq {s s' : PersistentIncDFPTData Key Data ID LocID} {y : Slot Key LocID}
    (hp : s'.ptsAt c y = s.ptsAt c y) (hf : s'.flagged y = true → s.flagged y = true) :
    FlagStep c s s' y :=
  ⟨hp ▸ Finset.Subset.refl _, fun h => absurd hp h, fun h h' => by simp_all, fun _ _ => hp⟩

omit [DecidableEq ID] in
/-- A call that grows the set, flags it exactly when it grew, and keeps its flag. -/
theorem FlagStep.of_flagged_iff {s s' : PersistentIncDFPTData Key Data ID LocID}
    {y : Slot Key LocID} (hm : s.ptsAt c y ⊆ s'.ptsAt c y)
    (hf : s'.flagged y = true ↔ s.flagged y = true ∨ s'.ptsAt c y ≠ s.ptsAt c y) :
    FlagStep c s s' y :=
  ⟨hm, fun h => hf.mpr (.inr h), fun h h' => (hf.mp h).resolve_left (by simp [h']),
    fun h h' => by simp_all⟩

theorem FlagStep.transfer_of_route (s : PersistentIncDFPTData Key Data ID LocID)
    {t : DFTransfer Key LocID} {dst src : Slot Key LocID} (h : t.route = some (dst, src))
    {y : Slot Key LocID} (hy : y.isDF = true) : FlagStep c s (s.transfer c t).2 y := by
  obtain ⟨hoff, hon⟩ := PersistentIncDFPTData.transfer_of_route (c := c) s h
  cases hg : t.guard.all s.flagged
  · rw [hoff hg]
    exact .of_eq rfl id
  obtain ⟨h1, h2, h3⟩ := hon hg
  have hp : (s.transfer c t).2.ptsAt c y =
      if y = dst then s.ptsAt c dst ∪ s.ptsAt c src else s.ptsAt c y := by
    rw [← PersistentDFPTData.ptsAt_unionPtsThroughIds, ← h2]
  by_cases hyd : y = dst
  · subst hyd
    have hne := DFTransfer.dst_ne_src_of_consumes h
    rw [if_pos rfl] at hp
    refine .of_flagged_iff (hp ▸ Finset.subset_union_left) ?_
    rw [hp, h3, h1, Ne, Finset.union_eq_left]
    simp only [hy, true_and]
    exact or_congr_left (and_iff_left fun ⟨hc, he⟩ => hne hc he)
  · rw [if_neg hyd] at hp
    exact .of_eq hp fun hf => ((h3 y).mp hf).elim (·.1) fun ⟨he, _⟩ => absurd he hyd

theorem FlagStep.of_not_transfer (s : PersistentIncDFPTData Key Data ID LocID)
    {op : DFPTDataOp Key Data LocID} (h : ∀ t, op ≠ .transfer t) {y : Slot Key LocID}
    (hy : y.isDF = true) : FlagStep c s (s.step c op) y := by
  obtain ⟨h1, h2⟩ := step_of_not_transfer (c := c) s h
  exact .of_eq (by rw [h1]; exact PersistentDFPTData.ptsAt_step_of_not_transfer _ h hy)
    (by rw [h2]; exact id)

/-- Every call of the store keeps to `FlagStep` on every IN and OUT slot. -/
theorem FlagStep.step (s : PersistentIncDFPTData Key Data ID LocID) (op : DFPTDataOp Key Data LocID)
    {y : Slot Key LocID} (hy : y.isDF = true) : FlagStep c s (s.step c op) y := by
  cases op with
  | transfer t =>
    cases ht : t.route with
    | some p => exact .transfer_of_route s ht hy
    | none =>
      cases t <;> simp only [DFTransfer.route, reduceCtorEq] at ht
      case updateAllDFOutFromIn loc v su =>
        obtain ⟨-, h2, h3⟩ := updateAllDFOutFromIn_spec (c := c) s loc v su
        change FlagStep c s (s.updateAllDFOutFromIn c loc v su).2 y
        cases y with
        | top => simp [Slot.isDF] at hy
        | dfIn l k =>
          refine .of_eq (by rw [h2]; rfl) fun hf => ?_
          exact ((h3 _).mp hf).elim (·.1) fun ⟨_, _, he, _⟩ => Slot.noConfusion he
        | dfOut l k =>
          refine .of_flagged_iff (h2 ▸ Slot.subset_joinInToOut _ _ _ _) ?_
          rw [h3, h2]
          simp only [Slot.joinInToOut, Ne]
          split_ifs with hsel
          · obtain ⟨rfl, hsel⟩ := hsel
            rw [Finset.union_eq_left]
            constructor
            · rintro (⟨hf, -⟩ | ⟨k', -, he, hn⟩)
              · exact .inl hf
              · cases he; exact .inr hn
            · rintro (hf | hn)
              · exact .inl ⟨hf, fun ⟨_, _, he⟩ => he⟩
              · exact .inr ⟨k, hsel, rfl, hn⟩
          · simp only [not_true_eq_false, or_false]
            constructor
            · rintro (⟨hf, -⟩ | ⟨k', hs, he, -⟩)
              · exact hf
              · cases he; exact absurd ⟨rfl, hs⟩ hsel
            · exact fun hf => .inl ⟨hf, fun ⟨_, _, he⟩ => he⟩
      case clearAllDFOutUpdatedVar loc =>
        obtain ⟨h1, h2⟩ := clearAllDFOutUpdatedVar_spec s loc
        exact .of_eq (congrArg (PersistentDFPTData.ptsAt c · y) h1) fun hf => ((h2 y).mp hf).1
  | _ => exact .of_not_transfer s (fun _ => by simp) hy

/-! ### The flags over a run -/

/-- The sets recorded after one call: a slot whose flag the call took away records its set. -/
def takenStep (c : PersistentPointsToCache ID Data) (s s' : PersistentIncDFPTData Key Data ID LocID)
    (taken : Slot Key LocID → Finset Data) : Slot Key LocID → Finset Data :=
  fun y => if s.flagged y && !s'.flagged y then s'.ptsAt c y else taken y

/-- One call, and beside the store the set of each slot when its flag was last taken away. -/
def stepWithTaken (c : PersistentPointsToCache ID Data)
    (st : PersistentIncDFPTData Key Data ID LocID × (Slot Key LocID → Finset Data))
    (op : DFPTDataOp Key Data LocID) :
    PersistentIncDFPTData Key Data ID LocID × (Slot Key LocID → Finset Data) :=
  (st.1.step c op, takenStep c st.1 (st.1.step c op) st.2)

/-- Per slot, its set when a call of `ops` last took its flag away, and `∅` if none did. -/
def takenSets (c : PersistentPointsToCache ID Data) (s : PersistentIncDFPTData Key Data ID LocID)
    (ops : List (DFPTDataOp Key Data LocID)) : Slot Key LocID → Finset Data :=
  (ops.foldl (stepWithTaken c) (s, fun _ => ∅)).2

theorem foldl_stepWithTaken_fst (ops : List (DFPTDataOp Key Data LocID))
    (st : PersistentIncDFPTData Key Data ID LocID × (Slot Key LocID → Finset Data)) :
    (ops.foldl (stepWithTaken c) st).1 = ops.foldl (step c) st.1 := by
  induction ops generalizing st with
  | nil => rfl
  | cons op ops ih => exact ih _

/-- A call takes a flag away only from a set it leaves alone, so what `takenStep` records is
the set at the moment the flag went. -/
theorem takenStep_of_taken (s : PersistentIncDFPTData Key Data ID LocID)
    (op : DFPTDataOp Key Data LocID) (taken : Slot Key LocID → Finset Data) {y : Slot Key LocID}
    (hy : y.isDF = true) (h : s.flagged y = true) (h' : (s.step c op).flagged y = false) :
    takenStep c s (s.step c op) taken y = s.ptsAt c y := by
  simp [takenStep, h, h', (FlagStep.step s op hy).eq_of_taken h h']

/-- The flag invariant: an IN or OUT slot is flagged exactly when its set differs from the one
recorded when its flag was last taken away, which it contains. -/
def FlagsExact (c : PersistentPointsToCache ID Data) (s : PersistentIncDFPTData Key Data ID LocID)
    (taken : Slot Key LocID → Finset Data) : Prop :=
  ∀ y, y.isDF = true → (s.flagged y = true ↔ s.ptsAt c y ≠ taken y) ∧ taken y ⊆ s.ptsAt c y

omit [DecidableEq ID] in
theorem FlagsExact.init (reversePT : Bool) :
    FlagsExact c (PersistentIncDFPTData.init reversePT : PersistentIncDFPTData Key Data ID LocID)
      (fun _ => ∅) := by
  intro y hy
  cases y with
  | top => simp [Slot.isDF] at hy
  | _ => simp [flagged, varHasNewDFInPts, varHasNewDFOutPts, PersistentIncDFPTData.init,
    PersistentDFPTData.init, PersistentDFPTData.ptsAt, PersistentDFPTData.idAt]

theorem FlagsExact.step {s : PersistentIncDFPTData Key Data ID LocID}
    {taken : Slot Key LocID → Finset Data} (h : FlagsExact c s taken) (op : DFPTDataOp Key Data LocID) :
    FlagsExact c (s.step c op) (takenStep c s (s.step c op) taken) := by
  intro y hy
  have fs := FlagStep.step (c := c) s op hy
  obtain ⟨hf, hsub⟩ := h y hy
  unfold takenStep
  cases hb : s.flagged y <;> cases hb' : (s.step c op).flagged y <;>
    simp only [hb, hb', Bool.false_and, Bool.true_and, Bool.not_true, Bool.not_false,
      Bool.false_eq_true, if_false, if_true] at hf ⊢
  · -- unflagged before and after: the set did not move from what was recorded
    have hs : s.ptsAt c y = taken y := by simpa using hf
    have hp : (s.step c op).ptsAt c y = s.ptsAt c y := by
      by_contra hc; simpa [hb'] using fs.flagged_of_ne hc
    simp [hp, hs]
  · -- newly flagged: the set grew past what was recorded
    have hs : s.ptsAt c y = taken y := by simpa using hf
    exact ⟨by simpa [hs] using fs.ne_of_flagged hb' hb, hs ▸ fs.mono⟩
  · -- taken away: the record is the set now
    simp
  · -- still flagged: the set only grew
    have hne : s.ptsAt c y ≠ taken y := by simpa using hf
    refine ⟨iff_of_true trivial fun he : (s.step c op).ptsAt c y = taken y =>
      hne (Finset.Subset.antisymm (he ▸ fs.mono) hsub), hsub.trans fs.mono⟩

theorem FlagsExact.foldl {s : PersistentIncDFPTData Key Data ID LocID}
    {taken : Slot Key LocID → Finset Data} (h : FlagsExact c s taken)
    (ops : List (DFPTDataOp Key Data LocID)) :
    FlagsExact c (ops.foldl (stepWithTaken c) (s, taken)).1 (ops.foldl (stepWithTaken c) (s, taken)).2 := by
  induction ops generalizing s taken with
  | nil => exact h
  | cons op ops ih => exact ih (h.step op)

omit [DecidableEq ID] in
/-- A flagged key has an entry in its location's IN or OUT map: its set is not empty. -/
theorem FlagsExact.hasEntry {s : PersistentIncDFPTData Key Data ID LocID}
    {taken : Slot Key LocID → Finset Data} (h : FlagsExact c s taken) (l : LocID) (k : Key) :
    (k ∈ s.inUpdated l → s.hasDFInSetVar l k = true) ∧
    (k ∈ s.outUpdated l → s.hasDFOutSetVar l k = true) := by
  have nonempty : ∀ y, y.isDF = true → s.flagged y = true → s.ptsAt c y ≠ ∅ := fun y hy hf he => by
    obtain ⟨hf', hsub⟩ := h y hy
    exact (hf'.mp hf) (by rw [he] at hsub ⊢; exact (Finset.subset_empty.mp hsub).symm)
  refine ⟨fun hk => ?_, fun hk => ?_⟩
  · by_contra hn
    exact nonempty (.dfIn l k) rfl ((flagged_dfIn s l k).mpr hk)
      (PersistentDFPTData.ptsAt_dfIn_of_not_hasDFInSetVar _ (by simpa using hn))
  · by_contra hn
    exact nonempty (.dfOut l k) rfl ((flagged_dfOut s l k).mpr hk)
      (PersistentDFPTData.ptsAt_dfOut_of_not_hasDFOutSetVar _ (by simpa using hn))

/-- Every store reachable from an empty one keeps the flag invariant against its run's record. -/
theorem FlagsExact.reachable (reversePT : Bool) (ops : List (DFPTDataOp Key Data LocID)) :
    FlagsExact c (ops.foldl (PersistentIncDFPTData.step c)
      (PersistentIncDFPTData.init reversePT : PersistentIncDFPTData Key Data ID LocID))
      (takenSets c (PersistentIncDFPTData.init reversePT) ops) := by
  have h0 : FlagsExact c (PersistentIncDFPTData.init reversePT : PersistentIncDFPTData Key Data ID LocID)
    (fun _ => ∅) := FlagsExact.init reversePT
  have h := h0.foldl ops
  rwa [foldl_stepWithTaken_fst] at h

/-- Over every run, `k` is in `l`'s IN (OUT) updated set iff its set differs from its value when
it was last taken out, and every flagged key has an entry. -/
theorem dirty_flags_exact (reversePT : Bool) (ops : List (DFPTDataOp Key Data LocID))
    (l : LocID) (k : Key) :
    let s : PersistentIncDFPTData Key Data ID LocID := ops.foldl (step c) (init reversePT)
    (k ∈ s.inUpdated l ↔ (s.getDFInPtsSet c l k).1 ≠ takenSets c (init reversePT) ops (.dfIn l k)) ∧
    (k ∈ s.outUpdated l ↔ (s.getDFOutPtsSet c l k).1 ≠ takenSets c (init reversePT) ops (.dfOut l k)) ∧
    (k ∈ s.inUpdated l → s.hasDFInSetVar l k = true) ∧
    (k ∈ s.outUpdated l → s.hasDFOutSetVar l k = true) := by
  intro s
  have h := FlagsExact.reachable (c := c) reversePT ops
  obtain ⟨hin, hout⟩ := h.hasEntry l k
  exact ⟨(flagged_dfIn _ l k).symm.trans (h (.dfIn l k) rfl).1,
    (flagged_dfOut _ l k).symm.trans (h (.dfOut l k) rfl).1, hin, hout⟩

end PersistentIncDFPTData

end PersistentPointsTo
