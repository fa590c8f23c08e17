import PersistentPointsTo.TransferEffect
import PersistentPointsTo.DirtyFlags

namespace PersistentPointsTo

/-! ### What the calls of a solver's transfer list read, write and consume -/

namespace DFTransfer

variable {Key LocID : Type}

/-- The slots a transfer reads: a single-destination transfer its source, and
`updateAllDFOutFromIn(loc, v, su)` each `IN[loc][k]` but a strongly updated singleton's. -/
def Reads : DFTransfer Key LocID → Slot Key LocID → Prop
  | .updateAllDFOutFromIn loc v su, x => ∃ k, x = .dfIn loc k ∧ ¬(su = true ∧ k = v)
  | t, x => ∃ dst, t.route = some (dst, x)

/-- `t` reads `x` into `dst` and the incremental store takes `x`'s flag as it does:
`updateDFOutFromIn` and `updateTLVPts` on their source, `updateAllDFOutFromIn(loc, v, su)` on
each `IN[loc][k]` it joins into `OUT[loc][k]`. -/
def ConsumesInto : DFTransfer Key LocID → Slot Key LocID → Slot Key LocID → Prop
  | .updateAllDFOutFromIn loc v su, x, dst =>
    ∃ k, x = .dfIn loc k ∧ dst = .dfOut loc k ∧ ¬(su = true ∧ k = v)
  | t, x, dst => t.consumes = true ∧ t.route = some (dst, x)

/-- `t` reads `x` and takes its flag. -/
def Consumes (t : DFTransfer Key LocID) (x : Slot Key LocID) : Prop :=
  ∃ dst, t.ConsumesInto x dst

/-- `t` may take `x`'s flag: a consuming read, or `clearAllDFOutUpdatedVar(l)` on an OUT set
at `l`. -/
def Takes : DFTransfer Key LocID → Slot Key LocID → Prop
  | .clearAllDFOutUpdatedVar l, x => ∃ k, x = .dfOut l k
  | t, x => t.Consumes x

/-- `t` writes an OUT set at `l`. -/
def WritesOut : DFTransfer Key LocID → LocID → Prop
  | .updateAllDFOutFromIn loc _ _, l => loc = l
  | t, l => ∃ k src, t.route = some (.dfOut l k, src)

/-- `t` reads an OUT set at `l`. -/
def ReadsOut (t : DFTransfer Key LocID) (l : LocID) : Prop :=
  ∃ k, t.Reads (.dfOut l k)

variable {t : DFTransfer Key LocID} {x dst src : Slot Key LocID}

theorem Consumes.reads (h : t.Consumes x) : t.Reads x := by
  obtain ⟨dst, h⟩ := h
  cases t with
  | updateAllDFOutFromIn loc v su => obtain ⟨k, hx, -, hk⟩ := h; exact ⟨k, hx, hk⟩
  | _ => exact ⟨dst, h.2⟩

/-- Only IN slots are read by a consuming call. -/
theorem Consumes.exists_dfIn (h : t.Consumes x) : ∃ l k, x = .dfIn l k := by
  obtain ⟨dst, h⟩ := h
  cases t with
  | updateAllDFOutFromIn loc v su => obtain ⟨k, hx, -⟩ := h; exact ⟨loc, k, hx⟩
  | _ =>
    obtain ⟨hc, hr⟩ := h
    simp only [consumes, route, Option.some.injEq, Prod.mk.injEq, reduceCtorEq] at hc hr <;>
      exact ⟨_, _, hr.2.symm⟩

theorem Takes.consumes_of_dfIn {l : LocID} {k : Key} (h : t.Takes (.dfIn l k)) :
    t.Consumes (.dfIn l k) := by
  cases t with
  | clearAllDFOutUpdatedVar l' => obtain ⟨_, h⟩ := h; cases h
  | _ => exact h

/-- Only `clearAllDFOutUpdatedVar(l)` takes the flag of an OUT set at `l`. -/
theorem Takes.eq_clear_of_dfOut {l : LocID} {k : Key} (h : t.Takes (.dfOut l k)) :
    t = .clearAllDFOutUpdatedVar l := by
  cases t with
  | clearAllDFOutUpdatedVar l' => obtain ⟨_, h⟩ := h; cases h; rfl
  | _ => obtain ⟨_, _, he⟩ := Consumes.exists_dfIn h; cases he

theorem consumesInto_iff_of_route (ht : t.route = some (dst, src)) {d : Slot Key LocID} :
    t.ConsumesInto x d ↔ t.consumes = true ∧ dst = d ∧ src = x := by
  cases t <;> simp only [route, Option.some.injEq, Prod.mk.injEq, reduceCtorEq] at ht <;>
    obtain ⟨rfl, rfl⟩ := ht <;> simp [ConsumesInto, route]

theorem reads_of_route (ht : t.route = some (dst, src)) : t.Reads src := by
  cases t <;> simp only [route, reduceCtorEq] at ht <;> exact ⟨dst, ht⟩

theorem readsOut_of_route {l : LocID} {k : Key} (ht : t.route = some (dst, .dfOut l k)) :
    t.ReadsOut l :=
  ⟨k, reads_of_route ht⟩

theorem takes_of_route (ht : t.route = some (dst, src)) (hc : t.consumes = true) : t.Takes src := by
  have h : t.Consumes src := ⟨dst, (consumesInto_iff_of_route ht).mpr ⟨hc, rfl, rfl⟩⟩
  cases t <;> first | exact h | simp [route] at ht

/-- The incremental store tests the flags of IN and OUT slots only. -/
theorem isDF_of_guard {g : Slot Key LocID} (h : t.guard = some g) : g.isDF = true := by
  cases t <;> simp only [guard, Option.some.injEq, reduceCtorEq] at h <;> subst h <;> rfl

end DFTransfer

/-- A call that writes no OUT set at `l` leaves the OUT sets at `l` alone. -/
theorem TransferEffect.dfOut_eq {Key Data LocID : Type} [DecidableEq Key] [DecidableEq LocID]
    [DecidableEq Data] {σ σ' : Slot Key LocID → Finset Data} {t : DFTransfer Key LocID} {b : Bool}
    (h : TransferEffect σ t σ' b) {l : LocID} (hw : ¬ t.WritesOut l) (k : Key) :
    σ' (.dfOut l k) = σ (.dfOut l k) := by
  cases h with
  | skip => rfl
  | @route dst src b ht hb =>
    have hne : Slot.dfOut l k ≠ dst := by
      rintro rfl
      cases t <;> first | exact hw ⟨k, src, ht⟩ | simp [DFTransfer.route] at ht
    simp [hne]
  | bulk ht hp =>
    subst ht
    simp only [Slot.joinInToOut]
    rw [if_neg fun h => hw h.1.symm]

/-- The order the solver keeps its transfer list `T` in. -/
structure SolverDiscipline {Key LocID : Type} (T : List (DFTransfer Key LocID)) : Prop where
  /-- An IN slot a call reads and takes the flag of is read by no other call. -/
  consumed_once : ∀ i j (hi : i < T.length) (hj : j < T.length) x,
    T[i].Consumes x → T[j].Reads x → i = j
  /-- Before each `clearAllDFOutUpdatedVar(l)`: the calls that write an OUT set at `l`, then those
  that read one. -/
  out_order : ∀ q l (hq : q < T.length), T[q] = .clearAllDFOutUpdatedVar l →
    (∀ w r (hw : w < T.length) (hr : r < T.length), T[w].WritesOut l → T[r].ReadsOut l → w < r) ∧
    (∀ w (hw : w < T.length), T[w].WritesOut l → w < q) ∧
    (∀ r (hr : r < T.length), T[r].ReadsOut l → r < q)

/-! ### What the incremental store's flags say during a pass -/

namespace PersistentIncDFPTData

variable {Key Data ID LocID : Type} [LinearOrder Key] [LinearOrder Data] [DecidableEq ID]
  [DecidableEq LocID]
variable {c : PersistentPointsToCache ID Data}

/-- At position `p` of a pass over `T`, a slot without its flag holds nothing still to be
propagated. -/
structure Pending (c : PersistentPointsToCache ID Data) (T : List (DFTransfer Key LocID)) (p : ℕ)
    (s : PersistentIncDFPTData Key Data ID LocID) : Prop where
  /-- An unflagged slot is in each set a call that takes its flag joins it into. -/
  consumed : ∀ j (hj : j < T.length) x dst, T[j].ConsumesInto x dst → s.flagged x = false →
    s.ptsAt c x ⊆ s.ptsAt c dst
  /-- An unflagged IN or OUT slot whose flag no call takes is empty. -/
  untaken : ∀ x, x.isDF = true → (∀ j (hj : j < T.length), ¬ T[j].Takes x) →
    s.flagged x = false → s.ptsAt c x = ∅
  /-- An OUT set at a location the list clears is in each set a call reads it into, while it is
  unflagged or once that call has run in this pass. -/
  out_read : ∀ q r (hq : q < T.length) (hr : r < T.length) l k dst,
    T[q] = .clearAllDFOutUpdatedVar l → T[r].route = some (dst, .dfOut l k) →
    (s.flagged (.dfOut l k) = false ∨ r < p) → s.ptsAt c (.dfOut l k) ⊆ s.ptsAt c dst

variable {T : List (DFTransfer Key LocID)} {p : ℕ} {s : PersistentIncDFPTData Key Data ID LocID}

omit [DecidableEq ID] in
/-- A store whose IN and OUT sets are all empty is pending nothing. -/
theorem Pending.of_empty (h : ∀ y, y.isDF = true → s.ptsAt c y = ∅) : Pending c T p s where
  consumed _ _ x _ hx _ := by
    obtain ⟨l, k, rfl⟩ := DFTransfer.Consumes.exists_dfIn ⟨_, hx⟩
    rw [h (.dfIn l k) rfl]; exact Finset.empty_subset _
  untaken x hx _ _ := h x hx
  out_read _ _ _ _ l k _ _ _ _ := by rw [h (.dfOut l k) rfl]; exact Finset.empty_subset _

omit [DecidableEq ID] in
/-- After the last call of a pass, the next pass starts. -/
theorem Pending.restart (h : Pending c T T.length s) : Pending c T 0 s where
  consumed := h.consumed
  untaken := h.untaken
  out_read q r hq hr l k dst h1 h2 _ := h.out_read q r hq hr l k dst h1 h2 (.inr hr)

theorem FlagStep.transfer (s : PersistentIncDFPTData Key Data ID LocID) (t : DFTransfer Key LocID)
    {y : Slot Key LocID} (hy : y.isDF = true) : FlagStep c s (s.transfer c t).2 y :=
  FlagStep.step s (.transfer t) hy

/-- A single-destination call that passes its guard leaves its source inside its destination. -/
theorem src_subset_dst_of_guard (s : PersistentIncDFPTData Key Data ID LocID)
    {t : DFTransfer Key LocID} {dst src : Slot Key LocID} (ht : t.route = some (dst, src))
    (hg : t.guard.all s.flagged = true) :
    (s.transfer c t).2.ptsAt c src ⊆ (s.transfer c t).2.ptsAt c dst := by
  obtain ⟨-, h2, -⟩ := (transfer_of_route (c := c) s ht).2 hg
  have hp : ∀ y, (s.transfer c t).2.ptsAt c y =
      if y = dst then s.ptsAt c dst ∪ s.ptsAt c src else s.ptsAt c y := fun y => by
    rw [← PersistentDFPTData.ptsAt_unionPtsThroughIds, ← h2]
  rw [hp, hp, if_pos rfl]
  split_ifs with h1
  · exact Finset.Subset.refl _
  · exact Finset.subset_union_right

/-- A call that takes a slot's flag may take it, and a consuming read has joined the slot into
what it reads it into. -/
theorem taken_of_transfer (s : PersistentIncDFPTData Key Data ID LocID) (t : DFTransfer Key LocID)
    {x : Slot Key LocID} (hx : s.flagged x = true) (hx' : (s.transfer c t).2.flagged x = false) :
    t.Takes x ∧ ∀ dst, t.ConsumesInto x dst →
      (s.transfer c t).2.ptsAt c x ⊆ (s.transfer c t).2.ptsAt c dst := by
  cases ht : t.route with
  | some r =>
    obtain ⟨dst, src⟩ := r
    obtain ⟨hoff, hon⟩ := transfer_of_route (c := c) s ht
    cases hg : t.guard.all s.flagged
    · rw [hoff hg] at hx'; simp [hx] at hx'
    · obtain ⟨-, -, h3⟩ := hon hg
      obtain ⟨hc, rfl⟩ : t.consumes = true ∧ x = src :=
        not_not.mp fun hn => by simp [(h3 x).mpr (.inl ⟨hx, hn⟩)] at hx'
      refine ⟨DFTransfer.takes_of_route ht hc, fun d hd => ?_⟩
      obtain ⟨-, rfl, -⟩ := (DFTransfer.consumesInto_iff_of_route ht).mp hd
      exact src_subset_dst_of_guard s ht hg
  | none =>
    cases t <;> simp only [DFTransfer.route, reduceCtorEq] at ht
    case updateAllDFOutFromIn loc v su =>
      obtain ⟨-, h2, h3⟩ := updateAllDFOutFromIn_spec (c := c) s loc v su
      change (s.updateAllDFOutFromIn c loc v su).2.flagged x = false at hx'
      obtain ⟨k, ⟨hin, -, hk⟩, rfl⟩ : ∃ k, (s.hasDFInSet loc = true ∧ k ∈ s.inUpdated loc ∧
          ¬(su = true ∧ k = v)) ∧ x = .dfIn loc k :=
        not_not.mp fun hn => by simp [(h3 x).mpr (.inl ⟨hx, hn⟩)] at hx'
      refine ⟨⟨_, k, rfl, rfl, hk⟩, fun d hd => ?_⟩
      obtain ⟨k', he, rfl, -⟩ := hd
      cases he
      change (s.updateAllDFOutFromIn c loc v su).2.ptsAt c _ ⊆
        (s.updateAllDFOutFromIn c loc v su).2.ptsAt c _
      rw [h2, Slot.joinInToOut_dfIn,
        Slot.joinInToOut_dfOut_of_sel _ _ _ ⟨hin, (flagged_dfIn s loc k).mp hx, hk⟩]
      exact Finset.subset_union_right
    case clearAllDFOutUpdatedVar loc =>
      obtain ⟨-, h2⟩ := clearAllDFOutUpdatedVar_spec s loc
      change (s.clearAllDFOutUpdatedVar loc).flagged x = false at hx'
      obtain ⟨-, k, rfl⟩ : s.hasDFOutSet loc = true ∧ ∃ k, x = .dfOut loc k :=
        not_not.mp fun hn => by simp [(h2 x).mpr ⟨hx, hn⟩] at hx'
      exact ⟨⟨k, rfl⟩, fun d hd => by simp [DFTransfer.ConsumesInto, DFTransfer.consumes] at hd⟩

/-- One call of a pass over a disciplined list keeps what the flags say, one position on. -/
theorem Pending.transfer (hT : SolverDiscipline T) (hp : p < T.length) (h : Pending c T p s) :
    Pending c T (p + 1) (s.transfer c T[p]).2 := by
  have hmono := (PersistentIncDFPTData.transfer_effect (c := c) s T[p]).mono
  -- a slot the call leaves unflagged and that was unflagged kept its set
  have hkeep : ∀ x, x.isDF = true → (s.transfer c T[p]).2.flagged x = false →
      s.flagged x = false → (s.transfer c T[p]).2.ptsAt c x = s.ptsAt c x := fun x hx h' h0 =>
    not_not.mp fun hne => by simp [(FlagStep.transfer s T[p] hx).flagged_of_ne hne] at h'
  refine ⟨fun j hj x dst hjx hx' => ?_, fun x hx hnt hx' => ?_,
    fun q r hq hr l k dst hq' hr' hx' => ?_⟩
  case refine_1 =>
    obtain ⟨l, k, rfl⟩ := DFTransfer.Consumes.exists_dfIn ⟨_, hjx⟩
    cases hx : s.flagged (.dfIn l k)
    · rw [hkeep (.dfIn l k) rfl hx' hx]
      exact (h.consumed j hj _ dst hjx hx).trans (hmono dst)
    · obtain ⟨htake, hinto⟩ := taken_of_transfer s T[p] hx hx'
      obtain rfl := hT.consumed_once p j hp hj _ htake.consumes_of_dfIn
        (DFTransfer.Consumes.reads ⟨_, hjx⟩)
      exact hinto dst hjx
  case refine_2 =>
    cases hx0 : s.flagged x
    · rw [hkeep x hx hx' hx0]; exact h.untaken x hx hnt hx0
    · exact absurd (taken_of_transfer s T[p] hx0 hx').1 (hnt p hp)
  case refine_3 =>
    rcases lt_trichotomy r p with hrp | rfl | hrp
    · -- the read ran earlier in this pass, so this call writes no OUT set at `l`
      have hw : ¬ T[p].WritesOut l := fun hw => absurd
        ((hT.out_order q l hq hq').1 p r hp hr hw (DFTransfer.readsOut_of_route hr')) (by omega)
      rw [(PersistentIncDFPTData.transfer_effect s T[p]).dfOut_eq hw]
      exact (h.out_read q r hq hr l k dst hq' hr' (.inr hrp)).trans (hmono dst)
    · -- the read itself: it joins its source when its guard passes, and does nothing otherwise
      cases hg : T[r].guard.all s.flagged
      · rw [(transfer_of_route (c := c) s hr').1 hg]
        refine h.out_read q r hq hr l k dst hq' hr' (.inl ?_)
        cases hgd : T[r].guard with
        | none => simp [hgd] at hg
        | some g => rw [DFTransfer.guard_of_route hr' hgd] at hgd; simpa [hgd] using hg
      · exact src_subset_dst_of_guard s hr' hg
    · -- the read runs later in this pass, and only a clear after it could take the flag
      have hx'' := hx'.resolve_right (by omega)
      cases hx0 : s.flagged (.dfOut l k)
      · rw [hkeep (.dfOut l k) rfl hx'' hx0]
        exact (h.out_read q r hq hr l k dst hq' hr' (.inl hx0)).trans (hmono dst)
      · have hclear := (taken_of_transfer s T[p] hx0 hx'').1.eq_clear_of_dfOut
        exact absurd ((hT.out_order p l hp hclear).2.2 r hr (DFTransfer.readsOut_of_route hr'))
          (by omega)

/-- A whole pass over a disciplined list keeps what the flags say. -/
theorem Pending.runPass (hT : SolverDiscipline T) (h : Pending c T 0 s) :
    Pending c T 0 (runPass (PersistentIncDFPTData.transfer c) T s).2 := by
  rw [← prefixRun_length]
  exact (prefixRun_induction (Pending c T) h (fun p hp _ hs => hs.transfer hT hp) _ le_rfl).restart

/-- A call of a disciplined list that returns false leaves its constraint holding. -/
theorem Pending.closed_of_transfer_fst (hT : SolverDiscipline T) (hp : p < T.length)
    (h : Pending c T p s) {t : DFTransfer Key LocID} (hteq : T[p] = t)
    (hf : (s.transfer c t).1 = false) : t.Closed (s.ptsAt c) := by
  cases ht : t.route with
  | some r =>
    obtain ⟨dst, src⟩ := r
    rw [DFTransfer.closed_iff_of_route ht]
    obtain ⟨hoff, hon⟩ := transfer_of_route (c := c) s ht
    cases hg : t.guard.all s.flagged
    · -- the guard failed on an unflagged source
      obtain ⟨g, hgd⟩ : ∃ g, t.guard = some g := by
        cases hgd : t.guard with
        | none => simp [hgd] at hg
        | some g => exact ⟨g, rfl⟩
      obtain rfl := DFTransfer.guard_of_route ht hgd
      have hsrc : s.flagged g = false := by simpa [hgd] using hg
      subst hteq
      by_cases hc : T[p].consumes = true
      · exact h.consumed p hp g dst ((DFTransfer.consumesInto_iff_of_route ht).mpr ⟨hc, rfl, rfl⟩)
          hsrc
      by_cases hnt : ∀ j (hj : j < T.length), ¬ T[j].Takes g
      · rw [h.untaken g (DFTransfer.isDF_of_guard hgd) hnt hsrc]; exact Finset.empty_subset _
      push_neg at hnt
      obtain ⟨j, hj, htj⟩ := hnt
      cases g with
      | top => exact absurd (DFTransfer.isDF_of_guard hgd) (by simp [Slot.isDF])
      | dfIn l k =>
        -- a consumer of the source would be the only call reading it
        obtain rfl := hT.consumed_once j p hj hp _ htj.consumes_of_dfIn
          (DFTransfer.reads_of_route ht)
        obtain ⟨d, hd⟩ := htj.consumes_of_dfIn
        exact absurd ((DFTransfer.consumesInto_iff_of_route ht).mp hd).1 hc
      | dfOut l k => exact h.out_read j p hj hp l k dst htj.eq_clear_of_dfOut ht (.inl hsrc)
    · exact not_not.mp fun hn => by simp [(hon hg).1.mpr hn] at hf
  | none =>
    cases t <;> simp only [DFTransfer.route, reduceCtorEq] at ht
    case updateAllDFOutFromIn loc v su =>
      intro k hk
      cases hin : s.hasDFInSet loc
      · rw [PersistentDFPTData.ptsAt_dfIn_of_not_hasDFInSet _ hin]; exact Finset.empty_subset _
      cases hx : s.flagged (.dfIn loc k)
      · exact h.consumed p hp _ _ (hteq ▸ ⟨k, rfl, rfl, hk⟩) hx
      · refine not_not.mp fun hn => ?_
        have := (updateAllDFOutFromIn_spec (c := c) s loc v su).1.mpr
          ⟨k, ⟨hin, (flagged_dfIn s loc k).mp hx, hk⟩, hn⟩
        change (s.updateAllDFOutFromIn c loc v su).1 = false at hf
        simp [hf] at this
    case clearAllDFOutUpdatedVar => trivial

/-- The incremental store's loop over a disciplined list, from a store pending nothing, stops on
sets that every call's constraint holds of. -/
theorem closed_of_runUntilQuiet (hT : SolverDiscipline T) {s' : PersistentIncDFPTData Key Data ID LocID}
    (h : Pending c T 0 s) {fuel : ℕ}
    (hr : runUntilQuiet (PersistentIncDFPTData.transfer c) T fuel s = some s') :
    ∀ t ∈ T, t.Closed (s'.ptsAt c) := by
  obtain ⟨s₀, h₀, hq, rfl⟩ :=
    runUntilQuiet_eq_some (Pending c T 0) (fun _ h => h.runPass hT) fuel s s' h hr
  exact (PersistentIncDFPTData.refines c).closed_of_quiet (Pending c T) h₀
    (fun p hp _ hs => hs.transfer hT hp) (fun p hp _ hs hf => hs.closed_of_transfer_fst hT hp rfl hf) hq

end PersistentIncDFPTData

end PersistentPointsTo
