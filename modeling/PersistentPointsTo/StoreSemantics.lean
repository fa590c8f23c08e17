import PersistentPointsTo.ExactUpdate
import PersistentPointsTo.DiffPropagation
import PersistentPointsTo.Reverse

namespace PersistentPointsTo

/-! ### The sets the basic, diff and versioned stores are meant to hold

Each call acts on the sets a store holds: `clear` empties them, a single-destination call writes
its set as `write` says, `computeDiffPts`, `updatePropaPtsMap` and `clearPropaPts` act on the
diff and propagated sets, and reads change nothing. The versioned store means two basic stores
with unions across them. Every store computes its meaning over every run. -/

section Abstract

variable {Key VersionedKey Data : Type} [DecidableEq Key] [DecidableEq VersionedKey]
  [DecidableEq Data]

/-- The sets after a call of the base interface. -/
def PTDataOp.apply (σ : Key → Finset Data) : PTDataOp Key Data → Key → Finset Data
  | .clear => fun _ => ∅
  | op => ((op.write σ).map fun w => Function.update σ w.1 w.2).getD σ

/-- The points-to, diff and propagated sets of a diff store. -/
structure DiffSets (Key Data : Type) where
  pts : Key → Finset Data
  diff : Key → Finset Data
  propa : Key → Finset Data

/-- The sets after a call of the diff store: `computeDiffPts(var, all)` sets the diff to `all`
less what was propagated and marks `all` propagated, `updatePropaPtsMap(src, dst)` keeps of
`dst`'s propagated set what `src`'s holds too. -/
def DiffPTDataOp.apply (σ : DiffSets Key Data) : DiffPTDataOp Key Data → DiffSets Key Data
  | .base .clear => ⟨fun _ => ∅, fun _ => ∅, fun _ => ∅⟩
  | .base op => { σ with pts := op.apply σ.pts }
  | .getDiffPts _ => σ
  | .computeDiffPts var all =>
    { σ with diff := Function.update σ.diff var (all \ σ.propa var),
             propa := Function.update σ.propa var all }
  | .updatePropaPtsMap src dst =>
    { σ with propa := Function.update σ.propa dst (σ.propa dst ∩ σ.propa src) }
  | .clearPropaPts var => { σ with propa := Function.update σ.propa var ∅ }

/-- The sets after a call of the versioned store: a call of either key space acts on that space
as on a basic store, but `clear` empties both; a cross-space union joins one space's set into
the other's. -/
def VersionedPTDataOp.apply (σ : Key ⊕ VersionedKey → Finset Data) :
    VersionedPTDataOp Key VersionedKey Data → Key ⊕ VersionedKey → Finset Data
  | .key .clear | .versionedKey .clear => fun _ => ∅
  | .key op => Sum.elim (op.apply (σ ∘ Sum.inl)) (σ ∘ Sum.inr)
  | .versionedKey op => Sum.elim (σ ∘ Sum.inl) (op.apply (σ ∘ Sum.inr))
  | .unionPtsVersionedKeyKey dstVar srcVar =>
    Function.update σ (.inr dstVar) (σ (.inr dstVar) ∪ σ (.inl srcVar))
  | .unionPtsKeyVersionedKey dstVar srcVar =>
    Function.update σ (.inl dstVar) (σ (.inl dstVar) ∪ σ (.inr srcVar))

/-- What a union into `dst` from the set `src` does to the reverse sets of a store built with
`rev`: when the store tracks them and `dst` grows, `dst` joins the reverse set of every element
of `src`. -/
def PTDataOp.revUnion (rev : Bool) (σ : Key → Finset Data) (r : Data → Finset Key) (dst : Key)
    (src : Finset Data) : Data → Finset Key :=
  fun d => if ¬ src ⊆ σ dst ∧ rev ∧ d ∈ src then insert dst (r d) else r d

/-- The reverse sets after a call of the base interface on a store built with `rev`, from its
points-to sets `σ` and reverse sets `r` before the call. -/
def PTDataOp.revApply (rev : Bool) (σ : Key → Finset Data) (r : Data → Finset Key) :
    PTDataOp Key Data → Data → Finset Key
  | .clear => fun _ => ∅
  | .addPts dstKey element => PTDataOp.revUnion rev σ r dstKey {element}
  | .unionPts dstKey srcKey => PTDataOp.revUnion rev σ r dstKey (σ srcKey)
  | .unionPtsData dstKey srcData => PTDataOp.revUnion rev σ r dstKey srcData
  | .clearPts var element => fun d =>
    if d = element ∧ element ∈ σ var ∧ rev then (r element).erase var else r d
  | .clearFullPts var => fun d => if rev ∧ d ∈ σ var then (r d).erase var else r d
  | .getPts _ | .getRevPts _ => r

/-- What a call of the base interface returns, from the sets before it: a union reports whether
it adds an element. -/
def PTDataOp.reply (σ : Key → Finset Data) : PTDataOp Key Data → Option Bool
  | .addPts dstKey element => some (decide ¬ {element} ⊆ σ dstKey)
  | .unionPts dstKey srcKey => some (decide ¬ σ srcKey ⊆ σ dstKey)
  | .unionPtsData dstKey srcData => some (decide ¬ srcData ⊆ σ dstKey)
  | _ => none

/-- A single-destination call means writing its set. -/
theorem PTDataOp.apply_of_write {σ : Key → Finset Data} {op : PTDataOp Key Data} {dst : Key}
    {new : Finset Data} (h : op.write σ = some (dst, new)) :
    op.apply σ = Function.update σ dst new := by
  cases op
  case clear => simp [write] at h
  all_goals simp only [apply, h, Option.map_some', Option.getD_some]

end Abstract

/-! ### Each store computes its sets -/

section Stores

variable {Key Data ID : Type} [DecidableEq Key] [LinearOrder Data] [DecidableEq ID]
variable (c : PersistentPointsToCache ID Data)

/-- The sets a diff store holds. -/
def PersistentDiffPTData.sets (s : PersistentDiffPTData Key Data ID) : DiffSets Key Data :=
  ⟨s.ptsOf c, s.diffOf c, s.propaOf c⟩

variable {c}

theorem PersistentPTData.ptsOf_step_of_write (s : PersistentPTData Key Data ID)
    {op : PTDataOp Key Data} {dst : Key} {new : Finset Data}
    (h : op.write (s.ptsOf c) = some (dst, new)) : (s.step c op).ptsOf c = op.apply (s.ptsOf c) :=
  (step_write s h).1.trans (PTDataOp.apply_of_write h).symm

/-- Every call of the basic store leaves exactly the sets `PTDataOp.apply` gives. -/
theorem PersistentPTData.ptsOf_step (s : PersistentPTData Key Data ID) (op : PTDataOp Key Data) :
    (s.step c op).ptsOf c = op.apply (s.ptsOf c) := by
  cases op
  case clear => exact funext s.ptsOf_clear
  case getPts var => exact funext (s.ptsOf_touchPts var)
  case getRevPts data =>
    simp only [step, getRevPts]
    split_ifs <;> rfl
  all_goals exact ptsOf_step_of_write s rfl

/-- Every call of the basic store leaves exactly the reverse sets `PTDataOp.revApply` gives. -/
theorem PersistentPTData.revOf_step (s : PersistentPTData Key Data ID) (op : PTDataOp Key Data) :
    (s.step c op).revOf = op.revApply s.rev (s.ptsOf c) s.revOf := by
  funext d
  cases op with
  | clear | getPts => rfl
  | getRevPts data =>
    simp only [step, getRevPts]
    split_ifs
    · exact valueAt_touch _ _ _ _
    · rfl
  | addPts k e =>
    show (s.unionPtsFromId c k (c.emplacePts {e})).2.revOf d = _
    rw [revOf_unionPtsFromId, c.getActualPts_emplacePts]; rfl
  | unionPts k k' =>
    show ((s.touchPts c k').unionPtsFromId c k (s.ptsId c k')).2.revOf d = _
    rw [revOf_unionPtsFromId, ptsOf_touchPts]; rfl
  | unionPtsData k ds =>
    show (s.unionPtsFromId c k (c.emplacePts ds)).2.revOf d = _
    rw [revOf_unionPtsFromId, c.getActualPts_emplacePts]; rfl
  | clearPts k e => exact revOf_clearPts s k e d
  | clearFullPts k => exact revOf_clearFullPts s k d

/-- Every call of the basic store returns what `PTDataOp.reply` gives. -/
theorem PersistentPTData.result_eq_reply (s : PersistentPTData Key Data ID)
    (op : PTDataOp Key Data) :
    s.result c op = op.reply (s.ptsOf c) := by
  have hfst : ∀ (t : PersistentPTData Key Data ID) k id,
      (t.unionPtsFromId c k id).1 = decide ¬ c.getActualPts id ⊆ t.ptsOf c k :=
    fun t k id => Bool.eq_iff_iff.mpr ((unionPtsFromId_fst t k id).trans decide_eq_true_iff.symm)
  cases op with
  | addPts k e =>
    show some (s.unionPtsFromId c k (c.emplacePts {e})).1 = _
    rw [hfst, c.getActualPts_emplacePts]; rfl
  | unionPts k k' =>
    show some ((s.touchPts c k').unionPtsFromId c k (s.ptsId c k')).1 = _
    rw [hfst, ptsOf_touchPts]; rfl
  | unionPtsData k ds =>
    show some (s.unionPtsFromId c k (c.emplacePts ds)).1 = _
    rw [hfst, c.getActualPts_emplacePts]; rfl
  | _ => rfl

/-- Over any run the basic store holds exactly the sets its calls mean. -/
theorem basic_run_computes_apply (s : PersistentPTData Key Data ID)
    (ops : List (PTDataOp Key Data)) :
    (ops.foldl (PersistentPTData.step c) s).ptsOf c = ops.foldl PTDataOp.apply (s.ptsOf c) := by
  induction ops generalizing s with
  | nil => rfl
  | cons op ops ih => rw [List.foldl_cons, List.foldl_cons, ih, PersistentPTData.ptsOf_step]

/-- Every call of the diff store leaves exactly the sets `DiffPTDataOp.apply` gives. -/
theorem PersistentDiffPTData.sets_step (s : PersistentDiffPTData Key Data ID)
    (op : DiffPTDataOp Key Data) : (s.step c op).sets c = op.apply (s.sets c) := by
  cases op with
  | base op =>
    have hpts : (s.stepBase c op).ptsOf c = op.apply (s.ptsOf c) := by
      show (s.stepBase c op).persPTData.ptsOf c = _
      rw [persPTData_stepBase, PersistentPTData.ptsOf_step]; rfl
    by_cases hop : op = .clear
    · subst hop
      simp only [sets, step, DiffPTDataOp.apply, DiffSets.mk.injEq]
      refine ⟨hpts, funext fun k => ?_, funext (propaOf_clear s)⟩
      simp [stepBase, clear, diffOf, diffId]
    · obtain ⟨hd, hp⟩ := forall_and.mp (diffOf_stepBase (c := c) s hop)
      have happly : DiffPTDataOp.apply (s.sets c) (.base op) = { s.sets c with pts := op.apply (s.ptsOf c) } := by
        cases op
        case clear => exact absurd rfl hop
        all_goals rfl
      rw [happly]
      simp only [sets, step, DiffSets.mk.injEq]
      exact ⟨hpts, funext hd, funext hp⟩
  | getDiffPts var =>
    simp only [sets, step, getDiffPts, DiffPTDataOp.apply, DiffSets.mk.injEq]
    exact ⟨rfl, funext fun k => by simp [diffOf, diffId], rfl⟩
  | computeDiffPts var all =>
    have h := fun k => computeDiffPts_spec (c := c) s var k all
    simp only [sets, step, DiffPTDataOp.apply, DiffSets.mk.injEq]
    refine ⟨congrArg (PersistentPTData.ptsOf c) (h var).2.1, funext fun k => ?_, funext fun k => ?_⟩
    · rw [(h k).2.2.1, Function.update_apply]
    · rw [(h k).2.2.2, Function.update_apply]
  | updatePropaPtsMap src dst =>
    have h := updatePropaPtsMap_spec (c := c) s src dst
    simp only [sets, step, DiffPTDataOp.apply, DiffSets.mk.injEq]
    exact ⟨rfl, funext fun k => (h k).2.1, funext fun k => by rw [(h k).2.2, Function.update_apply]⟩
  | clearPropaPts var =>
    have h := clearPropaPts_spec (c := c) s var
    simp only [sets, step, DiffPTDataOp.apply, DiffSets.mk.injEq]
    exact ⟨rfl, funext fun k => (h k).2.1, funext fun k => by rw [(h k).2.2, Function.update_apply]⟩

/-- Over any run the diff store holds exactly the points-to, diff and propagated sets its calls
mean. -/
theorem diff_run_computes_apply (s : PersistentDiffPTData Key Data ID)
    (ops : List (DiffPTDataOp Key Data)) :
    (ops.foldl (PersistentDiffPTData.step c) s).sets c = ops.foldl DiffPTDataOp.apply (s.sets c) := by
  induction ops generalizing s with
  | nil => rfl
  | cons op ops ih => rw [List.foldl_cons, List.foldl_cons, ih, PersistentDiffPTData.sets_step]

end Stores

section Versioned

variable {Key VersionedKey Data ID : Type} [DecidableEq Key] [DecidableEq VersionedKey]
  [LinearOrder Data] [DecidableEq ID]
variable {c : PersistentPointsToCache ID Data}

theorem PersistentVersionedPTData.ptsOf_stepKey
    (s : PersistentVersionedPTData Key VersionedKey Data ID) {op : PTDataOp Key Data}
    (h : op ≠ .clear) :
    (s.stepKey c op).ptsOf c = Sum.elim ((s.tlPTData.step c op).ptsOf c) (s.atPTData.ptsOf c) := by
  obtain ⟨ht, ha⟩ := stepKey_spaces (c := c) s h
  funext y
  cases y <;> simp only [ptsOf, ht, ha, Sum.elim_inl, Sum.elim_inr]

theorem PersistentVersionedPTData.ptsOf_stepVersionedKey
    (s : PersistentVersionedPTData Key VersionedKey Data ID) {op : PTDataOp VersionedKey Data}
    (h : op ≠ .clear) :
    (s.stepVersionedKey c op).ptsOf c =
      Sum.elim (s.tlPTData.ptsOf c) ((s.atPTData.step c op).ptsOf c) := by
  obtain ⟨ha, ht⟩ := stepVersionedKey_spaces (c := c) s h
  funext y
  cases y <;> simp only [ptsOf, ht, ha, Sum.elim_inl, Sum.elim_inr]

/-- Every call of the versioned store leaves exactly the sets `VersionedPTDataOp.apply` gives. -/
theorem PersistentVersionedPTData.ptsOf_step (s : PersistentVersionedPTData Key VersionedKey Data ID)
    (op : VersionedPTDataOp Key VersionedKey Data) :
    (s.step c op).ptsOf c = op.apply (s.ptsOf c) := by
  cases op with
  | key op =>
    cases op
    case clear => funext y; cases y <;> simp [step, stepKey, clear, ptsOf, VersionedPTDataOp.apply]
    all_goals
      refine (ptsOf_stepKey s (by simp)).trans ?_
      rw [PersistentPTData.ptsOf_step]
      rfl
  | versionedKey op =>
    cases op
    case clear =>
      funext y; cases y <;> simp [step, stepVersionedKey, clear, ptsOf, VersionedPTDataOp.apply]
    all_goals
      refine (ptsOf_stepVersionedKey s (by simp)).trans ?_
      rw [PersistentPTData.ptsOf_step]
      rfl
  | unionPtsVersionedKeyKey dstVar srcVar =>
    exact (step_write s (rfl : VersionedPTDataOp.write (s.ptsOf c)
      (.unionPtsVersionedKeyKey dstVar srcVar) = _)).1
  | unionPtsKeyVersionedKey dstVar srcVar =>
    exact (step_write s (rfl : VersionedPTDataOp.write (s.ptsOf c)
      (.unionPtsKeyVersionedKey dstVar srcVar) = _)).1

/-- Over any run the versioned store holds exactly the sets its calls mean, in both key spaces. -/
theorem versioned_run_computes_apply (s : PersistentVersionedPTData Key VersionedKey Data ID)
    (ops : List (VersionedPTDataOp Key VersionedKey Data)) :
    (ops.foldl (PersistentVersionedPTData.step c) s).ptsOf c =
      ops.foldl VersionedPTDataOp.apply (s.ptsOf c) := by
  induction ops generalizing s with
  | nil => rfl
  | cons op ops ih =>
    rw [List.foldl_cons, List.foldl_cons, ih, PersistentVersionedPTData.ptsOf_step]

end Versioned

/-! ### The cache is not observable -/

section Cache

variable {Key VersionedKey Data ID₁ ID₂ : Type} [DecidableEq Key] [DecidableEq VersionedKey]
  [LinearOrder Data] [DecidableEq ID₁] [DecidableEq ID₂]
  {c₁ : PersistentPointsToCache ID₁ Data} {c₂ : PersistentPointsToCache ID₂ Data}

/-- A relation between two stores that every call keeps holds after any run of the same calls. -/
theorem foldl_rel_of_step {S₁ S₂ Op : Type} (R : S₁ → S₂ → Prop) {f₁ : S₁ → Op → S₁}
    {f₂ : S₂ → Op → S₂} (h : ∀ s₁ s₂ op, R s₁ s₂ → R (f₁ s₁ op) (f₂ s₂ op)) (ops : List Op)
    {s₁ : S₁} {s₂ : S₂} (hs : R s₁ s₂) : R (ops.foldl f₁ s₁) (ops.foldl f₂ s₂) := by
  induction ops generalizing s₁ s₂ with
  | nil => exact hs
  | cons op ops ih => exact ih (h _ _ op hs)

/-- Two basic stores, over any two caches, that every getter reads the same: the same
reverse-tracking flag, points-to sets and reverse sets. -/
def PersistentPTData.SameView (c₁ : PersistentPointsToCache ID₁ Data)
    (c₂ : PersistentPointsToCache ID₂ Data) (s₁ : PersistentPTData Key Data ID₁)
    (s₂ : PersistentPTData Key Data ID₂) : Prop :=
  s₁.rev = s₂.rev ∧ s₁.ptsOf c₁ = s₂.ptsOf c₂ ∧ s₁.revOf = s₂.revOf

omit [DecidableEq ID₁] [DecidableEq ID₂] in
theorem PersistentPTData.SameView.init (c₁ : PersistentPointsToCache ID₁ Data)
    (c₂ : PersistentPointsToCache ID₂ Data) (reversePT : Bool) :
    SameView c₁ c₂ (init reversePT : PersistentPTData Key Data ID₁) (init reversePT) :=
  ⟨rfl, funext fun k => by simp, rfl⟩

theorem PersistentPTData.SameView.step {s₁ : PersistentPTData Key Data ID₁}
    {s₂ : PersistentPTData Key Data ID₂} (h : SameView c₁ c₂ s₁ s₂) (op : PTDataOp Key Data) :
    SameView c₁ c₂ (s₁.step c₁ op) (s₂.step c₂ op) := by
  obtain ⟨hr, hp, hv⟩ := h
  exact ⟨by rw [rev_step, rev_step, hr], by rw [ptsOf_step, ptsOf_step, hp],
    by rw [revOf_step, revOf_step, hr, hp, hv]⟩

/-- The cache is unobservable through the basic store: stores over two caches that read the same
still do after any run, and every call returns the same on both. -/
theorem cache_choice_unobservable (s₁ : PersistentPTData Key Data ID₁)
    (s₂ : PersistentPTData Key Data ID₂) (h : PersistentPTData.SameView c₁ c₂ s₁ s₂)
    (ops : List (PTDataOp Key Data)) :
    PersistentPTData.SameView c₁ c₂ (ops.foldl (PersistentPTData.step c₁) s₁)
      (ops.foldl (PersistentPTData.step c₂) s₂) ∧
    ∀ op, (ops.foldl (PersistentPTData.step c₁) s₁).result c₁ op =
      (ops.foldl (PersistentPTData.step c₂) s₂).result c₂ op := by
  have hrun : PersistentPTData.SameView c₁ c₂ (ops.foldl (PersistentPTData.step c₁) s₁)
      (ops.foldl (PersistentPTData.step c₂) s₂) :=
    foldl_rel_of_step _ (fun _ _ op h => h.step op) ops h
  exact ⟨hrun, fun op => by
    rw [PersistentPTData.result_eq_reply, PersistentPTData.result_eq_reply, hrun.2.1]⟩

theorem cache_choice_finset_against_bit_cache :
    let s₁ : PersistentPTData ℕ ℕ (Finset ℕ) := PersistentPTData.init true
    let s₂ : PersistentPTData ℕ ℕ ℕ := PersistentPTData.init true
    PersistentPTData.SameView (finsetCache ℕ) bitCache s₁ s₂ ∧
    ∀ ops : List (PTDataOp ℕ ℕ),
      PersistentPTData.SameView (finsetCache ℕ) bitCache
        (ops.foldl (PersistentPTData.step (finsetCache ℕ)) s₁)
        (ops.foldl (PersistentPTData.step bitCache) s₂) ∧
      ∀ op, (ops.foldl (PersistentPTData.step (finsetCache ℕ)) s₁).result (finsetCache ℕ) op =
        (ops.foldl (PersistentPTData.step bitCache) s₂).result bitCache op :=
  ⟨.init _ _ true, cache_choice_unobservable _ _ (.init _ _ true)⟩

omit [DecidableEq ID₁] [DecidableEq ID₂] in
theorem PersistentPTData.SameView.touchPts {s₁ : PersistentPTData Key Data ID₁}
    {s₂ : PersistentPTData Key Data ID₂} (h : SameView c₁ c₂ s₁ s₂) (k : Key) :
    SameView c₁ c₂ (s₁.touchPts c₁ k) (s₂.touchPts c₂ k) :=
  ⟨h.1, funext fun k' => by rw [ptsOf_touchPts, ptsOf_touchPts, h.2.1], h.2.2⟩

/-- Every union goes through `unionPtsFromId`: on two stores that read the same, with two IDs
naming the same set, it returns the same and leaves two stores that read the same. -/
theorem PersistentPTData.SameView.unionPtsFromId {s₁ : PersistentPTData Key Data ID₁}
    {s₂ : PersistentPTData Key Data ID₂} (h : SameView c₁ c₂ s₁ s₂) (k : Key) {id₁ : ID₁}
    {id₂ : ID₂} (hid : c₁.getActualPts id₁ = c₂.getActualPts id₂) :
    (s₁.unionPtsFromId c₁ k id₁).1 = (s₂.unionPtsFromId c₂ k id₂).1 ∧
      SameView c₁ c₂ (s₁.unionPtsFromId c₁ k id₁).2 (s₂.unionPtsFromId c₂ k id₂).2 := by
  obtain ⟨hr, hp, hv⟩ := h
  refine ⟨Bool.eq_iff_iff.mpr ?_, by rw [rev_unionPtsFromId, rev_unionPtsFromId, hr],
    funext fun k' => ?_, funext fun d => ?_⟩
  · rw [unionPtsFromId_fst, unionPtsFromId_fst, hid, hp]
  · rw [ptsOf_unionPtsFromId, ptsOf_unionPtsFromId, hid, hp]
  · rw [revOf_unionPtsFromId, revOf_unionPtsFromId, hid, hp, hr, hv]

/-- Two diff stores over any two caches whose basic stores read the same, and whose diff and
propagated sets are the same. -/
def PersistentDiffPTData.SameView (c₁ : PersistentPointsToCache ID₁ Data)
    (c₂ : PersistentPointsToCache ID₂ Data) (s₁ : PersistentDiffPTData Key Data ID₁)
    (s₂ : PersistentDiffPTData Key Data ID₂) : Prop :=
  PersistentPTData.SameView c₁ c₂ s₁.persPTData s₂.persPTData ∧ s₁.diffOf c₁ = s₂.diffOf c₂ ∧
    s₁.propaOf c₁ = s₂.propaOf c₂

omit [DecidableEq ID₁] [DecidableEq ID₂] in
theorem PersistentDiffPTData.SameView.init (c₁ : PersistentPointsToCache ID₁ Data)
    (c₂ : PersistentPointsToCache ID₂ Data) (reversePT : Bool) :
    SameView c₁ c₂ (init reversePT : PersistentDiffPTData Key Data ID₁) (init reversePT) :=
  ⟨.init c₁ c₂ reversePT, funext fun k => by simp [diffOf, diffId, PersistentDiffPTData.init],
    funext fun k => by simp [propaOf, propaId, PersistentDiffPTData.init]⟩

theorem PersistentDiffPTData.SameView.step {s₁ : PersistentDiffPTData Key Data ID₁}
    {s₂ : PersistentDiffPTData Key Data ID₂} (h : SameView c₁ c₂ s₁ s₂)
    (op : DiffPTDataOp Key Data) : SameView c₁ c₂ (s₁.step c₁ op) (s₂.step c₂ op) := by
  obtain ⟨hb, hd, hp⟩ := h
  have hsets : (s₁.step c₁ op).sets c₁ = (s₂.step c₂ op).sets c₂ := by
    rw [sets_step, sets_step]
    simp only [sets, hd, hp, show s₁.ptsOf c₁ = s₂.ptsOf c₂ from hb.2.1]
  refine ⟨?_, congrArg DiffSets.diff hsets, congrArg DiffSets.propa hsets⟩
  rw [persPTData_step, persPTData_step]
  cases op with
  | base op => exact hb.step op
  | _ => exact hb

theorem PersistentDiffPTData.SameView.result {s₁ : PersistentDiffPTData Key Data ID₁}
    {s₂ : PersistentDiffPTData Key Data ID₂} (h : SameView c₁ c₂ s₁ s₂)
    (op : DiffPTDataOp Key Data) : s₁.result c₁ op = s₂.result c₂ op := by
  cases op with
  | base op =>
    rw [result_base, result_base, PersistentPTData.result_eq_reply,
      PersistentPTData.result_eq_reply, h.1.2.1]
  | computeDiffPts var all =>
    refine congrArg some (Bool.eq_iff_iff.mpr ?_)
    rw [(computeDiffPts_spec (c := c₁) s₁ var var all).1,
      (computeDiffPts_spec (c := c₂) s₂ var var all).1, h.2.2]
  | _ => rfl

/-- Two versioned stores over any two caches whose two key spaces read the same. -/
def PersistentVersionedPTData.SameView (c₁ : PersistentPointsToCache ID₁ Data)
    (c₂ : PersistentPointsToCache ID₂ Data)
    (s₁ : PersistentVersionedPTData Key VersionedKey Data ID₁)
    (s₂ : PersistentVersionedPTData Key VersionedKey Data ID₂) : Prop :=
  PersistentPTData.SameView c₁ c₂ s₁.tlPTData s₂.tlPTData ∧
    PersistentPTData.SameView c₁ c₂ s₁.atPTData s₂.atPTData

omit [DecidableEq ID₁] [DecidableEq ID₂] in
theorem PersistentVersionedPTData.SameView.init (c₁ : PersistentPointsToCache ID₁ Data)
    (c₂ : PersistentPointsToCache ID₂ Data) (reversePT : Bool) :
    SameView c₁ c₂ (init reversePT : PersistentVersionedPTData Key VersionedKey Data ID₁)
      (init reversePT) :=
  ⟨.init c₁ c₂ reversePT, .init c₁ c₂ reversePT⟩

theorem PersistentVersionedPTData.SameView.step
    {s₁ : PersistentVersionedPTData Key VersionedKey Data ID₁}
    {s₂ : PersistentVersionedPTData Key VersionedKey Data ID₂} (h : SameView c₁ c₂ s₁ s₂)
    (op : VersionedPTDataOp Key VersionedKey Data) :
    SameView c₁ c₂ (s₁.step c₁ op) (s₂.step c₂ op) := by
  obtain ⟨ht, ha⟩ := h
  cases op with
  | key op =>
    by_cases hc : op = .clear
    · subst hc; exact ⟨ht.step .clear, ha.step .clear⟩
    · show SameView c₁ c₂ (s₁.stepKey c₁ op) (s₂.stepKey c₂ op)
      obtain ⟨ht₁, ha₁⟩ := stepKey_spaces (c := c₁) s₁ hc
      obtain ⟨ht₂, ha₂⟩ := stepKey_spaces (c := c₂) s₂ hc
      exact ⟨ht₁ ▸ ht₂ ▸ ht.step op, ha₁ ▸ ha₂ ▸ ha⟩
  | versionedKey op =>
    by_cases hc : op = .clear
    · subst hc; exact ⟨ht.step .clear, ha.step .clear⟩
    · show SameView c₁ c₂ (s₁.stepVersionedKey c₁ op) (s₂.stepVersionedKey c₂ op)
      obtain ⟨ha₁, ht₁⟩ := stepVersionedKey_spaces (c := c₁) s₁ hc
      obtain ⟨ha₂, ht₂⟩ := stepVersionedKey_spaces (c := c₂) s₂ hc
      exact ⟨ht₁ ▸ ht₂ ▸ ht, ha₁ ▸ ha₂ ▸ ha.step op⟩
  | unionPtsVersionedKeyKey dstVar srcVar =>
    exact ⟨ht.touchPts srcVar, (ha.unionPtsFromId dstVar (congrFun ht.2.1 srcVar)).2⟩
  | unionPtsKeyVersionedKey dstVar srcVar =>
    exact ⟨(ht.unionPtsFromId dstVar (congrFun ha.2.1 srcVar)).2, ha.touchPts srcVar⟩

theorem PersistentVersionedPTData.SameView.result
    {s₁ : PersistentVersionedPTData Key VersionedKey Data ID₁}
    {s₂ : PersistentVersionedPTData Key VersionedKey Data ID₂} (h : SameView c₁ c₂ s₁ s₂)
    (op : VersionedPTDataOp Key VersionedKey Data) : s₁.result c₁ op = s₂.result c₂ op := by
  cases op with
  | key op =>
    rw [result_key, result_key, PersistentPTData.result_eq_reply,
      PersistentPTData.result_eq_reply, h.1.2.1]
  | versionedKey op =>
    rw [result_versionedKey, result_versionedKey, PersistentPTData.result_eq_reply,
      PersistentPTData.result_eq_reply, h.2.2.1]
  | unionPtsVersionedKeyKey dstVar srcVar =>
    exact congrArg some (h.2.unionPtsFromId dstVar (congrFun h.1.2.1 srcVar)).1
  | unionPtsKeyVersionedKey dstVar srcVar =>
    exact congrArg some (h.1.unionPtsFromId dstVar (congrFun h.2.2.1 srcVar)).1

/-- Nor through the diff or the versioned store: stores over two caches that read the same still
do after any run, and every call returns the same on both. -/
theorem cache_choice_unobservable_in_diff_and_versioned (d₁ : PersistentDiffPTData Key Data ID₁)
    (d₂ : PersistentDiffPTData Key Data ID₂) (hd : PersistentDiffPTData.SameView c₁ c₂ d₁ d₂)
    (v₁ : PersistentVersionedPTData Key VersionedKey Data ID₁)
    (v₂ : PersistentVersionedPTData Key VersionedKey Data ID₂)
    (hv : PersistentVersionedPTData.SameView c₁ c₂ v₁ v₂) (dops : List (DiffPTDataOp Key Data))
    (vops : List (VersionedPTDataOp Key VersionedKey Data)) :
    (PersistentDiffPTData.SameView c₁ c₂ (dops.foldl (PersistentDiffPTData.step c₁) d₁)
        (dops.foldl (PersistentDiffPTData.step c₂) d₂) ∧
      ∀ op, (dops.foldl (PersistentDiffPTData.step c₁) d₁).result c₁ op =
        (dops.foldl (PersistentDiffPTData.step c₂) d₂).result c₂ op) ∧
    (PersistentVersionedPTData.SameView c₁ c₂ (vops.foldl (PersistentVersionedPTData.step c₁) v₁)
        (vops.foldl (PersistentVersionedPTData.step c₂) v₂) ∧
      ∀ op, (vops.foldl (PersistentVersionedPTData.step c₁) v₁).result c₁ op =
        (vops.foldl (PersistentVersionedPTData.step c₂) v₂).result c₂ op) := by
  have hdrun := foldl_rel_of_step (PersistentDiffPTData.SameView c₁ c₂)
    (fun _ _ op h => h.step op) dops hd
  have hvrun := foldl_rel_of_step (PersistentVersionedPTData.SameView c₁ c₂)
    (fun _ _ op h => h.step op) vops hv
  exact ⟨⟨hdrun, hdrun.result⟩, ⟨hvrun, hvrun.result⟩⟩

theorem diff_and_versioned_finset_against_bit_cache :
    let d₁ : PersistentDiffPTData ℕ ℕ (Finset ℕ) := PersistentDiffPTData.init true
    let d₂ : PersistentDiffPTData ℕ ℕ ℕ := PersistentDiffPTData.init true
    let v₁ : PersistentVersionedPTData ℕ ℕ ℕ (Finset ℕ) := PersistentVersionedPTData.init true
    let v₂ : PersistentVersionedPTData ℕ ℕ ℕ ℕ := PersistentVersionedPTData.init true
    PersistentDiffPTData.SameView (finsetCache ℕ) bitCache d₁ d₂ ∧
    PersistentVersionedPTData.SameView (finsetCache ℕ) bitCache v₁ v₂ ∧
    ∀ (dops : List (DiffPTDataOp ℕ ℕ)) (vops : List (VersionedPTDataOp ℕ ℕ ℕ)),
      (PersistentDiffPTData.SameView (finsetCache ℕ) bitCache
          (dops.foldl (PersistentDiffPTData.step (finsetCache ℕ)) d₁)
          (dops.foldl (PersistentDiffPTData.step bitCache) d₂) ∧
        ∀ op, (dops.foldl (PersistentDiffPTData.step (finsetCache ℕ)) d₁).result (finsetCache ℕ) op =
          (dops.foldl (PersistentDiffPTData.step bitCache) d₂).result bitCache op) ∧
      (PersistentVersionedPTData.SameView (finsetCache ℕ) bitCache
          (vops.foldl (PersistentVersionedPTData.step (finsetCache ℕ)) v₁)
          (vops.foldl (PersistentVersionedPTData.step bitCache) v₂) ∧
        ∀ op, (vops.foldl (PersistentVersionedPTData.step (finsetCache ℕ)) v₁).result
            (finsetCache ℕ) op =
          (vops.foldl (PersistentVersionedPTData.step bitCache) v₂).result bitCache op) :=
  ⟨.init _ _ true, .init _ _ true, cache_choice_unobservable_in_diff_and_versioned _ _
    (.init _ _ true) _ _ (.init _ _ true)⟩

end Cache

end PersistentPointsTo
