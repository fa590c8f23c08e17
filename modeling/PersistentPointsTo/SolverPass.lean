import Mathlib.Order.Basic
import Mathlib.Algebra.Order.Ring.Nat

namespace PersistentPointsTo

/-! ### A solver's passes over a list of transfer calls

The solver is not part of this header: it calls the transfers of a data-flow store in a fixed
order, over and over, until a whole pass in which every call returns false. -/

section Pass

variable {St Tr : Type} (exec : St → Tr → Bool × St)

/-- One call of a pass: run it on the current store and remember whether a call returned true. -/
def passStep (acc : Bool × St) (t : Tr) : Bool × St :=
  let r := exec acc.2 t
  (acc.1 || r.1, r.2)

/-- One pass over `ts`: the store after it, and whether some call returned true. -/
def runPass (ts : List Tr) (s : St) : Bool × St :=
  ts.foldl (passStep exec) (false, s)

/-- Passes over `ts` until one in which every call returns false, with at most `fuel` passes. -/
def runUntilQuiet (ts : List Tr) : ℕ → St → Option St
  | 0, _ => none
  | fuel + 1, s =>
    if (runPass exec ts s).1 then runUntilQuiet ts fuel (runPass exec ts s).2
    else some (runPass exec ts s).2

/-- The first `p` calls of a pass. -/
def prefixRun (ts : List Tr) (s : St) (p : ℕ) : Bool × St :=
  (ts.take p).foldl (passStep exec) (false, s)

variable {exec}

@[simp] theorem prefixRun_zero (ts : List Tr) (s : St) : prefixRun exec ts s 0 = (false, s) := by
  simp [prefixRun]

theorem prefixRun_succ {ts : List Tr} (s : St) {p : ℕ} (hp : p < ts.length) :
    prefixRun exec ts s (p + 1) = passStep exec (prefixRun exec ts s p) ts[p] := by
  simp only [prefixRun, List.take_succ, List.getElem?_eq_getElem hp, Option.toList_some,
    List.foldl_append, List.foldl_cons, List.foldl_nil]

theorem prefixRun_length (ts : List Tr) (s : St) :
    prefixRun exec ts s ts.length = runPass exec ts s := by
  simp [prefixRun, runPass]

/-- A property of the stores inside a pass, indexed by position, that holds at the start and that
the call at each position carries to the next, holds at every position. -/
theorem prefixRun_induction (Q : ℕ → St → Prop) {ts : List Tr} {s : St} (h0 : Q 0 s)
    (hstep : ∀ p (hp : p < ts.length) s', Q p s' → Q (p + 1) (exec s' ts[p]).2) :
    ∀ p ≤ ts.length, Q p (prefixRun exec ts s p).2 := by
  intro p hp
  induction p with
  | zero => simpa using h0
  | succ p ih => rw [prefixRun_succ s hp]; exact hstep p hp _ (ih (by omega))

/-- What every pass keeps holds of a store the loop stops at, which ends a pass that returned
false from a store where it holds. -/
theorem runUntilQuiet_eq_some (Inv : St → Prop) {ts : List Tr}
    (hinv : ∀ s, Inv s → Inv (runPass exec ts s).2) :
    ∀ (fuel : ℕ) (s s' : St), Inv s → runUntilQuiet exec ts fuel s = some s' →
      ∃ s₀, Inv s₀ ∧ (runPass exec ts s₀).1 = false ∧ (runPass exec ts s₀).2 = s'
  | 0, _, _, _, h => by simp [runUntilQuiet] at h
  | fuel + 1, s, s', hs, h => by
    simp only [runUntilQuiet] at h
    split at h
    · exact runUntilQuiet_eq_some Inv hinv fuel _ _ (hinv s hs) h
    · exact ⟨s, hs, Bool.eq_false_iff.mpr ‹_›, Option.some.inj h⟩

/-- The loop stops within `fuel` passes when each pass that returns true raises a measure that
the passes' invariant bounds by `B`. -/
theorem runUntilQuiet_isSome (Inv : St → Prop) (m : St → ℕ) (B : ℕ) {ts : List Tr}
    (hinv : ∀ s, Inv s → Inv (runPass exec ts s).2) (hbound : ∀ s, Inv s → m s ≤ B)
    (hgrow : ∀ s, Inv s → (runPass exec ts s).1 = true → m s < m (runPass exec ts s).2) :
    ∀ (fuel : ℕ) (s : St), Inv s → B < fuel + m s → (runUntilQuiet exec ts fuel s).isSome
  | 0, s, hs, hB => absurd (hbound s hs) (by omega)
  | fuel + 1, s, hs, hB => by
    simp only [runUntilQuiet]
    split
    · rename_i ht
      have := hgrow s hs ht
      exact runUntilQuiet_isSome Inv m B hinv hbound hgrow fuel _ (hinv s hs) (by omega)
    · rfl

/-- What every call of a pass keeps holds after the pass. -/
theorem runPass_induction (Inv : St → Prop) {ts : List Tr}
    (hstep : ∀ s t, t ∈ ts → Inv s → Inv (exec s t).2) {s : St} (hs : Inv s) :
    Inv (runPass exec ts s).2 := by
  rw [← prefixRun_length]
  exact prefixRun_induction (fun _ s => Inv s) hs
    (fun p hp s' hs' => hstep s' _ (List.getElem_mem hp) hs') _ le_rfl

/-- What every call keeps holds of a store the loop stops at. -/
theorem runUntilQuiet_induction (Inv : St → Prop) {ts : List Tr}
    (hstep : ∀ s t, t ∈ ts → Inv s → Inv (exec s t).2) {fuel : ℕ} {s s' : St} (hs : Inv s)
    (hr : runUntilQuiet exec ts fuel s = some s') : Inv s' := by
  obtain ⟨s₀, hs₀, -, rfl⟩ :=
    runUntilQuiet_eq_some Inv (fun _ h => runPass_induction Inv hstep h) fuel s s' hs hr
  exact runPass_induction Inv hstep hs₀

theorem foldl_passStep_true (ts : List Tr) (s : St) :
    (ts.foldl (passStep exec) (true, s)).1 = true := by
  induction ts generalizing s with
  | nil => rfl
  | cons t ts ih => exact ih _

/-- Over a pass, a measure that no call lowers and that a call returning true raises, on the
stores an invariant every call keeps holds of, rises unless the pass reports no call true. -/
theorem foldl_passStep_measure (Inv : St → Prop) (m : St → ℕ) {ts : List Tr}
    (hstep : ∀ s t, t ∈ ts → Inv s → Inv (exec s t).2 ∧ m s ≤ m (exec s t).2 ∧
      ((exec s t).1 = true → m s < m (exec s t).2)) (b : Bool) {s : St} (hs : Inv s) :
    Inv (ts.foldl (passStep exec) (b, s)).2 ∧ m s ≤ m (ts.foldl (passStep exec) (b, s)).2 ∧
      ((ts.foldl (passStep exec) (b, s)).1 = true →
        b = true ∨ m s < m (ts.foldl (passStep exec) (b, s)).2) := by
  induction ts generalizing b s with
  | nil => exact ⟨hs, le_rfl, .inl⟩
  | cons t ts ih =>
    obtain ⟨hi, hle, hlt⟩ := hstep s t (List.mem_cons_self _ _) hs
    obtain ⟨hi', hle', hlt'⟩ :=
      ih (fun s t' ht' => hstep s t' (List.mem_cons_of_mem _ ht')) (b || (exec s t).1) hi
    refine ⟨hi', hle.trans hle', fun h => ?_⟩
    rcases hlt' h with hb | hm
    · rcases Bool.or_eq_true_iff.mp hb with hb | hb
      · exact .inl hb
      · exact .inr ((hlt hb).trans_le hle')
    · exact .inr (hle.trans_lt hm)

theorem runPass_measure (Inv : St → Prop) (m : St → ℕ) {ts : List Tr}
    (hstep : ∀ s t, t ∈ ts → Inv s → Inv (exec s t).2 ∧ m s ≤ m (exec s t).2 ∧
      ((exec s t).1 = true → m s < m (exec s t).2)) {s : St} (hs : Inv s)
    (ht : (runPass exec ts s).1 = true) : m s < m (runPass exec ts s).2 :=
  ((foldl_passStep_measure Inv m hstep false hs).2.2 ht).resolve_left Bool.false_ne_true

/-- A pass in which every call returns false, keeps `Inv` and the observation and gives `P` of its
item, leaves the observation alone and gives `P` of every item. -/
theorem runPass_quiet {V : Type} (Inv : St → Prop) (obs : St → V) (P : Tr → V → Prop)
    {ts : List Tr} (hstep : ∀ s t, t ∈ ts → Inv s → (exec s t).1 = false →
      Inv (exec s t).2 ∧ obs (exec s t).2 = obs s ∧ P t (obs s)) {s : St} (hs : Inv s)
    (hq : (runPass exec ts s).1 = false) :
    obs (runPass exec ts s).2 = obs s ∧ ∀ t ∈ ts, P t (obs s) := by
  induction ts generalizing s with
  | nil => exact ⟨rfl, fun _ h => absurd h (List.not_mem_nil _)⟩
  | cons t ts ih =>
    cases hr : (exec s t).1
    · obtain ⟨hi, hobs, hp⟩ := hstep s t (List.mem_cons_self _ _) hs hr
      have hq' : (runPass exec ts (exec s t).2).1 = false := by
        simpa [runPass, passStep, hr] using hq
      obtain ⟨hfin, hall⟩ := ih (fun s t' ht' => hstep s t' (List.mem_cons_of_mem _ ht')) hi hq'
      refine ⟨?_, fun t' ht' => ?_⟩
      · simpa [runPass, passStep, hr, hobs] using hfin
      · rcases List.mem_cons.mp ht' with rfl | ht'
        · exact hp
        · exact hobs ▸ hall t' ht'
    · have : (ts.foldl (passStep exec) (true, (exec s t).2)).1 = true := foldl_passStep_true ts _
      simp [runPass, passStep, hr, this] at hq

end Pass

/-! ### Passes of calls that only grow what they write -/

section Monotone

variable {St Tr V : Type} [PartialOrder V] {exec : St → Tr → Bool × St} {obs : St → V}
variable (hmono : ∀ s t, obs s ≤ obs (exec s t).2)
  (hres : ∀ s t, (exec s t).1 = true ↔ obs (exec s t).2 ≠ obs s)

private theorem ne_iff_of_le_le {a b c : V} (hab : a ≤ b) (hbc : b ≤ c) :
    c ≠ a ↔ b ≠ a ∨ c ≠ b := by
  refine ⟨fun h => ?_, ?_⟩
  · by_cases hb : b = a
    · exact .inr fun hcb => h (hcb.trans hb)
    · exact .inl hb
  · rintro (h | h) he
    · exact h (le_antisymm (he ▸ hbc) hab)
    · exact h (le_antisymm (he ▸ hab) hbc)

include hmono hres in
theorem foldl_passStep (ts : List Tr) (b : Bool) (s : St) :
    obs s ≤ obs (ts.foldl (passStep exec) (b, s)).2 ∧
    ((ts.foldl (passStep exec) (b, s)).1 = true ↔
      b = true ∨ obs (ts.foldl (passStep exec) (b, s)).2 ≠ obs s) := by
  induction ts generalizing b s with
  | nil => simp
  | cons t ts ih =>
    obtain ⟨h1, h2⟩ := ih (b || (exec s t).1) (exec s t).2
    refine ⟨(hmono s t).trans h1, ?_⟩
    simp only [List.foldl_cons, passStep] at h1 h2 ⊢
    rw [h2, Bool.or_eq_true, hres, ne_iff_of_le_le (hmono s t) h1]
    exact or_assoc

include hmono hres in
/-- A pass returns true exactly when it changed what the store reads as. -/
theorem runPass_fst_iff (ts : List Tr) (s : St) :
    (runPass exec ts s).1 = true ↔ obs (runPass exec ts s).2 ≠ obs s := by
  simpa using (foldl_passStep hmono hres ts false s).2

include hmono in
theorem prefixRun_mono {ts : List Tr} (s : St) {p q : ℕ} (hpq : p ≤ q) (hq : q ≤ ts.length) :
    obs (prefixRun exec ts s p).2 ≤ obs (prefixRun exec ts s q).2 := by
  induction q, hpq using Nat.le_induction with
  | base => exact le_rfl
  | succ q hpq ih => rw [prefixRun_succ s hq]; exact (ih (by omega)).trans (hmono _ _)

include hmono in
theorem runPass_mono (ts : List Tr) (s : St) : obs s ≤ obs (runPass exec ts s).2 := by
  simpa [prefixRun_length] using prefixRun_mono hmono s (Nat.zero_le ts.length) le_rfl

include hmono hres in
/-- In a pass that returned false, every call returned false, on a store that reads as the
store the pass started from. -/
theorem quiet_call {ts : List Tr} {s : St} (hq : (runPass exec ts s).1 = false) {p : ℕ}
    (hp : p < ts.length) :
    obs (prefixRun exec ts s p).2 = obs s ∧ (exec (prefixRun exec ts s p).2 ts[p]).1 = false := by
  have hfin : obs (runPass exec ts s).2 = obs s := by
    simpa [hq] using (runPass_fst_iff hmono hres ts s).not
  have h0 : obs s ≤ obs (prefixRun exec ts s p).2 := by
    simpa using prefixRun_mono hmono s (Nat.zero_le p) hp.le
  have h1 : obs (exec (prefixRun exec ts s p).2 ts[p]).2 ≤ obs s := by
    have h := prefixRun_mono hmono s hp (le_refl ts.length)
    rwa [prefixRun_succ s hp, prefixRun_length, hfin] at h
  have hp' : obs (prefixRun exec ts s p).2 = obs s := le_antisymm ((hmono _ _).trans h1) h0
  have h2 : obs (exec (prefixRun exec ts s p).2 ts[p]).2 = obs (prefixRun exec ts s p).2 :=
    le_antisymm (h1.trans hp'.ge) (hmono _ _)
  exact ⟨hp', by simpa [h2] using (hres (prefixRun exec ts s p).2 ts[p]).not⟩

end Monotone

end PersistentPointsTo
