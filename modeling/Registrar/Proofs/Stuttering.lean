import Mathlib.Data.ENat.Basic
import Mathlib.Data.Nat.Find

/-!
# Runs up to stuttering

* `IsRun` : a run of a step relation, finite or not;
* `Paced` : one run stays with another one, which it may keep waiting;
* `Mirrors` : a run is another one up to stuttering, once its states are mapped and some of them dropped;
* `exists_run_below` : a run stays with one whose steps match its own, save for steps that only go up below a bound;
* `exists_run_above` : a run is led by one that, for each of its steps, goes up far enough and then matches the step.
-/

namespace Registrar

/-- A run of `n` steps, or one without end if `n` is `⊤`. -/
def IsRun (step : Nat → Nat → Prop) (n : ℕ∞) (u : Nat → Nat) : Prop :=
  ∀ k : Nat, (k : ℕ∞) < n → step (u k) (u (k + 1))

/-- While the run `u` has gone `k` of its `n` steps, the run `o` has gone `pace k` of its `m` steps. The states where they
are then satisfy `R`, and for each state of `o` some state of `u` satisfies `S` with it. -/
structure Paced (R S : Nat → Nat → Prop) (n : ℕ∞) (u : Nat → Nat) (m : ℕ∞) (o : Nat → Nat) (pace : Nat → Nat) :
    Prop where
  zero : pace 0 = 0
  succ : ∀ k : Nat, (k : ℕ∞) < n → pace (k + 1) = pace k ∨ pace (k + 1) = pace k + 1
  le : ∀ k : Nat, (k : ℕ∞) ≤ n → (pace k : ℕ∞) ≤ m
  related : ∀ k : Nat, (k : ℕ∞) ≤ n → R (u k) (o (pace k))
  onto : ∀ j : Nat, (j : ℕ∞) ≤ m → ∃ k : Nat, (k : ℕ∞) ≤ n ∧ pace k = j ∧ S (u k) (o j)

/-- The run `u`, its states mapped by `origin` and those without an image dropped, is the run `o` with each of its states
taken once or more. -/
def Mirrors (origin : Nat → Option Nat) (n : ℕ∞) (u : Nat → Nat) (m : ℕ∞) (o : Nat → Nat) : Prop :=
  ∃ pace, Paced (fun v x => ∀ y ∈ origin v, y = x) (fun v x => origin v = some x) n u m o pace

theorem Paced.imp {R S R' S' : Nat → Nat → Prop} {n m : ℕ∞} {u o pace : Nat → Nat} (h : Paced R S n u m o pace)
    (hR : ∀ v x, R v x → R' v x) (hS : ∀ v x, S v x → S' v x) : Paced R' S' n u m o pace where
  zero := h.zero
  succ := h.succ
  le := h.le
  related k hk := hR _ _ (h.related k hk)
  onto j hj := by
    obtain ⟨k, hk, hpace, hkj⟩ := h.onto j hj
    exact ⟨k, hk, hpace, hS _ _ hkj⟩

/-- States without an image at the start of a run change nothing. -/
theorem Mirrors.of_shift {origin : Nat → Option Nat} {n m : ℕ∞} {u o : Nat → Nat} {first : Nat}
    (hfirst : (first : ℕ∞) ≤ n) (hnone : ∀ k < first, origin (u k) = none)
    (h : Mirrors origin (n - first) (fun k => u (first + k)) m o) : Mirrors origin n u m o := by
  obtain ⟨pace, h⟩ := h
  refine ⟨fun k => pace (k - first), ?_, ?_, ?_, ?_, ?_⟩
  · rw [Nat.zero_sub]
    exact h.zero
  · intro k hk
    by_cases hlt : k < first
    · left
      rw [Nat.sub_eq_zero_of_le hlt, Nat.sub_eq_zero_of_le hlt.le]
    · obtain ⟨d, rfl⟩ := Nat.exists_eq_add_of_le (not_lt.1 hlt)
      rw [Nat.add_assoc, Nat.add_sub_cancel_left, Nat.add_sub_cancel_left]
      exact h.succ d (lt_tsub_iff_left.2 (by exact_mod_cast hk))
  · intro k hk
    by_cases hlt : k < first
    · rw [Nat.sub_eq_zero_of_le hlt.le, h.zero]
      exact bot_le
    · obtain ⟨d, rfl⟩ := Nat.exists_eq_add_of_le (not_lt.1 hlt)
      rw [Nat.add_sub_cancel_left]
      exact h.le d ((ENat.addLECancellable_natCast first).le_tsub_of_add_le_left (by exact_mod_cast hk))
  · intro k hk y hy
    by_cases hlt : k < first
    · rw [hnone k hlt] at hy
      cases hy
    · obtain ⟨d, rfl⟩ := Nat.exists_eq_add_of_le (not_lt.1 hlt)
      rw [Nat.add_sub_cancel_left]
      exact h.related d ((ENat.addLECancellable_natCast first).le_tsub_of_add_le_left (by exact_mod_cast hk)) y hy
  · intro j hj
    obtain ⟨k, hk, hpace, hkj⟩ := h.onto j hj
    refine ⟨first + k, ?_, ?_, hkj⟩
    · exact_mod_cast add_le_of_le_tsub_left_of_le hfirst hk
    · rw [Nat.add_sub_cancel_left]
      exact hpace

variable {step step' R : Nat → Nat → Prop} {u : Nat → Nat} {o₀ bound : Nat}

/-! ## The run that is followed -/

open Classical in
/-- How many steps the run has gone that follows `u` in `R`, and where it is. It takes a step when it can. -/
noncomputable def track (step' R : Nat → Nat → Prop) (u : Nat → Nat) (o₀ : Nat) : Nat → Nat × Nat
  | 0 => (0, o₀)
  | k + 1 =>
    if h : ∃ o', step' (track step' R u o₀ k).2 o' ∧ R (u (k + 1)) o' then ((track step' R u o₀ k).1 + 1, h.choose)
    else track step' R u o₀ k

theorem track_succ (k : Nat) :
    ((track step' R u o₀ (k + 1)).1 = (track step' R u o₀ k).1 + 1 ∧
        step' (track step' R u o₀ k).2 (track step' R u o₀ (k + 1)).2 ∧ R (u (k + 1)) (track step' R u o₀ (k + 1)).2) ∨
      (track step' R u o₀ (k + 1) = track step' R u o₀ k ∧
        ¬∃ o', step' (track step' R u o₀ k).2 o' ∧ R (u (k + 1)) o') := by
  by_cases h : ∃ o', step' (track step' R u o₀ k).2 o' ∧ R (u (k + 1)) o'
  · have heq : track step' R u o₀ (k + 1) = ((track step' R u o₀ k).1 + 1, h.choose) := by rw [track, dif_pos h]
    rw [heq]
    exact Or.inl ⟨rfl, h.choose_spec⟩
  · have heq : track step' R u o₀ (k + 1) = track step' R u o₀ k := by rw [track, dif_neg h]
    exact Or.inr ⟨heq, h⟩

theorem track_mono {i k : Nat} (hik : i ≤ k) : (track step' R u o₀ i).1 ≤ (track step' R u o₀ k).1 := by
  induction k, hik using Nat.le_induction with
  | base => exact Nat.le_refl _
  | succ k _ ih =>
    rcases @track_succ step' R u o₀ k with ⟨h, -⟩ | ⟨h, -⟩
    · omega
    · rwa [h]

theorem track_eq {i k : Nat} (hik : i ≤ k) (h : (track step' R u o₀ i).1 = (track step' R u o₀ k).1) :
    track step' R u o₀ i = track step' R u o₀ k := by
  induction k, hik using Nat.le_induction with
  | base => rfl
  | succ k hik ih =>
    have hmono := @track_mono step' R u o₀ _ _ hik
    rcases @track_succ step' R u o₀ k with ⟨hk, -⟩ | ⟨hk, -⟩
    · omega
    · rw [hk] at h ⊢
      exact ih h

open Classical in
/-- The states of the run that follows `u`. -/
noncomputable def followed (step' R : Nat → Nat → Prop) (u : Nat → Nat) (o₀ j : Nat) : Nat :=
  if h : ∃ k, (track step' R u o₀ k).1 = j then (track step' R u o₀ (Nat.find h)).2 else o₀

theorem followed_track (k : Nat) : followed step' R u o₀ (track step' R u o₀ k).1 = (track step' R u o₀ k).2 := by
  classical
  have h : ∃ i, (track step' R u o₀ i).1 = (track step' R u o₀ k).1 := ⟨k, rfl⟩
  rw [followed, dif_pos h, track_eq (Nat.find_min' h rfl) (Nat.find_spec h)]

/-- The step to a place that is reached. -/
theorem exists_track_succ {j : Nat} (h : ∃ k, (track step' R u o₀ k).1 = j + 1) :
    ∃ k, (track step' R u o₀ k).1 = j ∧ (track step' R u o₀ (k + 1)).1 = j + 1 ∧
      step' (track step' R u o₀ k).2 (track step' R u o₀ (k + 1)).2 := by
  obtain ⟨k, hk⟩ := h
  induction k with
  | zero => cases hk
  | succ k ih =>
    rcases @track_succ step' R u o₀ k with ⟨h, hstep, -⟩ | ⟨h, -⟩
    · exact ⟨k, by omega, hk, hstep⟩
    · rw [h] at hk
      exact ih hk

theorem step_followed {j : Nat} (h : ∃ k, (track step' R u o₀ k).1 = j + 1) :
    step' (followed step' R u o₀ j) (followed step' R u o₀ (j + 1)) := by
  obtain ⟨k, hj, hj', hstep⟩ := exists_track_succ h
  rwa [← hj', ← hj, followed_track, followed_track]

theorem exists_le_track_eq {N j : Nat} (hj : j ≤ (track step' R u o₀ N).1) :
    ∃ k ≤ N, (track step' R u o₀ k).1 = j := by
  induction N with
  | zero => exact ⟨0, Nat.le_refl _, (Nat.le_zero.1 hj).symm⟩
  | succ N ih =>
    by_cases hle : j ≤ (track step' R u o₀ N).1
    · obtain ⟨k, hk, hkj⟩ := ih hle
      exact ⟨k, Nat.le_succ_of_le hk, hkj⟩
    · refine ⟨N + 1, Nat.le_refl _, ?_⟩
      rcases @track_succ step' R u o₀ N with ⟨h, -⟩ | ⟨h, -⟩
      · omega
      · rw [h] at hj
        exact absurd hj hle

/-- Each step of a run is matched by a step, or goes up below the bound. -/
def StaysBelow (step step' R : Nat → Nat → Prop) (bound : Nat) : Prop :=
  ∀ v v' x, R v x → step v v' → (∃ x', step' x x' ∧ R v' x') ∨ (R v' x ∧ v < v' ∧ v' ≤ bound)

section
variable {n : ℕ∞} (hstep : StaysBelow step step' R bound) (hrun : IsRun step n u) (hR : R (u 0) o₀)
include hstep hrun hR

theorem rel_track {k : Nat} (hk : (k : ℕ∞) ≤ n) : R (u k) (track step' R u o₀ k).2 := by
  induction k with
  | zero => exact hR
  | succ k ih =>
    have hlt : (k : ℕ∞) < n := lt_of_lt_of_le (by exact_mod_cast Nat.lt_succ_self k) hk
    rcases @track_succ step' R u o₀ k with ⟨-, -, h⟩ | ⟨h, hnone⟩
    · exact h
    · rw [h]
      rcases hstep _ _ _ (ih hlt.le) (hrun k hlt) with hmatch | ⟨h, -⟩
      · exact absurd hmatch hnone
      · exact h

/-- The run that follows waits only while `u` goes up. -/
theorem track_succ_or_lt {k : Nat} (hk : (k : ℕ∞) < n) :
    (track step' R u o₀ (k + 1)).1 = (track step' R u o₀ k).1 + 1 ∨
      (track step' R u o₀ (k + 1)).1 = (track step' R u o₀ k).1 ∧ u k < u (k + 1) ∧ u (k + 1) ≤ bound := by
  rcases @track_succ step' R u o₀ k with ⟨h, -⟩ | ⟨h, hnone⟩
  · exact Or.inl h
  · rcases hstep _ _ _ (rel_track hstep hrun hR hk.le) (hrun k hk) with hmatch | ⟨-, hlt⟩
    · exact absurd hmatch hnone
    · exact Or.inr ⟨by rw [h], hlt⟩

/-- A run without end does not wait without end. -/
theorem exists_track_eq (hn : n = ⊤) (j : Nat) : ∃ k, (track step' R u o₀ k).1 = j := by
  have hlt (k : Nat) : (k : ℕ∞) < n := by simp [hn]
  induction j with
  | zero => exact ⟨0, rfl⟩
  | succ j ih =>
    obtain ⟨k, hk⟩ := ih
    by_contra hnone
    -- It would wait from step `k` on, so `u` would go up for more steps than there is room for.
    have hwait : ∀ i, (track step' R u o₀ (k + i)).1 = j ∧ i ≤ u (k + i) := by
      intro i
      induction i with
      | zero => exact ⟨hk, Nat.zero_le _⟩
      | succ i ih =>
        rcases track_succ_or_lt hstep hrun hR (hlt (k + i)) with hnext | ⟨hsame, hup, -⟩
        · exact absurd ⟨k + i + 1, by rw [hnext, ih.1]⟩ hnone
        · exact ⟨by rw [← Nat.add_assoc, hsame, ih.1], by rw [← Nat.add_assoc]; omega⟩
    rcases track_succ_or_lt hstep hrun hR (hlt (k + bound)) with hnext | ⟨-, hup, hle⟩
    · exact hnone ⟨k + bound + 1, by rw [hnext, (hwait bound).1]⟩
    · have := (hwait bound).2
      omega

/-- A run whose steps are matched, save for steps that go up below a bound, stays with the run of the matching steps. -/
theorem exists_run_below :
    ∃ m o pace, o 0 = o₀ ∧ IsRun step' m o ∧ Paced R R n u m o pace := by
  let pace (k : Nat) : Nat := (track step' R u o₀ k).1
  let o : Nat → Nat := followed step' R u o₀
  obtain ⟨m, hle, honto⟩ : ∃ m : ℕ∞, (∀ k : Nat, (k : ℕ∞) ≤ n → (pace k : ℕ∞) ≤ m) ∧
      ∀ j : Nat, (j : ℕ∞) ≤ m → ∃ k : Nat, (k : ℕ∞) ≤ n ∧ pace k = j := by
    by_cases hn : n = ⊤
    · refine ⟨⊤, fun _ _ => le_top, fun j _ => ?_⟩
      obtain ⟨k, hk⟩ := exists_track_eq hstep hrun hR hn j
      exact ⟨k, by simp [hn], hk⟩
    · obtain ⟨N, rfl⟩ := ENat.ne_top_iff_exists.1 hn
      refine ⟨pace N, fun k hk => ?_, fun j hj => ?_⟩
      · exact_mod_cast track_mono (by exact_mod_cast hk)
      · obtain ⟨k, hk, hkj⟩ := exists_le_track_eq (by exact_mod_cast hj)
        exact ⟨k, by exact_mod_cast hk, hkj⟩
  have hrelated : ∀ k : Nat, (k : ℕ∞) ≤ n → R (u k) (o (pace k)) := by
    intro k hk
    show R (u k) (followed step' R u o₀ (track step' R u o₀ k).1)
    rw [followed_track]
    exact rel_track hstep hrun hR hk
  refine ⟨m, o, pace, followed_track 0, ?_, rfl, ?_, hle, hrelated, ?_⟩
  · intro j hj
    obtain ⟨k, -, hk⟩ := honto (j + 1) (Order.add_one_le_of_lt hj)
    exact step_followed ⟨k, hk⟩
  · intro k hk
    rcases track_succ_or_lt hstep hrun hR hk with h | ⟨h, -⟩
    · exact Or.inr h
    · exact Or.inl h
  · intro j hj
    obtain ⟨k, hk, rfl⟩ := honto j hj
    exact ⟨k, hk, rfl, hrelated k hk⟩

end

/-! ## The run that leads -/

/-- How the pair of a number of steps of `o` and a state changes: the state goes up until it satisfies `S`, and then makes
the next step of `o`. -/
def Leads (step S : Nat → Nat → Prop) (bound : Nat) (o : Nat → Nat) (p q : Nat × Nat) : Prop :=
  step p.2 q.2 ∧
    (q.1 = p.1 ∧ ¬S p.2 (o p.1) ∧ p.2 < q.2 ∧ q.2 ≤ bound ∨ q.1 = p.1 + 1 ∧ S p.2 (o p.1))

/-- The run `o` has made all of its `m` steps. -/
def Final (S : Nat → Nat → Prop) (m : ℕ∞) (o : Nat → Nat) (p : Nat × Nat) : Prop := (p.1 : ℕ∞) = m ∧ S p.2 (o p.1)

/-- From related states one can go up, below the bound, until `S` holds, and then match a step. -/
structure GoesAbove (step step' R S : Nat → Nat → Prop) (bound : Nat) : Prop where
  up : ∀ v x, R v x → S v x ∨ ∃ v', step v v' ∧ R v' x ∧ v < v' ∧ v' ≤ bound
  next : ∀ v x x', S v x → step' x x' → ∃ v', step v v' ∧ R v' x'

section
variable {S : Nat → Nat → Prop} {m : ℕ∞} {o : Nat → Nat} {lead : Nat → Nat × Nat} {u₀ : Nat}

theorem exists_lead (h : GoesAbove step step' R S bound) (hrun : IsRun step' m o) (hR : R u₀ (o 0)) :
    ∃ lead : Nat → Nat × Nat, lead 0 = (0, u₀) ∧
      ∀ k, ((lead k).1 : ℕ∞) ≤ m ∧ R (lead k).2 (o (lead k).1) ∧
        (Leads step S bound o (lead k) (lead (k + 1)) ∨ Final S m o (lead k)) := by
  have hnext : ∀ p : { p : Nat × Nat // (p.1 : ℕ∞) ≤ m ∧ R p.2 (o p.1) },
      ∃ q : { p : Nat × Nat // (p.1 : ℕ∞) ≤ m ∧ R p.2 (o p.1) }, Leads step S bound o p q ∨ Final S m o p := by
    rintro ⟨⟨j, v⟩, hle, hv⟩
    by_cases hS : S v (o j)
    · rcases hle.lt_or_eq with hlt | heq
      · obtain ⟨v', hstep, hv'⟩ := h.next _ _ _ hS (hrun j hlt)
        exact ⟨⟨(j + 1, v'), by exact_mod_cast Order.add_one_le_of_lt hlt, hv'⟩, Or.inl ⟨hstep, Or.inr ⟨rfl, hS⟩⟩⟩
      · exact ⟨⟨(j, v), hle, hv⟩, Or.inr ⟨heq, hS⟩⟩
    · obtain ⟨v', hstep, hv', hlt, hbound⟩ := (h.up v (o j) hv).resolve_left hS
      exact ⟨⟨(j, v'), hle, hv'⟩, Or.inl ⟨hstep, Or.inl ⟨rfl, hS, hlt, hbound⟩⟩⟩
  choose f hf using hnext
  refine ⟨fun k => (f^[k] ⟨(0, u₀), by simp, hR⟩).1, rfl, fun k => ?_⟩
  obtain ⟨hle, hk⟩ := (f^[k] ⟨(0, u₀), by simp, hR⟩).2
  refine ⟨hle, hk, ?_⟩
  simp only [Function.iterate_succ_apply']
  exact hf _

variable (hlead : ∀ k, Leads step S bound o (lead k) (lead (k + 1)) ∨ Final S m o (lead k))
include hlead

/-- The state goes up until it satisfies `S`. -/
theorem exists_lead_up (k : Nat) :
    ∃ i, (lead (k + i)).1 = (lead k).1 ∧ S (lead (k + i)).2 (o (lead (k + i)).1) ∧
      ∀ l < i, ¬S (lead (k + l)).2 (o (lead (k + l)).1) := by
  induction hd : bound - (lead k).2 using Nat.strong_induction_on generalizing k with
  | _ d ih =>
    by_cases hS : S (lead k).2 (o (lead k).1)
    · exact ⟨0, rfl, hS, fun l hl => absurd hl (Nat.not_lt_zero l)⟩
    · rcases hlead k with ⟨-, ⟨hsame, -, hlt, hle⟩ | ⟨-, h⟩⟩ | ⟨-, h⟩
      · obtain ⟨i, hi, hSi, hbefore⟩ := ih _ (by omega) (k + 1) rfl
        have hshift (l : Nat) : k + 1 + l = k + (l + 1) := by omega
        rw [hshift] at hi hSi
        refine ⟨i + 1, hi.trans hsame, hSi, fun l hl => ?_⟩
        cases l with
        | zero => exact hS
        | succ l =>
          rw [← hshift]
          exact hbefore l (by omega)
      · exact absurd h hS
      · exact absurd h hS

/-- Each state of `o` is met, before `o` is through. -/
theorem exists_lead_eq (hzero : (lead 0).1 = 0) {j : Nat} (hj : (j : ℕ∞) ≤ m) :
    ∃ k, (lead k).1 = j ∧ S (lead k).2 (o j) ∧ ∀ i < k, ¬Final S m o (lead i) := by
  induction j with
  | zero =>
    obtain ⟨i, hi, hS, hbefore⟩ := exists_lead_up hlead 0
    rw [hi, hzero] at hS
    refine ⟨0 + i, hi.trans hzero, hS, fun l hl hfinal => ?_⟩
    rw [Nat.zero_add] at hl
    exact hbefore l hl (by rw [Nat.zero_add]; exact hfinal.2)
  | succ j ih =>
    have hlt : (j : ℕ∞) < m := lt_of_lt_of_le (by exact_mod_cast Nat.lt_succ_self j) hj
    obtain ⟨k, hk, hS, hbefore⟩ := ih hlt.le
    have hnot : ¬Final S m o (lead k) := by
      rintro ⟨hm, -⟩
      rw [hk] at hm
      exact hlt.ne hm
    rw [← hk] at hS
    have hnext : (lead (k + 1)).1 = j + 1 := by
      rcases (hlead k).resolve_right hnot with ⟨-, ⟨-, h, -⟩ | ⟨h, -⟩⟩
      · exact absurd hS h
      · rw [h, hk]
    obtain ⟨i, hi, hSi, hup⟩ := exists_lead_up hlead (k + 1)
    rw [hi, hnext] at hSi
    refine ⟨k + 1 + i, hi.trans hnext, hSi, fun l hl hfinal => ?_⟩
    rcases Nat.lt_trichotomy l k with hlk | rfl | hkl
    · exact hbefore l hlk hfinal
    · exact hnot hfinal
    · obtain ⟨d, rfl⟩ := Nat.exists_eq_add_of_lt hkl
      rw [show k + d + 1 = k + 1 + d by omega] at hfinal
      exact hup d (by omega) hfinal.2

end

/-- A run is led by one that goes up until it can match the next step. -/
theorem exists_run_above {S : Nat → Nat → Prop} {m : ℕ∞} {o : Nat → Nat} {u₀ : Nat}
    (h : GoesAbove step step' R S bound) (hrun : IsRun step' m o) (hR : R u₀ (o 0)) :
    ∃ n u pace, u 0 = u₀ ∧ IsRun step n u ∧ Paced R S n u m o pace := by
  obtain ⟨lead, hzero, hlead⟩ := exists_lead h hrun hR
  have hleads (k : Nat) := (hlead k).2.2
  have hmeet {j : Nat} (hj : (j : ℕ∞) ≤ m) := exists_lead_eq hleads (by rw [hzero]) hj
  obtain ⟨n, hbefore, hall⟩ : ∃ n : ℕ∞, (∀ k : Nat, (k : ℕ∞) < n → ¬Final S m o (lead k)) ∧
      ∀ k : Nat, (∀ i < k, ¬Final S m o (lead i)) → (k : ℕ∞) ≤ n := by
    by_cases hm : m = ⊤
    · exact ⟨⊤, fun k _ hfinal => by simp [Final, hm] at hfinal, fun _ _ => le_top⟩
    · obtain ⟨M, rfl⟩ := ENat.ne_top_iff_exists.1 hm
      obtain ⟨N, hN, hS, hbefore⟩ := hmeet (le_refl (M : ℕ∞))
      refine ⟨N, fun k hk => hbefore k (by exact_mod_cast hk), fun k hk => ?_⟩
      by_contra hlt
      exact hk N (by exact_mod_cast not_le.1 hlt) ⟨by rw [hN], by rw [hN]; exact hS⟩
  have hgo (k : Nat) (hk : (k : ℕ∞) < n) := (hleads k).resolve_right (hbefore k hk)
  refine ⟨n, fun k => (lead k).2, fun k => (lead k).1, by simp [hzero], fun k hk => (hgo k hk).1, by simp [hzero], ?_,
    fun k _ => (hlead k).1, fun k _ => (hlead k).2.1, ?_⟩
  · intro k hk
    rcases (hgo k hk).2 with ⟨h, -⟩ | ⟨h, -⟩
    · exact Or.inl h
    · exact Or.inr h
  · intro j hj
    obtain ⟨k, hk, hS, hnot⟩ := hmeet hj
    exact ⟨k, hall k hnot, hk, hS⟩

end Registrar
