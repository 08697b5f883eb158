import Mathlib.Data.List.Forall2

/-!
# Computations that succeed

What it takes for `>>=`, `map`, `mapError` and `mapM` over `Except`, and for `>>=` over `EStateM`, to give a value. A
computation over a list succeeds when it succeeds on each element, so there are lemmas on `List.Forall₂` too.
-/

namespace Except

variable {ε ε' α β : Type}

theorem bind_eq_ok_iff {x : Except ε α} {f : α → Except ε β} {b : β} :
    (x >>= f) = .ok b ↔ ∃ a, x = .ok a ∧ f a = .ok b := by
  cases x <;> simp [bind, Except.bind]

theorem bind_eq_error_iff {x : Except ε α} {f : α → Except ε β} {e : ε} :
    (x >>= f) = .error e ↔ x = .error e ∨ ∃ a, x = .ok a ∧ f a = .error e := by
  cases x <;> simp [bind, Except.bind]

theorem map_eq_ok_iff {x : Except ε α} {f : α → β} {b : β} : x.map f = .ok b ↔ ∃ a, x = .ok a ∧ f a = b := by
  cases x <;> simp [Except.map]

theorem mapError_eq_ok_iff {x : Except ε α} {f : ε → ε'} {a : α} : x.mapError f = .ok a ↔ x = .ok a := by
  cases x <;> simp [Except.mapError]

theorem toOption_eq_some_iff {x : Except ε α} {a : α} : x.toOption = some a ↔ x = .ok a := by
  cases x <;> simp [Except.toOption]

theorem pure_eq_ok_iff {a b : α} : (pure a : Except ε α) = .ok b ↔ a = b := by
  simp [pure, Except.pure]

theorem mapM_eq_ok_iff {f : α → Except ε β} {l : List α} {m : List β} :
    l.mapM f = .ok m ↔ List.Forall₂ (fun a b => f a = .ok b) l m := by
  induction l generalizing m with
  | nil => rw [List.mapM_nil, pure_eq_ok_iff, List.forall₂_nil_left_iff, eq_comm]
  | cons a l ih =>
    simp only [List.mapM_cons, bind_eq_ok_iff, pure_eq_ok_iff, ih, List.forall₂_cons_left_iff]
    constructor
    · rintro ⟨b, hb, bs, hbs, rfl⟩
      exact ⟨b, bs, hb, hbs, rfl⟩
    · rintro ⟨b, bs, hb, hbs, rfl⟩
      exact ⟨b, hb, bs, hbs, rfl⟩

theorem exists_of_mapM_eq_error {f : α → Except ε β} {e : ε} : ∀ {l : List α}, l.mapM f = .error e →
    ∃ a ∈ l, f a = .error e
  | [], h => by cases h
  | a :: l, h => by
    rw [List.mapM_cons] at h
    cases hb : f a with
    | error e' =>
      rw [hb] at h
      cases h
      exact ⟨a, by simp, hb⟩
    | ok b =>
      rw [hb] at h
      cases hbs : l.mapM f with
      | error e' =>
        rw [hbs] at h
        cases h
        obtain ⟨c, hc, he⟩ := exists_of_mapM_eq_error hbs
        exact ⟨c, by simp [hc], he⟩
      | ok bs =>
        rw [hbs] at h
        cases h

end Except

namespace EStateM

variable {ε σ α β : Type}

theorem bind_eq_ok_iff {x : EStateM ε σ α} {f : α → EStateM ε σ β} {b : β} {s s' : σ} :
    (x >>= f) s = .ok b s' ↔ ∃ a t, x s = .ok a t ∧ f a t = .ok b s' := by
  change EStateM.bind x f s = _ ↔ _
  unfold EStateM.bind
  cases x s <;> simp

theorem pure_eq_ok_iff {a b : α} {s s' : σ} : (pure a : EStateM ε σ α) s = .ok b s' ↔ a = b ∧ s = s' := by
  change EStateM.Result.ok a s = .ok b s' ↔ _
  rw [EStateM.Result.ok.injEq]

end EStateM

namespace List

theorem Forall₂.with_mem {α β : Type} {R : α → β → Prop} {l : List α} {m : List β} (h : Forall₂ R l m) :
    Forall₂ (fun a b => a ∈ l ∧ R a b) l m := (forall₂_and_left l m).2 ⟨fun _ ha => ha, h⟩

theorem forall₂_congr_of_mem {α β : Type} {R S : α → β → Prop} {l : List α} {m : List β}
    (h : ∀ a ∈ l, ∀ b, R a b ↔ S a b) : Forall₂ R l m ↔ Forall₂ S l m := by
  constructor
  · intro hR
    exact hR.with_mem.imp fun a b hab => (h a hab.1 b).1 hab.2
  · intro hS
    exact hS.with_mem.imp fun a b hab => (h a hab.1 b).2 hab.2

theorem forall₂_trans_of {α β γ : Type} {R : α → β → Prop} {S : β → γ → Prop} {Q : α → γ → Prop}
    (hQ : ∀ a b c, R a b → S b c → Q a c) {l : List α} {m : List β} {n : List γ} (h : Forall₂ R l m)
    (h' : Forall₂ S m n) : Forall₂ Q l n := by
  induction h generalizing n with
  | nil =>
    cases h'
    exact .nil
  | cons hab _ ih =>
    cases h' with
    | cons hbc hrest => exact .cons (hQ _ _ _ hab hbc) (ih hrest)

theorem exists_forall₂ {α β : Type} {R : α → β → Prop} : ∀ {l : List α}, (∀ a ∈ l, ∃ b, R a b) → ∃ m, Forall₂ R l m
  | [], _ => ⟨[], .nil⟩
  | a :: l, h => by
    obtain ⟨b, hb⟩ := h a (by simp)
    obtain ⟨m, hm⟩ := exists_forall₂ fun c hc => h c (mem_cons_of_mem a hc)
    exact ⟨b :: m, .cons hb hm⟩

theorem forall₂_of_zip {α β γ : Type} {A : α → β → Prop} {R : β × α → γ → Prop} {l : List α} {m : List β} {n : List γ}
    (h : Forall₂ A l m) (h' : Forall₂ R (m.zip l) n) : Forall₂ (fun a c => ∃ b, A a b ∧ R (b, a) c) l n := by
  induction h generalizing n with
  | nil =>
    cases h'
    exact .nil
  | cons hab _ ih =>
    cases h' with
    | cons hrc hrest => exact .cons ⟨_, hab, hrc⟩ (ih hrest)

theorem Forall₂.of_append_left {α β : Type} {R : α → β → Prop} {l l' : List α} {m : List β}
    (h : Forall₂ R (l ++ l') m) : ∃ n n', m = n ++ n' ∧ Forall₂ R l n ∧ Forall₂ R l' n' := by
  induction l generalizing m with
  | nil => exact ⟨[], m, rfl, .nil, h⟩
  | cons a l ih =>
    cases h with
    | @cons _ b _ _ hab hrest =>
      obtain ⟨n, n', rfl, hl, hl'⟩ := ih hrest
      exact ⟨b :: n, n', rfl, .cons hab hl, hl'⟩

theorem Forall₂.of_concat_left {α β : Type} {R : α → β → Prop} {l : List α} {a : α} {m : List β}
    (h : Forall₂ R (l ++ [a]) m) : ∃ m' b, m = m' ++ [b] ∧ Forall₂ R l m' ∧ R a b := by
  obtain ⟨m', rest, rfl, hl, hrest⟩ := h.of_append_left
  obtain ⟨b, _, hab, hnil, rfl⟩ := forall₂_cons_left_iff.1 hrest
  cases hnil
  exact ⟨m', b, rfl, hl, hab⟩

theorem Forall₂.exists_of_mem {α β : Type} {R : α → β → Prop} {l : List α} {m : List β} (h : Forall₂ R l m) {a : α}
    (ha : a ∈ l) : ∃ b ∈ m, R a b := by
  obtain ⟨i, hi, rfl⟩ := getElem_of_mem ha
  have hi' : i < m.length := h.length_eq ▸ hi
  exact ⟨m[i], getElem_mem hi', h.get hi hi'⟩

end List
