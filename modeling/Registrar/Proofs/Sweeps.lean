import Registrar.Proofs.Automata

/-!
# Running an automaton

A sweep enters each state at most once at a position and follows what can be done there without reading. The number of
steps that it is given is enough for that, so it misses nothing, and an automaton accepts a text just if a part of it
leads from the first state to an accepting one.

* `Automaton.Closed` : what follows from the entered states is entered or to be entered;
* `Automaton.enter_eq_none`, `Automaton.enter_eq_some` : what entering states at one position finds;
* `Automaton.run_iff` : a run from a position on;
* `Regex.accepts_automaton_iff` : the automaton of an expression accepts a text with a part that matches.
-/

namespace Registrar.Pattern

namespace Automaton

/-- What entering a state adds: ends of waiting states, and states to enter at the same position. `none` if the state
accepts. -/
def expand (a : Automaton) (p : Place) (s : Nat) : Option (List (CharSet × Nat) × List Nat) :=
  match a.states[s]? with
  | none => some ([], [])
  | some .accept => none
  | some (.read members next) => some ([(members, next)], [])
  | some (.check condition next) =>
    some ([], if condition.holds p.before.head? p.after.head? then [next] else [])
  | some (.fork first second) => some ([], [first, second])

/-- Whether a state was entered at a position. States that are not there count as entered. -/
def IsEntered (entered : Array Nat) (position s : Nat) : Prop := entered.getD s position = position

instance (entered : Array Nat) (position s : Nat) : Decidable (IsEntered entered position s) :=
  inferInstanceAs (Decidable (_ = _))

/-- The number of states that were not entered at a position. -/
def unentered (entered : Array Nat) (position : Nat) : Nat := entered.countP (· != position)

/-- A waiting state reads a character and leads on to an accepting state. -/
def Leads (a : Automaton) (p : Place) (waiting : CharSet × Nat) : Prop :=
  ∃ q, p.Reads waiting.1 q ∧ a.states.Accepts waiting.2 q

variable {a : Automaton} {p : Place} {s : Nat}

theorem enter_succ (a : Automaton) (p : Place) (position fuel s : Nat) (todo : List Nat)
    (waiting : List (CharSet × Nat)) (entered : Array Nat) :
    a.enter p.before.head? p.after.head? position (fuel + 1) (s :: todo) ⟨waiting, entered⟩ =
      if IsEntered entered position s then
        a.enter p.before.head? p.after.head? position fuel todo ⟨waiting, entered⟩
      else
        match a.expand p s with
        | none => none
        | some (ends, states) =>
          a.enter p.before.head? p.after.head? position fuel (states ++ todo)
            ⟨ends ++ waiting, entered.setIfInBounds s position⟩ := by
  by_cases hentered : entered.getD s position = position
  · rw [enter, if_pos hentered, if_pos (show IsEntered entered position s from hentered)]
  · rw [enter, if_neg hentered, if_neg (show ¬ IsEntered entered position s from hentered), expand]
    rcases a.states[s]? with _ | state
    · rfl
    · cases state with
      | check condition next => cases h : condition.holds p.before.head? p.after.head? <;> simp [h]
      | _ => rfl

theorem length_of_expand {ends : List (CharSet × Nat)} {states : List Nat} (h : a.expand p s = some (ends, states)) :
    ends.length ≤ 1 ∧ states.length ≤ 2 := by
  unfold expand at h
  split at h <;> cases h <;> simp
  split <;> simp

theorem accepts_of_expand_none (h : a.expand p s = none) : a.states.Accepts s p := by
  unfold expand at h
  split at h <;> cases h
  · next hstate => exact ⟨0, .accept hstate⟩

/-- A state that is entered accepts if what follows from it does. -/
theorem accepts_of_expand_some {ends : List (CharSet × Nat)} {states : List Nat}
    (h : a.expand p s = some (ends, states))
    (haccepts : (∃ w ∈ ends, a.Leads p w) ∨ ∃ t ∈ states, a.states.Accepts t p) : a.states.Accepts s p := by
  unfold expand at h
  split at h <;> cases h
  · simp at haccepts
  · next members next hstate =>
    obtain ⟨q, hread, hq⟩ : a.Leads p (members, next) := by simpa using haccepts
    exact .of_read hstate hread hq
  · next condition next hstate =>
    split at haccepts
    · next hmeets => exact .of_check hstate hmeets (by simpa using haccepts)
    · simp at haccepts
  · next first second hstate =>
    obtain haccepts | haccepts : a.states.Accepts first p ∨ a.states.Accepts second p := by simpa using haccepts
    · exact .of_first hstate haccepts
    · exact .of_second hstate haccepts

/-- If a state accepts, then what follows from it does, in fewer steps. -/
theorem exists_of_expand_some {ends : List (CharSet × Nat)} {states : List Nat} {n : Nat}
    (h : a.expand p s = some (ends, states)) (haccepts : a.states.AcceptsIn n s p) :
    (∃ w ∈ ends, a.Leads p w) ∨ ∃ t ∈ states, ∃ m < n, a.states.AcceptsIn m t p := by
  cases haccepts with
  | accept hstate => simp [expand, hstate] at h
  | read hstate hread hnext =>
    obtain ⟨rfl, rfl⟩ : [(_, _)] = ends ∧ [] = states := by simpa [expand, hstate] using h
    exact .inl ⟨_, List.mem_singleton_self _, _, hread, _, hnext⟩
  | check hstate hmeets hnext =>
    obtain ⟨rfl, rfl⟩ : [] = ends ∧ [_] = states := by
      simpa [expand, hstate, show Look.holds _ _ _ = true from hmeets] using h
    exact .inr ⟨_, List.mem_singleton_self _, _, Nat.lt_succ_self _, hnext⟩
  | first hstate hnext =>
    obtain ⟨rfl, rfl⟩ : [] = ends ∧ [_, _] = states := by simpa [expand, hstate] using h
    exact .inr ⟨_, List.mem_cons_self, _, Nat.lt_succ_self _, hnext⟩
  | second hstate hnext =>
    obtain ⟨rfl, rfl⟩ : [] = ends ∧ [_, _] = states := by simpa [expand, hstate] using h
    exact .inr ⟨_, by simp, _, Nat.lt_succ_self _, hnext⟩

/-! ## What is found is there -/

/-- If the text is found to match, then one of the states to enter accepts. -/
theorem enter_eq_none {position fuel : Nat} {todo : List Nat} {waiting : List (CharSet × Nat)} {entered : Array Nat}
    (h : a.enter p.before.head? p.after.head? position fuel todo ⟨waiting, entered⟩ = none) :
    ∃ s ∈ todo, a.states.Accepts s p := by
  induction fuel generalizing todo waiting entered with
  | zero => simp [enter] at h
  | succ fuel ih =>
    cases todo with
    | nil => simp [enter] at h
    | cons s todo =>
      rw [enter_succ] at h
      split at h
      · obtain ⟨t, ht, haccepts⟩ := ih h
        exact ⟨t, List.mem_cons_of_mem s ht, haccepts⟩
      · split at h
        · next hexpand => exact ⟨s, List.mem_cons_self, accepts_of_expand_none hexpand⟩
        · next ends states hexpand =>
          obtain ⟨t, ht, haccepts⟩ := ih h
          rcases List.mem_append.1 ht with ht | ht
          · exact ⟨s, List.mem_cons_self, accepts_of_expand_some hexpand (.inr ⟨t, ht, haccepts⟩)⟩
          · exact ⟨t, List.mem_cons_of_mem s ht, haccepts⟩

/-- A state that waits and leads to an accepting one was reached from one of the states to enter. -/
theorem accepts_of_enter_eq_some {position fuel : Nat} {todo : List Nat} {waiting : List (CharSet × Nat)}
    {entered : Array Nat} {sweep : Sweep}
    (h : a.enter p.before.head? p.after.head? position fuel todo ⟨waiting, entered⟩ = some sweep)
    {w : CharSet × Nat} (hw : w ∈ sweep.waiting) (hleads : a.Leads p w) :
    w ∈ waiting ∨ ∃ s ∈ todo, a.states.Accepts s p := by
  induction fuel generalizing todo waiting entered with
  | zero =>
    simp only [enter, Option.some.injEq] at h
    subst h
    exact .inl hw
  | succ fuel ih =>
    cases todo with
    | nil =>
      simp only [enter, Option.some.injEq] at h
      subst h
      exact .inl hw
    | cons s todo =>
      rw [enter_succ] at h
      split at h
      · obtain hold | ⟨t, ht, haccepts⟩ := ih h
        · exact .inl hold
        · exact .inr ⟨t, List.mem_cons_of_mem s ht, haccepts⟩
      · split at h
        · cases h
        · next ends states hexpand =>
          obtain hold | ⟨t, ht, haccepts⟩ := ih h
          · rcases List.mem_append.1 hold with hnew | hold
            · exact .inr ⟨s, List.mem_cons_self, accepts_of_expand_some hexpand (.inl ⟨w, hnew, hleads⟩)⟩
            · exact .inl hold
          · rcases List.mem_append.1 ht with ht | ht
            · exact .inr ⟨s, List.mem_cons_self, accepts_of_expand_some hexpand (.inr ⟨t, ht, haccepts⟩)⟩
            · exact .inr ⟨t, List.mem_cons_of_mem s ht, haccepts⟩

/-! ## What is there is found -/

section
variable {entered : Array Nat} {position : Nat}

theorem isEntered_setIfInBounds {t : Nat} :
    IsEntered (entered.setIfInBounds s position) position t ↔ s = t ∨ IsEntered entered position t := by
  simp only [IsEntered, Array.getD_eq_getD_getElem?, Array.getElem?_setIfInBounds]
  split
  · next heq => subst heq; split <;> simp
  · next hne => simp [hne]

theorem unentered_setIfInBounds (h : ¬ IsEntered entered position s) :
    unentered (entered.setIfInBounds s position) position + 1 = unentered entered position := by
  have hlt : s < entered.size := by
    refine Nat.lt_of_not_le fun hle => ?_
    exact h (by simp [IsEntered, Array.getD_eq_getD_getElem?, Array.getElem?_eq_none hle])
  have hne : entered[s] ≠ position := by simpa [IsEntered, hlt] using h
  have hpos : 0 < entered.countP (· != position) :=
    Array.countP_pos_iff.2 ⟨entered[s], Array.getElem_mem hlt, by simpa using hne⟩
  simp only [unentered, Array.setIfInBounds, hlt, dif_pos, Array.countP_set, bne_iff_ne, ne_eq, hne, not_false_eq_true,
    if_pos, bne_self_eq_false, Bool.false_eq_true, if_false]
  omega

end

/-- What follows from the states that were entered waits, was entered, or is to be entered. -/
def Closed (a : Automaton) (p : Place) (position : Nat) (todo : List Nat) (waiting : List (CharSet × Nat))
    (entered : Array Nat) : Prop :=
  ∀ s, IsEntered entered position s → ∃ ends states, a.expand p s = some (ends, states) ∧ ends ⊆ waiting ∧
    ∀ t ∈ states, t ∈ todo ∨ IsEntered entered position t

section
variable {t position : Nat} {todo : List Nat} {waiting : List (CharSet × Nat)} {entered : Array Nat}

/-- A state that was entered need not be entered again. -/
theorem known_of_entered (hs : IsEntered entered position s) (ht : t ∈ s :: todo ∨ IsEntered entered position t) :
    t ∈ todo ∨ IsEntered entered position t := by
  rcases ht with ht | ht
  · rcases List.mem_cons.1 ht with rfl | ht
    · exact .inr hs
    · exact .inl ht
  · exact .inr ht

/-- A state that is entered makes way for those that follow from it. -/
theorem known_of_expand (states : List Nat) (ht : t ∈ s :: todo ∨ IsEntered entered position t) :
    t ∈ states ++ todo ∨ IsEntered (entered.setIfInBounds s position) position t := by
  rw [isEntered_setIfInBounds]
  rcases ht with ht | ht
  · rcases List.mem_cons.1 ht with rfl | ht
    · exact .inr (.inl rfl)
    · exact .inl (List.mem_append_right _ ht)
  · exact .inr (.inr ht)

theorem Closed.of_entered (h : a.Closed p position (s :: todo) waiting entered) (hs : IsEntered entered position s) :
    a.Closed p position todo waiting entered := by
  intro t ht
  obtain ⟨ends, states, hexpand, hends, hstates⟩ := h t ht
  exact ⟨ends, states, hexpand, hends, fun u hu => known_of_entered hs (hstates u hu)⟩

theorem Closed.of_expand (h : a.Closed p position (s :: todo) waiting entered) {ends : List (CharSet × Nat)}
    {states : List Nat} (hexpand : a.expand p s = some (ends, states)) :
    a.Closed p position (states ++ todo) (ends ++ waiting) (entered.setIfInBounds s position) := by
  intro t ht
  rcases isEntered_setIfInBounds.1 ht with rfl | ht
  · exact ⟨ends, states, hexpand, List.subset_append_left _ _, fun u hu => .inl (List.mem_append_left _ hu)⟩
  · obtain ⟨ends', states', hexpand', hends, hstates⟩ := h t ht
    exact ⟨ends', states', hexpand', fun w hw => List.mem_append_right _ (hends hw),
      fun u hu => known_of_expand states (hstates u hu)⟩

end

/-- If nothing is left to enter, then an accepting state is reached through a state that waits. -/
theorem Closed.exists_leads {position : Nat} {waiting : List (CharSet × Nat)} {entered : Array Nat}
    (h : a.Closed p position [] waiting entered) (hs : IsEntered entered position s) (haccepts : a.states.Accepts s p) :
    ∃ w ∈ waiting, a.Leads p w := by
  obtain ⟨n, haccepts⟩ := haccepts
  induction n using Nat.strongRecOn generalizing s with
  | ind n ih =>
    obtain ⟨ends, states, hexpand, hends, hstates⟩ := h s hs
    obtain ⟨w, hw, hleads⟩ | ⟨t, ht, m, hm, haccepts⟩ := exists_of_expand_some hexpand haccepts
    · exact ⟨w, hends hw, hleads⟩
    · exact ih m hm ((hstates t ht).resolve_left (by simp)) haccepts

/-- With enough steps all that is to be entered is entered, and nothing is left to enter. -/
theorem enter_eq_some {position fuel : Nat} {todo : List Nat} {waiting : List (CharSet × Nat)} {entered : Array Nat}
    {sweep : Sweep} (hfuel : todo.length + 2 * unentered entered position ≤ fuel)
    (hclosed : a.Closed p position todo waiting entered)
    (h : a.enter p.before.head? p.after.head? position fuel todo ⟨waiting, entered⟩ = some sweep) :
    a.Closed p position [] sweep.waiting sweep.entered ∧
      ∀ s, s ∈ todo ∨ IsEntered entered position s → IsEntered sweep.entered position s := by
  induction fuel generalizing todo waiting entered with
  | zero =>
    obtain rfl : todo = [] := List.length_eq_zero_iff.1 (by omega)
    simp only [enter, Option.some.injEq] at h
    subst h
    exact ⟨hclosed, fun s hs => hs.resolve_left (by simp)⟩
  | succ fuel ih =>
    cases todo with
    | nil =>
      simp only [enter, Option.some.injEq] at h
      subst h
      exact ⟨hclosed, fun s hs => hs.resolve_left (by simp)⟩
    | cons s todo =>
      rw [List.length_cons] at hfuel
      rw [enter_succ] at h
      split at h
      · next hentered =>
        obtain ⟨hend, hall⟩ := ih (by omega) (hclosed.of_entered hentered) h
        exact ⟨hend, fun t ht => hall t (known_of_entered hentered ht)⟩
      · next hentered =>
        split at h
        · cases h
        · next ends states hexpand =>
          have hlength := (length_of_expand hexpand).2
          have hcount := unentered_setIfInBounds hentered
          obtain ⟨hend, hall⟩ := ih (by rw [List.length_append]; omega) (hclosed.of_expand hexpand) h
          exact ⟨hend, fun t ht => hall t (known_of_expand states ht)⟩

/-- What a sweep takes: each state that waits was entered, and no position later than the present one is noted. -/
theorem enter_bounds {position fuel : Nat} {todo : List Nat} {waiting : List (CharSet × Nat)} {entered : Array Nat}
    {sweep : Sweep} (hpast : ∀ n ∈ entered, n ≤ position)
    (h : a.enter p.before.head? p.after.head? position fuel todo ⟨waiting, entered⟩ = some sweep) :
    sweep.entered.size = entered.size ∧ (∀ n ∈ sweep.entered, n ≤ position) ∧
      sweep.waiting.length + unentered sweep.entered position ≤ waiting.length + unentered entered position := by
  induction fuel generalizing todo waiting entered with
  | zero =>
    simp only [enter, Option.some.injEq] at h
    subst h
    exact ⟨rfl, hpast, Nat.le_refl _⟩
  | succ fuel ih =>
    cases todo with
    | nil =>
      simp only [enter, Option.some.injEq] at h
      subst h
      exact ⟨rfl, hpast, Nat.le_refl _⟩
    | cons s todo =>
      rw [enter_succ] at h
      split at h
      · exact ih hpast h
      · next hentered =>
        split at h
        · cases h
        · next ends states hexpand =>
          have hlength := (length_of_expand hexpand).1
          have hcount := unentered_setIfInBounds hentered
          have hpast' : ∀ n ∈ entered.setIfInBounds s position, n ≤ position := fun n hn => by
            rcases Array.mem_or_eq_of_mem_setIfInBounds hn with hn | rfl
            · exact hpast n hn
            · exact Nat.le_refl _
          obtain ⟨hsize, hnoted, hwaiting⟩ := ih hpast' h
          rw [Array.size_setIfInBounds] at hsize
          rw [List.length_append] at hwaiting
          exact ⟨hsize, hnoted, by omega⟩

/-! ## Runs -/

/-- Before a sweep at a new position nothing is entered but what is not there. -/
theorem closed_of_past {position : Nat} {todo : List Nat} {entered : Array Nat}
    (hsize : entered.size = a.states.size) (hpast : ∀ n ∈ entered, n < position) :
    a.Closed p position todo [] entered := by
  intro s hs
  have hout : a.states.size ≤ s := by
    refine Nat.le_of_not_lt fun hlt => ?_
    have hlt' : s < entered.size := hsize ▸ hlt
    have hnow : entered[s] = position := by simpa [IsEntered, hsize, hlt] using hs
    exact Nat.lt_irrefl _ (hnow ▸ hpast _ (Array.getElem_mem _))
  exact ⟨[], [], by simp [expand, Array.getElem?_eq_none hout], by simp, by simp⟩

/-- A state that waits ends, when it reads a character, in one of the successors. -/
theorem exists_successor_iff {waiting : List (CharSet × Nat)} {before rest : List Char} {c : Char} :
    (∃ s ∈ successors waiting c, a.states.Accepts s ⟨c :: before, rest⟩) ↔
      ∃ w ∈ waiting, a.Leads ⟨before, c :: rest⟩ w := by
  constructor
  · rintro ⟨s, hs, haccepts⟩
    obtain ⟨w, hw, hsome⟩ := List.mem_filterMap.1 hs
    obtain ⟨hc, hnext⟩ := Option.ite_none_right_eq_some.1 hsome
    obtain rfl := Option.some.inj hnext
    exact ⟨w, hw, _, ⟨c, rest, rfl, hc, rfl⟩, haccepts⟩
  · rintro ⟨w, hw, _, ⟨_, _, ⟨⟩, hc, rfl⟩, haccepts⟩
    exact ⟨w.2, List.mem_filterMap.2 ⟨w, hw, if_pos hc⟩, haccepts⟩

/-- A sweep that does not find a match knows where one goes on. -/
theorem exists_accepts_iff {position : Nat} {todo : List Nat} {entered : Array Nat} {sweep : Sweep}
    (hsize : entered.size = a.states.size) (hpast : ∀ n ∈ entered, n < position)
    (htodo : todo.length ≤ a.states.size + 1)
    (h : a.enter p.before.head? p.after.head? position a.maxSteps todo ⟨[], entered⟩ = some sweep) :
    (∃ s ∈ todo, a.states.Accepts s p) ↔ ∃ w ∈ sweep.waiting, a.Leads p w := by
  constructor
  · rintro ⟨s, hs, haccepts⟩
    have hcount : unentered entered position ≤ entered.size := Array.countP_le_size
    obtain ⟨hclosed, hall⟩ := enter_eq_some (by rw [maxSteps]; omega) (closed_of_past hsize hpast) h
    exact hclosed.exists_leads (hall s (.inl hs)) haccepts
  · rintro ⟨w, hw, hleads⟩
    exact (accepts_of_enter_eq_some h hw hleads).resolve_left (by simp)

theorem exists_split_cons {c : Char} {text : List Char} {P : List Char → List Char → Prop} :
    (∃ passed rest, c :: text = passed ++ rest ∧ P passed rest) ↔
      P [] (c :: text) ∨ ∃ passed rest, text = passed ++ rest ∧ P (c :: passed) rest := by
  constructor
  · rintro ⟨passed, rest, heq, h⟩
    rcases List.cons_eq_append_iff.1 heq with ⟨rfl, rfl⟩ | ⟨passed, rfl, heq⟩
    · exact .inl h
    · exact .inr ⟨passed, rest, (List.cons.inj heq).2, h⟩
  · rintro (h | ⟨passed, rest, rfl, h⟩)
    · exact ⟨[], _, rfl, h⟩
    · exact ⟨c :: passed, rest, rfl, h⟩

/-- A run from a position on finds what is accepted from one of the states to enter there, or from the first state at
this or a later position. -/
theorem run_iff (before text : List Char) (position : Nat) (todo : List Nat) {entered : Array Nat}
    (hsize : entered.size = a.states.size) (hpast : ∀ n ∈ entered, n < position)
    (htodo : todo.length ≤ a.states.size) :
    a.run before.head? position todo entered text = true ↔
      (∃ s ∈ todo, a.states.Accepts s ⟨before, text⟩) ∨
        ∃ passed rest, text = passed ++ rest ∧ a.states.Accepts a.start ⟨passed.reverse ++ before, rest⟩ := by
  have hstart : (a.start :: todo).length ≤ a.states.size + 1 := Nat.succ_le_succ htodo
  induction text generalizing before position todo entered with
  | nil =>
    -- At the end of the text a state that waits leads nowhere.
    have hrun : a.run before.head? position todo entered [] = true ↔
        ∃ s ∈ a.start :: todo, a.states.Accepts s ⟨before, []⟩ := by
      rw [run]
      cases h : a.enter before.head? none position a.maxSteps (a.start :: todo) ⟨[], entered⟩ with
      | none => simpa using enter_eq_none (p := ⟨before, []⟩) h
      | some sweep =>
        rw [exists_accepts_iff (p := ⟨before, []⟩) hsize hpast hstart h]
        simp [Leads, Place.Reads]
    rw [hrun]
    simp [and_assoc, or_comm]
  | cons c text ih =>
    rw [run, exists_split_cons]
    cases h : a.enter before.head? (some c) position a.maxSteps (a.start :: todo) ⟨[], entered⟩ with
    | none =>
      have hfound : (∃ s ∈ todo, a.states.Accepts s ⟨before, c :: text⟩) ∨
          a.states.Accepts a.start ⟨before, c :: text⟩ := by
        simpa [or_comm] using enter_eq_none (p := ⟨before, c :: text⟩) h
      simpa using hfound.imp_right .inl
    | some sweep =>
      have hfound := exists_accepts_iff (p := ⟨before, c :: text⟩) hsize hpast hstart h
      obtain ⟨hsize', hnoted, hwaiting⟩ :=
        enter_bounds (p := ⟨before, c :: text⟩) (fun n hn => Nat.le_of_lt (hpast n hn)) h
      have hcount : unentered entered position ≤ entered.size := Array.countP_le_size
      have hlength : (successors sweep.waiting c).length ≤ a.states.size := by
        have hfilter : (successors sweep.waiting c).length ≤ sweep.waiting.length := List.length_filterMap_le _ _
        rw [List.length_nil] at hwaiting
        omega
      have hrest := ih (c :: before) (position + 1) _ (hsize'.trans hsize)
        (fun n hn => Nat.lt_succ_of_le (hnoted n hn)) hlength (Nat.succ_le_succ hlength)
      rw [List.head?_cons] at hrest
      simp only [hrest, exists_successor_iff, ← hfound, List.mem_cons, exists_eq_or_imp, List.reverse_nil, List.nil_append,
        List.reverse_cons, List.append_assoc, List.singleton_append]
      exact (or_congr_left or_comm).trans or_assoc

/-- An automaton accepts a text of which a part leads from its first state to an accepting one. -/
theorem accepts_iff (a : Automaton) (text : List Char) :
    a.accepts text = true ↔
      ∃ passed rest, text = passed ++ rest ∧ a.states.Accepts a.start ⟨passed.reverse, rest⟩ := by
  have hpast : ∀ n ∈ Array.replicate a.states.size 0, n < 1 := fun n hn => by
    rw [(Array.mem_replicate.1 hn).2]
    exact Nat.one_pos
  have hrun := run_iff [] text 1 [] Array.size_replicate hpast (Nat.zero_le a.states.size)
  simpa [accepts] using hrun

end Automaton

/-- The automaton of an expression accepts the texts of which the expression matches a part. -/
theorem Regex.accepts_automaton_iff {r : Regex} (hr : r.Bounded) (text : List Char) :
    r.automaton.accepts text = true ↔ ∃ passed rest q, text = passed ++ rest ∧ r.Matches ⟨passed.reverse, rest⟩ q := by
  have hrealizes := Regex.realizes_compile r hr
  have hheld : (r.compile 0 #[.accept]).2.HeldBy r.automaton.states (#[.accept] : States).size := fun _ _ _ => rfl
  have haccept : ∀ q, r.automaton.states.Accepts 0 q := fun q =>
    ⟨0, .accept (hrealizes.keeps 0 #[.accept] 0 Nat.one_pos)⟩
  have hstart : ∀ p, r.automaton.states.Accepts r.automaton.start p ↔ ∃ q, r.Matches p q := fun p => by
    constructor
    · rintro ⟨n, haccepts⟩
      obtain ⟨q, -, -, hmatches, -⟩ := hrealizes.sound _ _ _ hheld haccepts
      exact ⟨q, hmatches⟩
    · rintro ⟨q, hmatches⟩
      exact hrealizes.complete _ _ _ hheld hmatches (haccept q)
  simp only [Automaton.accepts_iff, hstart, exists_and_left]

end Registrar.Pattern
