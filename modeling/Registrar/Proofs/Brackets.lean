import Registrar.Proofs.Tails
import Mathlib.Data.List.TakeDrop

/-!
# Sets in front of a tail

No tail closes a set, so a set that ends inside a pattern is the same with a tail behind it, and one that does not end
there does not end at all.

* `steady_setRange?_cons`, `steady_setStep?` : an item, and one round of reading a set;
* `setRounds_eq_none` : without a closing bracket no set ends;
* `setRounds_append` : a set with a tail behind it.
-/

namespace Registrar.Pattern

/-- No set is closed in what is left. -/
def Unclosed {α : Type} (_ : Tail) (_ : α) (rest : List Char) : Prop := ']' ∉ rest

section
variable {α β : Type} {t : Tail} {v : α} {w : β} {rest rest' : List Char}

theorem Unclosed.of_suffix (h : Unclosed t v rest) (hrest : rest' <:+ rest) : Unclosed t w rest' :=
  fun hmem => h (hrest.mem hmem)

theorem Short.unclosed (h : Short t v rest) : Unclosed t v rest := fun hmem => t.noBracket (h.mem hmem)

theorem Tail.unclosed (t : Tail) (v : α) : Unclosed t v t.text := by
  simp [Unclosed, Tail.text, t.noBracket]

end

/-! ## Items -/

/-- A named class whose name is given, before the colon and the bracket that close it. -/
def closeNamed? (negated : Bool) (name text : List Char) : Option (SetExpr × List Char) :=
  if text.take 2 = [':', ']'] then (asciiClass? name).map fun c => (.ascii c negated, text.drop 2) else none

/-- The named class behind a possible `^`. -/
def namedItem? (negated : Bool) (text : List Char) : Option (SetExpr × List Char) :=
  closeNamed? negated (text.takeWhile (· != ':')) (text.dropWhile (· != ':'))

theorem outcome_closeNamed? (negated : Bool) (name text : List Char) :
    Outcome (fun _ _ _ => False) (closeNamed? negated name text) fun t => closeNamed? negated name (text ++ t.text) := by
  match text with
  | [] => exact .beyond rfl fun t _ _ h => by simp [closeNamed?, Tail.text] at h
  | [c] => exact .beyond (by simp [closeNamed?]) fun t _ _ h => by simp [closeNamed?, Tail.text] at h
  | c :: d :: rest =>
    simp only [closeNamed?, List.cons_append, List.take_succ_cons, List.take_zero, List.drop_succ_cons, List.drop_zero]
    split_ifs
    · cases asciiClass? name with
      | none => exact .fail
      | some c => exact .pure _ rest
    · exact .fail

theorem steady_namedItem? (negated : Bool) : Steady (fun _ _ _ => False) (namedItem? negated) where
  suffix {text item rest} h := by
    unfold namedItem? closeNamed? at h
    split_ifs at h
    obtain ⟨_, -, heq⟩ := Option.map_eq_some_iff.1 h
    cases heq
    exact (List.drop_suffix 2 _).trans (List.dropWhile_suffix _)
  outcome text := by
    by_cases hdrop : text.dropWhile (· != ':') = []
    · -- A colon in the tail has no closing bracket behind it.
      refine .beyond (by rw [namedItem?, hdrop]; rfl) fun t item rest hsome => ?_
      unfold namedItem? closeNamed? at hsome
      split_ifs at hsome with htake
      rw [List.dropWhile_append, hdrop, List.isEmpty_nil, if_pos rfl] at htake
      have hmem : ']' ∈ (t.text.dropWhile (· != ':')).take 2 := by simp [htake]
      exact t.unclosed () ((List.dropWhile_suffix _).mem (List.mem_of_mem_take hmem))
    · have hlength : (text.takeWhile (· != ':')).length ≠ text.length := fun hlength => by
        have happend := congrArg List.length (List.takeWhile_append_dropWhile (p := (· != ':')) (l := text))
        rw [List.length_append, hlength] at happend
        exact hdrop (List.length_eq_zero_iff.1 (by omega))
      have hbehind : ∀ t : Tail, namedItem? negated (text ++ t.text) =
          closeNamed? negated (text.takeWhile (· != ':')) (text.dropWhile (· != ':') ++ t.text) := fun t => by
        rw [namedItem?, List.dropWhile_append, if_neg (by simpa using hdrop), List.takeWhile_append, if_neg hlength]
      simp only [hbehind]
      exact outcome_closeNamed? negated _ _

theorem closeNamed?_eq (negated : Bool) (name text : List Char) :
    closeNamed? negated name text =
      match text with
      | ':' :: ']' :: rest => (asciiClass? name).map fun c => (.ascii c negated, rest)
      | _ => none := by
  unfold closeNamed?
  split_ifs with htake
  · obtain ⟨rest, rfl⟩ : ∃ rest, text = ':' :: ']' :: rest := ⟨text.drop 2, by
      rw [← List.take_append_drop 2 text, htake]
      rfl⟩
    rfl
  · split
    · simp at htake
    · rfl

theorem asciiItem?_colon (rest : List Char) :
    asciiItem? (':' :: rest) =
      if rest.head? = some '^' then namedItem? true rest.tail else namedItem? false rest := by
  unfold asciiItem?
  simp only [List.span_eq_takeWhile_dropWhile]
  split_ifs with hhead
  · obtain ⟨rest', rfl⟩ := List.head?_eq_some_iff.1 hhead
    exact (closeNamed?_eq true _ _).symm
  · cases rest with
    | nil => rfl
    | cons c rest =>
      have hc : c ≠ '^' := by simpa using hhead
      simp only [List.cons.injEq, hc, false_and, imp_self, implies_true]
      exact (closeNamed?_eq false _ _).symm

theorem asciiItem?_of_ne {text : List Char} (h : text.head? ≠ some ':') : asciiItem? text = none := by
  unfold asciiItem?
  split
  · simp at h
  · rfl

theorem steady_asciiItem? : Steady (fun _ _ _ => False) asciiItem? where
  suffix {text item rest} h := by
    by_cases hhead : text.head? = some ':'
    · obtain ⟨text, rfl⟩ := List.head?_eq_some_iff.1 hhead
      rw [asciiItem?_colon] at h
      refine List.IsSuffix.trans ?_ (List.suffix_cons ':' text)
      split_ifs at h
      · exact ((steady_namedItem? true).suffix h).trans (List.tail_suffix text)
      · exact (steady_namedItem? false).suffix h
    · cases (asciiItem?_of_ne hhead).symm.trans h
  outcome text := by
    by_cases hhead : text.head? = some ':'
    · obtain ⟨text, rfl⟩ := List.head?_eq_some_iff.1 hhead
      simp only [List.cons_append, asciiItem?_colon]
      cases text with
      | nil => exact (steady_namedItem? false).outcome []
      | cons c rest =>
        simp only [List.cons_append, List.head?_cons, List.tail_cons, Option.some.injEq]
        split_ifs
        · exact (steady_namedItem? true).outcome rest
        · exact (steady_namedItem? false).outcome (c :: rest)
    · refine .beyond (asciiItem?_of_ne hhead) fun t _ _ h => ?_
      cases text with
      | nil => cases h
      | cons c rest => cases (asciiItem?_of_ne (by simpa using hhead)).symm.trans h

theorem steady_leadingHyphens (verbose : Bool) (items : List SetExpr) :
    Steady Unclosed (leadingHyphens verbose items) := by
  refine Steady.loop (v := verbose)
    (fun items c => if c = '-' then some (.literal ⟨'-', false⟩ :: items) else none)
    (fun items c rest => some (items, c :: rest)) (fun items c rest => ?_) (fun items _ _ hsome => ?_)
    (fun _ _ _ _ _ _ hsome => ?_) (fun _ items => ?_) (fun items c rest _ => .pure items (c :: rest)) items
  · rw [leadingHyphens]
    split_ifs <;> rfl
  · simp [leadingHyphens] at hsome
  · cases hsome
    exact List.suffix_rfl
  · refine .beyond (by rw [leadingHyphens]) fun t items' rest hsome => ?_
    obtain ⟨rfl, rfl⟩ : items = items' ∧ t.text = rest := by simpa [Tail.text, leadingHyphens] using hsome
    exact t.unclosed items

/-- The first items of a set: a closing bracket in the first place stands for itself. -/
def firstItems? (verbose negated : Bool) (items : List SetExpr) (text : List Char) :
    Option ((Bool × List SetExpr) × List Char) :=
  if items.isEmpty ∧ text.head? = some ']' then
    match skip verbose text.tail with
    | [] => none
    | rest => some ((negated, [.literal ⟨']', false⟩]), rest)
  else some ((negated, items), text)

theorem steady_firstItems? (verbose negated : Bool) (items : List SetExpr) :
    Steady Unclosed (firstItems? verbose negated items) := by
  have hbracket : Steady Unclosed fun text =>
      match text with
      | [] => none
      | rest => some ((negated, [SetExpr.literal ⟨']', false⟩]), rest) := by
    refine ⟨fun {text value rest} h => ?_, fun text => ?_⟩
    · cases text <;> cases h
      exact List.suffix_rfl
    · cases text with
      | nil =>
        refine .beyond rfl fun t value rest h => ?_
        cases h
        exact t.unclosed ()
      | cons c rest => exact .pure _ (c :: rest)
  refine ⟨fun {text value rest} h => ?_, fun text => ?_⟩
  · unfold firstItems? at h
    split_ifs at h
    · exact ((hbracket.ofSkip verbose).suffix h).trans (List.tail_suffix text)
    · cases h
      exact List.suffix_rfl
  · cases text with
    | nil => exact .same (negated, items) [] (by simp [firstItems?]) fun t => by simp [firstItems?, Tail.text]
    | cons c rest =>
      simp only [firstItems?, List.cons_append, List.head?_cons, List.tail_cons, Option.some.injEq]
      split_ifs
      · exact (hbracket.ofSkip verbose).outcome rest
      · exact .pure _ (c :: rest)

/-- The start of a set, with what follows beside all the rest. -/
def startSet? (verbose : Bool) (text : List Char) : Option ((Bool × List SetExpr) × List Char) :=
  (openSet? verbose text).map fun p => ((p.1, p.2.1), p.2.2)

/-- The items of a set behind its sign of negation. -/
def itemsOf? (verbose negated : Bool) (text : List Char) : Option ((Bool × List SetExpr) × List Char) :=
  (leadingHyphens verbose [] text).bind fun p => firstItems? verbose negated p.1 p.2

theorem itemsOf?_eq (verbose negated : Bool) (text : List Char) :
    itemsOf? verbose negated text = ((leadingHyphens verbose [] text).bind fun p =>
      match p.1, p.2 with
      | [], ']' :: rest =>
        match skip verbose rest with
        | [] => none
        | rest => some (negated, [SetExpr.literal ⟨']', false⟩], rest)
      | items, text => some (negated, items, text)).map fun p => ((p.1, p.2.1), p.2.2) := by
  unfold itemsOf?
  rcases leadingHyphens verbose [] text with _ | ⟨_ | ⟨item, items⟩, _ | ⟨c, rest⟩⟩
  · rfl
  · rfl
  · by_cases hc : c = ']'
    · subst hc
      simp only [Option.bind_some, firstItems?]
      cases h : skip verbose rest <;> simp [h]
    · simp [firstItems?, hc]
  · rfl
  · rfl

theorem steady_itemsOf? (verbose negated : Bool) : Steady Unclosed (itemsOf? verbose negated) :=
  (steady_leadingHyphens verbose []).bindLate (steady_firstItems? verbose negated)
    fun _ items _ hlate _ _ h => hlate.of_suffix ((steady_firstItems? verbose negated items).suffix h)

theorem steady_startSet? (verbose : Bool) : Steady Unclosed (startSet? verbose) := by
  refine Steady.ofSign (v := verbose) '^' (fun text rest h => ?_) (fun text h => ?_) (by decide)
    ((steady_itemsOf? verbose true).ofSkip verbose) (steady_itemsOf? verbose false)
  · rw [startSet?, openSet?, h, itemsOf?_eq]
    rfl
  · rw [startSet?, openSet?, itemsOf?_eq]
    generalize skip verbose text = text' at h
    cases text' with
    | nil => rfl
    | cons c rest =>
      have hc : c ≠ '^' := fun hc => h rest (hc ▸ rfl)
      simp only []
      rfl

/-! ## Ranges -/

theorem steady_setPrimitive?_cons (verbose : Bool) (c : Char) :
    Steady (EscapeLate verbose) fun rest => setPrimitive? verbose (c :: rest) := by
  by_cases hc : c = '\\'
  · subst hc
    exact steady_escape? verbose
  · have hliteral : (fun rest => setPrimitive? verbose (c :: rest)) = fun rest => some (.literal ⟨c, false⟩, rest) := by
      funext rest
      rw [setPrimitive?]
      rintro ⟨⟩
      exact hc rfl
    exact hliteral ▸ .pure _

theorem steady_setPrimitive? (verbose : Bool) : Steady (EscapeLate verbose) (setPrimitive? verbose) where
  suffix {text p rest} h := by
    cases text with
    | nil => cases h
    | cons c text => exact ((steady_setPrimitive?_cons verbose c).suffix h).trans (List.suffix_cons c text)
  outcome text := by
    cases text with
    | nil =>
      refine .beyond rfl fun t p rest h => .inl ?_
      cases h
      exact List.suffix_rfl
    | cons c rest => exact (steady_setPrimitive?_cons verbose c).outcome rest

/-- Whether the character behind a hyphen makes it stand for itself. -/
def endsItem (next : Option Char) : Bool := next == some ']' || next == some '-'

theorem peekBlanks_append (passedSign : Bool) (text : List Char) (t : Tail) :
    peekBlanks passedSign (text ++ t.text) =
      (peekBlanks passedSign text).orElse fun _ => some ')' := by
  induction text generalizing passedSign with
  | nil => cases passedSign <;> rfl
  | cons c rest ih =>
    simp only [List.cons_append, peekBlanks]
    split_ifs
    · exact ih _
    · exact ih _
    · rfl

theorem peekBlanks_eq_none {passedSign : Bool} {text : List Char} (h : peekBlanks passedSign text = none) :
    ∀ c ∈ text.head?, isBlank c = true ∨ c = '#' := by
  cases text with
  | nil => simp
  | cons c rest =>
    rintro _ ⟨⟩
    rw [peekBlanks] at h
    split_ifs at h with hblank hsign
    · exact .inl hblank
    · exact .inr hsign.1

/-- The tail does not make a hyphen stand for itself. -/
theorem endsItem_peek? (verbose : Bool) (c : Char) (rest : List Char) (t : Tail) :
    endsItem (peek? verbose (c :: (rest ++ t.text))) = endsItem (peek? verbose (c :: rest)) := by
  have hhead : endsItem (rest ++ t.text).head? = endsItem rest.head? := by cases rest <;> rfl
  cases verbose with
  | false => exact hhead
  | true =>
    simp only [peek?, List.drop_succ_cons, List.drop_zero, if_true, peekBlanks_append]
    cases hpeek : peekBlanks false rest with
    | some d => rfl
    | none =>
      cases rest with
      | nil => rfl
      | cons d rest =>
        -- What was passed over is no hyphen and no bracket.
        rcases peekBlanks_eq_none hpeek d rfl with hblank | rfl
        · have hbracket : d ≠ ']' := fun hd => absurd (hd ▸ hblank) (by decide)
          have hhyphen : d ≠ '-' := fun hd => absurd (hd ▸ hblank) (by decide)
          simp [endsItem, hbracket, hhyphen]
        · rfl

/-- A range between two characters. -/
def rangeTo? (first second : Primitive) (rest : List Char) : Option (SetExpr × List Char) :=
  match first, second with
  | .literal low, .literal high => if low.char ≤ high.char then some (.range low high, rest) else none
  | _, _ => none

/-- What follows the first character of an item or a range, behind blanks. -/
def rangeFrom? (verbose : Bool) (first : Primitive) : List Char → Option (SetExpr × List Char)
  | [] => none
  | c :: rest =>
    if c != '-' || endsItem (peek? verbose (c :: rest)) then (setItem? first).map fun item => (item, c :: rest)
    else (setPrimitive? verbose (skip verbose rest)).bind fun p => rangeTo? first p.1 p.2

theorem setRange?_eq (verbose : Bool) (text : List Char) :
    setRange? verbose text =
      (setPrimitive? verbose text).bind fun p => rangeFrom? verbose p.1 (skip verbose p.2) := by
  unfold setRange?
  rcases setPrimitive? verbose text with _ | ⟨first, rest⟩
  · rfl
  · simp only [Option.bind_eq_bind, Option.bind_some, rangeFrom?]
    cases skip verbose rest with
    | nil => rfl
    | cons c rest =>
      simp only [endsItem, ← Bool.or_assoc]
      split_ifs
      · cases setItem? first <;> rfl
      · rfl

theorem steady_rangeTo? (first second : Primitive) {l : Tail → SetExpr → List Char → Prop} :
    Steady l (rangeTo? first second) := by
  cases first with
  | literal low =>
    cases second with
    | literal high => exact .ite (.pure _) .fail
    | _ => exact .fail
  | _ => exact .fail

theorem rangeTo?_assertion (first : Primitive) (a : Assertion) (rest : List Char) :
    rangeTo? first (.assertion a) rest = none := by
  cases first <;> rfl

theorem rangeFrom?_assertion (verbose : Bool) (a : Assertion) (text : List Char) :
    rangeFrom? verbose (.assertion a) text = none := by
  cases text with
  | nil => rfl
  | cons c rest =>
    rw [rangeFrom?]
    split_ifs
    · rfl
    · cases setPrimitive? verbose (skip verbose rest) <;> rfl

/-- The second end of a range. -/
theorem steady_rangeEnd (verbose : Bool) (first : Primitive) : Steady Unclosed fun text =>
    (setPrimitive? verbose (skip verbose text)).bind fun p => rangeTo? first p.1 p.2 := by
  refine Steady.bindLate ((steady_setPrimitive? verbose).ofSkip verbose) (fun _ => steady_rangeTo? first _) ?_
  rintro t second rest (hrest | ⟨rfl, -⟩) item rest' h
  · exact (Short.unclosed (t := t) (v := ()) hrest).of_suffix ((steady_rangeTo? first second (l := Short)).suffix h)
  · cases (rangeTo?_assertion first .boundary rest).symm.trans h

theorem steady_rangeFrom? (verbose : Bool) (first : Primitive) : Steady Unclosed (rangeFrom? verbose first) := by
  have hitem : ∀ text, Outcome Unclosed ((setItem? first).map fun item => (item, text)) fun t : Tail =>
      (setItem? first).map fun item => (item, text ++ t.text) := fun text => by
    cases setItem? first with
    | none => exact .fail
    | some item => exact .pure item text
  refine ⟨fun {text item rest} h => ?_, fun text => ?_⟩
  · cases text with
    | nil => cases h
    | cons c text =>
      rw [rangeFrom?] at h
      split_ifs at h
      · obtain ⟨_, -, heq⟩ := Option.map_eq_some_iff.1 h
        cases heq
        exact List.suffix_rfl
      · exact ((steady_rangeEnd verbose first).suffix h).trans (List.suffix_cons c text)
  · cases text with
    | nil =>
      refine .beyond rfl fun t item rest h => ?_
      obtain ⟨_, -, heq⟩ : ∃ item', setItem? first = some item' ∧ (item', t.text) = (item, rest) := by
        simpa [Tail.text, rangeFrom?] using h
      cases heq
      exact t.unclosed ()
    | cons c rest =>
      simp only [List.cons_append, rangeFrom?, endsItem_peek?]
      split_ifs
      · exact hitem (c :: rest)
      · exact (steady_rangeEnd verbose first).outcome rest

/-- An item or a range, from its first character on. -/
theorem steady_setRange?_cons (verbose : Bool) (c : Char) :
    Steady Unclosed fun rest => setRange? verbose (c :: rest) := by
  simp only [setRange?_eq]
  refine Steady.bindLate (steady_setPrimitive?_cons verbose c)
    (g := fun first text => rangeFrom? verbose first (skip verbose text))
    (fun first => (steady_rangeFrom? verbose first).ofSkip verbose) ?_
  rintro t first rest (hrest | ⟨rfl, -⟩) item rest' h
  · exact (Short.unclosed (t := t) (v := ()) hrest).of_suffix
      (((steady_rangeFrom? verbose first).ofSkip verbose).suffix h)
  · cases (rangeFrom?_assertion verbose .boundary _).symm.trans h

/-! ## Sets -/

/-- What a round of reading a set leads to: the whole set, or what is open and the items so far. -/
abbrev SetRound := (Bool × SetExpr) ⊕ (List SetFrame × List SetExpr)

/-- Reads a named class, or opens brackets within a set. -/
def openStep? (verbose : Bool) (stack : List SetFrame) (items : List SetExpr) (rest : List Char) :
    Option (SetRound × List Char) :=
  (if stack.isEmpty then none else asciiItem? rest).elim
    ((startSet? verbose rest).map fun p => (.inr (.brackets items p.1.1 :: stack, p.1.2), p.2))
    fun p => some (.inr (stack, p.1 :: items), p.2)

/-- Closes the brackets that were opened last. -/
def closeStep? (stack : List SetFrame) (items : List SetExpr) : Option SetRound :=
  match closeCombination stack (SetExpr.ofItems items) with
  | ([.brackets _ negated], set) => some (.inl (negated, set))
  | (.brackets before negated :: stack, set) => some (.inr (stack, .bracketed negated set :: before))
  | _ => none

/-- Reads the sign of a combination, or an item. -/
def itemStep? (verbose : Bool) (stack : List SetFrame) (items : List SetExpr) (c : Char) (rest : List Char) :
    Option (SetRound × List Char) :=
  match (if rest.head? = some c then setOperation? c else none) with
  | some operation =>
    let closed := closeCombination stack (SetExpr.ofItems items)
    some (.inr (.combination operation closed.2 :: closed.1, []), rest.drop 1)
  | none => (setRange? verbose (c :: rest)).map fun p => (.inr (stack, p.1 :: items), p.2)

/-- A round of reading a set, at a character. -/
def setStep? (verbose : Bool) (stack : List SetFrame) (items : List SetExpr) (c : Char) (rest : List Char) :
    Option (SetRound × List Char) :=
  if c = '[' then openStep? verbose stack items rest
  else if c = ']' then (closeStep? stack items).map (·, rest)
  else itemStep? verbose stack items c rest

/-- The rounds behind one that is done. -/
def setAfter? (verbose : Bool) (rounds : Nat) (p : SetRound × List Char) : Option (Bool × SetExpr × List Char) :=
  match p.1 with
  | .inl set => some (set.1, set.2, p.2)
  | .inr state => setRounds verbose rounds state.1 state.2 p.2

theorem setRounds_succ (verbose : Bool) (rounds : Nat) (stack : List SetFrame) (items : List SetExpr)
    (text : List Char) :
    setRounds verbose (rounds + 1) stack items text =
      match skip verbose text with
      | [] => none
      | c :: rest => (setStep? verbose stack items c rest).bind (setAfter? verbose rounds) := by
  rw [setRounds]
  cases skip verbose text with
  | nil => rfl
  | cons c rest =>
    dsimp only [setStep?]
    by_cases hopen : c = '['
    · subst hopen
      rw [if_pos rfl]
      simp only []
      unfold openStep? startSet?
      rcases (if stack.isEmpty then none else asciiItem? rest) with _ | ⟨item, rest'⟩
      · rcases openSet? verbose rest with _ | ⟨negated, inner, rest'⟩ <;> rfl
      · rfl
    · by_cases hclose : c = ']'
      · subst hclose
        rw [if_neg hopen, if_pos rfl]
        simp only []
        unfold closeStep?
        rcases closeCombination stack (SetExpr.ofItems items) with
          ⟨_ | ⟨⟨before, negated⟩ | ⟨operation, left⟩, _ | ⟨frame, stack⟩⟩, set⟩ <;> rfl
      · rw [if_neg hopen, if_neg hclose]
        simp only []
        unfold itemStep?
        rcases (if rest.head? = some c then setOperation? c else none) with _ | operation
        · rcases setRange? verbose (c :: rest) with _ | ⟨item, rest'⟩ <;> rfl
        · rfl

/-- A step, and another one where the first fails with each tail. -/
theorem Steady.orElse {α β : Type} {late : Tail → β → List Char → Prop} {f : List Char → Option (α × List Char)}
    {h : List Char → Option (β × List Char)} (hf : Steady (fun _ _ _ => False) f) (g : α → β) (hh : Steady late h) :
    Steady late fun text => (f text).elim (h text) fun p => some (g p.1, p.2) where
  suffix {text value rest} hsome := by
    cases hf' : f text with
    | none =>
      rw [hf'] at hsome
      exact hh.suffix hsome
    | some p =>
      rw [hf'] at hsome
      cases hsome
      exact hf.suffix hf'
  outcome text := by
    cases hf.outcome text with
    | same value rest halone hbehind =>
      simp only [halone, hbehind]
      exact .pure (g value) rest
    | swallowed value halone hbehind =>
      simp only [halone, hbehind]
      exact .swallowed (g value) rfl fun _ => rfl
    | beyond halone hbehind =>
      have hnone : ∀ t : Tail, f (text ++ t.text) = none := fun t =>
        Option.eq_none_iff_forall_ne_some.2 fun p hp => hbehind t p.1 p.2 hp
      simp only [halone, hnone]
      exact hh.outcome text

theorem steady_openStep? (verbose : Bool) (stack : List SetFrame) (items : List SetExpr) :
    Steady Unclosed (openStep? verbose stack items) := by
  have hascii : Steady (fun _ _ _ => False) fun text : List Char =>
      if stack.isEmpty then none else asciiItem? text := .ite .fail steady_asciiItem?
  have hstart : Steady Unclosed fun text : List Char =>
      (startSet? verbose text).map fun p => ((.inr (.brackets items p.1.1 :: stack, p.1.2) : SetRound), p.2) :=
    (steady_startSet? verbose).map (fun p => Sum.inr (.brackets items p.1 :: stack, p.2)) fun _ _ _ h => h
  exact hascii.orElse (fun item => .inr (stack, item :: items)) hstart

theorem steady_itemStep? (verbose : Bool) (stack : List SetFrame) (items : List SetExpr) (c : Char) :
    Steady Unclosed (itemStep? verbose stack items c) := by
  have hrange : Steady Unclosed fun rest =>
      (setRange? verbose (c :: rest)).map fun p => ((.inr (stack, p.1 :: items) : SetRound), p.2) :=
    (steady_setRange?_cons verbose c).map (fun item => Sum.inr (stack, item :: items)) fun _ _ _ h => h
  refine ⟨fun {text round rest} h => ?_, fun text => ?_⟩
  · unfold itemStep? at h
    split at h
    · cases h
      exact List.drop_suffix 1 text
    · exact hrange.suffix h
  · -- The parenthesis of a tail is no sign of a combination.
    have hsign : ∀ t : Tail, (if (text ++ t.text).head? = some c then setOperation? c else none) =
        if text.head? = some c then setOperation? c else none := fun t => by
      cases text with
      | nil =>
        by_cases hc : ')' = c
        · subst hc
          rfl
        · simp [Tail.text, hc]
      | cons d rest => rfl
    simp only [itemStep?, hsign]
    cases hop : (if text.head? = some c then setOperation? c else none) with
    | none => exact hrange.outcome text
    | some operation =>
      cases text with
      | nil => cases hop
      | cons d rest => exact .pure _ rest

theorem steady_setStep? (verbose : Bool) (stack : List SetFrame) (items : List SetExpr) (c : Char) :
    Steady Unclosed (setStep? verbose stack items c) := by
  have hclose : Steady Unclosed fun rest => (closeStep? stack items).map fun round => (round, rest) := by
    cases closeStep? stack items with
    | none => exact .fail
    | some round => exact .pure round
  exact .ite (steady_openStep? verbose stack items) (.ite hclose (steady_itemStep? verbose stack items c))

/-- Only a closing bracket ends a set. -/
theorem eq_bracket_of_setStep? {verbose : Bool} {stack : List SetFrame} {items : List SetExpr} {c : Char}
    {rest rest' : List Char} {set : Bool × SetExpr}
    (h : setStep? verbose stack items c rest = some (.inl set, rest')) : c = ']' := by
  unfold setStep? at h
  split_ifs at h with hopen hclose
  · unfold openStep? at h
    generalize (if stack.isEmpty then none else asciiItem? rest) = found at h
    rcases found with _ | p
    · obtain ⟨_, -, heq⟩ := Option.map_eq_some_iff.1 h
      cases heq
    · cases h
  · exact hclose
  · unfold itemStep? at h
    split at h
    · cases h
    · obtain ⟨_, -, heq⟩ := Option.map_eq_some_iff.1 h
      cases heq

/-- Without a closing bracket no set ends. -/
theorem setRounds_eq_none {verbose : Bool} {rounds : Nat} {stack : List SetFrame} {items : List SetExpr}
    {text : List Char} (h : ']' ∉ text) : setRounds verbose rounds stack items text = none := by
  induction rounds generalizing stack items text with
  | zero => rfl
  | succ rounds ih =>
    rw [setRounds_succ]
    have hskip : ']' ∉ skip verbose text := fun hmem => h ((skip_suffix verbose text).mem hmem)
    generalize skip verbose text = text' at hskip
    rcases text' with _ | ⟨c, rest⟩
    · rfl
    · dsimp only
      rcases hstep : setStep? verbose stack items c rest with _ | ⟨set | ⟨stack', items'⟩, rest'⟩
      · rfl
      · exact absurd (eq_bracket_of_setStep? hstep ▸ List.mem_cons_self) hskip
      · have hrest := (steady_setStep? verbose stack items c).suffix hstep
        exact ih fun hmem => hskip (List.mem_cons_of_mem c (hrest.mem hmem))

theorem setRounds_suffix {verbose : Bool} {rounds : Nat} {stack : List SetFrame} {items : List SetExpr}
    {text : List Char} {p : Bool × SetExpr × List Char} (h : setRounds verbose rounds stack items text = some p) :
    p.2.2 <:+ text := by
  induction rounds generalizing stack items text with
  | zero => cases h
  | succ rounds ih =>
    rw [setRounds_succ] at h
    refine List.IsSuffix.trans ?_ (skip_suffix verbose text)
    generalize skip verbose text = text' at h
    rcases text' with _ | ⟨c, text'⟩
    · cases h
    · obtain ⟨⟨round, rest'⟩, hstep, hafter⟩ := Option.bind_eq_some_iff.1 h
      have hrest := ((steady_setStep? verbose stack items c).suffix hstep).trans (List.suffix_cons c text')
      rcases round with set | state
      · cases hafter
        exact hrest
      · exact (ih hafter).trans hrest

/-- More rounds than there are characters make no difference. -/
theorem setRounds_eq_of_lt {verbose : Bool} {rounds rounds' : Nat} {stack : List SetFrame} {items : List SetExpr}
    {text : List Char} (h : text.length < rounds) (h' : text.length < rounds') :
    setRounds verbose rounds stack items text = setRounds verbose rounds' stack items text := by
  induction rounds generalizing rounds' stack items text with
  | zero => exact absurd h (Nat.not_lt_zero _)
  | succ rounds ih =>
    obtain ⟨rounds', rfl⟩ : ∃ k, rounds' = k + 1 := ⟨rounds' - 1, by omega⟩
    rw [setRounds_succ, setRounds_succ]
    have hlength := length_skip_le verbose text
    generalize skip verbose text = text' at hlength
    rcases text' with _ | ⟨c, rest⟩
    · rfl
    · rw [List.length_cons] at hlength
      dsimp only
      rcases hstep : setStep? verbose stack items c rest with _ | ⟨set | state, rest'⟩
      · rfl
      · rfl
      · have := ((steady_setStep? verbose stack items c).suffix hstep).length_le
        change setRounds verbose rounds state.1 state.2 rest' = setRounds verbose rounds' state.1 state.2 rest'
        exact ih (by omega) (by omega)

/-- What is read with a tail behind the text, where no comment runs into it. -/
def withTail {α β : Type} (t : Tail) (p : α × β × List Char) : α × β × List Char := (p.1, p.2.1, p.2.2 ++ t.text)

/-- A round and those behind it go on with a tail as they do without, if those behind it do. -/
theorem setStep?_append {verbose : Bool} {rounds rounds' : Nat} {stack : List SetFrame} {items : List SetExpr} {c : Char}
    {rest : List Char} {t : Tail} (hgoon : ∀ stack items rest', rest' <:+ rest →
      setRounds verbose rounds' stack items (rest' ++ t.text) =
        (setRounds verbose rounds stack items rest').map (withTail t)) :
    (setStep? verbose stack items c (rest ++ t.text)).bind (setAfter? verbose rounds') =
      ((setStep? verbose stack items c rest).bind (setAfter? verbose rounds)).map (withTail t) := by
  by_cases hc : c = ']'
  · subst hc
    have hstep : ∀ rest, setStep? verbose stack items ']' rest = (closeStep? stack items).map (·, rest) :=
      fun _ => rfl
    rw [hstep, hstep]
    rcases closeStep? stack items with _ | set | state
    · rfl
    · rfl
    · exact hgoon state.1 state.2 rest List.suffix_rfl
  have hround : ∀ {rest set rest'}, setStep? verbose stack items c rest ≠ some (.inl set, rest') :=
    fun hend => hc (eq_bracket_of_setStep? hend)
  cases (steady_setStep? verbose stack items c).outcome rest with
  | same round rest' halone hbehind =>
    rw [halone, hbehind]
    rcases round with set | state
    · exact absurd halone hround
    · exact hgoon state.1 state.2 rest' ((steady_setStep? verbose stack items c).suffix halone)
  | swallowed round halone hbehind =>
    rw [halone, hbehind]
    rcases round with set | state
    · exact absurd halone hround
    · have hnil : ∀ rounds, setRounds verbose rounds state.1 state.2 [] = none := fun _ =>
        setRounds_eq_none List.not_mem_nil
      exact (hnil rounds').trans (congrArg (Option.map (withTail t)) (hnil rounds)).symm
  | beyond halone hbehind =>
    rw [halone]
    rcases hstep : setStep? verbose stack items c (rest ++ t.text) with _ | ⟨set | state, rest'⟩
    · rfl
    · exact absurd hstep hround
    · exact setRounds_eq_none (hbehind t _ _ hstep)

/-- A set that ends in a text is read in the same way with a tail behind the text, and no other set is. -/
theorem setRounds_append {verbose : Bool} {rounds rounds' : Nat} {stack : List SetFrame} {items : List SetExpr}
    {text : List Char} {t : Tail} (h : text.length < rounds) (h' : (text ++ t.text).length < rounds') :
    setRounds verbose rounds' stack items (text ++ t.text) =
      (setRounds verbose rounds stack items text).map (withTail t) := by
  induction rounds generalizing rounds' stack items text with
  | zero => exact absurd h (Nat.not_lt_zero _)
  | succ rounds ih =>
    obtain ⟨rounds', rfl⟩ : ∃ k, rounds' = k + 1 := ⟨rounds' - 1, by omega⟩
    rw [setRounds_succ, setRounds_succ]
    have hlength := length_skip_le verbose text
    obtain hsame | ⟨hnone, hall⟩ := skip_append verbose text
    · rw [hsame]
      generalize skip verbose text = text' at hlength
      rcases text' with _ | ⟨c, rest⟩
      · -- The text ends before the set does, and a tail does not close it.
        have hend : setRounds verbose (rounds' + 1) stack items t.text = none := setRounds_eq_none (t.unclosed ())
        rw [setRounds_succ, t.skip_text] at hend
        exact hend
      · rw [List.length_append] at h'
        rw [List.length_cons] at hlength
        refine setStep?_append fun stack items rest' hrest => ?_
        have := hrest.length_le
        exact ih (by omega) (by rw [List.length_append]; omega)
    · rw [hnone, hall]
      rfl

theorem set?_append {verbose : Bool} {rounds rounds' : Nat} {text : List Char} {t : Tail}
    (h : text.length < rounds) (h' : (text ++ t.text).length < rounds') :
    set? verbose rounds' (text ++ t.text) = (set? verbose rounds text).map (withTail t) :=
  setRounds_append h h'

theorem set?_suffix {verbose : Bool} {rounds : Nat} {rest : List Char} {p : Bool × SetExpr × List Char}
    (h : set? verbose rounds ('[' :: rest) = some p) : p.2.2 <:+ rest := by
  cases rounds with
  | zero => cases h
  | succ rounds =>
    have hskip : skip verbose ('[' :: rest) = '[' :: rest := by cases verbose <;> rfl
    rw [set?, setRounds_succ, hskip] at h
    obtain ⟨⟨round, rest'⟩, hstep, hafter⟩ := Option.bind_eq_some_iff.1 h
    have hrest := (steady_setStep? verbose [] [] '[').suffix hstep
    rcases round with set | state
    · cases hafter
      exact hrest
    · exact (setRounds_suffix hafter).trans hrest

end Registrar.Pattern
