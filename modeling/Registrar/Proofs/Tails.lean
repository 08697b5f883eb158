import Registrar.Pattern.SetParser
import Mathlib.Tactic.SplitIfs

/-!
# What stands behind a pattern

A pattern that is put into a group is followed by a closing parenthesis. Each small step of the parser that ends inside
the pattern does the same whatever tail follows, unless a comment runs on into the tail. A step for which the pattern
ends too early goes on into the tail, and is left there with nothing that could close the group.

* `Tail` : a closing parenthesis and what follows it;
* `Outcome` : what a step does with a text alone, and with each tail behind it;
* `Steady` : a step that has an outcome on each text and leaves the end of it;
* `steady_hexBraced?`, `steady_boundary?`, `steady_escape?` : numbers, word boundaries and escapes.
-/

namespace Registrar.Pattern

/-- What may follow a pattern: a closing parenthesis, and more without a line break or a closing bracket. -/
structure Tail where
  /-- What follows the parenthesis. -/
  rest : List Char
  /-- A comment runs to the end of the tail. -/
  noBreak : '\n' ∉ rest
  /-- No set is closed in the tail. -/
  noBracket : ']' ∉ rest

/-- The text of a tail. -/
def Tail.text (t : Tail) : List Char := ')' :: t.rest

/-- What a step does on a text alone, `alone`, and with each tail behind it, `behind`. Where it fails on the text alone,
a tail may let it go on, but only to results that are `late`. -/
inductive Outcome {α : Type} (late : Tail → α → List Char → Prop) (alone : Option (α × List Char))
    (behind : Tail → Option (α × List Char)) : Prop
  /-- It ends inside the text. -/
  | same (value : α) (rest : List Char) (halone : alone = some (value, rest))
      (hbehind : ∀ t, behind t = some (value, rest ++ t.text))
  /-- It ends in a comment that runs through the tail. -/
  | swallowed (value : α) (halone : alone = some (value, [])) (hbehind : ∀ t, behind t = some (value, []))
  /-- It fails, or ends in the tail. -/
  | beyond (halone : alone = none) (hbehind : ∀ t value rest, behind t = some (value, rest) → late t value rest)

/-- What is left is an end of what follows the parenthesis. -/
def Short {α : Type} (t : Tail) (_ : α) (rest : List Char) : Prop := rest <:+ t.rest

/-- A step that takes a text from its start on and has an outcome on each text. -/
structure Steady {α : Type} (late : Tail → α → List Char → Prop) (step : List Char → Option (α × List Char)) :
    Prop where
  /-- What is left is an end of the text. -/
  suffix : ∀ {text value rest}, step text = some (value, rest) → rest <:+ text
  /-- What it does does not depend on the tail. -/
  outcome : ∀ text, Outcome late (step text) fun t => step (text ++ t.text)

section
variable {α β : Type} {late : Tail → α → List Char → Prop} {late' : Tail → β → List Char → Prop}

namespace Outcome

theorem pure (value : α) (rest : List Char) :
    Outcome late (some (value, rest)) fun t => some (value, rest ++ t.text) :=
  .same value rest rfl fun _ => rfl

theorem fail : Outcome late (none : Option (α × List Char)) fun _ => none :=
  .beyond rfl fun _ _ _ h => nomatch h

/-- The same is done with each tail, and nothing is left. -/
theorem const {l : Tail → α → List Char → Prop} {result : Option (α × List Char)}
    (h : ∀ value rest, result = some (value, rest) → rest = []) : Outcome l result fun _ => result := by
  cases result with
  | none => exact fail
  | some p =>
    obtain ⟨value, rest⟩ := p
    obtain rfl := h value rest rfl
    exact .swallowed value rfl fun _ => rfl

theorem mono {alone : Option (α × List Char)} {behind : Tail → Option (α × List Char)}
    {wider : Tail → α → List Char → Prop} (h : Outcome late alone behind)
    (hwider : ∀ t value rest, late t value rest → wider t value rest) : Outcome wider alone behind := by
  cases h with
  | same value rest halone hbehind => exact .same value rest halone hbehind
  | swallowed value halone hbehind => exact .swallowed value halone hbehind
  | beyond halone hbehind => exact .beyond halone fun t value rest h => hwider t value rest (hbehind t value rest h)

/-- One step after another. -/
theorem bind {alone : Option (α × List Char)} {behind : Tail → Option (α × List Char)}
    {g : α → List Char → Option (β × List Char)} (h : Outcome late alone behind)
    (hsame : ∀ value rest, alone = some (value, rest) →
      Outcome late' (g value rest) fun t => g value (rest ++ t.text))
    (hnil : ∀ value result rest, g value [] = some (result, rest) → rest = [])
    (hlate : ∀ t value rest, late t value rest → ∀ result rest', g value rest = some (result, rest') →
      late' t result rest') :
    Outcome late' (alone.bind fun p => g p.1 p.2) fun t => (behind t).bind fun p => g p.1 p.2 := by
  cases h with
  | same value rest halone hbehind => simpa [halone, hbehind] using hsame value rest halone
  | swallowed value halone hbehind => simpa [halone, hbehind] using const (l := late') (hnil value)
  | beyond halone hbehind =>
    refine .beyond (by rw [halone]; rfl) fun t result rest' hsome => ?_
    obtain ⟨⟨value, rest⟩, hvalue, hnext⟩ := Option.bind_eq_some_iff.1 hsome
    exact hlate t value rest (hbehind t value rest hvalue) result rest' hnext

theorem map {alone : Option (α × List Char)} {behind : Tail → Option (α × List Char)} (f : α → β)
    (h : Outcome late alone behind) (hlate : ∀ t value rest, late t value rest → late' t (f value) rest) :
    Outcome late' (alone.map fun p => (f p.1, p.2)) fun t => (behind t).map fun p => (f p.1, p.2) := by
  cases h with
  | same value rest halone hbehind =>
    exact .same (f value) rest (by rw [halone]; rfl) fun t => by rw [hbehind]; rfl
  | swallowed value halone hbehind =>
    exact .swallowed (f value) (by rw [halone]; rfl) fun t => by rw [hbehind]; rfl
  | beyond halone hbehind =>
    refine .beyond (by rw [halone]; rfl) fun t result rest hsome => ?_
    obtain ⟨⟨value, rest⟩, hvalue, heq⟩ := Option.map_eq_some_iff.1 hsome
    cases heq
    exact hlate t value rest (hbehind t value rest hvalue)

end Outcome

/-- One step after another. -/
theorem Steady.bindLate {f : List Char → Option (α × List Char)} {g : α → List Char → Option (β × List Char)}
    (h : Steady late f) (hg : ∀ value, Steady late' (g value))
    (hlate : ∀ t value rest, late t value rest → ∀ result rest', g value rest = some (result, rest') →
      late' t result rest') :
    Steady late' fun text => (f text).bind fun p => g p.1 p.2 where
  suffix hsome := by
    obtain ⟨⟨value, rest⟩, hvalue, hrest⟩ := Option.bind_eq_some_iff.1 hsome
    exact ((hg value).suffix hrest).trans (h.suffix hvalue)
  outcome text := (h.outcome text).bind (fun value rest _ => (hg value).outcome rest)
    (fun value _ _ hrest => List.suffix_nil.1 ((hg value).suffix hrest)) hlate

theorem Steady.bind {f : List Char → Option (α × List Char)} {g : α → List Char → Option (β × List Char)}
    (h : Steady Short f) (hg : ∀ value, Steady Short (g value)) :
    Steady Short fun text => (f text).bind fun p => g p.1 p.2 :=
  h.bindLate hg fun _ value _ hshort _ _ hrest => ((hg value).suffix hrest).trans hshort

theorem Steady.map {f : List Char → Option (α × List Char)} (h : Steady late f) (g : α → β)
    (hlate : ∀ t value rest, late t value rest → late' t (g value) rest) :
    Steady late' fun text => (f text).map fun p => (g p.1, p.2) where
  suffix hsome := by
    obtain ⟨⟨value, rest⟩, hvalue, heq⟩ := Option.map_eq_some_iff.1 hsome
    cases heq
    exact h.suffix hvalue
  outcome text := (h.outcome text).map g hlate

theorem Steady.pure (value : α) : Steady late fun text => some (value, text) where
  suffix hsome := by
    cases hsome
    exact List.suffix_rfl
  outcome text := .pure value text

theorem Steady.ite {c : Prop} [Decidable c] {f g : List Char → Option (α × List Char)} (hf : Steady late f)
    (hg : Steady late g) : Steady late fun text => if c then f text else g text := by
  split_ifs
  · exact hf
  · exact hg

theorem Steady.mono {f : List Char → Option (α × List Char)} {l : Tail → α → List Char → Prop} (h : Steady late f)
    (hwider : ∀ t value rest, late t value rest → l t value rest) : Steady l f :=
  ⟨h.suffix, fun text => (h.outcome text).mono hwider⟩

theorem Steady.fail : Steady late fun _ => (none : Option (α × List Char)) where
  suffix hsome := nomatch hsome
  outcome _ := .fail

end

/-! ## Blanks and comments -/

theorem skipBlanks_suffix (inComment : Bool) (text : List Char) : skipBlanks inComment text <:+ text := by
  induction text generalizing inComment with
  | nil => exact List.suffix_rfl
  | cons c rest ih =>
    unfold skipBlanks
    split_ifs
    · exact (ih _).trans (List.suffix_cons c rest)
    · exact (ih _).trans (List.suffix_cons c rest)
    · exact (ih _).trans (List.suffix_cons c rest)
    · exact List.suffix_rfl

theorem skip_suffix (verbose : Bool) (text : List Char) : skip verbose text <:+ text := by
  unfold skip
  split_ifs
  · exact skipBlanks_suffix false text
  · exact List.suffix_rfl

/-- A comment without a line break is passed over to its end. -/
theorem skipBlanks_true_of_noBreak {text : List Char} (h : '\n' ∉ text) : skipBlanks true text = [] := by
  induction text with
  | nil => rfl
  | cons c rest ih =>
    obtain ⟨hc, hrest⟩ : '\n' ≠ c ∧ '\n' ∉ rest := by simpa using h
    rw [skipBlanks, if_pos rfl, bne_iff_ne.2 hc.symm, ih hrest]

theorem Tail.skip_text (t : Tail) (verbose : Bool) : skip verbose t.text = t.text := by
  cases verbose <;> rfl

theorem skipBlanks_append (inComment : Bool) (text : List Char) :
    (∀ t : Tail, skipBlanks inComment (text ++ t.text) = skipBlanks inComment text ++ t.text) ∨
      skipBlanks inComment text = [] ∧ ∀ t : Tail, skipBlanks inComment (text ++ t.text) = [] := by
  induction text generalizing inComment with
  | nil =>
    cases inComment with
    | false => exact .inl fun t => rfl
    | true => exact .inr ⟨rfl, fun t => skipBlanks_true_of_noBreak (by simp [Tail.text, t.noBreak])⟩
  | cons c rest ih =>
    simp only [List.cons_append, skipBlanks]
    split_ifs
    · exact ih _
    · exact ih _
    · exact ih _
    · exact .inl fun _ => rfl

theorem skip_append (verbose : Bool) (text : List Char) :
    (∀ t : Tail, skip verbose (text ++ t.text) = skip verbose text ++ t.text) ∨
      skip verbose text = [] ∧ ∀ t : Tail, skip verbose (text ++ t.text) = [] := by
  cases verbose with
  | false => exact .inl fun _ => rfl
  | true => exact skipBlanks_append false text

/-- What is done behind blanks and comments. -/
theorem Outcome.ofSkip {α : Type} {late : Tail → α → List Char → Prop} {g : List Char → Option (α × List Char)}
    {verbose : Bool} {text : List Char}
    (h : Outcome late (g (skip verbose text)) fun t => g (skip verbose text ++ t.text))
    (hnil : ∀ value rest, g [] = some (value, rest) → rest = []) :
    Outcome late (g (skip verbose text)) fun t => g (skip verbose (text ++ t.text)) := by
  obtain hsame | ⟨hnone, hall⟩ := skip_append verbose text
  · simpa only [hsame] using h
  · simpa only [hnone, hall] using Outcome.const hnil

theorem Steady.ofSkip {α : Type} {late : Tail → α → List Char → Prop} {g : List Char → Option (α × List Char)}
    (h : Steady late g) (verbose : Bool) : Steady late fun text => g (skip verbose text) where
  suffix hsome := (h.suffix hsome).trans (skip_suffix verbose _)
  outcome _ := (h.outcome _).ofSkip fun _ _ hrest => List.suffix_nil.1 (h.suffix hrest)

theorem steady_head : Steady Short fun text : List Char => text.head?.map fun c => (c, text.tail) where
  suffix {text _ _} hsome := by
    cases text <;> cases hsome
    exact List.suffix_cons _ _
  outcome text := by
    cases text with
    | nil =>
      refine .beyond rfl fun t c rest hsome => ?_
      cases hsome
      exact List.suffix_rfl
    | cons c rest => exact .pure c rest

/-- What is allowed is given. -/
theorem Steady.ofOption {α : Type} (value : Option α) : Steady Short fun text => value.map fun v => (v, text) := by
  cases value with
  | none => exact .fail
  | some v => exact .pure v

/-- A step that looks at the next character first. -/
theorem Steady.ofHead {α : Type} {f : List Char → Option (α × List Char)}
    {g : Char → List Char → Option (α × List Char)} (hnil : f [] = none)
    (hcons : ∀ c rest, f (c :: rest) = g c rest) (h : ∀ c, Steady Short (g c)) : Steady Short f := by
  have hf : f = fun text => (text.head?.map fun c => (c, text.tail)).bind fun p => g p.1 p.2 := by
    funext text
    cases text with
    | nil => exact hnil
    | cons c rest => exact hcons c rest
  exact hf ▸ steady_head.bind h

/-- A step that goes on as long as characters of some kind follow. What it does where the text ends may be told from
what it leaves of any text. -/
theorem Steady.loop {σ α : Type} {late : Tail → α → List Char → Prop} {f : σ → List Char → Option (α × List Char)}
    {v : Bool} (g : σ → Char → Option σ) (stop : σ → Char → List Char → Option (α × List Char))
    (hcons : ∀ s c rest, f s (c :: rest) =
      match g s c with
      | some s' => f s' (skip v rest)
      | none => stop s c rest)
    (hnil : ∀ s value rest, f s [] = some (value, rest) → rest = [])
    (hstop : ∀ s c rest value rest', g s c = none → stop s c rest = some (value, rest') → rest' <:+ c :: rest)
    (hend : (∀ s text value rest, f s text = some (value, rest) → rest <:+ text) → ∀ s,
      Outcome late (f s []) fun t => f s t.text)
    (hout : ∀ s c rest, g s c = none → Outcome late (stop s c rest) fun t => stop s c (rest ++ t.text)) (s : σ) :
    Steady late (f s) := by
  have hlength : ∀ {c : Char} {text : List Char}, (skip v text).length < (c :: text).length :=
    fun {_ text} => Nat.lt_succ_of_le (length_skip_le v text)
  have hsuffix : ∀ s text value rest, f s text = some (value, rest) → rest <:+ text := by
    intro s text value rest hsome
    induction hn : text.length using Nat.strongRecOn generalizing s text with
    | ind n ih =>
      cases text with
      | nil => exact hnil s value rest hsome ▸ List.suffix_rfl
      | cons c text =>
        rw [hcons] at hsome
        cases hg : g s c with
        | some s' =>
          rw [hg] at hsome
          have hrest := ih _ (hn ▸ hlength) s' _ hsome rfl
          exact (hrest.trans (skip_suffix v text)).trans (List.suffix_cons c text)
        | none =>
          rw [hg] at hsome
          exact hstop s c text value rest hg hsome
  refine ⟨fun {text value rest} => hsuffix s text value rest, fun text => ?_⟩
  induction hn : text.length using Nat.strongRecOn generalizing s text with
  | ind n ih =>
    cases text with
    | nil => exact hend hsuffix s
    | cons c text =>
      simp only [List.cons_append, hcons]
      cases hg : g s c with
      | some s' => exact (ih _ (hn ▸ hlength) s' _ rfl).ofSkip (hnil s')
      | none => exact hout s c text hg

/-! ## Numbers -/

theorem steady_decimalDigits (verbose : Bool) (value : Option Nat) :
    Steady Short fun text => some (decimalDigits verbose value text) := by
  refine Steady.loop (f := fun value text => some (decimalDigits verbose value text)) (v := verbose)
    (fun value c => if c.isDigit then some (some (value.getD 0 * 10 + (c.toNat - 48))) else none)
    (fun value c rest => some (value, c :: rest)) (fun value c rest => ?_) (fun value _ _ hsome => ?_)
    (fun _ _ _ _ _ _ hsome => ?_) (fun _ value => ?_) (fun value c rest _ => .pure value (c :: rest)) value
  · rw [decimalDigits]
    split_ifs <;> rfl
  · rw [decimalDigits] at hsome
    cases hsome
    rfl
  · cases hsome
    exact List.suffix_rfl
  · exact .same value [] (by rw [decimalDigits]) fun t => by simp [Tail.text, decimalDigits]

theorem steady_dropBlanks : Steady Short fun text => some ((), text.dropWhile isBlank) where
  suffix hsome := by
    cases hsome
    exact List.dropWhile_suffix _
  outcome text := by
    have hdrop : ∀ t : Tail, (text ++ t.text).dropWhile isBlank = text.dropWhile isBlank ++ t.text := fun t => by
      rw [List.dropWhile_append]
      split_ifs with h
      · rw [List.isEmpty_iff.1 h]
        rfl
      · rfl
    simp only [hdrop]
    exact .pure () _

theorem steady_decimal? (verbose : Bool) : Steady Short (decimal? verbose) := by
  have hdecimal : decimal? verbose = fun text =>
      ((some ((), text.dropWhile isBlank)).bind fun p => some (decimalDigits verbose none p.2)).bind fun p =>
        ((some ((), p.2.dropWhile isBlank)).bind fun q =>
          (p.1.filter (· < 0x100000000)).map fun value => (value, q.2)) := by
    funext text
    unfold decimal?
    split <;> next h => simp [h, Option.filter]
  rw [hdecimal]
  exact (steady_dropBlanks.bind fun _ => steady_decimalDigits verbose none).bind
    (g := fun found text => (some ((), text.dropWhile isBlank)).bind fun q =>
      (found.filter (· < 0x100000000)).map fun value => (value, q.2))
    fun found => steady_dropBlanks.bind (g := fun _ text =>
      (found.filter (· < 0x100000000)).map fun value => (value, text)) fun _ => .ofOption _

theorem steady_hexDigits? (verbose : Bool) (count value : Nat) : Steady Short (hexDigits? verbose count value) := by
  induction count generalizing value with
  | zero => exact .pure value
  | succ count ih =>
    refine .ofHead (g := fun c rest =>
      (hexValue? c).bind fun d => hexDigits? verbose count (value * 16 + d) (skip verbose rest))
      rfl (fun c rest => ?_) fun c => ?_
    · rw [hexDigits?]
      cases hexValue? c <;> rfl
    · cases hexValue? c with
      | none => exact .fail
      | some d => exact (ih _).ofSkip verbose

theorem steady_hexBraced? (verbose : Bool) (value : Option Nat) : Steady Short (hexBraced? verbose value) := by
  have hclose : ∀ value : Option Nat, Steady Short fun text => value.map (·, skip verbose text) :=
    fun value => (Steady.ofOption value).ofSkip verbose
  refine Steady.loop (v := verbose)
    (fun value c => if c = '\x7d' then none else (hexValue? c).map fun d => some (value.getD 0 * 16 + d))
    (fun value c rest => if c = '\x7d' then value.map (·, skip verbose rest) else none) (fun value c rest => ?_)
    (fun value _ _ hsome => ?_) (fun value c rest _ _ _ hsome => ?_) (fun _ value => ?_) (fun value c rest _ => ?_) value
  · rw [hexBraced?]
    split_ifs
    · rfl
    · cases hexValue? c <;> rfl
  · simp [hexBraced?] at hsome
  · split_ifs at hsome
    exact ((hclose value).suffix hsome).trans (List.suffix_cons c rest)
  · exact .beyond (by rw [hexBraced?]) fun t => by simp [Tail.text, hexBraced?, hexValue?]
  · split_ifs
    · exact (hclose value).outcome rest
    · exact .fail

/-- Reads in one way behind a sign, and in another where the sign does not stand. -/
def afterSign {α : Type} (sign : Char) (g h : List Char → Option (α × List Char)) (text : List Char) :
    Option (α × List Char) :=
  if text.head? = some sign then g text.tail else h text

theorem afterSign_cons {α : Type} (sign : Char) (g h : List Char → Option (α × List Char)) (c : Char)
    (rest : List Char) : afterSign sign g h (c :: rest) = if c = sign then g rest else h (c :: rest) := by
  simp only [afterSign, List.head?_cons, Option.some.injEq, List.tail_cons]

theorem Steady.afterSign {α : Type} {late : Tail → α → List Char → Prop} {sign : Char}
    {g h : List Char → Option (α × List Char)} (hsign : sign ≠ ')') (hg : Steady late g) (hh : Steady late h) :
    Steady late (afterSign sign g h) where
  suffix {text value rest} hsome := by
    cases text with
    | nil => exact hh.suffix hsome
    | cons c text =>
      rw [afterSign_cons] at hsome
      split_ifs at hsome
      · exact (hg.suffix hsome).trans (List.suffix_cons c text)
      · exact hh.suffix hsome
  outcome text := by
    cases text with
    | nil => simpa [Pattern.afterSign, Tail.text, hsign.symm] using hh.outcome []
    | cons c rest =>
      simp only [afterSign_cons, List.cons_append]
      split_ifs
      · exact hg.outcome rest
      · exact hh.outcome (c :: rest)

/-- A step that looks behind blanks and comments for a sign, and for something else if there is none. -/
theorem Steady.ofSign {α : Type} {late : Tail → α → List Char → Prop} {v : Bool} (sign : Char)
    {f g h : List Char → Option (α × List Char)}
    (hfound : ∀ text rest, skip v text = sign :: rest → f text = g rest)
    (hother : ∀ text, (∀ rest, skip v text ≠ sign :: rest) → f text = h (skip v text))
    (hsign : sign ≠ ')') (hg : Steady late g) (hh : Steady late h) : Steady late f := by
  have hf : f = fun text => Pattern.afterSign sign g h (skip v text) := by
    funext text
    cases hskip : skip v text with
    | nil =>
      rw [hother text (by simp [hskip]), hskip]
      rfl
    | cons c rest =>
      rw [afterSign_cons]
      split_ifs with hc
      · exact hfound text rest (hc ▸ hskip)
      · rw [hother text fun rest' hrest => hc (List.cons.inj (hskip.symm.trans hrest)).1, hskip]
  exact hf ▸ (Steady.afterSign hsign hg hh).ofSkip v

theorem steady_hexEscape? (verbose : Bool) (kind : Char) : Steady Short (hexEscape? verbose kind) := by
  have hchar : ∀ (isByte : Bool) (value : Nat), Steady Short fun text =>
      (char? value).bind fun c => some ((⟨c, isByte⟩ : Literal), text) := fun isByte value => by
    cases char? value with
    | none => exact .fail
    | some c => exact .pure _
  have hbraced := (steady_hexBraced? verbose none).bind (g := fun value text =>
    (char? value).bind fun c => some ((⟨c, false⟩ : Literal), text)) (hchar false)
  have hplain : ∀ count, Steady Short fun text => (hexDigits? verbose count 0 text).bind fun p =>
      (char? p.1).bind fun c => some ((⟨c, kind = 'x'⟩ : Literal), p.2) :=
    fun count => (steady_hexDigits? verbose count 0).bind (g := fun value text =>
      (char? value).bind fun c => some ((⟨c, kind = 'x'⟩ : Literal), text)) (hchar _)
  refine Steady.ofSign (v := verbose) '\x7b' (fun text rest h => ?_) (fun text h => ?_) (by decide)
    (hbraced.ofSkip verbose) (hplain (if kind = 'x' then 2 else if kind = 'u' then 4 else 8))
  · rw [hexEscape?, h]
    rfl
  · unfold hexEscape?
    split
    · next rest heq => exact absurd heq (h rest)
    · rfl

/-! ## Properties -/

theorem steady_braced? (verbose : Bool) (found : List Char) : Steady Short (braced? verbose found) := by
  refine Steady.loop (v := verbose) (fun found c => if c = '\x7d' then none else some (c :: found))
    (fun found c rest => some (found.reverse, rest)) (fun found c rest => ?_) (fun found _ _ hsome => ?_)
    (fun found c rest _ _ _ hsome => ?_) (fun hsuffix found => ?_) (fun found c rest _ => .pure _ rest) found
  · rw [braced?]
    split_ifs <;> rfl
  · simp [braced?] at hsome
  · cases hsome
    exact List.suffix_cons c _
  · refine .beyond (by rw [braced?]) fun t value rest hsome => ?_
    rw [Tail.text, braced?, if_neg (by decide)] at hsome
    exact (hsuffix _ _ _ _ hsome).trans (skip_suffix verbose _)

theorem steady_propertyEscape? (verbose : Bool) : Steady Short (propertyEscape? verbose) := by
  refine Steady.ofSign (v := verbose) '\x7b'
    (g := fun text => (braced? verbose [] (skip verbose text)).map fun p => (propertyQuery p.1, p.2))
    (h := fun text => text.head?.bind fun c =>
      if c = '\\' then none else some (.named (String.singleton c), skip verbose text.tail))
    (fun text rest h => ?_) (fun text h => ?_) (by decide)
    (((steady_braced? verbose []).map propertyQuery fun _ _ _ h => h).ofSkip verbose) ?_
  · rw [propertyEscape?, h]
    change (braced? verbose [] (skip verbose rest)).bind (fun p => some (propertyQuery p.1, p.2)) = _
    cases braced? verbose [] (skip verbose rest) <;> rfl
  · unfold propertyEscape?
    split
    · next heq =>
      rw [heq]
      rfl
    · next rest heq => exact absurd heq (h rest)
    · next c rest _ heq =>
      rw [heq]
      rfl
  · refine .ofHead (g := fun c rest =>
      if c = '\\' then none else some (.named (String.singleton c), skip verbose rest)) rfl (fun c rest => rfl) fun c => ?_
    split_ifs
    · exact .fail
    · exact (Steady.pure _).ofSkip verbose

/-! ## Escapes -/

theorem steady_boundaryName (verbose : Bool) (found : List Char) :
    Steady Short fun text => some (boundaryName verbose found text) := by
  refine Steady.loop (f := fun found text => some (boundaryName verbose found text)) (v := verbose)
    (fun found c => if c.isAlpha || c == '-' then some (c :: found) else none)
    (fun found c rest => some (found.reverse, c :: rest)) (fun found c rest => ?_) (fun found _ _ hsome => ?_)
    (fun _ _ _ _ _ _ hsome => ?_) (fun _ found => ?_) (fun found c rest _ => .pure _ (c :: rest)) found
  · rw [boundaryName]
    split_ifs <;> rfl
  · rw [boundaryName] at hsome
    cases hsome
    rfl
  · cases hsome
    exact List.suffix_rfl
  · exact .same found.reverse [] (by rw [boundaryName]) fun t => by simp [Tail.text, boundaryName]

/-- The boundary of a name that a brace closes. -/
def closeBoundary? : List Char × List Char → Option (Assertion × List Char)
  | (name, '\x7d' :: rest) =>
    if name = "start".toList then some (.wordStart, rest)
    else if name = "end".toList then some (.wordEnd, rest)
    else if name = "start-half".toList then some (.wordStartHalf, rest)
    else if name = "end-half".toList then some (.wordEndHalf, rest)
    else none
  | _ => none

theorem steady_closeBoundary? (name : List Char) : Steady Short fun rest => closeBoundary? (name, rest) := by
  refine .ofHead (g := fun c rest => closeBoundary? (name, c :: rest)) rfl (fun c rest => rfl) fun c => ?_
  by_cases hc : c = '\x7d'
  · subst hc
    exact .ite (.pure _) (.ite (.pure _) (.ite (.pure _) (.ite (.pure _) .fail)))
  · have hnone : (fun rest => closeBoundary? (name, c :: rest)) = fun _ => none := by
      funext rest
      rw [closeBoundary?]
      rintro _ _ ⟨⟩
      exact hc rfl
    exact hnone ▸ .fail

/-- A boundary of which the text ends behind an opening brace is read as one without a name in front of a tail. -/
def BoundaryLate (verbose : Bool) (t : Tail) (a : Assertion) (rest : List Char) : Prop :=
  rest <:+ t.rest ∨ a = .boundary ∧ ∃ blanks, skip verbose blanks = [] ∧ rest = '\x7b' :: (blanks ++ t.text)

theorem boundary?_cons (verbose : Bool) (c : Char) (rest : List Char) :
    boundary? verbose (c :: rest) =
      if c = '\x7b' then
        match skip verbose rest with
        | [] => none
        | d :: inner =>
          if d.isAlpha || d == '-' then
            (some (boundaryName verbose [] (d :: inner))).bind fun p => closeBoundary? (p.1, p.2)
          else some (.boundary, c :: rest)
      else some (.boundary, c :: rest) := by
  split_ifs with hc
  · subst hc
    rfl
  · rw [boundary?]
    rintro _ ⟨⟩
    exact hc rfl

theorem steady_namedBoundary (verbose : Bool) : Steady Short fun text =>
    (some (boundaryName verbose [] text)).bind fun p => closeBoundary? (p.1, p.2) :=
  (steady_boundaryName verbose []).bind (g := fun name rest => closeBoundary? (name, rest)) steady_closeBoundary?

theorem steady_boundary? (verbose : Bool) : Steady (BoundaryLate verbose) (boundary? verbose) where
  suffix {text a rest} h := by
    cases text with
    | nil =>
      cases h
      exact List.suffix_rfl
    | cons c text =>
      rw [boundary?_cons] at h
      split_ifs at h
      · split at h
        · cases h
        · next d inner hskip =>
          split_ifs at h
          · have hrest := (steady_namedBoundary verbose).suffix h
            exact (hrest.trans (hskip ▸ skip_suffix verbose text)).trans (List.suffix_cons c text)
          · cases h
            exact List.suffix_rfl
      · cases h
        exact List.suffix_rfl
  outcome text := by
    cases text with
    | nil => exact .pure _ []
    | cons c rest =>
      simp only [List.cons_append, boundary?_cons]
      split_ifs with hc
      · obtain hsame | ⟨hnone, hall⟩ := skip_append verbose rest
        · simp only [hsame]
          cases hskip : skip verbose rest with
          | nil =>
            refine .beyond rfl fun t a rest' hsome => .inr ?_
            cases hsome
            exact ⟨rfl, rest, hskip, by rw [hc]⟩
          | cons d inner =>
            simp only [List.cons_append]
            split_ifs
            · exact ((steady_namedBoundary verbose).outcome (d :: inner)).mono fun _ _ _ => .inl
            · exact .pure _ (c :: rest)
        · simp only [hnone, hall]
          exact .fail
      · exact .pure _ (c :: rest)

/-- What is late of an escape. -/
def EscapeLate (verbose : Bool) (t : Tail) (p : Primitive) (rest : List Char) : Prop :=
  rest <:+ t.rest ∨
    p = .assertion .boundary ∧ ∃ blanks, skip verbose blanks = [] ∧ rest = '\x7b' :: (blanks ++ t.text)

/-- An escape of a letter or sign. -/
theorem steady_escape?_cons (verbose : Bool) (c : Char) :
    Steady (EscapeLate verbose) fun rest => escape? verbose (c :: rest) := by
  have hboundary : Steady (EscapeLate verbose) fun rest =>
      (boundary? verbose rest).map fun found => (Primitive.assertion found.1, found.2) :=
    (steady_boundary? verbose).map Primitive.assertion fun t a rest hlate =>
      hlate.imp_right fun ⟨ha, hblanks⟩ => ⟨congrArg Primitive.assertion ha, hblanks⟩
  refine .ite ((steady_hexEscape? verbose c).map Primitive.literal fun _ _ _ => .inl)
    (.ite ((steady_propertyEscape? verbose).map (Primitive.property · (c = 'P')) fun _ _ _ => .inl) ?_)
  repeat' apply Steady.ite
  all_goals first
    | exact .pure _
    | exact hboundary
    | exact .fail

theorem steady_escape? (verbose : Bool) : Steady (EscapeLate verbose) (escape? verbose) where
  suffix {text p rest} h := by
    cases text with
    | nil => cases h
    | cons c text => exact ((steady_escape?_cons verbose c).suffix h).trans (List.suffix_cons c text)
  outcome text := by
    cases text with
    | nil =>
      refine .beyond rfl fun t p rest h => .inl ?_
      obtain ⟨rfl, rfl⟩ : .literal ⟨')', false⟩ = p ∧ t.rest = rest := by simpa [Tail.text, escape?, isEscapable] using h
      exact List.suffix_rfl
    | cons c rest => exact (steady_escape?_cons verbose c).outcome rest

end Registrar.Pattern
