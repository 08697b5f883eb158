import Registrar.Pattern.Parser
import Registrar.Proofs.Brackets

/-!
# Reading in front of a tail

One round of reading a pattern does the same whatever tail follows, as long as the pattern does not end within the round.

* `steady_openGroup?`, `steady_boundsOf?` : the starts of groups and the bounds of repetitions;
* `outcome_read?` : a round of reading.
-/

namespace Registrar.Pattern

/-! ## Groups -/

theorem steady_groupName? (found : List Char) : Steady Short (groupName? found) := by
  refine Steady.loop (v := false)
    (fun found c => if c = '>' then none else if isNameChar found.isEmpty c then some (c :: found) else none)
    (fun found c rest => if c = '>' then if found.isEmpty then none else some (found.reverse, rest) else none)
    (fun found c rest => ?_) (fun found _ _ hsome => by cases hsome) (fun found c rest _ _ _ hsome => ?_)
    (fun hsuffix found => ?_) (fun found c rest _ => ?_) found
  · rw [groupName?]
    split_ifs <;> rfl
  · split_ifs at hsome
    cases hsome
    exact List.suffix_cons c _
  · refine .beyond rfl fun t name rest hsome => ?_
    rw [Tail.text, groupName?, if_neg (by decide)] at hsome
    split_ifs at hsome
    exact hsuffix _ _ _ _ hsome
  · split_ifs
    · exact .fail
    · exact .pure _ rest
    · exact .fail

/-- Switches of flags, with what follows beside all the rest. -/
def switches? (found : FlagChanges) (negated afterHyphen : Bool) (text : List Char) :
    Option ((FlagChanges × Bool) × List Char) :=
  (flagChanges? found negated afterHyphen text).map fun p => ((p.1, p.2.1), p.2.2)

/-- The flag of a letter that does not occur before. -/
def newFlag? (found : FlagChanges) (c : Char) : Option Flag :=
  (flag? c).filter fun flag => !found.any fun change => change.1 == flag

theorem switches?_cons (found : FlagChanges) (negated afterHyphen : Bool) (c : Char) (rest : List Char) :
    switches? found negated afterHyphen (c :: rest) =
      if c = ':' ∨ c = ')' then if afterHyphen then none else some ((found.reverse, decide (c = ':')), rest)
      else if c = '-' then if negated then none else switches? found true true rest
      else (newFlag? found c).bind fun flag => switches? ((flag, !negated) :: found) negated false rest := by
  unfold switches?
  rw [flagChanges?]
  split_ifs with hclose hhyphen hneg
  · rfl
  · rfl
  · rfl
  · rfl
  · unfold newFlag?
    cases flag? c with
    | none => rfl
    | some flag =>
      cases h : found.any fun change => change.1 == flag <;> simp [h, Option.filter]

theorem steady_switches? (found : FlagChanges) (negated afterHyphen : Bool) :
    Steady Short (switches? found negated afterHyphen) := by
  refine Steady.loop (f := fun (s : FlagChanges × Bool × Bool) => switches? s.1 s.2.1 s.2.2) (v := false)
    (fun s c =>
      if c = ':' ∨ c = ')' then none
      else if c = '-' then if s.2.1 then none else some (s.1, true, true)
      else (newFlag? s.1 c).map fun flag => ((flag, !s.2.1) :: s.1, s.2.1, false))
    (fun s c rest =>
      if c = ':' ∨ c = ')' then if s.2.2 then none else some ((s.1.reverse, decide (c = ':')), rest) else none)
    (fun s c rest => ?_) (fun s _ _ hsome => by cases hsome) (fun s c rest _ _ _ hsome => ?_) (fun hsuffix s => ?_)
    (fun s c rest _ => ?_) (found, negated, afterHyphen)
  · rw [switches?_cons]
    split_ifs
    · rfl
    · rfl
    · rfl
    · rfl
    · cases newFlag? s.1 c <;> rfl
  · split_ifs at hsome
    cases hsome
    exact List.suffix_cons c _
  · refine .beyond rfl fun t value rest hsome => ?_
    rw [Tail.text, switches?_cons, if_pos (.inr rfl)] at hsome
    split_ifs at hsome
    cases hsome
    exact List.suffix_rfl
  · split_ifs
    · exact .fail
    · exact .pure _ rest
    · exact .fail

/-- Opens a group. -/
def ReaderState.opened (s : ReaderState) (captures : Bool) (changes : FlagChanges) (names : List (List Char)) :
    ReaderState :=
  ⟨.group s.items captures changes s.verbose :: s.stack, [], verboseAfter changes s.verbose, names⟩

/-- Opens a group with a name. -/
def openNamed? (s : ReaderState) (text : List Char) : Option (ReaderState × List Char) :=
  (groupName? [] text).bind fun p =>
    if s.names.contains p.1 then none else some (s.opened true [] (p.1 :: s.names), p.2)

/-- What switches of flags do: those that a colon ends open a group. -/
def switch? (s : ReaderState) (switches : FlagChanges × Bool) : Option ReaderState :=
  if switches.2 then some (s.opened false switches.1 s.names)
  else if switches.1.isEmpty then none
  else some { s with items := .flags switches.1 :: s.items, verbose := verboseAfter switches.1 s.verbose }

/-- Whether a group starts with the sign of a look around, behind its question mark. -/
def LooksAround (text : List Char) : Prop :=
  ['='] <+: text ∨ ['!'] <+: text ∨ ['<', '='] <+: text ∨ ['<', '!'] <+: text

instance (text : List Char) : Decidable (LooksAround text) := inferInstanceAs (Decidable (_ ∨ _))

/-- The start of a group behind its question mark. -/
def openMarked? (s : ReaderState) (text : List Char) : Option (ReaderState × List Char) :=
  if LooksAround text then none
  else if ['P', '<'] <+: text then openNamed? s (text.drop 2)
  else if ['<'] <+: text then openNamed? s (text.drop 1)
  else (switches? [] false false text).bind fun p => (switch? s p.1).map fun s' => (s', p.2)

theorem not_prefix_of_ne {sign text : List Char} (h : ∀ rest, text = sign ++ rest → False) : ¬ sign <+: text := by
  rintro ⟨rest, hrest⟩
  exact h rest hrest.symm

theorem openGroup?_of_mark {s : ReaderState} {text rest : List Char} (h : skip s.verbose text = '?' :: rest) :
    openGroup? s text = openMarked? s rest := by
  unfold openGroup?
  split
  case h_1 heq | h_2 heq | h_3 heq | h_4 heq =>
    obtain rfl := (List.cons.inj (h.symm.trans heq)).2
    simp [openMarked?, LooksAround]
  case h_5 rest' heq =>
    obtain rfl := (List.cons.inj (h.symm.trans heq)).2
    rw [openMarked?, if_neg (by simp [LooksAround]), if_pos (by simp)]
    dsimp only [openNamed?, List.drop]
    cases groupName? [] rest' <;> rfl
  case h_6 rest' hequal hmark heq =>
    obtain rfl := (List.cons.inj (h.symm.trans heq)).2
    have hequal' : ¬ ['='] <+: rest' := not_prefix_of_ne hequal
    have hmark' : ¬ ['!'] <+: rest' := not_prefix_of_ne hmark
    have hlook : ¬ LooksAround ('<' :: rest') := by simp [LooksAround, hequal', hmark']
    rw [openMarked?, if_neg hlook, if_neg (by simp), if_pos (by simp)]
    dsimp only [openNamed?, List.drop]
    cases groupName? [] rest' <;> rfl
  case h_7 rest' hequal hmark hlessEqual hlessMark hnamed hless heq =>
    obtain rfl := (List.cons.inj (h.symm.trans heq)).2
    have hlook : ¬ LooksAround rest := by
      rintro (⟨r, hr⟩ | ⟨r, hr⟩ | ⟨r, hr⟩ | ⟨r, hr⟩)
      · exact hequal r hr.symm
      · exact hmark r hr.symm
      · exact hlessEqual r hr.symm
      · exact hlessMark r hr.symm
    have hnamed' : ¬ ['P', '<'] <+: rest := not_prefix_of_ne hnamed
    have hless' : ¬ ['<'] <+: rest := not_prefix_of_ne hless
    rw [openMarked?, if_neg hlook, if_neg hnamed', if_neg hless']
    unfold switches? switch?
    rcases flagChanges? [] false false rest with _ | ⟨changes, _ | _, rest''⟩
    · rfl
    · cases changes <;> rfl
    · rfl
  case h_8 hmark => exact (hmark rest h).elim

theorem openGroup?_of_noMark {s : ReaderState} {text : List Char} (h : ∀ rest, skip s.verbose text ≠ '?' :: rest) :
    openGroup? s text = some (s.opened true [] s.names, skip s.verbose text) := by
  unfold openGroup?
  split
  case h_8 => rfl
  all_goals next heq => exact (h _ heq).elim

theorem steady_openNamed? (s : ReaderState) : Steady Short (openNamed? s) :=
  (steady_groupName? []).bind (g := fun name rest =>
    if s.names.contains name then none else some (s.opened true [] (name :: s.names), rest))
    fun _ => .ite .fail (.pure _)

/-- A sign without a parenthesis is not in the tail. -/
theorem prefix_append_tail {sign : List Char} (hsign : ')' ∉ sign) (text : List Char) (t : Tail) :
    sign <+: text ++ t.text ↔ sign <+: text := by
  induction sign generalizing text with
  | nil => simp
  | cons c sign ih =>
    obtain ⟨hc, hsign⟩ : ')' ≠ c ∧ ')' ∉ sign := by simpa using hsign
    cases text with
    | nil => simp [Tail.text, hc.symm]
    | cons d rest => simp only [List.cons_append, List.cons_prefix_cons, ih hsign]

theorem looksAround_append (text : List Char) (t : Tail) : LooksAround (text ++ t.text) ↔ LooksAround text := by
  unfold LooksAround
  repeat rw [prefix_append_tail (by decide)]

theorem steady_openMarked? (s : ReaderState) : Steady Short (openMarked? s) := by
  have hswitch : Steady Short fun text =>
      (switches? [] false false text).bind fun p => (switch? s p.1).map fun s' => (s', p.2) :=
    (steady_switches? [] false false).bind (g := fun switches rest => (switch? s switches).map fun s' => (s', rest))
      fun _ => .ofOption _
  refine ⟨fun {text s' rest} h => ?_, fun text => ?_⟩
  · unfold openMarked? at h
    split_ifs at h
    · exact ((steady_openNamed? s).suffix h).trans (List.drop_suffix 2 text)
    · exact ((steady_openNamed? s).suffix h).trans (List.drop_suffix 1 text)
    · exact hswitch.suffix h
  · have hP : ∀ t : Tail, ['P', '<'] <+: text ++ t.text ↔ ['P', '<'] <+: text := prefix_append_tail (by decide) text
    have hless : ∀ t : Tail, ['<'] <+: text ++ t.text ↔ ['<'] <+: text := prefix_append_tail (by decide) text
    simp only [openMarked?, looksAround_append, hP, hless]
    split_ifs with hlook hnamedP hnamed
    · exact .fail
    · have hdrop : ∀ t : Tail, (text ++ t.text).drop 2 = text.drop 2 ++ t.text := fun _ =>
        List.drop_append_of_le_length hnamedP.length_le
      simpa only [hdrop] using (steady_openNamed? s).outcome (text.drop 2)
    · have hdrop : ∀ t : Tail, (text ++ t.text).drop 1 = text.drop 1 ++ t.text := fun _ =>
        List.drop_append_of_le_length hnamed.length_le
      simpa only [hdrop] using (steady_openNamed? s).outcome (text.drop 1)
    · exact hswitch.outcome text

theorem steady_openGroup? (s : ReaderState) : Steady Short (openGroup? s) :=
  Steady.ofSign (v := s.verbose) '?' (fun _ _ => openGroup?_of_mark) (fun _ => openGroup?_of_noMark) (by decide)
    (steady_openMarked? s) (.pure _)

/-! ## Repetitions -/

/-- The upper bound of a repetition behind a comma and blanks. -/
def upperBound? (verbose : Bool) (text : List Char) : Option (Option Nat × List Char) :=
  if text.head? = some '\x7d' then some (none, text) else (decimal? verbose text).map fun p => (some p.1, p.2)

/-- The upper bound of a repetition, which without a comma is the lower one. -/
def boundFrom? (verbose : Bool) (least : Nat) (text : List Char) : Option (Option Nat × List Char) :=
  if text.head? = some ',' then upperBound? verbose (skip verbose text.tail) else some (some least, text)

/-- The end of the bounds of a repetition. -/
def closeBounds? (verbose : Bool) (least : Nat) (most : Option Nat) (text : List Char) :
    Option ((Nat × Option Nat) × List Char) :=
  if text.head? = some '\x7d' ∧ most.all (least ≤ ·) then some ((least, most), skip verbose text.tail) else none

theorem decimal?_nil (verbose : Bool) : decimal? verbose [] = none := by
  simp [decimal?, decimalDigits]

theorem closeBounds?_cons (verbose : Bool) (least : Nat) (most : Option Nat) (c : Char) (rest : List Char) :
    closeBounds? verbose least most (c :: rest) =
      if c = '\x7d' ∧ most.all (least ≤ ·) then some ((least, most), skip verbose rest) else none := by
  simp only [closeBounds?, List.head?_cons, Option.some.injEq, List.tail_cons]

theorem bounds?_eq (verbose : Bool) (text : List Char) :
    (bounds? verbose text).map (fun p => ((p.1, p.2.1), p.2.2)) =
      (decimal? verbose (skip verbose text)).bind fun p =>
        (boundFrom? verbose p.1 p.2).bind fun q => closeBounds? verbose p.1 q.1 q.2 := by
  unfold bounds?
  rcases decimal? verbose (skip verbose text) with _ | ⟨least, _ | ⟨c, rest⟩⟩
  · rfl
  · rfl
  · simp only [Option.bind_eq_bind, Option.bind_some, boundFrom?, List.head?_cons, List.tail_cons]
    by_cases hc : c = ','
    · subst hc
      simp only [if_true]
      generalize skip verbose rest = rest
      rcases rest with _ | ⟨d, rest⟩
      · simp [upperBound?, decimal?_nil]
      · by_cases hd : d = '\x7d'
        · subst hd
          simp [upperBound?, closeBounds?_cons]
        · simp only [upperBound?, List.head?_cons, Option.some.injEq, hd, if_false]
          split
          · next heq => cases heq
          · next heq => exact absurd (List.cons.inj heq).1 hd
          · rcases decimal? verbose (d :: rest) with _ | ⟨most, _ | ⟨e, rest'⟩⟩
            · rfl
            · rfl
            · by_cases he : e = '\x7d'
              · subst he
                simp [closeBounds?_cons]
              · simp [closeBounds?_cons, he]
    · simp only [Option.some.injEq, hc, if_false]
      split
      · next heq => exact absurd (List.cons.inj heq).1 hc
      · by_cases he : c = '\x7d'
        · subst he
          simp [closeBounds?_cons]
        · simp [closeBounds?_cons, he]

theorem steady_upperBound? (verbose : Bool) : Steady Short (upperBound? verbose) := by
  have hdecimal : Steady Short fun text => (decimal? verbose text).map fun p => (some p.1, p.2) :=
    (steady_decimal? verbose).map some fun _ _ _ h => h
  refine ⟨fun {text most rest} h => ?_, fun text => ?_⟩
  · unfold upperBound? at h
    split_ifs at h
    · cases h
      exact List.suffix_rfl
    · exact hdecimal.suffix h
  · cases text with
    | nil => exact hdecimal.outcome []
    | cons c rest =>
      simp only [upperBound?, List.cons_append, List.head?_cons, Option.some.injEq]
      split_ifs
      · exact .pure none (c :: rest)
      · exact hdecimal.outcome (c :: rest)

theorem steady_boundFrom? (verbose : Bool) (least : Nat) : Steady Short (boundFrom? verbose least) := by
  have hupper := (steady_upperBound? verbose).ofSkip verbose
  refine ⟨fun {text most rest} h => ?_, fun text => ?_⟩
  · unfold boundFrom? at h
    split_ifs at h
    · exact (hupper.suffix h).trans (List.tail_suffix text)
    · cases h
      exact List.suffix_rfl
  · cases text with
    | nil => exact .pure (some least) []
    | cons c rest =>
      simp only [boundFrom?, List.cons_append, List.head?_cons, List.tail_cons, Option.some.injEq]
      split_ifs
      · exact hupper.outcome rest
      · exact .pure (some least) (c :: rest)

theorem steady_closeBounds? (verbose : Bool) (least : Nat) (most : Option Nat) :
    Steady Short (closeBounds? verbose least most) :=
  .ofHead rfl (closeBounds?_cons verbose least most) fun _ => .ite ((Steady.pure _).ofSkip verbose) .fail

/-- The bounds of a repetition, with what follows beside them. -/
def boundsOf? (verbose : Bool) (text : List Char) : Option ((Nat × Option Nat) × List Char) :=
  (bounds? verbose text).map fun p => ((p.1, p.2.1), p.2.2)

theorem steady_boundsOf? (verbose : Bool) : Steady Short (boundsOf? verbose) := by
  have hbounds : boundsOf? verbose = fun text =>
      (decimal? verbose (skip verbose text)).bind fun p =>
        (boundFrom? verbose p.1 p.2).bind fun q => closeBounds? verbose p.1 q.1 q.2 :=
    funext (bounds?_eq verbose)
  rw [hbounds]
  exact ((steady_decimal? verbose).ofSkip verbose).bind
    (g := fun least text => (boundFrom? verbose least text).bind fun q => closeBounds? verbose least q.1 q.2)
    fun least => (steady_boundFrom? verbose least).bind (g := fun most text => closeBounds? verbose least most text)
      fun most => steady_closeBounds? verbose least most

theorem steady_repeatLast? (s : ReaderState) (least : Nat) (most : Option Nat) :
    Steady Short (repeatLast? s least most) := by
  rcases hitems : s.items with _ | ⟨last, items⟩
  · have hnone : repeatLast? s least most = fun _ => none := by
      funext text
      rw [repeatLast?, hitems]
    exact hnone ▸ .fail
  · by_cases hlast : last.isRepeatable = true
    · refine Steady.ofSign (v := false) '?'
        (g := fun rest => some ({ s with items := .repetition least most true last :: items }, rest))
        (h := fun rest => some ({ s with items := .repetition least most false last :: items }, rest))
        (fun text rest h => ?_) (fun text h => ?_) (by decide) (.pure _) (.pure _)
      · obtain rfl : text = '?' :: rest := h
        simp only [repeatLast?, hitems, if_pos hlast]
      · rw [repeatLast?, hitems]
        simp only [if_pos hlast]
        split
        · next rest => exact (h rest rfl).elim
        · rfl
    · have hnone : repeatLast? s least most = fun _ => none := by
        funext text
        rw [repeatLast?, hitems]
        exact if_neg hlast
      exact hnone ▸ .fail

/-! ## Rounds of reading -/

/-- What is late of a round of reading. An opening brace is left where a word boundary takes it for the start of a
repetition. -/
def ReadLate (t : Tail) (s : ReaderState) (rest : List Char) : Prop :=
  rest <:+ t.rest ∨ ∃ blanks, skip s.verbose blanks = [] ∧ rest = '\x7b' :: (blanks ++ t.text)

/-- Reads a set as an item. -/
def readSet? (rounds : Nat) (s : ReaderState) (text : List Char) : Option (ReaderState × List Char) :=
  (set? s.verbose rounds text).map fun p => ({ s with items := .bracketed p.1 p.2.1 :: s.items }, p.2.2)

/-- Reads a counted repetition. -/
def readBounds? (s : ReaderState) (text : List Char) : Option (ReaderState × List Char) :=
  (boundsOf? s.verbose text).bind fun p => repeatLast? s p.1.1 p.1.2 p.2

/-- Reads an escape as an item. -/
def readEscape? (s : ReaderState) (text : List Char) : Option (ReaderState × List Char) :=
  (escape? s.verbose text).map fun p => ({ s with items := p.1.expr :: s.items }, p.2)

/-- Reads any other sign as an item. -/
def signItem (c : Char) : Expr :=
  if c = '.' then .dot
  else if c = '^' then .assertion .caret
  else if c = '$' then .assertion .dollar
  else .literal ⟨c, false⟩

theorem read?_eq (rounds : Nat) (s : ReaderState) (c : Char) (rest : List Char) :
    read? rounds s c rest =
      if c = '(' then openGroup? s rest
      else if c = ')' then (closeGroup? s).map (·, rest)
      else if c = '|' then some (closeBranch s, rest)
      else if c = '[' then readSet? rounds s (c :: rest)
      else if c = '?' then repeatLast? s 0 (some 1) rest
      else if c = '*' then repeatLast? s 0 none rest
      else if c = '+' then repeatLast? s 1 none rest
      else if c = '\x7b' then readBounds? s rest
      else if c = '\\' then readEscape? s rest
      else some ({ s with items := signItem c :: s.items }, rest) := by
  unfold read?
  refine ite_congr rfl (fun _ => rfl) fun _ => ite_congr rfl (fun _ => rfl) fun _ => ite_congr rfl (fun _ => rfl)
    fun _ => ite_congr rfl (fun _ => ?_) fun _ => ite_congr rfl (fun _ => rfl) fun _ => ite_congr rfl (fun _ => rfl)
    fun _ => ite_congr rfl (fun _ => rfl) fun _ => ite_congr rfl (fun _ => ?_) fun _ => ite_congr rfl (fun _ => ?_)
    fun _ => ?_
  · unfold readSet?
    rcases set? s.verbose rounds (c :: rest) with _ | ⟨negated, set, rest'⟩ <;> rfl
  · unfold readBounds? boundsOf?
    rcases bounds? s.verbose rest with _ | ⟨least, most, rest'⟩ <;> rfl
  · unfold readEscape?
    rcases escape? s.verbose rest with _ | ⟨p, rest'⟩ <;> rfl
  · unfold signItem
    split_ifs <;> rfl

theorem steady_readBounds? (s : ReaderState) : Steady Short (readBounds? s) :=
  (steady_boundsOf? s.verbose).bind (g := fun (bounds : Nat × Option Nat) text => repeatLast? s bounds.1 bounds.2 text)
    fun bounds => steady_repeatLast? s bounds.1 bounds.2

theorem steady_readEscape? (s : ReaderState) : Steady ReadLate (readEscape? s) :=
  (steady_escape? s.verbose).map (fun p => { s with items := p.expr :: s.items }) fun _ _ _ hlate =>
    hlate.imp_right And.right

/-- One round of reading takes the character at which it starts. -/
theorem read?_suffix {rounds : Nat} {s s' : ReaderState} {c : Char} {rest rest' : List Char}
    (h : read? rounds s c rest = some (s', rest')) : rest' <:+ rest := by
  rw [read?_eq] at h
  split_ifs at h with hopen hclose hbar hset
  · exact (steady_openGroup? s).suffix h
  · obtain ⟨_, -, heq⟩ := Option.map_eq_some_iff.1 h
    cases heq
    exact List.suffix_rfl
  · cases h
    exact List.suffix_rfl
  · subst hset
    obtain ⟨_, hp, heq⟩ := Option.map_eq_some_iff.1 h
    cases heq
    exact set?_suffix hp
  · exact (steady_repeatLast? s _ _).suffix h
  · exact (steady_repeatLast? s _ _).suffix h
  · exact (steady_repeatLast? s _ _).suffix h
  · exact (steady_readBounds? s).suffix h
  · exact (steady_readEscape? s).suffix h
  · cases h
    exact List.suffix_rfl

theorem outcome_readSet? {rounds : Nat} {rounds' : Tail → Nat} {text : List Char} (s : ReaderState)
    (h : text.length < rounds) (h' : ∀ t : Tail, (text ++ t.text).length < rounds' t) :
    Outcome ReadLate (readSet? rounds s text) fun t => readSet? (rounds' t) s (text ++ t.text) := by
  have hset : ∀ t : Tail, readSet? (rounds' t) s (text ++ t.text) =
      (readSet? rounds s text).map fun p => (p.1, p.2 ++ t.text) := fun t => by
    rw [readSet?, set?_append h (h' t), readSet?]
    cases set? s.verbose rounds text <;> rfl
  simp only [hset]
  cases readSet? rounds s text with
  | none => exact .fail
  | some p => exact .pure p.1 p.2

/-- A round of reading does the same with each tail, unless the text ends within it. -/
theorem outcome_read? {rounds : Nat} {rounds' : Tail → Nat} {c : Char} {rest : List Char} (s : ReaderState)
    (h : (c :: rest).length < rounds) (h' : ∀ t : Tail, (c :: rest ++ t.text).length < rounds' t) :
    Outcome ReadLate (read? rounds s c rest) fun t => read? (rounds' t) s c (rest ++ t.text) := by
  have hshort : ∀ {f : List Char → Option (ReaderState × List Char)}, Steady Short f → Steady ReadLate f :=
    fun hf => hf.mono fun _ _ _ => .inl
  simp only [read?_eq]
  split_ifs
  · exact (hshort (steady_openGroup? s)).outcome rest
  · cases closeGroup? s with
    | none => exact .fail
    | some s' => exact .pure s' rest
  · exact .pure _ rest
  · exact outcome_readSet? s h h'
  · exact (hshort (steady_repeatLast? s _ _)).outcome rest
  · exact (hshort (steady_repeatLast? s _ _)).outcome rest
  · exact (hshort (steady_repeatLast? s _ _)).outcome rest
  · exact (hshort (steady_readBounds? s)).outcome rest
  · exact (steady_readEscape? s).outcome rest
  · exact .pure _ rest

theorem read?_eq_of_lt {rounds rounds' : Nat} {c : Char} {rest : List Char} (s : ReaderState)
    (h : (c :: rest).length < rounds) (h' : (c :: rest).length < rounds') :
    read? rounds s c rest = read? rounds' s c rest := by
  have hset : readSet? rounds s (c :: rest) = readSet? rounds' s (c :: rest) := by
    rw [readSet?, readSet?, set?, set?, setRounds_eq_of_lt h h']
  rw [read?_eq, read?_eq, hset]

end Registrar.Pattern
