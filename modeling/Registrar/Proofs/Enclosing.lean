import Registrar.Pattern.Basic
import Registrar.Proofs.Groupings

/-!
# Patterns between anchors

A pattern is read between anchors just as it is read alone, inside a group, unless it closes that group or a comment in
it hides the end of the group.

* `closesOutside` : reading comes to a closing parenthesis that closes no group;
* `read?_within` : a round of reading inside a group;
* `Ending`, `ending_rounds` : how reading ends, alone and with a tail behind;
* `Expr.closesOutside_of_read?`, `Expr.read?_anchor` : what a pattern is read as, alone and between its anchors.
-/

namespace Registrar.Pattern

/-- Whether reading comes to a closing parenthesis that closes no group. -/
def closesOutside : Nat → ReaderState → List Char → Bool
  | 0, _, _ => false
  | n + 1, s, text =>
    match skip s.verbose text with
    | [] => false
    | c :: rest =>
      c == ')' && (closeGroup? s).isNone ||
        match read? (n + 1) s c rest with
        | some (s, rest) => closesOutside n s rest
        | none => false

namespace ReaderState

/-- Where reading starts. -/
def start : ReaderState := ⟨[], [], false, []⟩

/-- A state inside parts that were open before. -/
def within (host : List Frame) (s : ReaderState) : ReaderState := { s with stack := s.stack ++ host }

theorem within_nil (s : ReaderState) : s.within [] = s := by
  simp [within]

end ReaderState

/-- The parts around a pattern are none, or start with a group. -/
def IsHost (host : List Frame) : Prop := ∀ branches, host.head? ≠ some (.alternation branches)

section
variable {host : List Frame} {s s' : ReaderState}

/-- What a step gives inside parts that were open before. -/
def inside (host : List Frame) (p : ReaderState × List Char) : ReaderState × List Char := (p.1.within host, p.2)

theorem openNamed?_within (text : List Char) :
    openNamed? (s.within host) text = (openNamed? s text).map (inside host) := by
  unfold openNamed?
  rcases groupName? [] text with _ | ⟨name, rest⟩
  · rfl
  · simp only [Option.bind_some]
    split_ifs with h h' h'
    · rfl
    · exact absurd h h'
    · exact absurd h' h
    · rfl

theorem openMarked?_within (text : List Char) :
    openMarked? (s.within host) text = (openMarked? s text).map (inside host) := by
  unfold openMarked?
  split_ifs
  · rfl
  · exact openNamed?_within _
  · exact openNamed?_within _
  · rcases switches? [] false false text with _ | ⟨⟨changes, isOpen⟩, rest⟩
    · rfl
    · cases isOpen
      · cases changes <;> rfl
      · rfl

theorem openGroup?_within (text : List Char) :
    openGroup? (s.within host) text = (openGroup? s text).map (inside host) := by
  by_cases hmark : ∃ rest, skip s.verbose text = '?' :: rest
  · obtain ⟨rest, hmark⟩ := hmark
    rw [openGroup?_of_mark (s := s.within host) hmark, openGroup?_of_mark hmark, openMarked?_within]
  · have hmark' : ∀ rest, skip s.verbose text ≠ '?' :: rest := fun rest h => hmark ⟨rest, h⟩
    rw [openGroup?_of_noMark (s := s.within host) hmark', openGroup?_of_noMark hmark']
    rfl

theorem closeGroup?_within (h : closeGroup? s = some s') : closeGroup? (s.within host) = some (s'.within host) := by
  unfold closeGroup? at h
  split at h
  · next hstack =>
    cases h
    simp [closeGroup?, ReaderState.within, hstack]
  · next hstack =>
    cases h
    simp [closeGroup?, ReaderState.within, hstack]
  · cases h

theorem closeBranch_within (hhost : IsHost host) : closeBranch (s.within host) = (closeBranch s).within host := by
  rcases s with ⟨_ | ⟨_ | _, stack⟩, items, verbose, names⟩
  · rcases host with _ | ⟨_ | branches, host⟩
    · rfl
    · rfl
    · exact absurd rfl (hhost branches)
  · rfl
  · rfl

theorem repeatLast?_within (least : Nat) (most : Option Nat) (text : List Char) :
    repeatLast? (s.within host) least most text = (repeatLast? s least most text).map (inside host) := by
  rcases s with ⟨stack, _ | ⟨last, items⟩, verbose, names⟩
  · rfl
  · simp only [repeatLast?, ReaderState.within]
    split_ifs
    · split <;> rfl
    · rfl

/-- A round of reading inside parts that were open before does not touch them. -/
theorem read?_within (hhost : IsHost host) {rounds : Nat} {c : Char} {rest : List Char}
    (hclose : c = ')' → closeGroup? s ≠ none) :
    read? rounds (s.within host) c rest = (read? rounds s c rest).map (inside host) := by
  rw [read?_eq, read?_eq]
  split_ifs with hopen hparen
  · exact openGroup?_within rest
  · obtain ⟨s', hs'⟩ := Option.ne_none_iff_exists'.1 (hclose hparen)
    rw [closeGroup?_within hs', hs']
    rfl
  · rw [closeBranch_within hhost]
    rfl
  · unfold readSet?
    rw [Option.map_map]
    rfl
  · exact repeatLast?_within _ _ rest
  · exact repeatLast?_within _ _ rest
  · exact repeatLast?_within _ _ rest
  · unfold readBounds?
    change (boundsOf? s.verbose rest).bind _ = _
    cases boundsOf? s.verbose rest with
    | none => rfl
    | some p => exact repeatLast?_within _ _ _
  · unfold readEscape?
    rw [Option.map_map]
    rfl
  · rfl

end

/-! ## The end of the text -/

/-- The group around a pattern, behind the start anchor. -/
def anchorGroup : Frame := .group [.assertion .caret] false [] false

theorem isHost_nil : IsHost [] := fun _ h => nomatch h

theorem isHost_anchorGroup : IsHost [anchorGroup] := fun _ h => nomatch h

/-- The end of the text does not close the group around a pattern. -/
theorem closeAll?_within_anchorGroup (s : ReaderState) : closeAll? (s.within [anchorGroup]) = none := by
  rcases s with ⟨_ | ⟨_ | _, _ | ⟨_, _⟩⟩, items, verbose, names⟩ <;> rfl

/-- A pattern that may end has no group to close. -/
theorem closeGroup?_eq_none {s : ReaderState} {e : Expr} (h : closeAll? s = some e) : closeGroup? s = none := by
  rcases s with ⟨_ | ⟨_ | _, _ | ⟨_, _⟩⟩, items, verbose, names⟩
  all_goals first
    | rfl
    | cases h

/-- Where the pattern may not end, a parenthesis closes a group of the pattern's own, if any. -/
theorem exists_within_of_closeGroup? {s s' : ReaderState} (h : closeAll? s = none)
    (h' : closeGroup? (s.within [anchorGroup]) = some s') : ∃ s₀ : ReaderState, s' = s₀.within [anchorGroup] := by
  cases hs : closeGroup? s with
  | some s₀ => exact ⟨s₀, Option.some.inj (h'.symm.trans (closeGroup?_within hs))⟩
  | none =>
    rcases s with ⟨_ | ⟨_ | _, _ | ⟨_ | _, _⟩⟩, items, verbose, names⟩
    all_goals simp [closeAll?, closeGroup?, ReaderState.within] at h hs h'

theorem rounds_succ (n : Nat) (s : ReaderState) (text : List Char) :
    rounds (n + 1) s text =
      match skip s.verbose text with
      | [] => closeAll? s
      | c :: rest => (read? (n + 1) s c rest).bind fun p => rounds n p.1 p.2 := by
  rw [rounds]
  cases skip s.verbose text with
  | nil => rfl
  | cons c rest =>
    dsimp only
    cases read? (n + 1) s c rest <;> rfl

theorem rounds_nil {n : Nat} (s : ReaderState) (h : 0 < n) : rounds n s [] = closeAll? s := by
  obtain ⟨n, rfl⟩ := Nat.exists_eq_succ_of_ne_zero (Nat.ne_of_gt h)
  rw [rounds_succ]
  cases s.verbose <;> rfl

/-- What follows the parenthesis behind a pattern between its anchors. -/
def anchorTail : Tail := ⟨['$'], by decide, by decide⟩

/-- Inside the group around a pattern, no end of the tail closes it. -/
theorem rounds_of_suffix {n : Nat} (s : ReaderState) {rest : List Char} (h : rest <:+ anchorTail.rest) :
    rounds n (s.within [anchorGroup]) rest = none := by
  have hnil : ∀ (n : Nat) (s : ReaderState), rounds n (s.within [anchorGroup]) [] = none := fun n s => by
    cases n with
    | zero => rfl
    | succ n => rw [rounds_nil _ n.succ_pos, closeAll?_within_anchorGroup]
  rcases List.suffix_cons_iff.1 h with rfl | hrest
  · cases n with
    | zero => rfl
    | succ n =>
      have hskip : skip (s.within [anchorGroup]).verbose ['$'] = ['$'] := by cases (s.within [anchorGroup]).verbose <;> rfl
      rw [rounds_succ, hskip]
      exact hnil n { s with items := .assertion .dollar :: s.items }
  · rw [List.suffix_nil.1 hrest, hnil]

/-- A brace behind a word boundary that is followed by a tail opens no repetition. -/
theorem rounds_of_brace {n : Nat} (s : ReaderState) {blanks : List Char} (h : skip s.verbose blanks = []) (t : Tail) :
    rounds n s ('\x7b' :: (blanks ++ t.text)) = none := by
  cases n with
  | zero => rfl
  | succ n =>
    have hskip : skip s.verbose ('\x7b' :: (blanks ++ t.text)) = '\x7b' :: (blanks ++ t.text) := by
      cases s.verbose <;> rfl
    have hdecimal : decimal? s.verbose (skip s.verbose (blanks ++ t.text)) = none := by
      obtain hsame | ⟨-, hall⟩ := skip_append s.verbose blanks
      · rw [hsame, h]
        simp [decimal?, decimalDigits, Tail.text, isBlank]
      · rw [hall, decimal?_nil]
    have hbounds : readBounds? s (blanks ++ t.text) = none := by
      rw [readBounds?, boundsOf?, bounds?_eq, hdecimal]
      rfl
    have hread : read? (n + 1) s '\x7b' (blanks ++ t.text) = none := by
      rw [read?_eq]
      exact hbounds
    rw [rounds_succ, hskip]
    dsimp only
    rw [hread]
    rfl

/-! ## How reading ends -/

/-- How reading from a state ends, on a text alone and with a tail behind it. -/
inductive Ending (n : Nat) (s : ReaderState) (text : List Char) : Prop
  /-- The text ends where the pattern may end, and the tail is read from there on. -/
  | closed (last : ReaderState) (e : Expr) (hlast : closeAll? last = some e) (halone : rounds n s text = some e)
      (hbehind : ∀ (t : Tail) (host : List Frame) (m : Nat), IsHost host → (text ++ t.text).length < m →
        ∃ k, t.text.length < k ∧ rounds m (s.within host) (text ++ t.text) = rounds k (last.within host) t.text)
  /-- The text ends in a comment, and the tail with it. -/
  | swallowed (last : ReaderState) (e : Expr) (hlast : closeAll? last = some e) (halone : rounds n s text = some e)
      (hbehind : ∀ (t : Tail) (host : List Frame) (m : Nat), IsHost host → (text ++ t.text).length < m →
        rounds m (s.within host) (text ++ t.text) = closeAll? (last.within host))
  /-- The text is no pattern, and none inside a group. -/
  | fails (halone : rounds n s text = none)
      (hbehind : ∀ m, (text ++ anchorTail.text).length < m →
        rounds m (s.within [anchorGroup]) (text ++ anchorTail.text) = none)

theorem rounds_eq_of_skip {n : Nat} {s : ReaderState} {text text' : List Char}
    (h : skip s.verbose text = skip s.verbose text') : rounds n s text = rounds n s text' := by
  cases n with
  | zero => rfl
  | succ n => rw [rounds_succ, rounds_succ, h]

theorem rounds_of_skip_nil {n : Nat} {s : ReaderState} {text : List Char} (hn : 0 < n)
    (h : skip s.verbose text = []) : rounds n s text = closeAll? s := by
  have hnil : skip s.verbose [] = [] := by cases s.verbose <;> rfl
  rw [rounds_eq_of_skip (h.trans hnil.symm), rounds_nil s hn]

/-- Inside the group around a pattern that may not end, the tail does not end the whole. -/
theorem rounds_anchorTail {n : Nat} {s : ReaderState} (h : closeAll? s = none) :
    rounds n (s.within [anchorGroup]) anchorTail.text = none := by
  cases n with
  | zero => rfl
  | succ n =>
    rw [rounds_succ, anchorTail.skip_text]
    have hread : read? (n + 1) (s.within [anchorGroup]) ')' anchorTail.rest =
        (closeGroup? (s.within [anchorGroup])).map (·, anchorTail.rest) := read?_eq ..
    change (read? (n + 1) (s.within [anchorGroup]) ')' anchorTail.rest).bind _ = none
    rw [hread]
    cases hgroup : closeGroup? (s.within [anchorGroup]) with
    | none => rfl
    | some s' =>
      obtain ⟨s₀, rfl⟩ := exists_within_of_closeGroup? h hgroup
      exact rounds_of_suffix s₀ List.suffix_rfl

/-- Reading ends where nothing is left but blanks and comments. -/
theorem ending_of_skip_nil {n : Nat} {s : ReaderState} {text : List Char} (hn : 0 < n)
    (h : skip s.verbose text = []) : Ending n s text := by
  have halone := rounds_of_skip_nil hn h
  obtain hsame | ⟨-, hall⟩ := skip_append s.verbose text
  · have hbehind : ∀ (t : Tail) (host : List Frame) (m : Nat),
        rounds m (s.within host) (text ++ t.text) = rounds m (s.within host) t.text := fun t host m => by
      refine rounds_eq_of_skip ?_
      change skip s.verbose (text ++ t.text) = skip s.verbose t.text
      rw [hsame, h, t.skip_text, List.nil_append]
    cases hlast : closeAll? s with
    | some e =>
      refine .closed s e hlast (halone.trans hlast) fun t host m _ hm => ⟨m, ?_, hbehind t host m⟩
      rw [List.length_append] at hm
      omega
    | none => exact .fails (halone.trans hlast) fun m _ => (hbehind _ _ m).trans (rounds_anchorTail hlast)
  · have hbehind : ∀ (t : Tail) (host : List Frame) (m : Nat), (text ++ t.text).length < m →
        rounds m (s.within host) (text ++ t.text) = closeAll? (s.within host) :=
      fun t host m hm => rounds_of_skip_nil (Nat.zero_lt_of_lt hm) (hall t)
    cases hlast : closeAll? s with
    | some e => exact .swallowed s e hlast (halone.trans hlast) fun t host m _ => hbehind t host m
    | none =>
      exact .fails (halone.trans hlast) fun m hm => (hbehind _ _ m hm).trans (closeAll?_within_anchorGroup s)

/-- A round of reading ends as what follows it. -/
theorem Ending.of_step {n : Nat} {s s' : ReaderState} {text rest : List Char} (hlength : rest.length < text.length)
    (halone : rounds (n + 1) s text = rounds n s' rest)
    (hbehind : ∀ (t : Tail) (host : List Frame) (m : Nat), IsHost host → (text ++ t.text).length < m + 1 →
      rounds (m + 1) (s.within host) (text ++ t.text) = rounds m (s'.within host) (rest ++ t.text))
    (h : Ending n s' rest) : Ending (n + 1) s text := by
  have hstep : ∀ (t : Tail) (host : List Frame) (m : Nat), IsHost host → (text ++ t.text).length < m →
      ∃ m', (rest ++ t.text).length < m' ∧
        rounds m (s.within host) (text ++ t.text) = rounds m' (s'.within host) (rest ++ t.text) :=
      fun t host m hhost hm => by
    obtain ⟨m, rfl⟩ := Nat.exists_eq_succ_of_ne_zero (Nat.ne_of_gt (Nat.zero_lt_of_lt hm))
    refine ⟨m, ?_, hbehind t host m hhost hm⟩
    rw [List.length_append] at hm ⊢
    omega
  cases h with
  | closed last e hlast halone' hbehind' =>
    refine .closed last e hlast (halone.trans halone') fun t host m hhost hm => ?_
    obtain ⟨m', hm', heq⟩ := hstep t host m hhost hm
    obtain ⟨k, hk, heq'⟩ := hbehind' t host m' hhost hm'
    exact ⟨k, hk, heq.trans heq'⟩
  | swallowed last e hlast halone' hbehind' =>
    refine .swallowed last e hlast (halone.trans halone') fun t host m hhost hm => ?_
    obtain ⟨m', hm', heq⟩ := hstep t host m hhost hm
    exact heq.trans (hbehind' t host m' hhost hm')
  | fails halone' hbehind' =>
    refine .fails (halone.trans halone') fun m hm => ?_
    obtain ⟨m', hm', heq⟩ := hstep anchorTail _ m isHost_anchorGroup hm
    exact heq.trans (hbehind' m' hm')

section
variable {n : Nat} {host : List Frame} {s s' : ReaderState} {text rest : List Char} {c : Char}

/-- Where a character is left behind blanks and comments, no comment runs into a tail. -/
theorem skip_append_of_cons (hskip : skip s.verbose text = c :: rest) (t : Tail) :
    skip s.verbose (text ++ t.text) = c :: (rest ++ t.text) := by
  obtain hsame | ⟨hnil, -⟩ := skip_append s.verbose text
  · rw [hsame, hskip, List.cons_append]
  · exact absurd (hskip.symm.trans hnil) (by simp)

theorem rounds_of_cons (hskip : skip s.verbose text = c :: rest) :
    rounds (n + 1) s text = (read? (n + 1) s c rest).bind fun p => rounds n p.1 p.2 := by
  rw [rounds_succ, hskip]

/-- A round inside parts that were open before, with a tail behind it. -/
theorem rounds_within_append (hskip : skip s.verbose text = c :: rest) (hgroup : c = ')' → closeGroup? s ≠ none)
    (t : Tail) (hhost : IsHost host) {m : Nat} (hm : (text ++ t.text).length < m + 1) :
    rounds (m + 1) (s.within host) (text ++ t.text) =
      (read? ((c :: rest ++ t.text).length + 1) s c (rest ++ t.text)).bind fun p => rounds m (p.1.within host) p.2 := by
  have hlength : (c :: (rest ++ t.text)).length < m + 1 := by
    have hle := length_skip_le s.verbose (text ++ t.text)
    rw [skip_append_of_cons hskip t] at hle
    omega
  rw [rounds_of_cons (s := s.within host) (skip_append_of_cons hskip t), read?_within hhost hgroup,
    read?_eq_of_lt s hlength (Nat.lt_succ_self _)]
  exact Option.bind_map ..

/-- A round that the end of the text and the tail end alike. -/
theorem ending_of_swallowed (hn : 0 < n) (hskip : skip s.verbose text = c :: rest)
    (hgroup : c = ')' → closeGroup? s ≠ none) (hread : read? (n + 1) s c rest = some (s', []))
    (hread' : ∀ t : Tail, read? ((c :: rest ++ t.text).length + 1) s c (rest ++ t.text) = some (s', [])) :
    Ending (n + 1) s text := by
  have halone : rounds (n + 1) s text = closeAll? s' := by
    rw [rounds_of_cons hskip, hread]
    exact rounds_nil s' hn
  have hbehind : ∀ (t : Tail) (host : List Frame) (m : Nat), IsHost host → (text ++ t.text).length < m →
      rounds m (s.within host) (text ++ t.text) = closeAll? (s'.within host) := fun t host m hhost hm => by
    obtain ⟨m, rfl⟩ := Nat.exists_eq_succ_of_ne_zero (Nat.ne_of_gt (Nat.zero_lt_of_lt hm))
    have hlength : 0 < (text ++ t.text).length := by
      rw [List.length_append, Tail.text, List.length_cons]
      omega
    rw [rounds_within_append hskip hgroup t hhost hm, hread']
    exact rounds_nil _ (by omega)
  cases hlast : closeAll? s' with
  | some e => exact .swallowed s' e hlast (halone.trans hlast) hbehind
  | none =>
    exact .fails (halone.trans hlast) fun m hm =>
      (hbehind _ _ m isHost_anchorGroup hm).trans (closeAll?_within_anchorGroup s')

/-- A round that needs more than the text. -/
theorem ending_of_beyond (hskip : skip s.verbose text = c :: rest) (hgroup : c = ')' → closeGroup? s ≠ none)
    (hread : read? (n + 1) s c rest = none)
    (hread' : ∀ (t : Tail) (s' : ReaderState) (rest' : List Char),
      read? ((c :: rest ++ t.text).length + 1) s c (rest ++ t.text) = some (s', rest') → ReadLate t s' rest') :
    Ending (n + 1) s text := by
  refine .fails (by rw [rounds_of_cons hskip, hread]; rfl) fun m hm => ?_
  obtain ⟨m, rfl⟩ := Nat.exists_eq_succ_of_ne_zero (Nat.ne_of_gt (Nat.zero_lt_of_lt hm))
  rw [rounds_within_append hskip hgroup anchorTail isHost_anchorGroup hm]
  cases hlate : read? ((c :: rest ++ anchorTail.text).length + 1) s c (rest ++ anchorTail.text) with
  | none => rfl
  | some p =>
    rcases hread' anchorTail p.1 p.2 hlate with hrest | ⟨blanks, hblanks, hrest⟩
    · exact rounds_of_suffix p.1 hrest
    · exact (congrArg _ hrest).trans (rounds_of_brace (p.1.within [anchorGroup]) hblanks anchorTail)

end

/-- What is read to its end closes no group that it does not open. -/
theorem closesOutside_of_rounds {n : Nat} {s : ReaderState} {text : List Char} {e : Expr}
    (h : rounds n s text = some e) : closesOutside n s text = false := by
  induction n generalizing s text with
  | zero => cases h
  | succ n ih =>
    rw [closesOutside]
    cases hskip : skip s.verbose text with
    | nil => rfl
    | cons c rest =>
      rw [rounds_of_cons hskip] at h
      obtain ⟨p, hread, hrest⟩ := Option.bind_eq_some_iff.1 h
      have hparen : (c == ')' && (closeGroup? s).isNone) = false := by
        refine Bool.and_eq_false_imp.2 fun hc => ?_
        rw [read?_eq, if_neg (by simp [eq_of_beq hc]), if_pos (eq_of_beq hc)] at hread
        obtain ⟨s', hclose, -⟩ := Option.map_eq_some_iff.1 hread
        rw [hclose, Option.isNone_some]
      dsimp only
      rw [hparen, hread]
      exact ih hrest

/-- Reading ends in one of these ways, unless it comes to a parenthesis that closes no group. -/
theorem ending_rounds {n : Nat} {s : ReaderState} {text : List Char} (hn : text.length < n)
    (hclose : closesOutside n s text = false) : Ending n s text := by
  induction n generalizing s text with
  | zero => exact absurd hn (Nat.not_lt_zero _)
  | succ n ih =>
    cases hskip : skip s.verbose text with
    | nil => exact ending_of_skip_nil n.succ_pos hskip
    | cons c rest =>
      have hlength : rest.length + 1 ≤ text.length := by
        rw [← List.length_cons, ← hskip]
        exact length_skip_le s.verbose text
      have hrounds : (c :: rest).length < n + 1 := Nat.lt_of_le_of_lt hlength hn
      rw [closesOutside, hskip] at hclose
      obtain ⟨hparen, hnext⟩ := Bool.or_eq_false_iff.1 hclose
      have hgroup : c = ')' → closeGroup? s ≠ none := by
        rintro rfl hnone
        simp [hnone] at hparen
      cases outcome_read? s hrounds fun t => Nat.lt_succ_self (c :: rest ++ t.text).length with
      | same s' rest' hread hread' =>
        rw [hread] at hnext
        have hlength' := (read?_suffix hread).length_le
        refine Ending.of_step (by omega) (by rw [rounds_of_cons hskip, hread]; rfl) (fun t host m hhost hm => ?_)
          (ih (by omega) hnext)
        rw [rounds_within_append hskip hgroup t hhost hm, hread']
        rfl
      | swallowed s' hread hread' => exact ending_of_swallowed (by omega) hskip hgroup hread hread'
      | beyond hread hread' => exact ending_of_beyond hskip hgroup hread hread'

/-! ## Patterns -/

/-- A parenthesis alone. -/
def bareTail : Tail := ⟨[], by decide, by decide⟩

/-- Where a pattern may end, a parenthesis closes no group of its own. -/
theorem rounds_bareTail {n : Nat} {s : ReaderState} {e : Expr} (h : closeAll? s = some e) :
    rounds n s bareTail.text = none := by
  cases n with
  | zero => rfl
  | succ n =>
    have hread : read? (n + 1) s ')' [] = (closeGroup? s).map (·, []) := read?_eq ..
    rw [rounds_succ, bareTail.skip_text]
    change (read? (n + 1) s ')' []).bind _ = none
    rw [hread, closeGroup?_eq_none h]
    rfl

namespace Expr

/-- Reads a pattern, however deep it is nested. -/
def read? (text : List Char) : Option Expr := rounds (text.length + 1) .start text

theorem parse?_eq (text : List Char) : parse? text = (read? text).filter fun e => e.depth ≤ maxNesting := by
  unfold parse?
  change (read? text).bind _ = _
  cases read? text with
  | none => rfl
  | some e => simp [Option.filter]

/-- Whether a pattern closes a group that it does not open. -/
def closesOutside (text : List Char) : Bool := Pattern.closesOutside (text.length + 1) .start text

theorem closesOutside_of_read? {text : List Char} {e : Expr} (h : read? text = some e) :
    closesOutside text = false := closesOutside_of_rounds h

/-- Whether a comment runs to the end of a pattern, so that a closing parenthesis behind it is passed over. -/
def endsInComment (text : List Char) : Bool := (read? (text ++ [')'])).isSome

/-- A pattern in a group between anchors. -/
def anchored (e : Expr) : Expr := .concat [.assertion .caret, .group false [] e, .assertion .dollar]

end Expr

/-- The tail closes the group around a pattern and the whole. -/
theorem rounds_anchorTail_of_closeAll? {n : Nat} {s : ReaderState} {e : Expr} (hn : 2 < n) (h : closeAll? s = some e) :
    rounds n (s.within [anchorGroup]) anchorTail.text = some e.anchored := by
  obtain ⟨n, rfl⟩ : ∃ k, n = k + 3 := ⟨n - 3, by omega⟩
  rcases s with ⟨_ | ⟨_ | branches, _ | ⟨_, _⟩⟩, items, verbose, names⟩
  all_goals first
    | cases h; cases verbose <;> rfl
    | cases h

/-- The opening in front of a pattern leads into the group around it. -/
theorem rounds_opening (n : Nat) (text : List Char) :
    rounds (n + 2) .start (NamePattern.opening ++ text) = rounds n (ReaderState.start.within [anchorGroup]) text := by
  rfl

/-- Between its anchors a pattern is read as it is alone, unless it ends in a comment. -/
theorem Expr.read?_anchor {text : List Char} (hclose : closesOutside text = false) :
    read? (NamePattern.opening ++ text ++ NamePattern.closing) =
      if endsInComment text then none else (read? text).map anchored := by
  have hlength : (NamePattern.opening ++ text ++ NamePattern.closing).length + 1 = text.length + 5 + 2 := by
    simp [NamePattern.opening, NamePattern.closing]
  have hwhole : read? (NamePattern.opening ++ text ++ NamePattern.closing) =
      rounds (text.length + 5) (ReaderState.start.within [anchorGroup]) (text ++ anchorTail.text) := by
    rw [read?, hlength, List.append_assoc]
    exact rounds_opening _ _
  have hbare : read? (text ++ [')']) =
      rounds (text.length + 2) (ReaderState.start.within []) (text ++ bareTail.text) := by
    rw [read?, ReaderState.within_nil, List.length_append]
    rfl
  have hanchor : (text ++ anchorTail.text).length < text.length + 5 := by
    simp [Tail.text, anchorTail]
  have hbareLength : (text ++ bareTail.text).length < text.length + 2 := by
    simp [Tail.text, bareTail]
  rw [hwhole]
  cases ending_rounds (Nat.lt_succ_self text.length) hclose with
  | closed last e hlast halone hbehind =>
    obtain ⟨k, hk, heq⟩ := hbehind anchorTail _ _ isHost_anchorGroup hanchor
    obtain ⟨k', -, heq'⟩ := hbehind bareTail _ _ isHost_nil hbareLength
    have hcomment : endsInComment text = false := by
      rw [endsInComment, hbare, heq', ReaderState.within_nil, rounds_bareTail hlast]
      rfl
    rw [heq, rounds_anchorTail_of_closeAll? hk hlast, hcomment, read?, halone]
    rfl
  | swallowed last e hlast halone hbehind =>
    have hcomment : endsInComment text = true := by
      rw [endsInComment, hbare, hbehind _ _ _ isHost_nil hbareLength, ReaderState.within_nil, hlast]
      rfl
    rw [hbehind _ _ _ isHost_anchorGroup hanchor, closeAll?_within_anchorGroup, hcomment]
    rfl
  | fails halone hbehind =>
    rw [hbehind _ hanchor, read?, halone]
    cases endsInComment text <;> rfl

end Registrar.Pattern
