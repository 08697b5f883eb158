import Registrar.Binary.Decoder
import Mathlib.Data.List.Forall2

/-!
# What decoders read

`Decoder.Reads d G` : decoder `d` takes a value off the front of the bytes exactly when the bytes start with one of the
spellings that the grammar `G` gives the value, and leaves what follows untouched. `Reads.bind`, `reads_pure` and
`reads_fail` follow the way decoders are put together; `Reads.times` and `Reads.counted` read lists. Where a value has
one spelling only, `Spelled ok write` is its grammar.
-/

namespace Registrar.Decoder

variable {α β : Type}

/-- The spellings of a value: bytes that stand for it. -/
abbrev Grammar (α : Type) := α → List UInt8 → Prop

/-- The decoder takes a value with its spelling off the front of the bytes, and nothing else. -/
def Reads (d : Decoder α) (G : Grammar α) : Prop :=
  ∀ input value rest, d input = .ok (value, rest) ↔ ∃ raw, G value raw ∧ input = raw ++ rest

/-- The grammar of values that satisfy `ok` and have one spelling each. -/
def Spelled (ok : α → Prop) (write : α → List UInt8) : Grammar α :=
  fun value raw => ok value ∧ raw = write value

theorem Reads.congr {d : Decoder α} {G H : Grammar α} (h : Reads d G) (e : ∀ v raw, G v raw ↔ H v raw) :
    Reads d H := by
  intro input value rest
  simp only [h input value rest, e]

/-- A spelling in front of any rest is read. -/
theorem Reads.complete {d : Decoder α} {G : Grammar α} (h : Reads d G) {value : α} {raw : List UInt8}
    (hg : G value raw) (rest : List UInt8) : d (raw ++ rest) = .ok (value, rest) :=
  (h _ _ _).2 ⟨raw, hg, rfl⟩

theorem Reads.sound {d : Decoder α} {G : Grammar α} (h : Reads d G) {input rest : List UInt8} {value : α}
    (hd : d input = .ok (value, rest)) : ∃ raw, G value raw ∧ input = raw ++ rest :=
  (h _ _ _).1 hd

/-- What follows does not bear on what is read. -/
theorem Reads.append {d : Decoder α} {G : Grammar α} (h : Reads d G) {input rest : List UInt8} {value : α}
    (hd : d input = .ok (value, rest)) (more : List UInt8) : d (input ++ more) = .ok (value, rest ++ more) := by
  obtain ⟨raw, hraw, rfl⟩ := h.sound hd
  rw [List.append_assoc]
  exact h.complete hraw _

/-! ## Sequencing -/

theorem bind_eq_ok_iff {d : Decoder α} {f : α → Decoder β} {input rest : List UInt8} {value : β} :
    (d >>= f) input = .ok (value, rest) ↔ ∃ a mid, d input = .ok (a, mid) ∧ f a mid = .ok (value, rest) := by
  simp only [bind, StateT.bind, Except.bind]
  cases h : d input with
  | error e => simp
  | ok r =>
    constructor
    · intro hf
      exact ⟨r.1, r.2, rfl, hf⟩
    · rintro ⟨a, mid, hr, hf⟩
      cases hr
      exact hf

theorem Reads.bind {d : Decoder α} {f : α → Decoder β} {G : Grammar α} {H : α → Grammar β} (hd : Reads d G)
    (hf : ∀ a, Reads (f a) (H a)) :
    Reads (d >>= f) fun value raw => ∃ a front back, G a front ∧ H a value back ∧ raw = front ++ back := by
  intro input value rest
  rw [bind_eq_ok_iff]
  constructor
  · rintro ⟨a, mid, h1, h2⟩
    obtain ⟨front, hfront, rfl⟩ := hd.sound h1
    obtain ⟨back, hback, rfl⟩ := (hf a).sound h2
    exact ⟨front ++ back, ⟨a, front, back, hfront, hback, rfl⟩, by simp⟩
  · rintro ⟨_, ⟨a, front, back, hfront, hback, rfl⟩, rfl⟩
    exact ⟨a, back ++ rest, by rw [List.append_assoc]; exact hd.complete hfront _, (hf a).complete hback _⟩

theorem reads_pure (v : α) : Reads (pure v : Decoder α) fun value raw => value = v ∧ raw = [] := by
  intro input value rest
  rw [pure_apply]
  constructor
  · intro h
    cases h
    exact ⟨[], ⟨rfl, rfl⟩, rfl⟩
  · rintro ⟨raw, ⟨rfl, rfl⟩, rfl⟩
    rfl

theorem reads_fail (error : FormatError) : Reads (fail error : Decoder α) fun _ _ => False := by
  intro input value rest
  simp [fail]

/-! ## Records, field by field -/

/-- A field in front of what is read once it is known. -/
theorem Reads.field {d : Decoder α} {f : α → Decoder β} {ok : α → Prop} {ok' : α → β → Prop} {write : α → List UInt8}
    {write' : β → List UInt8} (get : β → α) (hd : Reads d (Spelled ok write))
    (hf : ∀ a, Reads (f a) (Spelled (ok' a) write')) (hget : ∀ a v, ok' a v → get v = a) :
    Reads (d >>= f) (Spelled (fun v => ok (get v) ∧ ok' (get v) v) fun v => write (get v) ++ write' v) := by
  refine (hd.bind hf).congr fun v raw => ?_
  constructor
  · rintro ⟨a, _, _, ⟨ha, rfl⟩, ⟨hv, rfl⟩, rfl⟩
    obtain rfl := hget a v hv
    exact ⟨⟨ha, hv⟩, rfl⟩
  · rintro ⟨⟨ha, hv⟩, rfl⟩
    exact ⟨_, _, _, ⟨ha, rfl⟩, ⟨hv, rfl⟩, rfl⟩

/-- The last field of a record. -/
theorem Reads.last {d : Decoder α} {ok : α → Prop} {write : α → List UInt8} (make : α → β) (get : β → α)
    (hd : Reads d (Spelled ok write)) (hget : ∀ a, get (make a) = a) :
    Reads (d >>= fun a => pure (make a))
      (Spelled (fun v => ok (get v) ∧ v = make (get v)) fun v => write (get v)) := by
  refine (hd.bind fun a => reads_pure (make a)).congr fun v raw => ?_
  constructor
  · rintro ⟨a, _, _, ⟨ha, rfl⟩, ⟨rfl, rfl⟩, rfl⟩
    rw [Spelled, hget, List.append_nil]
    exact ⟨⟨ha, rfl⟩, rfl⟩
  · rintro ⟨⟨ha, hv⟩, rfl⟩
    exact ⟨_, _, _, ⟨ha, rfl⟩, ⟨hv, rfl⟩, (List.append_nil _).symm⟩

/-- The same spelling under another name. -/
theorem Reads.respell {d : Decoder α} {ok ok' : α → Prop} {write write' : α → List UInt8}
    (h : Reads d (Spelled ok write)) (hok : ∀ v, ok v ↔ ok' v) (hwrite : ∀ v, write v = write' v) :
    Reads d (Spelled ok' write') :=
  h.congr fun v raw => by rw [Spelled, Spelled, hok, hwrite]

/-- A value made of what is read. -/
theorem Reads.make {d : Decoder α} {ok : α → Prop} {write : α → List UInt8} (h : Reads d (Spelled ok write))
    (make : α → β) : Reads (d >>= fun a => pure (make a)) fun v raw => ∃ a, ok a ∧ v = make a ∧ raw = write a := by
  refine (h.bind fun a => reads_pure (make a)).congr fun v raw => ?_
  constructor
  · rintro ⟨a, _, _, ⟨ha, rfl⟩, ⟨rfl, rfl⟩, rfl⟩
    exact ⟨a, ha, rfl, List.append_nil _⟩
  · rintro ⟨a, ha, rfl, rfl⟩
    exact ⟨a, _, _, ⟨ha, rfl⟩, ⟨rfl, rfl⟩, (List.append_nil _).symm⟩

theorem Reads.within {d : Decoder α} {G : Grammar α} (h : Reads d G) (part : FormatPart) : Reads (within part d) G := by
  intro input value rest
  rw [← h input value rest]
  unfold Decoder.within
  cases d input <;> simp

/-! ## Numbers and bytes -/

theorem reads_u8 : Reads u8 (Spelled (fun _ => True) fun v => [v]) := by
  intro input value rest
  cases input with
  | nil => simp [u8, Spelled]
  | cons a input =>
    simp only [u8, Except.ok.injEq, Prod.mk.injEq, Spelled, true_and, exists_eq_left, List.cons_append,
      List.nil_append, List.cons.injEq]

theorem bytes16_of_u16 (a b : UInt8) : bytes16 (UInt16.ofNat (a.toNat * 256 + b.toNat)) = [a, b] := by
  have ha := a.toNat_lt
  have hb := b.toNat_lt
  simp only [bytes16, UInt16.toNat_ofNat', List.cons.injEq, and_true]
  refine ⟨?_, ?_⟩ <;> apply UInt8.toNat_inj.1 <;> simp only [UInt8.toNat_ofNat'] <;> omega

theorem bytes32_of_u32 (a b c d : UInt8) :
    bytes32 (UInt32.ofNat (((a.toNat * 256 + b.toNat) * 256 + c.toNat) * 256 + d.toNat)) = [a, b, c, d] := by
  have ha := a.toNat_lt
  have hb := b.toNat_lt
  have hc := c.toNat_lt
  have hd := d.toNat_lt
  simp only [bytes32, UInt32.toNat_ofNat', List.cons.injEq, and_true]
  refine ⟨?_, ?_, ?_, ?_⟩ <;> apply UInt8.toNat_inj.1 <;> simp only [UInt8.toNat_ofNat'] <;> omega

theorem reads_u16 : Reads u16 (Spelled (fun _ => True) bytes16) := by
  intro input value rest
  constructor
  · intro h
    match input, h with
    | a :: b :: input, h =>
      cases h
      exact ⟨_, ⟨trivial, rfl⟩, by rw [bytes16_of_u16]; rfl⟩
  · rintro ⟨raw, ⟨-, rfl⟩, rfl⟩
    exact u16_encode value rest

theorem reads_u32 : Reads u32 (Spelled (fun _ => True) bytes32) := by
  intro input value rest
  constructor
  · intro h
    match input, h with
    | a :: b :: c :: d :: input, h =>
      cases h
      exact ⟨_, ⟨trivial, rfl⟩, by rw [bytes32_of_u32]; rfl⟩
  · rintro ⟨raw, ⟨-, rfl⟩, rfl⟩
    exact u32_encode value rest

theorem bytes64_of_u64 (high low : UInt32) :
    bytes64 (UInt64.ofNat (high.toNat * 4294967296 + low.toNat)) = bytes32 high ++ bytes32 low := by
  have hhigh := high.toNat_lt
  have hlow := low.toNat_lt
  have hn : (UInt64.ofNat (high.toNat * 4294967296 + low.toNat)).toNat = high.toNat * 4294967296 + low.toNat :=
    UInt64.toNat_ofNat_of_lt' (by show _ < 18446744073709551616; omega)
  have hhigh' : UInt32.ofNat ((high.toNat * 4294967296 + low.toNat) / 4294967296) = high := by
    apply UInt32.toNat_inj.1
    simp only [UInt32.toNat_ofNat']
    omega
  have hlow' : UInt32.ofNat (high.toNat * 4294967296 + low.toNat) = low := by
    apply UInt32.toNat_inj.1
    simp only [UInt32.toNat_ofNat']
    omega
  rw [bytes64, hn, hhigh', hlow']

theorem reads_u64 : Reads u64 (Spelled (fun _ => True) bytes64) := by
  intro input value rest
  constructor
  · intro h
    simp only [u64, bind_eq_ok_iff] at h
    obtain ⟨high, _, hhigh, low, _, hlow, hvalue⟩ := h
    obtain ⟨_, ⟨-, rfl⟩, rfl⟩ := reads_u32.sound hhigh
    obtain ⟨_, ⟨-, rfl⟩, rfl⟩ := reads_u32.sound hlow
    cases hvalue
    exact ⟨_, ⟨trivial, rfl⟩, by rw [bytes64_of_u64, List.append_assoc]⟩
  · rintro ⟨raw, ⟨-, rfl⟩, rfl⟩
    exact u64_encode value rest

theorem reads_take (n : Nat) : Reads (take n) (Spelled (fun v => v.length = n) id) := by
  intro input value rest
  constructor
  · intro h
    simp only [take, List.splitAt_eq] at h
    split at h
    · next hl =>
      cases h
      exact ⟨_, ⟨hl, rfl⟩, (List.take_append_drop n input).symm⟩
    · cases h
  · rintro ⟨_, ⟨rfl, rfl⟩, rfl⟩
    exact take_append _ rest

/-! ## Lists -/

/-- The grammar of lists of `n` values, their spellings one after the other. -/
def Listed (G : Grammar α) (n : Nat) : Grammar (List α) :=
  fun values raw => values.length = n ∧ ∃ raws, List.Forall₂ G values raws ∧ raw = raws.flatten

theorem Reads.times {d : Decoder α} {G : Grammar α} (h : Reads d G) (n : Nat) :
    Reads (Decoder.times n d) (Listed G n) := by
  induction n with
  | zero =>
    refine (reads_pure []).congr fun values raw => ?_
    constructor
    · rintro ⟨rfl, rfl⟩
      exact ⟨rfl, [], .nil, rfl⟩
    · rintro ⟨hl, raws, hr, rfl⟩
      rw [List.length_eq_zero_iff] at hl
      subst hl
      cases hr
      exact ⟨rfl, rfl⟩
  | succ n ih =>
    rw [times_succ]
    refine (h.bind fun v => ih.bind fun vs => reads_pure (v :: vs)).congr fun values raw => ?_
    constructor
    · rintro ⟨v, front, back, hv, ⟨vs, middle, last, ⟨hl, raws, hr, rfl⟩, ⟨rfl, rfl⟩, rfl⟩, rfl⟩
      exact ⟨by simp [hl], front :: raws, .cons hv hr, by simp⟩
    · rintro ⟨hl, raws, hr, rfl⟩
      cases hr with
      | nil => cases hl
      | @cons v front vs raws hv hr =>
        exact ⟨v, front, _, hv, ⟨vs, _, [], ⟨by simpa using hl, raws, hr, rfl⟩, ⟨rfl, rfl⟩, rfl⟩, by simp⟩

theorem length_of_times {d : Decoder α} {n : Nat} {values : List α} {input rest : List UInt8}
    (h : Decoder.times n d input = .ok (values, rest)) : values.length = n := by
  induction n generalizing values input with
  | zero =>
    cases h
    rfl
  | succ n ih =>
    rw [times_succ] at h
    simp only [bind_eq_ok_iff] at h
    obtain ⟨v, mid, -, vs, mid', hvs, hpure⟩ := h
    cases hpure
    rw [List.length_cons, ih hvs]

/-- The grammar of lists with their length in front. -/
def Counted (G : Grammar α) : Grammar (List α) := fun values raw =>
  values.length < 0x10000 ∧ ∃ raws, List.Forall₂ G values raws ∧ raw = count16 values.length ++ raws.flatten

theorem count16_toNat (v : UInt16) : count16 v.toNat = bytes16 v := by
  rw [count16, UInt16.ofNat_toNat]

theorem Reads.counted {d : Decoder α} {G : Grammar α} (h : Reads d G) : Reads (Decoder.counted d) (Counted G) := by
  refine (reads_u16.bind fun count => h.times count.toNat).congr fun values raw => ?_
  constructor
  · rintro ⟨count, _, _, ⟨-, rfl⟩, ⟨hl, raws, hr, rfl⟩, rfl⟩
    exact ⟨hl ▸ count.toNat_lt, raws, hr, by rw [hl, count16_toNat]⟩
  · rintro ⟨hl, raws, hr, rfl⟩
    refine ⟨UInt16.ofNat values.length, _, _, ⟨trivial, rfl⟩, ⟨?_, raws, hr, rfl⟩, rfl⟩
    rw [UInt16.toNat_ofNat_of_lt' hl]

theorem forall₂_spelled {ok : α → Prop} {write : α → List UInt8} {values : List α} {raws : List (List UInt8)} :
    List.Forall₂ (Spelled ok write) values raws ↔ (∀ v ∈ values, ok v) ∧ raws = values.map write := by
  constructor
  · intro h
    induction h with
    | nil => simp
    | cons hv _ ih =>
      rw [hv.2, ih.2]
      exact ⟨List.forall_mem_cons.2 ⟨hv.1, ih.1⟩, rfl⟩
  · rintro ⟨h, rfl⟩
    induction values with
    | nil => exact .nil
    | cons v values ih =>
      exact .cons ⟨h v (by simp), rfl⟩ (ih fun w hw => h w (by simp [hw]))

/-- Values with one spelling each make a list with one spelling. -/
theorem Reads.counted_spelled {d : Decoder α} {ok : α → Prop} {write : α → List UInt8}
    (h : Reads d (Spelled ok write)) :
    Reads (Decoder.counted d) (Spelled (fun values => values.length < 0x10000 ∧ ∀ v ∈ values, ok v)
      fun values => count16 values.length ++ values.flatMap write) := by
  refine h.counted.congr fun values raw => ?_
  simp only [Counted, forall₂_spelled, Spelled, List.flatMap_def]
  constructor
  · rintro ⟨hl, _, ⟨hok, rfl⟩, rfl⟩
    exact ⟨⟨hl, hok⟩, rfl⟩
  · rintro ⟨⟨hl, hok⟩, rfl⟩
    exact ⟨hl, _, ⟨hok, rfl⟩, rfl⟩

end Registrar.Decoder
