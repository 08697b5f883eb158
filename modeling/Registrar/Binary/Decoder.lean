import Registrar.Binary.FormatError

/-!
# Taking big-endian values off the front of bytes

A `Decoder` takes a value off the front of a list of bytes and returns the rest, or says why it
cannot. The encoders of the same values stand beside the decoders: `u16_encode`,
`u32_encode`, `u64_encode` and `take_append` say that a decoder takes back exactly what its encoder
put in front of any rest.
-/

namespace Registrar

/-- Takes a value off the front of the bytes, or says why it cannot. -/
abbrev Decoder := StateT (List UInt8) (Except FormatError)

/-! ## Encoders -/

def bytes16 (value : UInt16) : List UInt8 :=
  [UInt8.ofNat (value.toNat / 256), UInt8.ofNat value.toNat]

def bytes32 (value : UInt32) : List UInt8 :=
  [UInt8.ofNat (value.toNat / 16777216), UInt8.ofNat (value.toNat / 65536),
    UInt8.ofNat (value.toNat / 256), UInt8.ofNat value.toNat]

def bytes64 (value : UInt64) : List UInt8 :=
  bytes32 (UInt32.ofNat (value.toNat / 4294967296)) ++ bytes32 (UInt32.ofNat value.toNat)

/-- A value of a 16-bit field that holds a count; a larger count loses its high bits. -/
def count16 (n : Nat) : List UInt8 :=
  bytes16 (UInt16.ofNat n)

namespace Decoder

/-! ## Decoders -/

def fail {α : Type} (error : FormatError) : Decoder α :=
  fun _ => .error error

/-- Runs `decode`, and reports a failure under the heading of `part`. -/
def within {α : Type} (part : FormatPart) (decode : Decoder α) : Decoder α :=
  fun input =>
    match decode input with
    | .ok result => .ok result
    | .error cause => .error (.within part cause)

def u8 : Decoder UInt8
  | a :: rest => .ok (a, rest)
  | [] => .error .outOfBounds

def u16 : Decoder UInt16
  | a :: b :: rest => .ok (UInt16.ofNat (a.toNat * 256 + b.toNat), rest)
  | _ => .error .outOfBounds

def u32 : Decoder UInt32
  | a :: b :: c :: d :: rest =>
    .ok (UInt32.ofNat (((a.toNat * 256 + b.toNat) * 256 + c.toNat) * 256 + d.toNat), rest)
  | _ => .error .outOfBounds

def u64 : Decoder UInt64 := do
  let high ← u32
  let low ← u32
  return UInt64.ofNat (high.toNat * 4294967296 + low.toNat)

def take (n : Nat) : Decoder (List UInt8) := fun input =>
  let (front, rest) := input.splitAt n
  if front.length = n then .ok (front, rest) else .error .outOfBounds

def skip (n : Nat) : Decoder Unit := do
  let _ ← take n

/-- Runs `decode` `n` times and prepends the values to `found`, the last one first. -/
@[specialize] def timesOnto {α : Type} (decode : Decoder α) :
    Nat → List α → List UInt8 → Except FormatError (List α × List UInt8)
  | 0, found, input => .ok (found.reverse, input)
  | n + 1, found, input =>
    match decode input with
    | .ok (value, rest) => timesOnto decode n (value :: found) rest
    | .error error => .error error

@[inline] def times {α : Type} (n : Nat) (decode : Decoder α) : Decoder (List α) :=
  fun input => timesOnto decode n [] input

@[inline] def counted {α : Type} (decode : Decoder α) : Decoder (List α) := do
  let count ← u16
  times count.toNat decode

/-! ## What a decoder takes back -/

theorem pure_apply {α : Type} (value : α) (input : List UInt8) :
    (pure value : Decoder α) input = .ok (value, input) := rfl

theorem u16_encode (v : UInt16) (rest : List UInt8) : u16 (bytes16 v ++ rest) = .ok (v, rest) := by
  have hv := v.toNat_lt
  simp only [bytes16, List.cons_append, List.nil_append, u16, UInt8.toNat_ofNat']
  congr 2
  apply UInt16.toNat_inj.1
  simp only [UInt16.toNat_ofNat']
  omega

theorem u32_encode (v : UInt32) (rest : List UInt8) : u32 (bytes32 v ++ rest) = .ok (v, rest) := by
  have hv := v.toNat_lt
  simp only [bytes32, List.cons_append, List.nil_append, u32, UInt8.toNat_ofNat']
  congr 2
  apply UInt32.toNat_inj.1
  simp only [UInt32.toNat_ofNat']
  omega

theorem u64_encode (v : UInt64) (rest : List UInt8) : u64 (bytes64 v ++ rest) = .ok (v, rest) := by
  have hv := v.toNat_lt
  have e : UInt64.ofNat ((UInt32.ofNat (v.toNat / 4294967296)).toNat * 4294967296 +
      (UInt32.ofNat v.toNat).toNat) = v := by
    apply UInt64.toNat_inj.1
    simp only [UInt64.toNat_ofNat', UInt32.toNat_ofNat']
    omega
  simp only [u64, bytes64, bind, StateT.bind, List.append_assoc, u32_encode, Except.bind,
    pure_apply, e]

theorem take_append (front rest : List UInt8) :
    take front.length (front ++ rest) = .ok (front, rest) := by
  simp [take, List.splitAt_eq]

theorem timesOnto_eq {α : Type} (decode : Decoder α) (n : Nat) (found : List α)
    (input : List UInt8) :
    timesOnto decode n found input =
      (times n decode input).map fun result => (found.reverse ++ result.1, result.2) := by
  induction n generalizing found input with
  | zero => simp [times, timesOnto, Except.map]
  | succ n ih =>
    simp only [times, timesOnto]
    cases decode input with
    | error e => rfl
    | ok r =>
      obtain ⟨v, rest⟩ := r
      simp only
      rw [ih (v :: found), ih [v]]
      cases times n decode rest <;> simp [Except.map]

theorem times_succ {α : Type} (decode : Decoder α) (n : Nat) :
    times (n + 1) decode = (do
      let value ← decode
      let values ← times n decode
      return value :: values) := by
  funext input
  simp only [times, timesOnto, bind, StateT.bind, Except.bind, pure_apply]
  cases decode input with
  | error e => rfl
  | ok r =>
    obtain ⟨v, rest⟩ := r
    simp only [timesOnto_eq decode n [v], times]
    cases timesOnto decode n [] rest <;> simp [Except.map]

end Decoder

end Registrar
