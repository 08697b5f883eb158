import Registrar.Code.Layout

/-!
# Stack maps

A stack map lists frames: for some offsets of a method body, the types of the local variables and
of the stack. A frame is stored by its distance from the frame before it, in a compact form where
the distance is small. `StackMap.decode` gives the frames with their offsets;
`StackMap.relocate` moves them and stores them again.
-/

namespace Registrar

inductive VerificationType where
  /-- A type that its tag says all about, from 0 to 6. -/
  | simple (tag : UInt8)
  | object (index : UInt16)
  /-- An object made by the `new` instruction at an offset, before its constructor has run. -/
  | uninitialized (offset : UInt16)
  deriving DecidableEq, Repr, Inhabited

namespace VerificationType

def decode : Decoder VerificationType := do
  let tag ← Decoder.u8
  if tag ≤ 6 then return .simple tag
  else if tag = 7 then return .object (← Decoder.u16)
  else if tag = 8 then return .uninitialized (← Decoder.u16)
  else Decoder.fail (.unknownVerificationTag tag)

/-- Moves a type. An uninitialized object follows its instruction, never the code inserted in front
of it. -/
def relocate (layout : Layout) : VerificationType → Except RelocationError VerificationType
  | .uninitialized offset => do
    let position ← layout.instruction offset.toNat
    return .uninitialized (← Layout.narrow position)
  | other => .ok other

def encode : VerificationType → List UInt8
  | .simple tag => [tag]
  | .object index => 7 :: bytes16 index
  | .uninitialized offset => 8 :: bytes16 offset

end VerificationType

/-- What a frame says about the types, relative to the frame before it. -/
inductive FrameBody where
  | same
  | sameWithItem (item : VerificationType)
  | chop (count : UInt8)
  | append (locals : List VerificationType)
  | full (locals stack : List VerificationType)
  deriving DecidableEq, Repr, Inhabited

namespace FrameBody

def decode (kind : UInt8) : Decoder (Nat × FrameBody) := do
  if kind ≤ 63 then return (kind.toNat, .same)
  else if kind ≤ 127 then
    let item ← VerificationType.decode
    return (kind.toNat - 64, .sameWithItem item)
  else if kind ≤ 246 then Decoder.fail (.reservedFrameType kind)
  else
    let distance ← Decoder.u16
    if kind = 247 then
      let item ← VerificationType.decode
      return (distance.toNat, .sameWithItem item)
    else if kind ≤ 250 then return (distance.toNat, .chop (251 - kind))
    else if kind = 251 then return (distance.toNat, .same)
    else if kind ≤ 254 then
      let locals ← Decoder.times (kind.toNat - 251) VerificationType.decode
      return (distance.toNat, .append locals)
    else
      let locals ← Decoder.counted VerificationType.decode
      let stack ← Decoder.counted VerificationType.decode
      return (distance.toNat, .full locals stack)

def relocateTypes (layout : Layout) (types : List VerificationType) :
    Except RelocationError (List UInt8) := do
  let moved ← types.mapM (·.relocate layout)
  return moved.flatMap VerificationType.encode

/-- The bytes of a frame at a distance, its types moved. The compact form is used where it can say
the distance. -/
def relocate (layout : Layout) (distance : Nat) (body : FrameBody) :
    Except RelocationError (List UInt8) := do
  let wide ← Layout.narrow distance
  match body with
  | .same =>
    return if distance ≤ 63 then [UInt8.ofNat distance] else 251 :: bytes16 wide
  | .sameWithItem item =>
    let item ← item.relocate layout
    return (if distance ≤ 63 then [UInt8.ofNat (64 + distance)] else 247 :: bytes16 wide) ++
      item.encode
  | .chop count => return (251 - count) :: bytes16 wide
  | .append locals =>
    let types ← relocateTypes layout locals
    return UInt8.ofNat (251 + locals.length) :: (bytes16 wide ++ types)
  | .full locals stack =>
    let localTypes ← relocateTypes layout locals
    let stackTypes ← relocateTypes layout stack
    return 255 :: (bytes16 wide ++ (count16 locals.length ++ (localTypes ++
      (count16 stack.length ++ stackTypes))))

end FrameBody

structure Frame where
  offset : Nat
  body : FrameBody
  deriving DecidableEq, Repr, Inhabited

namespace StackMap

/-- The offset at a distance from the frame before: the distance itself for the first frame, and
else one more than the distance away. -/
def offsetAfter : Option Nat → Nat → Nat
  | none, distance => distance
  | some previous, distance => previous + distance + 1

/-- The distance of an offset from the frame before, if it lies behind it. -/
def distanceAfter : Option Nat → Nat → Except RelocationError Nat
  | none, offset => .ok offset
  | some previous, offset =>
    if previous + 1 ≤ offset then .ok (offset - (previous + 1)) else .error .framesOutOfOrder

def place (previous : Option Nat) (found : List Frame) : List (Nat × FrameBody) → List Frame
  | [] => found.reverse
  | (distance, body) :: rest =>
    let offset := offsetAfter previous distance
    place (some offset) (⟨offset, body⟩ :: found) rest

def decodeFrame : Decoder (Nat × FrameBody) := do
  let kind ← Decoder.u8
  FrameBody.decode kind

/-- Reads the frames. What follows them is passed over. -/
def decode (content : List UInt8) : Except FormatError (List Frame) :=
  match Decoder.counted decodeFrame content with
  | .ok (frames, _) => .ok (place none [] frames)
  | .error error => .error error

/-- Stores moved frames, onto the bytes of the earlier ones, the last first. -/
def encodeOnto (layout : Layout) (previous : Option Nat) (found : List (List UInt8)) :
    List Frame → Except RelocationError (List UInt8)
  | [] => .ok found.reverse.flatten
  | frame :: rest =>
    match layout.target frame.offset with
    | .error error => .error error
    | .ok offset =>
      match distanceAfter previous offset with
      | .error error => .error error
      | .ok distance =>
        match frame.body.relocate layout distance with
        | .error error => .error error
        | .ok bytes => encodeOnto layout (some offset) (bytes :: found) rest

def relocate (layout : Layout) (content : List UInt8) : Except RelocationError (List UInt8) :=
  match decode content with
  | .error error => .error (.format error)
  | .ok frames =>
    match encodeOnto layout none [] frames with
    | .error error => .error error
    | .ok bytes => .ok (count16 frames.length ++ bytes)

end StackMap

end Registrar
