import Registrar.Outline.Reader

/-!
# Attributes of an outline

The outline reader decodes the content of every attribute whose layout it knows, and relies on that
layout alone: the stored length is not used to find the end of the content. Nested structures are
read with a bound on their depth. Each level takes at least one byte, so a bound above the number of
bytes that are left is never reached with a byte still to read.
-/

namespace Registrar

namespace OutlineReader

abbrev Constants := Array OutlineConstant

def annotationBody (value : OutlineReader Unit) : OutlineReader Unit := do
  skip16 1
  counted16 do
    skip16 1
    value

/-- Passes over the value of an annotation, nested at most `depth` deep. -/
def elementValue : Nat → OutlineReader Unit
  | 0 => shortInteger
  | depth + 1 => do
    let tag ← u8
    if "BCDFIJSZs".toList.contains (Char.ofNat tag.toNat) then skip16 1
    else if tag = 0x65 then skip16 2
    else if tag = 0x63 then skip16 1
    else if tag = 0x40 then annotationBody (elementValue depth)
    else if tag = 0x5b then counted16 (elementValue depth)
    else fail (.unknownElement tag)

def typeTarget : OutlineReader Unit := do
  let kind ← u8
  if kind = 0x00 ∨ kind = 0x01 ∨ kind = 0x16 then
    let _ ← u8
  else if kind = 0x10 ∨ kind = 0x17 ∨ kind = 0x42 ∨ (0x43 ≤ kind ∧ kind ≤ 0x46) then skip16 1
  else if kind = 0x11 ∨ kind = 0x12 then
    let _ ← u8
    let _ ← u8
  else if kind = 0x13 ∨ kind = 0x14 ∨ kind = 0x15 then pure ()
  else if kind = 0x40 ∨ kind = 0x41 then counted16 (skip16 3)
  else if 0x47 ≤ kind ∧ kind ≤ 0x4b then
    skip16 1
    let _ ← u8
  else fail (.unknownTarget kind)

/-- Passes over one step of the path to the annotated part of a type: its kind and its index. -/
def pathStep : OutlineReader Unit := do
  let _ ← u8
  let _ ← u8

def typeAnnotationBody (value : OutlineReader Unit) : OutlineReader Unit := do
  typeTarget
  counted8 pathStep
  annotationBody value

def verificationType : OutlineReader Unit := do
  let tag ← u8
  if tag ≤ 6 then pure ()
  else if tag ≤ 8 then skip16 1
  else fail (.unknownVerification tag)

def frame : OutlineReader Unit := do
  let kind ← u8
  if kind ≤ 63 then pure ()
  else if kind ≤ 127 then verificationType
  else if kind ≤ 246 then fail (.unknownFrame kind)
  else if kind = 247 then
    skip16 1
    verificationType
  else if kind ≤ 251 then skip16 1
  else if kind ≤ 254 then
    skip16 1
    times verificationType (kind.toNat - 251)
  else
    skip16 1
    counted16 verificationType
    counted16 verificationType

def attributeName (constants : Constants) : OutlineReader String := do
  let index ← u16
  match constants[index.toNat]? with
  | some (.utf8 name) => pure name
  | some other => fail (.nameNotText other)
  | none => fail (.missingName index)

/-- Passes over the content of an attribute that has a name and a stored length. `value` passes over
the value of an annotation and `nested` over a list of attributes. -/
def content (value nested : OutlineReader Unit) (length : Nat) (name : String) :
    OutlineReader Unit :=
  if ["ConstantValue", "SourceFile", "Signature", "NestHost"].contains name then skip16 1
  else if name = "EnclosingMethod" then skip16 2
  else if name = "Synthetic" ∨ name = "Deprecated" then pure ()
  else if name = "Code" then do
    skip16 2
    let size ← u32
    skipBlock size.toNat
    counted16 (skip16 4)
    nested
  else if ["Exceptions", "NestMembers", "PermittedSubclasses"].contains name then
    counted16 (skip16 1)
  else if name = "LineNumberTable" then counted16 (skip16 2)
  else if name = "LocalVariableTable" ∨ name = "LocalVariableTypeTable" then counted16 (skip16 5)
  else if name = "InnerClasses" then counted16 (skip16 4)
  else if name = "BootstrapMethods" then
    counted16 do
      skip16 1
      counted16 (skip16 1)
  else if name = "MethodParameters" then counted8 (skip16 2)
  else if name = "Record" then
    counted16 do
      skip16 2
      nested
  else if name = "SourceDebugExtension" then skipBlock length
  else if name = "RuntimeVisibleAnnotations" then do
    peekBlock length
    counted16 (annotationBody value)
  else if name = "AnnotationDefault" then do
    peekBlock length
    value
  else if name = "RuntimeInvisibleAnnotations" then counted16 (annotationBody value)
  else if name = "RuntimeVisibleParameterAnnotations" ∨
      name = "RuntimeInvisibleParameterAnnotations" then
    counted8 (counted16 (annotationBody value))
  else if name = "RuntimeVisibleTypeAnnotations" ∨ name = "RuntimeInvisibleTypeAnnotations" then
    counted16 (typeAnnotationBody value)
  else if name = "StackMapTable" then counted16 frame
  else fail (.unknownAttribute name)

/-- Passes over a counted list of attributes, nested at most `depth` deep. `value` passes over the
value of an annotation. -/
def attributes (constants : Constants) (value : OutlineReader Unit) : Nat → OutlineReader Unit
  | 0 => shortInteger
  | depth + 1 =>
    counted16 do
      let name ← attributeName constants
      let length ← u32
      content value (attributes constants value depth) length.toNat name

/-- Passes over a counted list of attributes, in which everything is nested at most `depth` deep. -/
def allAttributes (depth : Nat) (constants : Constants) : OutlineReader Unit :=
  attributes constants (elementValue depth) depth

end OutlineReader

end Registrar
