import Registrar.Unicode.Property
import Registrar.Unicode.Script

/-!
# Segmentation

The classes of characters by which a text is divided into grapheme clusters, words and sentences.
Each class is given by the rule that defines it, in terms of categories, properties and scripts, and
by the characters that the rule names one by one. A name is looked up in its loose form.
-/

namespace Registrar

/-- The class of a kind of segmentation with a name, among classes with all their names. -/
def segmentClass? (name : String) (classes : List (List String × (Unit → CharSet))) :
    Option CharSet :=
  (classes.find? fun row => row.1.contains name).map fun row => row.2 ()

/-! ## Grapheme clusters -/

namespace GraphemeBreak

def extend : CharSet := (Property.get "graphemeextend").union (Property.get "emojimodifier")

def control : CharSet :=
  let invisible := CharSet.unions
    [Category.get "zl", Category.get "zp", Category.get "cc", Category.get "cf",
      (Category.get "cn").inter (Property.get "defaultignorablecodepoint")]
  invisible.diff (CharSet.unions
    [CharSet.ofPoints [0x0A, 0x0D, 0x200C, 0x200D],
      Property.get "prependedconcatenationmark", extend])

def prepended : CharSet :=
  (Property.get "prependedconcatenationmark").union
    ⟨[(0xD4E, 0xD4E), (0x111C2, 0x111C3), (0x113D1, 0x113D1), (0x1193F, 0x1193F),
      (0x11941, 0x11941), (0x11A84, 0x11A89), (0x11D46, 0x11D46), (0x11F02, 0x11F02)]⟩

/-- Spacing marks that do not join the character in front of them. -/
def standing : CharSet :=
  ⟨[(0x102B, 0x102C), (0x1038, 0x1038), (0x1062, 0x1064), (0x1067, 0x106D), (0x1083, 0x1083),
    (0x1087, 0x108C), (0x108F, 0x108F), (0x109A, 0x109C), (0x1A61, 0x1A61), (0x1A63, 0x1A64),
    (0xAA7B, 0xAA7B), (0xAA7D, 0xAA7D), (0x11720, 0x11721)]⟩

def spacingMark : CharSet :=
  ((Category.get "mc").union (CharSet.ofPoints [0xE33, 0xEB3])).diff (extend.union standing)

def firstSyllable : Nat := 0xAC00

def openSyllables : CharSet :=
  CharSet.ofPoints ((List.range 399).map fun k => firstSyllable + 28 * k)

def closedSyllables : CharSet :=
  ⟨(List.range 399).map fun k => (firstSyllable + 28 * k + 1, firstSyllable + 28 * k + 27)⟩

def classes : List (List String × (Unit → CharSet)) := [
  (["cn", "control"], fun _ => control),
  (["cr"], fun _ => CharSet.range 0x0D 0x0D),
  (["ex", "extend"], fun _ => extend),
  (["l"], fun _ => ⟨[(0x1100, 0x115F), (0xA960, 0xA97C)]⟩),
  (["lf"], fun _ => CharSet.range 0x0A 0x0A),
  (["lv"], fun _ => openSyllables),
  (["lvt"], fun _ => closedSyllables),
  (["pp", "prepend"], fun _ => prepended),
  (["ri", "regionalindicator"], fun _ => Property.get "regionalindicator"),
  (["sm", "spacingmark"], fun _ => spacingMark),
  (["t"], fun _ => ⟨[(0x11A8, 0x11FF), (0xD7CB, 0xD7FB)]⟩),
  (["v"], fun _ =>
    ⟨[(0x1160, 0x11A7), (0xD7B0, 0xD7C6), (0x16D63, 0x16D63), (0x16D67, 0x16D6A)]⟩),
  (["zwj"], fun _ => CharSet.range 0x200D 0x200D)]

def find? (name : String) : Option CharSet := segmentClass? name classes

end GraphemeBreak

/-! ## Words -/

namespace WordBreak

def extend : CharSet :=
  (CharSet.unions
    [Property.get "graphemeextend", Category.get "mc", Property.get "emojimodifier"]).diff
      (CharSet.range 0x200D 0x200D)

/-- Format characters that are neither joiners nor marks in front of others. -/
def format : CharSet :=
  (Category.get "cf").diff (CharSet.unions
    [CharSet.range 0x200B 0x200D, extend, Property.get "prependedconcatenationmark"])

def hebrewLetter : CharSet := ((Script.find? "hebrew").getD CharSet.empty).inter (Category.get "lo")

def katakana : CharSet :=
  ((Script.find? "katakana").getD CharSet.empty).union
    ⟨[(0x3031, 0x3035), (0x309B, 0x309C), (0x30A0, 0x30A0), (0x30FC, 0x30FC), (0xFF70, 0xFF70)]⟩

/-- The scripts whose letters are not divided into words by their classes alone. -/
def undivided : List String :=
  ["thai", "lao", "myanmar", "khmer", "taile", "newtailue", "taitham", "taiviet", "ahom",
    "hiragana"]

/-- Characters that are no letters and yet stand for letters in a word. -/
def letterLike : CharSet :=
  ⟨[(0xB8, 0xB8), (0x2C2, 0x2C5), (0x2D2, 0x2D7), (0x2DE, 0x2DF), (0x2E5, 0x2EB),
    (0x2ED, 0x2ED), (0x2EF, 0x2FF), (0x55A, 0x55C), (0x55E, 0x55E), (0x58A, 0x58A),
    (0x5F3, 0x5F3), (0x70F, 0x70F), (0xA708, 0xA716), (0xA720, 0xA721), (0xA789, 0xA78A),
    (0xAB5B, 0xAB5B)]⟩

def letter : CharSet :=
  ((Property.get "alphabetic").union letterLike).diff (CharSet.unions
    ([Property.get "ideographic", katakana, extend, hebrewLetter] ++
      undivided.filterMap Script.find?))

def numeric : CharSet :=
  ((Category.get "nd").union (CharSet.range 0x66B 0x66B)).union
    ((Property.get "prependedconcatenationmark").diff (CharSet.range 0x70F 0x70F))

def connector : CharSet :=
  ((Category.get "pc").union (CharSet.range 0x202F 0x202F)).diff
    (CharSet.ofPoints [0x30FB, 0xFF65])

def classes : List (List String × (Unit → CharSet)) := [
  (["aletter", "le"], fun _ => letter),
  (["cr"], fun _ => CharSet.range 0x0D 0x0D),
  (["doublequote", "dq"], fun _ => CharSet.range 0x22 0x22),
  (["extend"], fun _ => extend),
  (["ex", "extendnumlet"], fun _ => connector),
  (["fo", "format"], fun _ => format),
  (["hebrewletter", "hl"], fun _ => hebrewLetter),
  (["ka", "katakana"], fun _ => katakana),
  (["lf"], fun _ => CharSet.range 0x0A 0x0A),
  (["midletter", "ml"], fun _ =>
    CharSet.ofPoints [0x3A, 0xB7, 0x387, 0x55F, 0x5F4, 0x2027, 0xFE13, 0xFE55, 0xFF1A]),
  (["midnum", "mn"], fun _ =>
    CharSet.ofPoints [0x2C, 0x3B, 0x37E, 0x589, 0x60C, 0x60D, 0x66C, 0x7F8, 0x2044, 0xFE10,
      0xFE14, 0xFE50, 0xFE54, 0xFF0C, 0xFF1B]),
  (["mb", "midnumlet"], fun _ =>
    CharSet.ofPoints [0x2E, 0x2018, 0x2019, 0x2024, 0xFE52, 0xFF07, 0xFF0E]),
  (["newline", "nl"], fun _ => CharSet.ofPoints [0x0B, 0x0C, 0x85, 0x2028, 0x2029]),
  (["nu", "numeric"], fun _ => numeric),
  (["regionalindicator", "ri"], fun _ => Property.get "regionalindicator"),
  (["singlequote", "sq"], fun _ => CharSet.range 0x27 0x27),
  (["wsegspace"], fun _ =>
    (Category.get "zs").diff (CharSet.ofPoints [0xA0, 0x2007, 0x202F])),
  (["zwj"], fun _ => CharSet.range 0x200D 0x200D)]

def find? (name : String) : Option CharSet := segmentClass? name classes

end WordBreak

/-! ## Sentences -/

namespace SentenceBreak

def extend : CharSet :=
  CharSet.unions
    [Property.get "graphemeextend", Category.get "mc", CharSet.range 0x200D 0x200D]

def format : CharSet :=
  (Category.get "cf").diff (extend.union (Property.get "prependedconcatenationmark"))

/-- Small letters. Those of Georgian do not tell the middle of a sentence from its start. -/
def lower : CharSet :=
  (Property.get "lowercase").diff
    ((Property.get "graphemeextend").union ⟨[(0x10D0, 0x10FA), (0x10FD, 0x10FF)]⟩)

def upper : CharSet :=
  ((Category.get "lt").union (Property.get "uppercase")).diff
    ⟨[(0x1C90, 0x1CBA), (0x1CBD, 0x1CBF)]⟩

def otherLetter : CharSet :=
  ((Property.get "alphabetic").union (CharSet.ofPoints [0x5F3, 0x70F])).diff
    (CharSet.unions [lower, upper, extend])

def ambiguousEnd : CharSet := CharSet.ofPoints [0x2E, 0x2024, 0xFE52, 0xFF0E]

def terminal : CharSet := (Property.get "sentenceterminal").diff ambiguousEnd

def closing : CharSet :=
  (CharSet.unions
    (["ps", "pe", "pi", "pf"].map Category.get ++
      [⟨[(0x22, 0x22), (0x27, 0x27), (0x275B, 0x2760), (0x2E00, 0x2E01), (0x2E06, 0x2E08),
        (0x2E0B, 0x2E0B), (0x1F676, 0x1F678)]⟩])).diff (ambiguousEnd.union terminal)

def continuing : CharSet :=
  CharSet.ofPoints [0x2C, 0x2D, 0x3A, 0x3B, 0x37E, 0x55D, 0x60C, 0x60D, 0x7F8, 0x1802, 0x1808,
    0x2013, 0x2014, 0x3001, 0xFE10, 0xFE11, 0xFE13, 0xFE14, 0xFE31, 0xFE32, 0xFE50, 0xFE51, 0xFE54,
    0xFE55, 0xFE58, 0xFE63, 0xFF0C, 0xFF0D, 0xFF1A, 0xFF1B, 0xFF64]

def classes : List (List String × (Unit → CharSet)) := [
  (["at", "aterm"], fun _ => ambiguousEnd),
  (["cl", "close"], fun _ => closing),
  (["cr"], fun _ => CharSet.range 0x0D 0x0D),
  (["ex", "extend"], fun _ => extend),
  (["fo", "format"], fun _ => format),
  (["lf"], fun _ => CharSet.range 0x0A 0x0A),
  (["lo", "lower"], fun _ => lower),
  (["nu", "numeric"], fun _ => WordBreak.numeric.union (CharSet.range 0x66C 0x66C)),
  (["le", "oletter"], fun _ => otherLetter),
  (["sc", "scontinue"], fun _ => continuing),
  (["se", "sep"], fun _ => CharSet.ofPoints [0x85, 0x2028, 0x2029]),
  (["sp"], fun _ =>
    (Property.get "whitespace").diff (CharSet.ofPoints [0x0A, 0x0D, 0x85, 0x2028, 0x2029])),
  (["st", "sterm"], fun _ => terminal),
  (["up", "upper"], fun _ => upper)]

def find? (name : String) : Option CharSet := segmentClass? name classes

end SentenceBreak

end Registrar
