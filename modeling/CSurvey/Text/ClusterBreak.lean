import CSurvey.Text.Hidden

/-!
Classes of characters that decide where one user-perceived character ends and the next one starts:
controls stand alone, marks follow their base, and Hangul letters, letters of Indic conjuncts and
regional indicators keep to their own kind. The rules that use them are in `CSurvey.Text.Cluster`.
-/

namespace CSurvey.Text

/-- The zero width joiner. -/
def joiner : Char := '\u200d'

/-- Characters that nothing joins: controls, line separators and format characters. -/
def standaloneRanges : Ranges :=
  [ (0x0, 0x1f), (0x7f, 0x9f), (0xad, 0xad), (0x61c, 0x61c), (0x180e, 0x180e), (0x200b, 0x200b),
    (0x200e, 0x200f), (0x2028, 0x202e), (0x2060, 0x206f), (0xfeff, 0xfeff), (0xfff0, 0xfffb),
    (0x13430, 0x1343f), (0x1bca0, 0x1bca3), (0x1d173, 0x1d17a), (0xe0000, 0xe001f),
    (0xe0080, 0xe00ff), (0xe01f0, 0xe0fff) ]

/-- Combining marks that take a place of their own behind their base. -/
def spacingMarkRanges : Ranges :=
  [ (0x903, 0x903), (0x93b, 0x93b), (0x93e, 0x940), (0x949, 0x94c), (0x94e, 0x94f),
    (0x982, 0x983), (0x9bf, 0x9c0), (0x9c7, 0x9c8), (0x9cb, 0x9cc), (0xa03, 0xa03),
    (0xa3e, 0xa40), (0xa83, 0xa83), (0xabe, 0xac0), (0xac9, 0xac9), (0xacb, 0xacc),
    (0xb02, 0xb03), (0xb40, 0xb40), (0xb47, 0xb48), (0xb4b, 0xb4c), (0xbbf, 0xbbf),
    (0xbc1, 0xbc2), (0xbc6, 0xbc8), (0xbca, 0xbcc), (0xc01, 0xc03), (0xc41, 0xc44),
    (0xc82, 0xc83), (0xcbe, 0xcbe), (0xcc0, 0xcc1), (0xcc3, 0xcc4), (0xcc7, 0xcc8),
    (0xcca, 0xccb), (0xcf3, 0xcf3), (0xd02, 0xd03), (0xd3f, 0xd40), (0xd46, 0xd48),
    (0xd4a, 0xd4c), (0xd82, 0xd83), (0xdd0, 0xdd1), (0xdd8, 0xdde), (0xdf2, 0xdf3),
    (0xe33, 0xe33), (0xeb3, 0xeb3), (0xf3e, 0xf3f), (0xf7f, 0xf7f), (0x1031, 0x1031),
    (0x103b, 0x103c), (0x1056, 0x1057), (0x1084, 0x1084), (0x1715, 0x1715), (0x1734, 0x1734),
    (0x17b6, 0x17b6), (0x17be, 0x17c5), (0x17c7, 0x17c8), (0x1923, 0x1926), (0x1929, 0x192b),
    (0x1930, 0x1931), (0x1933, 0x1938), (0x1a19, 0x1a1a), (0x1a55, 0x1a55), (0x1a57, 0x1a57),
    (0x1a6d, 0x1a72), (0x1b04, 0x1b04), (0x1b3b, 0x1b3b), (0x1b3d, 0x1b41), (0x1b43, 0x1b44),
    (0x1b82, 0x1b82), (0x1ba1, 0x1ba1), (0x1ba6, 0x1ba7), (0x1baa, 0x1baa), (0x1be7, 0x1be7),
    (0x1bea, 0x1bec), (0x1bee, 0x1bee), (0x1bf2, 0x1bf3), (0x1c24, 0x1c2b), (0x1c34, 0x1c35),
    (0x1ce1, 0x1ce1), (0x1cf7, 0x1cf7), (0xa823, 0xa824), (0xa827, 0xa827), (0xa880, 0xa881),
    (0xa8b4, 0xa8c3), (0xa952, 0xa953), (0xa983, 0xa983), (0xa9b4, 0xa9b5), (0xa9ba, 0xa9bb),
    (0xa9be, 0xa9c0), (0xaa2f, 0xaa30), (0xaa33, 0xaa34), (0xaa4d, 0xaa4d), (0xaaeb, 0xaaeb),
    (0xaaee, 0xaaef), (0xaaf5, 0xaaf5), (0xabe3, 0xabe4), (0xabe6, 0xabe7), (0xabe9, 0xabea),
    (0xabec, 0xabec), (0x11000, 0x11000), (0x11002, 0x11002), (0x11082, 0x11082),
    (0x110b0, 0x110b2), (0x110b7, 0x110b8), (0x1112c, 0x1112c), (0x11145, 0x11146),
    (0x11182, 0x11182), (0x111b3, 0x111b5), (0x111bf, 0x111c0), (0x111ce, 0x111ce),
    (0x1122c, 0x1122e), (0x11232, 0x11233), (0x11235, 0x11235), (0x112e0, 0x112e2),
    (0x11302, 0x11303), (0x1133f, 0x1133f), (0x11341, 0x11344), (0x11347, 0x11348),
    (0x1134b, 0x1134d), (0x11362, 0x11363), (0x11435, 0x11437), (0x11440, 0x11441),
    (0x11445, 0x11445), (0x114b1, 0x114b2), (0x114b9, 0x114b9), (0x114bb, 0x114bc),
    (0x114be, 0x114be), (0x114c1, 0x114c1), (0x115b0, 0x115b1), (0x115b8, 0x115bb),
    (0x115be, 0x115be), (0x11630, 0x11632), (0x1163b, 0x1163c), (0x1163e, 0x1163e),
    (0x116ac, 0x116ac), (0x116ae, 0x116af), (0x116b6, 0x116b6), (0x11726, 0x11726),
    (0x1182c, 0x1182e), (0x11838, 0x11838), (0x11931, 0x11935), (0x11937, 0x11938),
    (0x1193d, 0x1193d), (0x11940, 0x11940), (0x11942, 0x11942), (0x119d1, 0x119d3),
    (0x119dc, 0x119df), (0x119e4, 0x119e4), (0x11a39, 0x11a39), (0x11a57, 0x11a58),
    (0x11a97, 0x11a97), (0x11c2f, 0x11c2f), (0x11c3e, 0x11c3e), (0x11ca9, 0x11ca9),
    (0x11cb1, 0x11cb1), (0x11cb4, 0x11cb4), (0x11d8a, 0x11d8e), (0x11d93, 0x11d94),
    (0x11d96, 0x11d96), (0x11ef5, 0x11ef6), (0x11f03, 0x11f03), (0x11f34, 0x11f35),
    (0x11f3e, 0x11f3f), (0x11f41, 0x11f41), (0x16f51, 0x16f87), (0x16ff0, 0x16ff1),
    (0x1d166, 0x1d166), (0x1d16d, 0x1d16d) ]

/-- Signs that are drawn with the character after them. -/
def prependedRanges : Ranges :=
  [ (0x600, 0x605), (0x6dd, 0x6dd), (0x70f, 0x70f), (0x890, 0x891), (0x8e2, 0x8e2),
    (0xd4e, 0xd4e), (0x110bd, 0x110bd), (0x110cd, 0x110cd), (0x111c2, 0x111c3),
    (0x1193f, 0x1193f), (0x11941, 0x11941), (0x11a3a, 0x11a3a), (0x11a84, 0x11a89),
    (0x11d46, 0x11d46), (0x11f02, 0x11f02) ]

/-- The consonants of the scripts that write conjuncts. -/
def conjunctConsonantRanges : Ranges :=
  [ (0x915, 0x939), (0x958, 0x95f), (0x978, 0x97f), (0x995, 0x9a8), (0x9aa, 0x9b0),
    (0x9b2, 0x9b2), (0x9b6, 0x9b9), (0x9dc, 0x9dd), (0x9df, 0x9df), (0x9f0, 0x9f1),
    (0xa95, 0xaa8), (0xaaa, 0xab0), (0xab2, 0xab3), (0xab5, 0xab9), (0xaf9, 0xaf9),
    (0xb15, 0xb28), (0xb2a, 0xb30), (0xb32, 0xb33), (0xb35, 0xb39), (0xb5c, 0xb5d),
    (0xb5f, 0xb5f), (0xb71, 0xb71), (0xc15, 0xc28), (0xc2a, 0xc39), (0xc58, 0xc5a),
    (0xd15, 0xd3a) ]

/-- The signs that link two consonants to a conjunct. -/
def conjunctLinkers : List Char :=
  ['\u094d', '\u09cd', '\u0acd', '\u0b4d', '\u0c4d', '\u0d4d']

/-- A character that joins neither neighbour. -/
def isStandalone (c : Char) : Bool :=
  standaloneRanges.contains c

/-- A skin tone, which colours the emoji before it. -/
def isModifier (c : Char) : Bool :=
  0x1f3fb ≤ c.toNat && c.toNat ≤ 0x1f3ff

/-- A mark without a place of its own. -/
def isMark (c : Char) : Bool :=
  isExtending c || isModifier c

/-- A mark with a place of its own. -/
def isSpacingMark (c : Char) : Bool :=
  128 ≤ c.toNat && spacingMarkRanges.contains c

/-- A sign that belongs to the character after it. -/
def isPrepended (c : Char) : Bool :=
  128 ≤ c.toNat && prependedRanges.contains c

/-- A consonant that may be part of a conjunct. -/
def isConjunctConsonant (c : Char) : Bool :=
  128 ≤ c.toNat && conjunctConsonantRanges.contains c

/-- A sign that may stand between the consonants of a conjunct. The zero width non-joiner keeps
them apart. -/
def isConjunctSign (c : Char) : Bool :=
  c = joiner || (isMark c && c ≠ '\u200c')

/-- A letter of a flag. -/
def isRegional (c : Char) : Bool :=
  0x1f1e6 ≤ c.toNat && c.toNat ≤ 0x1f1ff

/-- The place of a character in a Hangul syllable: a letter at its start, in its middle or at its
end, or a whole syllable without or with a letter at its end. -/
inductive HangulPart where
  | lead | vowel | tail | openSyllable | closedSyllable
deriving DecidableEq, Repr

/-- The part of a Hangul syllable that a character is. -/
def hangulPart? (c : Char) : Option HangulPart :=
  let n := c.toNat
  if n < 0x1100 then none
  else if n ≤ 0x115f || (0xa960 ≤ n && n ≤ 0xa97c) then some .lead
  else if n ≤ 0x11a7 || (0xd7b0 ≤ n && n ≤ 0xd7c6) then some .vowel
  else if n ≤ 0x11ff || (0xd7cb ≤ n && n ≤ 0xd7fb) then some .tail
  else if 0xac00 ≤ n && n ≤ 0xd7a3 then
    some (if (n - 0xac00) % 28 = 0 then .openSyllable else .closedSyllable)
  else none

end CSurvey.Text
