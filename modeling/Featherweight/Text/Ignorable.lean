import Featherweight.Text.Ranges

/-!
# Ignorable characters

The characters with the property Default_Ignorable_Code_Point: nothing is shown for them where they
have no effect. Most are controls of formats or extenders, but the fillers of Hangul syllables are
letters. The table is that of Unicode 17.0.
-/

namespace Featherweight.Text

/-- The code points for which nothing is shown where they have no effect. -/
def ignorables : Ranges :=
  [(0x00ad, 0x00ad), (0x034f, 0x034f), (0x061c, 0x061c), (0x115f, 0x1160), (0x17b4, 0x17b5),
   (0x180b, 0x180f), (0x200b, 0x200f), (0x202a, 0x202e), (0x2060, 0x206f), (0x3164, 0x3164),
   (0xfe00, 0xfe0f), (0xfeff, 0xfeff), (0xffa0, 0xffa0), (0xfff0, 0xfff8), (0x1bca0, 0x1bca3),
   (0x1d173, 0x1d17a), (0xe0000, 0xe0fff)]

theorem apart_ignorables : ignorables.apart = true := by decide

/-- Is nothing shown for the character where it has no effect? -/
def isIgnorable (c : Char) : Bool := ignorables.contains c

end Featherweight.Text
