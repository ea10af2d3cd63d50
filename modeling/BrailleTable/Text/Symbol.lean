/-
The symbols: code points whose general category is one of Sm, Sc, Sk and So in edition 17 of the Unicode
character database.
-/
import BrailleTable.Text.RangeTable

namespace BrailleTable
namespace CodePoint

/-- The ranges of symbols, in ascending order. -/
def symbols : RangeTable :=
  [(0x24, 0x24), (0x2b, 0x2b), (0x3c, 0x3e), (0x5e, 0x5e), (0x60, 0x60), (0x7c, 0x7c),
   (0x7e, 0x7e), (0xa2, 0xa6), (0xa8, 0xa9), (0xac, 0xac), (0xae, 0xb1), (0xb4, 0xb4),
   (0xb8, 0xb8), (0xd7, 0xd7), (0xf7, 0xf7), (0x2c2, 0x2c5), (0x2d2, 0x2df), (0x2e5, 0x2eb),
   (0x2ed, 0x2ed), (0x2ef, 0x2ff), (0x375, 0x375), (0x384, 0x385), (0x3f6, 0x3f6),
   (0x482, 0x482), (0x58d, 0x58f), (0x606, 0x608), (0x60b, 0x60b), (0x60e, 0x60f),
   (0x6de, 0x6de), (0x6e9, 0x6e9), (0x6fd, 0x6fe), (0x7f6, 0x7f6), (0x7fe, 0x7ff),
   (0x888, 0x888), (0x9f2, 0x9f3), (0x9fa, 0x9fb), (0xaf1, 0xaf1), (0xb70, 0xb70),
   (0xbf3, 0xbfa), (0xc7f, 0xc7f), (0xd4f, 0xd4f), (0xd79, 0xd79), (0xe3f, 0xe3f),
   (0xf01, 0xf03), (0xf13, 0xf13), (0xf15, 0xf17), (0xf1a, 0xf1f), (0xf34, 0xf34),
   (0xf36, 0xf36), (0xf38, 0xf38), (0xfbe, 0xfc5), (0xfc7, 0xfcc), (0xfce, 0xfcf),
   (0xfd5, 0xfd8), (0x109e, 0x109f), (0x1390, 0x1399), (0x166d, 0x166d), (0x17db, 0x17db),
   (0x1940, 0x1940), (0x19de, 0x19ff), (0x1b61, 0x1b6a), (0x1b74, 0x1b7c), (0x1fbd, 0x1fbd),
   (0x1fbf, 0x1fc1), (0x1fcd, 0x1fcf), (0x1fdd, 0x1fdf), (0x1fed, 0x1fef), (0x1ffd, 0x1ffe),
   (0x2044, 0x2044), (0x2052, 0x2052), (0x207a, 0x207c), (0x208a, 0x208c), (0x20a0, 0x20c1),
   (0x2100, 0x2101), (0x2103, 0x2106), (0x2108, 0x2109), (0x2114, 0x2114), (0x2116, 0x2118),
   (0x211e, 0x2123), (0x2125, 0x2125), (0x2127, 0x2127), (0x2129, 0x2129), (0x212e, 0x212e),
   (0x213a, 0x213b), (0x2140, 0x2144), (0x214a, 0x214d), (0x214f, 0x214f), (0x218a, 0x218b),
   (0x2190, 0x2307), (0x230c, 0x2328), (0x232b, 0x2429), (0x2440, 0x244a), (0x249c, 0x24e9),
   (0x2500, 0x2767), (0x2794, 0x27c4), (0x27c7, 0x27e5), (0x27f0, 0x2982), (0x2999, 0x29d7),
   (0x29dc, 0x29fb), (0x29fe, 0x2b73), (0x2b76, 0x2bff), (0x2ce5, 0x2cea), (0x2e50, 0x2e51),
   (0x2e80, 0x2e99), (0x2e9b, 0x2ef3), (0x2f00, 0x2fd5), (0x2ff0, 0x2fff), (0x3004, 0x3004),
   (0x3012, 0x3013), (0x3020, 0x3020), (0x3036, 0x3037), (0x303e, 0x303f), (0x309b, 0x309c),
   (0x3190, 0x3191), (0x3196, 0x319f), (0x31c0, 0x31e5), (0x31ef, 0x31ef), (0x3200, 0x321e),
   (0x322a, 0x3247), (0x3250, 0x3250), (0x3260, 0x327f), (0x328a, 0x32b0), (0x32c0, 0x33ff),
   (0x4dc0, 0x4dff), (0xa490, 0xa4c6), (0xa700, 0xa716), (0xa720, 0xa721), (0xa789, 0xa78a),
   (0xa828, 0xa82b), (0xa836, 0xa839), (0xaa77, 0xaa79), (0xab5b, 0xab5b), (0xab6a, 0xab6b),
   (0xfb29, 0xfb29), (0xfbb2, 0xfbd2), (0xfd40, 0xfd4f), (0xfd90, 0xfd91), (0xfdc8, 0xfdcf),
   (0xfdfc, 0xfdff), (0xfe62, 0xfe62), (0xfe64, 0xfe66), (0xfe69, 0xfe69), (0xff04, 0xff04),
   (0xff0b, 0xff0b), (0xff1c, 0xff1e), (0xff3e, 0xff3e), (0xff40, 0xff40), (0xff5c, 0xff5c),
   (0xff5e, 0xff5e), (0xffe0, 0xffe6), (0xffe8, 0xffee), (0xfffc, 0xfffd), (0x10137, 0x1013f),
   (0x10179, 0x10189), (0x1018c, 0x1018e), (0x10190, 0x1019c), (0x101a0, 0x101a0),
   (0x101d0, 0x101fc), (0x10877, 0x10878), (0x10ac8, 0x10ac8), (0x10d8e, 0x10d8f),
   (0x10ed1, 0x10ed8), (0x1173f, 0x1173f), (0x11fd5, 0x11ff1), (0x16b3c, 0x16b3f),
   (0x16b45, 0x16b45), (0x1bc9c, 0x1bc9c), (0x1cc00, 0x1ccef), (0x1ccfa, 0x1ccfc),
   (0x1cd00, 0x1ceb3), (0x1ceba, 0x1ced0), (0x1cee0, 0x1cef0), (0x1cf50, 0x1cfc3),
   (0x1d000, 0x1d0f5), (0x1d100, 0x1d126), (0x1d129, 0x1d164), (0x1d16a, 0x1d16c),
   (0x1d183, 0x1d184), (0x1d18c, 0x1d1a9), (0x1d1ae, 0x1d1ea), (0x1d200, 0x1d241),
   (0x1d245, 0x1d245), (0x1d300, 0x1d356), (0x1d6c1, 0x1d6c1), (0x1d6db, 0x1d6db),
   (0x1d6fb, 0x1d6fb), (0x1d715, 0x1d715), (0x1d735, 0x1d735), (0x1d74f, 0x1d74f),
   (0x1d76f, 0x1d76f), (0x1d789, 0x1d789), (0x1d7a9, 0x1d7a9), (0x1d7c3, 0x1d7c3),
   (0x1d800, 0x1d9ff), (0x1da37, 0x1da3a), (0x1da6d, 0x1da74), (0x1da76, 0x1da83),
   (0x1da85, 0x1da86), (0x1e14f, 0x1e14f), (0x1e2ff, 0x1e2ff), (0x1ecac, 0x1ecac),
   (0x1ecb0, 0x1ecb0), (0x1ed2e, 0x1ed2e), (0x1eef0, 0x1eef1), (0x1f000, 0x1f02b),
   (0x1f030, 0x1f093), (0x1f0a0, 0x1f0ae), (0x1f0b1, 0x1f0bf), (0x1f0c1, 0x1f0cf),
   (0x1f0d1, 0x1f0f5), (0x1f10d, 0x1f1ad), (0x1f1e6, 0x1f202), (0x1f210, 0x1f23b),
   (0x1f240, 0x1f248), (0x1f250, 0x1f251), (0x1f260, 0x1f265), (0x1f300, 0x1f6d8),
   (0x1f6dc, 0x1f6ec), (0x1f6f0, 0x1f6fc), (0x1f700, 0x1f7d9), (0x1f7e0, 0x1f7eb),
   (0x1f7f0, 0x1f7f0), (0x1f800, 0x1f80b), (0x1f810, 0x1f847), (0x1f850, 0x1f859),
   (0x1f860, 0x1f887), (0x1f890, 0x1f8ad), (0x1f8b0, 0x1f8bb), (0x1f8c0, 0x1f8c1),
   (0x1f8d0, 0x1f8d8), (0x1f900, 0x1fa57), (0x1fa60, 0x1fa6d), (0x1fa70, 0x1fa7c),
   (0x1fa80, 0x1fa8a), (0x1fa8e, 0x1fac6), (0x1fac8, 0x1fac8), (0x1facd, 0x1fadc),
   (0x1fadf, 0x1faea), (0x1faef, 0x1faf8), (0x1fb00, 0x1fb92), (0x1fb94, 0x1fbef),
   (0x1fbfa, 0x1fbfa)]

def isSymbol (c : CodePoint) : Bool := symbols.contains c.val

end CodePoint
end BrailleTable
