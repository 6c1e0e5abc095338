import LanguageClient.Text.Runs

/-!
# Characters that are not shown as themselves

The characters that a quoted text spells by their number: controls, format characters, surrogates,
private-use and unassigned code points, all separators other than the blank, the marks that extend
the character before them, and the fillers that are shown as nothing at all. The two halfwidth sound
marks U+FF9E and U+FF9F extend the character before them too, but take up room of their own and are
shown. The table follows Unicode 17 and begins at U+007F.
-/

namespace LanguageClient.Text

def unprintableRuns : List Nat := readRuns 0 <| List.flatMap String.toList [
  "aImb594 112 icgehbbbub224 h166 bMcYcdUbbbcbcbjBegrklbbUvqb101 ibgccbeGcbbED89 lboRjhdyebjbdbhpb",
  "zfbblfGqQ57 55 bbbeiebdhkcDbcbicccwbhbbdedbbcgcccbbncbdeyfbbgeccwbhbcbcbcedyebbhkcdbbmbbjbdbwbh",
  "bcbfdeibbcdbpcemhbicbicccwbhbcbfdbcbgcccpcbdeslbbgddbedcbbbcdcdddmfbbcddbddbvvgdbibdbxbqdbdetdb",
  "cccekhkblbdbxbkbfdccbbcxdbcekbdolbdbPcbbcfdbdbcedbkeAccbsdybjbbchjcghhkcdmWbcliinLcbbbfbybbbkbc",
  "jbcfbbjkceGycBbbbbbobKsbfbcfXibgbnLTebgbccczcedqenbccgbpbObbfbc143 c232 bechbbbecPbecHbechbbbec",
  "pb57 bec67 fDdAg86 cgc640 bCd89 hsntdcjsonbdp52 cbhibcljdkgkglfkg89 hfcIbbf70 kFeecdecbghbdQcfl",
  "SeAgld57 ccd56 bbjbbcignkgkgo86 WkedibDjmcGecg56 bbcdbbnWicfpd62 fRcllbnbhebgbdcbf192 64 278 cg",
  "cMcgcibbbbbbbFc53 bpbocgbtcdbjryiVrccBbndI62 140 e666 wlv1812 c377 dcfTbbfbc56 hcpxjhbhbhbhbhbh",
  "bhbhH94 IAb89 m214 AqbPgqb86 e101 fRbZbQb86 jWb29293 d55 j348 uVebkGc80 cgi221 urbdbebzcfekg56 ",
  "i68 kmynbMizlbmEgWbcecccbnblehbzbPgcccldbibbckcGbZbbdccfcbbbyrcilgcgcgjhbhb60 e117 bcbedkg11172",
  " mxeX8452 366 c106 Mhmffbbybfbbbcbcb650 GqqkwJbtbeefb135 e159 bEdgcgcgcddhbhnccmbAbtbcbpcoI123 ",
  "fdeTd88 bndbVT131 DdXqBeKjEfMkEbLeoQ158 ckgKeKeOi52 lmbpbhbcblbpbhbcd52 m311 jwkiygbQbj69 gcbbS",
  "bcdbcxb72 ijWtbcfHdBfBM56 eucVpebdbDkjhjh64 GLgmj54 dDcBfAhemh80 73 55 ZnZhQmkgMiyic208 FbQdbcc",
  "qgijNOiwljwseeMCuxjbb54 pheEbccbmXecccbeozhkjKfbjsiJbdl52 jbbiecbqbulsbCdcegbc63 hbbbebpblgVbdn",
  "kicbicccwbhbcbfdbbbbeccccdbmhCkbbcbbMbbbcpbbcdbbdbcN56 icdbbvbbbdEWbcgbbcbbcbceik166 VbcgecbcBK",
  "ZicbbcelkgntRbbbcicgkguCBdbbcebjx185 Vjbcb100 83 micbcibcbybfbcgebdjk70 icQiebeBbkOgceijbgcdUnb",
  "cjn73 hk87 bdbbb88 IokgjbMobbgkDdGzbhbcb75 hbcbMvbjkggbcbLecbbbbhkgSek246 tcejpbKicdx86 bpYn923",
  " 102 111 bfl196 2636 99 n1072 rgz3995 f583 6841 Emddk1734 569 hFbke81 bkgEhbkWhpkkbhbvft432 58 ",
  "198 91 fzczS75 f56 ln64 eofj7382 PG97 115 8701 ebhbcb291 pbDdcboei396 2308 107 fndjhkcbcb3936 2",
  "53 d436 gxpr95 116 60 246 kNc60 fdwchEe61 v66 db122 umum87 jz135 85 b71 bccbcccebmbbbhb65 becib",
  "hbCbebfbbdhb340 c292 c562 55 eYibobh1140 Fgg261 62 146 Tkhckec320 EsSekfb464 Cek214 Ecleb192 Fb",
  "dbcbhcfjc224 hbebcbpb197 cjW68 hbekec785 68 76 61 194 ebBbcbbcbbkbebbbbgbebbbbbbdbcbbcbbbbbbbbb",
  "bcbbcebhbebebbbkbrfdbfbr52 c270 Se100 mpcpbpbLk174 56 DnSejhcog154 985 drdnd218 gmebpme56 ikgOi",
  "EcmecojN344 iocndld57 bbeqcmekh147 b103 1029 42720 G4382 c5774 c7473 p622 2466 542 1506 4939 f8",
  "490 904070 "]

/-- Whether a character is shown as itself inside a quoted text. The ASCII range is decided without
the table. -/
def isPrintable (c : Char) : Bool :=
  let n := c.toNat
  if n < 0x7F then 0x20 ≤ n else !inRuns unprintableRuns (n - 0x7F)

end LanguageClient.Text
