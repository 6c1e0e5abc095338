import LanguageClient.Text.Runs

/-!
# Letters and numerals of all scripts

The characters with the Unicode property `Alphabetic` and those of the general categories for
numerals (decimal digits, letter numerals and other numerals), after Unicode 17. The table begins at
U+0080.
-/

namespace LanguageClient.Text

def alphanumericRuns : List Nat := readRuns 0 <| List.flatMap String.toList [
  "QbhcbbdcbdbxbFb458 emofhbbb86 bDsbccebbgbbdbbbub83 b139 i166 bMcbgPNobbbcbcbbiBeeDlf56 bre102 b",
  "ieieqcbqWn101 oRjcebfycttzhlfybhhbiQkmdhg76 bqbdepckbtbicccwbhbbdediccccbbibecbfcmcgcbedbgeccwb",
  "hbcbcbcefecccebhebbhqldbjbdbwbhbcbfdjbdbcdbpeckjeedbicccwbhbcbfdiccccjcecbfckbhkcbgddbedcbbbcdc",
  "dddmefddbddbgbonnnbdbxbqdibdbdicbdbcceckihbebibdbxbkbfdibdbdicfdbeckbdmnbdbPcibdbdbbfqctbgbdbsd",
  "ybjbbchigbbbigkccn58 fhgbckNcbbbfbybbbtbdcfbbgbckceGbFumibKeteqbK67 55 bbcpg78 cMbbfbcRb333 bec",
  "hbbbecPbecHbechbbbecpb57 bec67 oudqq86 cgd620 crbAf75 dlhulvmumnbdbcm52 ctobebdkgkwkg89 hRf70 k",
  "FbmejnOcflSeAglLCe63 culkgknbxcldX52 bpbidkMQc58 blo55 jkdXclfRcdPebgbcdbf192 tIl278 cgcMcgcibb",
  "bbbbbFc53 bhbbddbhdecgenfdbh115 ccgflgn101 bebckbbdfgbbbbbbeblceffebb58 726 60 A74 630 E1132 22",
  "9 gedcjbcMbbfbc56 hbqxjhbhbhbhbhbhbhbhbGVb469 dzjhfcfe86 gdb90 befRb94 dekGWqGkEibpGkNp320 6592",
  " 64 22157 67 Uc269 dCuVfid113 Njc103 c82 uvbHigk52 m68 bbkkygdbbUfJnDdZbmplgFb55 jockgxd69 bbbb",
  "ydcqcelgcgcgjhbhbRbog123 fkg11172 mxeX8452 366 c106 Mhmffmbnbfbbbcbcb108 H363 s64 c54 Om116 fb1",
  "35 tkhAgAl89 dgcgcgcdJmbAbtbcbpcoI123 mTm57 rc244 DdXqBeKjEfRfEcKeibfQ158 ckgKeKeOi52 mlbpbhbcb",
  "lbpbhbcd52 m311 jwkiygbQbj69 gcbbSbcdbcxcFcMijWtbcfHeAgAM56 eucYbcfibdbDkjxFbGGibCgfq54 kwcBfAx",
  "h80 73 55 ZnZhUikgMdbfx218 FbQbcdcqgYddOiwleBsUCuxj70 mEbfk57 jbnzhkgZdkeeiJdbj64 bejnbbeulsbIc",
  "bge62 hbbbebpbkh57 hkgebicccwbhbcbfdiccccdbgbfhCkbbcbbMbkbbcbbebcdbbbS66 bdbefkfdE66 ccbbik166 ",
  "54 chzgI63 bbdblkM54 cbhkguCBcofmeh185 57 103 83 micbcibcbEbccccenk70 icUcgbbbcBZckr72 fbs73 10",
  "3 i88 HpkgjbTbhbbpDfEcwbo73 hbcbSdbbcbdbbccikggbcbLbcbebbhkgSek246 xjrbPddpk86 bpvR922 102 111 ",
  "r196 2636 97 p1072 rgz3995 f583 6841 Vbk1734 569 hFbkg79 bkgEsWqemkbhbvft432 Tdk198 87 jzczS75 ",
  "e57 hr64 cbbmhj7382 PG97 115 8701 ebhbcb291 pbDdcboei396 2308 107 fndjhkeb4177 k1478 umu108 z13",
  "5 85 b71 bccbcccebmbbbhb65 becibhbCbebfbbdhb340 czbzbFbzbFbzbFbzbFbzbicY1792 Fgg213 hbrchbcbff6",
  "2 Hb112 Tkhckeb321 EsSek470 Cek214 Ecl197 Fbwic224 hbebcbpb197 cjW68 dbdbek791 59 bdbe76 Tbp194",
  " ebBbcbbcbbkbebbbbgbebbbbbbdbcbbcbbbbbbbbbbcbbcebhbebebbbkbrfdbfbr580 nJAgAgA2662 k1030 42720 G",
  "4382 c5774 c7473 p622 2466 542 1506 4939 f8490 "]

/-- Whether a character is a letter or a numeral of some script. The ASCII range is decided without
the table. -/
def isAlphanumeric (c : Char) : Bool :=
  let n := c.toNat
  if n < 0x80 then c.isAlphanum else inRuns alphanumericRuns (n - 0x80)

end LanguageClient.Text
