import Registrar.Unicode.CharSet

/-!
# Scripts

The characters of each script, and those that are used with it. A name is looked up in its loose
form: small letters, without blanks, hyphens and underscores.
-/

namespace Registrar.Script

structure Row where
  names : List String
  table : String
  /-- The characters that are used with it, if they are not just its own. -/
  used : Option String

def rows : List Row := [
  ⟨["adlam", "adlm"],
    "AIw3L24941",
    some "+Q10A10OQ60RP30.VO3L24941"⟩,
  ⟨["aghb", "caucasianalbanian"],
    "QJB2T1b0",
    some "Eo0M10M10ROA2T1b0"⟩,
  ⟨["ahom"],
    "AYF2q2e4m",
    none⟩,
  ⟨["arab", "arabic"],
    "AQ14151d121v19bp1L31B1Q2P1Q7u115K21sQSy1S3gKb2P22V170A1fQ341G4Dx3uD22X13AYX131q111020191" ++
    "3101060401010121110201010101011102316131310191g52141gU11",
    some ("AQ141W61B1Q2P1Q7u115K21sPw50RP30OIT1S3gyd2V170A1fQ341G4DvrEx2uD22X13AYX131q11102019" ++
    "13101060401010121110201010101011102316131310191g52141gU11")⟩,
  ⟨["armi", "imperialaramaic"],
    "ACC2l18",
    none⟩,
  ⟨["armenian", "armn"],
    "RJ1F12R122DMz14",
    some "Io0IhF12R122DMz14"⟩,
  ⟨["avestan", "avst"],
    "AYC2V136",
    some "X50YLb1OGX1V136"⟩,
  ⟨["bali", "balinese"],
    "AY6M21R1",
    none⟩,
  ⟨["bamu", "bamum"],
    "AVJ1X2IIQ1Yh",
    none⟩,
  ⟨["bass", "bassavah"],
    "QWw2t25",
    none⟩,
  ⟨["batak", "batk"],
    "A.6T183",
    none⟩,
  ⟨["beng", "bengali"],
    "AM2317212l1610332821238041142o",
    some "yl0UU11h1q317212l1610332821238041142oRW401021108080204022Z+C10"⟩,
  ⟨["bhaiksuki", "bhks"],
    "AAH281M11das",
    none⟩,
  ⟨["bopo", "bopomofo"],
    "Kn1ZQbK1Q3v",
    some "Hm012d0g1VIb2491ca32060D609K1Q3vFET11w84"⟩,
  ⟨["brah", "brahmi"],
    "AAE2N24D190",
    none⟩,
  ⟨["brai", "braille"],
    "AAa+7",
    none⟩,
  ⟨["bugi", "buginese"],
    "AQ6r21",
    some "AQ6r21PzD10"⟩,
  ⟨["buhd", "buhid"],
    "Aw5j",
    some "VZ519j"⟩,
  ⟨["cakm", "chakma"],
    "AIE2U11h",
    some "GP29QS19WFA2U11h"⟩,
  ⟨["canadianaboriginal", "cans"],
    "AA5+jQhF2wNA2f",
    none⟩,
  ⟨["cari", "carian"],
    "AVA2Q1",
    some "X50Cz7020TO30ODV1Q1"⟩,
  ⟨["cham"],
    "AQK1W19d2923",
    none⟩,
  ⟨["cher", "cherokee"],
    "Az4V225SxF1P2",
    some "Ao21061m1b1OD4V225SxF1P2"⟩,
  ⟨["chorasmian", "chrs"],
    "QzD2r",
    none⟩,
  ⟨["copt", "coptic", "qaac"],
    "CvdQEaT356",
    some "X50Ii03110M31M3dQEaT356X80IGV1r"⟩,
  ⟨["cpmn", "cyprominoan"],
    "QyL2C3",
    some "AIA21OUbC3"⟩,
  ⟨["cprt", "cypriot"],
    "AAC25201L1113020",
    some "AIA224M138AW15201L1113020"⟩,
  ⟨["cyrillic", "cyrl"],
    "AA1E42I5Qw5aA50M20HD4vACu+2Oyl1AQY1z1B10",
    some "yl0D221010102050O7P9Qw5aA50M20+30H+3vD20y+t+2Oyl1AQY1z1B10"⟩,
  ⟨["deva", "devanagari"],
    "AI2Q24e2pAxH1vAQs9",
    some "yl0DS1S22K1Qw4G111Wv0+ZB19G5vAQs9"⟩,
  ⟨["diak", "divesakuru"],
    "AIG262027111t112b99",
    none⟩,
  ⟨["dogr", "dogra"],
    "AAG2x1",
    some "EL2bAWH19G.rx1"⟩,
  ⟨["deseret", "dsrt"],
    "AAB2P2",
    none⟩,
  ⟨["dupl", "duployan"],
    "AAP3K35c387923",
    some "X50Pi110o1XYa0DOD3K35c387927"⟩,
  ⟨["egyp", "egyptianhieroglyphs"],
    "AAM2VC1awy3",
    none⟩,
  ⟨["elba", "elbasan"],
    "AIB2H1",
    some "X50Ni0wPA2H1"⟩,
  ⟨["elym", "elymaic"],
    "A+D2m",
    none⟩,
  ⟨["ethi", "ethiopic"],
    "AQ4I2132610132I1132A1132610132e1Y1132C22v3pGP6m9616161616161616CJv525259616RFP2613111e",
    some ("Oo0RX3I2132610132I1132A1132610132e1Y1132C22v3pGP6m9616161616161616CJv525259616RFP26" ++
    "13111e")⟩,
  ⟨["geor", "georgian"],
    "AF4F110502K113Qy2K122AC4F11050",
    some "X50RG10WY2F110502P1Qy2K122ws0FF3F11050D80"⟩,
  ⟨["glag", "glagolitic"],
    "AAb+2AzM361g261114",
    some "X50Li010.b020B80Rx20.w30Fz2+2Df0LBu0QMO261g261114"⟩,
  ⟨["gong", "gunjalagondi"],
    "ALH25111E1111579",
    some "X50MF21w+E25111E1111579"⟩,
  ⟨["gonm", "masaramgondi"],
    "AIH26111L130111889",
    some "EL21wyE26111L130111889"⟩,
  ⟨["goth", "gothic"],
    "QZA2q",
    some "X50Mi120I10.++1q"⟩,
  ⟨["gran", "grantha"],
    "AYE2317212l1611142821222060562634",
    some "RK21h1AkdyG4011u231Wv0PQy1317212l1611141921222060562634xC3110"⟩,
  ⟨["greek", "grek"],
    "Qr3122310401012101j1.1efGJ64S1444U20Aal252F125271010101u2U11e1d251i2218H90.RC10wOlO2h0+C" ++
    "U1F2",
    some ("X50Ii1201010a0O1020K172310401012101j1.1efGJ64S1444U22.9l252F125271010101u2U11e1d251" ++
    "i2218.20I60.RC10wOlO2h0+CU1F2")⟩,
  ⟨["gujarati", "gujr"],
    "BU2218121l16111429121220f32b76",
    some "RK21h1x8218121l16111429121220f32b76QJH19"⟩,
  ⟨["gurmukhi", "guru"],
    "BQ2215412l16111111201441223073107g",
    some "RK21h1x4215412l16111111201441223073107gZNH19"⟩,
  ⟨["hang", "hangul"],
    "AI4+7OR71B8z2R3uB2uBXtsDkDzacm4Q1Ez9u35252522",
    some "AI4+7BQ72491ce260D60V1z2R3uB2uBXtsDkDzacm4Q1JS91w84w1u35252522"⟩,
  ⟨["han", "hani"],
    "AUbp1Y2cV6P1010p8e3Eu+N6A2+PkAImNb2J3IIt1c1OAE1+WJ1A1ZB46z62BU5eQJ7fNjCN2zgCP1Kw45+C4",
    some ("X50IObp1Y2cV6qf121c1c1c2068x50U4fA1F190Q1H1Y1Q1fbT10Y2oa4A3u1+N6A2+PkAY17YPkNb2J3Lr" ++
    "1w84yDs1c1Oxoh.W71ON3+WJ1A1ZB46z62BU5eQJ7fNjCN2zgCP1Kw45+C4")⟩,
  ⟨["hano", "hanunoo"],
    "AZ5k",
    some "AZ5m"⟩,
  ⟨["hatr", "hatran"],
    "AHC2i1154",
    none⟩,
  ⟨["hebr", "hebrew"],
    "RM1W18q45IJz1p1410111119",
    some "Ho1IkW18q45IJz1p1410111119"⟩,
  ⟨["hira", "hiragana"],
    "BCcV262Bx+2.8i0t2NFg0",
    some "BAc2491cg510413V227w21IKT11w84a0N11BDM1.8i0t2NFg0"⟩,
  ⟨["anatolianhieroglyphs", "hluw"],
    "AAR2Gi",
    none⟩,
  ⟨["hmng", "pahawhhmong"],
    "AYw2F2a9161k5i",
    none⟩,
  ⟨["hmnp", "nyiakengpuachuehmong"],
    "AIY3M13d2941",
    none⟩,
  ⟨["hung", "oldhungarian"],
    "AED2S1dS175",
    some "wC8020TO30f0.RX1S1dS175"⟩,
  ⟨["ital", "olditalic"],
    "AYA2D192",
    none⟩,
  ⟨["java", "javanese"],
    "AMK1N22941",
    some "AMK1N21a41"⟩,
  ⟨["kali", "kayahli"],
    "AIK1N110",
    some "AIK1P1"⟩,
  ⟨["kana", "katakana"],
    "BFcZ222Q7fQ6O11X2OAT191M1SCM13161110+82S10e3",
    some "Fo0t0zGb2491cg51041x233+2Q7fQ6O11X2NXS11w8.1QCM13161110+82S10e3"⟩,
  ⟨["kawi"],
    "AYH2g1I13s",
    none⟩,
  ⟨["khar", "kharoshthi"],
    "AQC231157121s224978",
    none⟩,
  ⟨["khmer", "khmr"],
    "Ay5z22969Gfv",
    none⟩,
  ⟨["khoj", "khojki"],
    "AQE2h1O1",
    some "GX29AKH19GOqh1O1"⟩,
  ⟨["khitansmallscript", "kits"],
    "E+x20xY6VeJ10",
    none⟩,
  ⟨["kannada", "knda"],
    "AE3c121m19142812137161132912",
    some "RK21h1woc121m19142812137161132912y.301160n010xZC15"⟩,
  ⟨["kaithi", "kthi"],
    "AEE2C2a0",
    some "GL29BG90.Pu9GCqC2a0"⟩,
  ⟨["lana", "taitham"],
    "AR6.11s2a696d",
    none⟩,
  ⟨["lao", "laoo"],
    "BU3110141n101m2410161923",
    none⟩,
  ⟨["latin", "latn"],
    "B2p6pP10f05m1u1AeH14xQ6F16Q1535c1F2B2+7Rb0d0gcN4160r0hI1XW2vCVuF33C2211017ldQpK11813Wyj6" ++
    "wA1p6pFB251J118FwV1u65",
    some ("B2p6pP10c0205m1u1Ae30a01210901064re1110f27111G10504cV81KG11Iz10EA3F16Q1535c1F2Z107+" ++
    "7P90B20d0gcT20Z1160r0hI1XW2vXc0IHu7qF33C2211017ldO90BgK11813Wyj6wA1p6pFB251J118FwV1u65")⟩,
  ⟨["lepc", "lepcha"],
    "AA7X13e32",
    none⟩,
  ⟨["limb", "limbu"],
    "AI6u1b4b403b",
    some "FL20wy3u1b4b403b"⟩,
  ⟨["lina", "lineara"],
    "AQB2W99la7",
    some "HIA2M1MG1W99la7"⟩,
  ⟨["linb", "linearb"],
    "AAA2b1p1i111e2dC1w3",
    some "AAA2b1p1i111e2dC1w3524M138"⟩,
  ⟨["lisu"],
    "QGJ1P1QVu0",
    some "yl0g0yJb1EGtP1QVu0"⟩,
  ⟨["lyci", "lycian"],
    "AUA2s",
    some "wC80FRY1s"⟩,
  ⟨["lydi", "lydian"],
    "AJC2p50",
    some "X50ZLb0OXW1p50"⟩,
  ⟨["mahajani", "mahj"],
    "QKE2G1",
    some "X50MF2bAWH19WIqG1"⟩,
  ⟨["maka", "makasar"],
    "AXH2o",
    none⟩,
  ⟨["mand", "mandaic"],
    "AC2r20",
    some "AS10+fr20"⟩,
  ⟨["mani", "manichaean"],
    "AWC2G14b",
    some "AS10+DB2G14b"⟩,
  ⟨["marc", "marchen"],
    "QDH2v2l1d",
    none⟩,
  ⟨["medefaidrin", "medf"],
    "ASx2w2",
    none⟩,
  ⟨["mend", "mendekikakui"],
    "AAw3E62f",
    none⟩,
  ⟨["merc", "meroiticcursive"],
    "ANC2n4j2N1",
    none⟩,
  ⟨["mero", "meroitichieroglyphs"],
    "AMC2v",
    some "zC80CJw1v"⟩,
  ⟨["malayalam", "mlym"],
    "AI3c121S112154f2p",
    some "RK21h1wsc121S112154f2pww30n0zZC12"⟩,
  ⟨["modi"],
    "AQF2E2b9",
    some "QBK19GOrE2b9"⟩,
  ⟨["mong", "mongolian"],
    "AA61201j6Y27K1VN+1c",
    some "AA6p6Y27K1Ey10R.3153USZ1c"⟩,
  ⟨["mro", "mroo"],
    "ASw2u1941",
    none⟩,
  ⟨["meeteimayek", "mtei"],
    "AXK1mJ6N129",
    none⟩,
  ⟨["mult", "multani"],
    "AUE2610131e1a",
    some "GT29QAC2610131e1a"⟩,
  ⟨["myanmar", "mymr"],
    "AA4+4AKG1uB3vQCrj",
    some "AA4+4OEG10R5uB3vQCrj"⟩,
  ⟨["nagm", "nagmundari"],
    "QGZ3J1",
    none⟩,
  ⟨["nand", "nandinagari"],
    "ANG272N12a",
    some "EL21As9Z+308070VZC15KLs72N12a"⟩,
  ⟨["narb", "oldnortharabian"],
    "AUC2v",
    none⟩,
  ⟨["nabataean", "nbat"],
    "AEC2u88",
    none⟩,
  ⟨["newa"],
    "AAF2x214",
    none⟩,
  ⟨["nko", "nkoo"],
    "A.1w122",
    some "MQ10e030Adw122.Jz11"⟩,
  ⟨["nshu", "nushu"],
    "B+x20OMgLc",
    none⟩,
  ⟨["ogam", "ogham"],
    "AU5s",
    none⟩,
  ⟨["olchiki", "olck"],
    "QC7P1",
    none⟩,
  ⟨["oldturkic", "orkh"],
    "AAD2I2",
    some "wC80VO30POX1I2"⟩,
  ⟨["oriya", "orya"],
    "BY2217212l1611142821227241142h",
    some "RK21h1xc217212l1611142821227241142hCL40n0"⟩,
  ⟨["osage", "osge"],
    "QFB2D14D1",
    some "Bo02060M20XKA2D14D1"⟩,
  ⟨["osma", "osmanya"],
    "AEB2t29",
    none⟩,
  ⟨["olduyghur", "ougr"],
    "QxD2p",
    some "AS10RFB20zD1p"⟩,
  ⟨["palm", "palmyrene"],
    "ADC2v",
    none⟩,
  ⟨["pauc", "paucinhau"],
    "AWG2Y1",
    none⟩,
  ⟨["oldpermic", "perm"],
    "QwA2K1",
    some "X50Ii052a0Pb0MW+1K1"⟩,
  ⟨["phag", "phagspa"],
    "ACK1X1",
    some "CA6110JB20S.30zBuX1"⟩,
  ⟨["inscriptionalpahlavi", "phli"],
    "AxC2i57",
    none⟩,
  ⟨["phlp", "psalterpahlavi"],
    "AyC2h73c6",
    some "AS10+JB2h73c6"⟩,
  ⟨["phnx", "phoenician"],
    "AIC2r30",
    none⟩,
  ⟨["miao", "plrd"],
    "AYx2K24Y17g",
    none⟩,
  ⟨["inscriptionalparthian", "prti"],
    "AwC2l27",
    none⟩,
  ⟨["rejang", "rjng"],
    "QJK1D1b0",
    none⟩,
  ⟨["hanifirohingya", "rohg"],
    "AID2H189",
    some "MQ10e030A10T40LRB2H189"⟩,
  ⟨["runic", "runr"],
    "AV5K23a",
    some "AV5Y2"⟩,
  ⟨["samaritan", "samr"],
    "AA2N12e",
    some "AA2N12eSP90"⟩,
  ⟨["oldsoutharabian", "sarb"],
    "ATC2v",
    none⟩,
  ⟨["saur", "saurashtra"],
    "AEK1F28b",
    none⟩,
  ⟨["sgnw", "signwriting"],
    "AAW3Lkf41e",
    none⟩,
  ⟨["shavian", "shaw"],
    "QCB2P1",
    some "X50YyA2P1"⟩,
  ⟨["sharada", "shrd"],
    "AME2+2",
    some "RK20Fy40102120PwC1520HKq+2"⟩,
  ⟨["sidd", "siddham"],
    "AMF2V12F1",
    none⟩,
  ⟨["khudawadi", "sind"],
    "QVE2w159",
    some "EL21KWH19WTqw159"⟩,
  ⟨["sinh", "sinhala"],
    "BM321h3n181026304510176922M+A2j",
    some "EL21xA121h3n181026304510176922zX30OHz1j"⟩,
  ⟨["sogd", "sogdian"],
    "QZD2J1",
    some "AS10PHC2J1"⟩,
  ⟨["oldsogdian", "sogo"],
    "AYD2H1",
    none⟩,
  ⟨["sora", "sorasompeng"],
    "QGE2o79",
    none⟩,
  ⟨["soyo", "soyombo"],
    "QSG2S2",
    none⟩,
  ⟨["sund", "sundanese"],
    "Ay6+1A87",
    none⟩,
  ⟨["sylo", "sylotinagri"],
    "AAK1M1",
    some "EL21A49QQH1M1"⟩,
  ⟨["syrc", "syriac"],
    "AY1d1x122Q8a",
    some "Do12110o27110xm0e120A10aaq0P4d1x122Q8aNM5010"⟩,
  ⟨["tagb", "tagbanwa"],
    "Ax5c1211",
    some "VZ51J1c1211"⟩,
  ⟨["takr", "takri"],
    "AUF2Z169",
    some "EL21KWH19GSrZ169"⟩,
  ⟨["taile", "tale"],
    "QK6t24",
    some "Ao15130TJ39GI2t24"⟩,
  ⟨["newtailue", "talu"],
    "AM6L14p6a31",
    none⟩,
  ⟨["tamil", "taml"],
    "Cy2115321331101131323b4432132060ekF.E2R1d0",
    some "RK21h1yg115321331101131323b4432132060ek+G40YAD10NQq010X11DE3R1d0"⟩,
  ⟨["tang", "tangut"],
    "A+x20vX+58+nAg8",
    some "Q+bfPf0QPP20vX+58+nAg8"⟩,
  ⟨["taiviet", "tavt"],
    "AUK1C2o4",
    none⟩,
  ⟨["telu", "telugu"],
    "AA3c121m1f281213711220232978",
    some "RK21h1wkc121m1f281213711220232978wC40n0"⟩,
  ⟨["tfng", "tifinagh"],
    "QJbX171e0",
    some "Co0102010GRaX171e0"⟩,
  ⟨["tagalog", "tglg"],
    "AY5l90",
    some "AY5l90l1"⟩,
  ⟨["thaa", "thaana"],
    "Ay1R1",
    some "MQ10e120A29W8R1ASz10a0"⟩,
  ⟨["thai"],
    "BQ3Z15r",
    some "yl0q0L10N10PW2Z15r"⟩,
  ⟨["tibetan", "tibt"],
    "AY3H21D14G11D11e1641",
    some "AY3H21D14G11D11e1641NB83"⟩,
  ⟨["tirh", "tirhuta"],
    "AEF2H289",
    some "RK21h1My40zZC19GCrH289"⟩,
  ⟨["tangsa", "tnsa"],
    "QTw2O219",
    none⟩,
  ⟨["toto"],
    "QUY3u",
    some "yl0T.X3u"⟩,
  ⟨["ugar", "ugaritic"],
    "AyA2t10",
    none⟩,
  ⟨["vai", "vaii"],
    "AIJ1L9",
    none⟩,
  ⟨["vith", "vithkuqi"],
    "QLB2a1e16111a1e1611",
    none⟩,
  ⟨["wara", "warangciti"],
    "AFG2S2c0",
    none⟩,
  ⟨["wancho", "wcho"],
    "AWY3Z150",
    none⟩,
  ⟨["oldpersian", "xpeo"],
    "AzA2D14d",
    none⟩,
  ⟨["cuneiform", "xsux"],
    "AAI2ZsG3O314bD6",
    none⟩,
  ⟨["yezi", "yezidi"],
    "AUD2J11221",
    some "MQ10e030A29WAC2J11221"⟩,
  ⟨["yi", "yiii"],
    "AAI1ME13W1",
    some "BAc15927+60EYrME13W1wUm4"⟩,
  ⟨["zanabazarsquare", "zanb"],
    "AQG2H2",
    none⟩,
  ⟨["inherited", "qaai", "zinh"],
    "AoP3V81Eeaq0An3xK4uBg21c16406031G6+1Mg1C6A1ZZ33L31FLT1fgdPu0C70wC40E.O1N12mAh2h726u3SwLo" ++
    "P7",
    some "Po0201e36202f111h1413QP11xK4uTnV11014Mg1C6vQIX1fgdPu0CIT1N12mAh2h726u3SwLoP7"⟩,
  ⟨["common", "zyyy"],
    "0A2q5qO11e14n0v0BeG1542jU30906010zj060e030A10y40Eg0B41ZG10Vc3C90PP12H21L6110NG10d0731512" ++
    "20Fob2W21a3a1ehA1+1F112251q1gJ124Zkmal+sA8Tj2v1I3Agz2Sck101of743x2130w21T4fA1F190Q1+1vQ2" ++
    "P10Y2H5AO6+1AImB1G32F59U70A50Lc0e1SOk1Q69mC11i13T401vq5qaa0N11A2616a4C824M138Q2cT1M1E7qE" ++
    "NO13yw3Z76Tdy4T3y1V7aG12z13g817t4y1V6jcjcW29oH4U21G2112021231b10161A21327161r131410361Ta" ++
    "2D92R1RD5D2M2y1CmL14D3ce2e1e1E1aN5Y1p11dL14871e5w4Xu4g3c3W34.26b40fb4X1896H18t2b41.1Tacd" ++
    "2c395X17e2a687S41F3HABo0u+2",
    some ("0A2q5qO11b1114n0v0Be2191030181015542j.306010zj0X60Eg0yK10Vc3HB4b2A11u1911161a3a1ehA" ++
    "1+1F112251q1gJ124Zkmal+sA8Tj2v1I3Agm1n2913101pCd030d0d0l0Rgnv0R1ec3B595+2v0AO6+1IImpG32Qu0e" ++
    "1EVk9mk2b1i13T401vq5q5+3616a4SccT1M1DQS1Z76Tdy4T3y1V7aG12z13g817t4y1V6jcjcW2r6H4U21G211" ++
    "2021231b10161A21327161r131410361Ta2D92R1RD5D2M2y1CmL14D3ce2e1e1E1aN5Y1p11dL148n5w4Xu4g3" ++
    "c3W34.26b40fb4X1896H18t2b41.1Tacd2c395X17e2a687S41F3HABo0u+2")⟩,
  ⟨["gara", "garay"],
    "AKD2F13s81",
    some "MQ10e030AZB2F13s81"⟩,
  ⟨["gukh", "gurungkhema"],
    "AIY2Z1",
    some "FL20wyV2Z1"⟩,
  ⟨["kiratrai", "krai"],
    "AKx2Z1",
    none⟩,
  ⟨["olonal", "onao"],
    "QOZ3K140",
    some "EL21KDX3K140"⟩,
  ⟨["sunu", "sunuwar"],
    "A.G2B1e9",
    some "Ao1109020s030OEG2B1e9"⟩,
  ⟨["todhri", "todr"],
    "AOB2T1",
    some "Bo020209010K20BTA2T1"⟩,
  ⟨["tulutigalari", "tutg"],
    "AyE2910201F119102013191181",
    some "GH39CA4010xZC15x50OUq910201F119102013191181"⟩]

def row? (name : String) : Option Row := rows.find? fun row => row.names.contains name

def find? (name : String) : Option CharSet := (row? name).map fun row => CharSet.ofTable row.table

def used? (name : String) : Option CharSet :=
  (row? name).map fun row => CharSet.ofTable (row.used.getD row.table)

end Registrar.Script
