import Registrar.Unicode.Category

/-!
# Binary properties

The characters that have a property, such as being a letter or a blank. A name is looked up in its
loose form: small letters, without blanks, hyphens and underscores.
-/

namespace Registrar.Property

def tables : List (List String × String) := [
  (["alpha", "alphabetic"],
    "B2p6pP10a0405m1u1Je4be47010W20th1123106012101j1S21K48F51F1206I1H1d101111108q43ta5X116eF3" ++
    "174742a220gP1dE3oA191405n2ijo7a5n15808J1ab366L21f124edi17212l16103337212110804114c1a0421" ++
    "5412l16111111444121407310h5b218121l16111438121130f3l34217212l161114372121914114d0g115321" ++
    "331101131323b4432123060I1c121m1f37121281122023s317121m1914371212816113d2cc121I1271212105" ++
    "374m5121h3n181026851017i1dZ15660T1110141n101i12241060e3A10+171D14i4f1D1D2W11024g+1a32F11" ++
    "0502K11Ma132610132I1132A1132610132e1Y1132C2F1fgV2253Lj2g1p5K23a7jbkcjcc1211cT12ie040D2Y2" ++
    "7K15F2au1b48nt24bL14pW1r4.12jS10n1b2R1T11e17T1J123aL11aeW1m2aD12a5K122J131511305+5jB1bV8" ++
    "252F125271010101u2U11610321633254c5216U30d0gcF3040291034601010131a235440hI1NpT1WY1E76331" ++
    "cF110502X170gm96161616161616161vP10Ve2p874244V2621Z2135K11z2hvQ1fAg+N6A2MUlD2N12M83fa1kO" ++
    "1573Q3H182G32C2211017lj1A1oT1cD210M153012aA15C1ds3S11bf0gfa41W19dim3E21010o22f23b5252596" ++
    "161K11d6w3lDzacm4Q1EI8Nb2J3G16c45b1c141011111L3B1Kbi+12V1I1bU341G4E1p6pbY235252522D1b1p1" ++
    "i111e2dC1w3F2U1L8s3Q1P1vdt5K15t2D14714K1z4iD14D14H18T1ca1e16111a1e16113T1cW99la7o51J118F" ++
    "25201L111302mam9uB2i11alapG2X161A231157121sK1s3sD171rrV1alaidhO3I2X1S1dS1dH1C1r305mw7J11" ++
    "131g2X103sa08lK1hO1krm9F2L14aY190donS1h38C1309+11391a010D1h1B12063.1610131e197Y1n317212l" ++
    "161114372121306056s910201F119102013113010M1B21213k2uB22110Y5V126p5C1.11030x1V120H2q2dl6Z" ++
    "5Y1H3+1v72027111t112123z272N1251011rS129hH250iI2H6A1v81M11610R1t2l1dJ26111L13011121021o5" ++
    "111E1111310Ham9g1I132P30P2ZsG3O3hD6MS2A3fPB1h5pwy35GiZV6O1RW1Yh7uhO2htiP1g3vk5iQdM1T6+1A" ++
    "4K24Y17gA2110c1eX+58VG1J19HX8316111C9f0t220e38LcEI2K35c387940Bx5U21G2112021231b10161A213" ++
    "27161r131410361Ta2o1o1u1o1u1o1u1o1u1o17UZ1u65V661g2611145z1B10Q3M1a6g0BatiL1EfrE7t20Pf61" ++
    "3111e1E6x1D23030UF131q1110201913101060401010121110201010101011102316131310191g52141gUjp6" ++
    "p6pWT3+WJ1A1ZB46z62BU5eQJ7fNjCN2zgCP1Kw45+C4"),
  (["ahex", "asciihexdigit"],
    "Q1975q5"),
  (["bidic", "bidicontrol"],
    "yQ10RP61q4X13"),
  (["bidim", "bidimirrored"],
    "I11i010s010t010N10f0.T33zw11yM21a1W11e1R50A633530313313101048501h539110171v2350912i51942" ++
    "14n2f83k171zB1dK2023111253523dTcl251d807530441124401221a521ci13201020135162o1b14311214K1" ++
    "271H150103452403410A80Dg33111e129L17Ld927zRT1551C51i010s010t0101111XxV10Z10Z10Z10Z10"),
  (["caseignorable", "ci"],
    "H1060b0D1010H2040104021Xf+541409110x76P6050R1M110111110M10b5aa10D10akg0F371913B1010uqx2a" ++
    "w1a4020onL12M107158J1Z1X1010474036a1d0f0w104380k1q021Z1041412230u130b1Z10441140k1m510w10" ++
    "20138071b1u0z10c0S1030X1012521371b1t0w10206051k1s1Z114380k1t0I207210w2026b8C30289016J21r" ++
    "01010X1d14115a1D190G33151121p142g3d02160f0.20Aj2St2t1u1u1A2116802a3050N14T10B21C10W32419" ++
    "062x6120w10161010276920H108uR13Q10141050I18c1A132112Y10113012w1721A25S221c16406031S1.1d0" ++
    "C1E3zd012b2d2d2d1c481a02024R141910d0gcT1A1Ly21R32z30f0A3vP10Ve0E133450z25z22WYr0CH15O80C" ++
    "331910s3Q21eB1O20n2H3231803040p150X41qhd0G17paO12Q102321h0l1C252121c080D10b0T1012215110r" ++
    "0e15110E3492Z302040QZj0T4gzhf30cfC1020J507060b0D1010P10N11D20l2Bg0C70V44FA151J118Gi21153" ++
    "I1240F51zh3G10q410x91P23G2aR13x30W1eJ1021a2R13212040a0S12E1417.10c1U18a320+2220116020z40" ++
    "37l1Z1130F1634G25d01010e1V272210n0U25104111O736111r1V272011K30102510F30102314D8811A81104" ++
    "0Q432140A19I1523809522O1c11Wc61510S2l261111w3530111610I213010xa1b1U145010n0VG5g6eIGbb32A" ++
    "O24x1693yf2I11Cf0+1gA2111LAg31611.E3113yS4N12mAh29f26u3U42xz1W14R180e0m41eQK161g2611145z" ++
    "1B10A5dQb0z13xf4.71An6N37PV24BADo0u+2A4P7"),
  (["cased"],
    "B2p6pP10a0405m1u1C6134P61D171u4A30K132123106012101j1S21K48F51F19I1XY2F110502K113AlV225CE" ++
    "2a5K122A2+5A2V8252F125271010101u2U11610321633254c5216U30d0gcF304029103460101013154023544" ++
    "0hv31RpT1WY1E76331cF11050SIuN1itE4F3331z1211017l412VpK11d6P2Awj6c4JA1p6pFF1P2A3D14D1U3a1" ++
    "e16111a1e1611De0221J118FG1S1dS1z2lalwY2+1ALl+1AMpU21G2112021231b10161A21327161r131410361" ++
    "Ta2o1o1u1o1u1o1u1o1u1o17UZ191j65F8z1SE2D2M+1p6p6p"),
  (["changeswhencasefolded", "cwcf"],
    "B2pw20am17A10101010101010101010101010101010101010101010101010101010201010101010101011101" ++
    "0101010101010101010101010101010101010101011101010111011122311123111101011102011121011307" ++
    "1111110101010101010102010101010101010102110121010101010101010101010101010101010101010101" ++
    "0101010101010107111201310101010W70K10103080601210111g18m0c231101010101010101010101010112" ++
    "110112S1Q1010101010101010101010101010101010901010101010101010101010101010101010101010101" ++
    "0101010101110101010101020101010101010101010101010101010101010101010101010101010101010101" ++
    "01010101010101010101010101010102F1Q10YY2F11050Kp5CE296K122Aa0101010101010101010101010101" ++
    "0101010101010101010101010101010101010101010101010101010101010101010101010101010101010101" ++
    "0101010101010101010101010101010105120101010101010101010101010101010101010101010101010101" ++
    "0101010101010101010101010101010101010101010109785a78785b010101087gP122255225b3c45225J903" ++
    "160N1fj0SppQZ1P1Q10122010101310208210101010101010101010101010101010101010101010101010101" ++
    "010101010101010101010101010101010101010101010801040NKu0101010101010101010101010101010101" ++
    "01010101010j010101010101010101010101010H401010101010103010101010101010101010101010101010" ++
    "1010101010101010101010101010a01011101010104010201030101010101010101010141410101010101010" ++
    "1310113050101010o0wrP2Awj6c4JA1pFG1H1I4D1y4a1e1611KX1S1z4lwZ2vAMlvAVuB1"),
  (["changeswhencasemapped", "cwcm"],
    "B2p6pw10am1u1+11T21r2d21104y21h6q1110113113142011207020113550a1G50K132132106012101j1O13A" ++
    "1141E48F51F1aG1YY2F110502K122AlV225CE2a5K122Z5030g0R3x4201V3252F125271010101u2U116103216" ++
    "33254c5216J903160r0hv31RpT1WY1Q311117F37331cF11050SIuN1irG4d2z19e32241o1t2146o1yq0sP2Awj" ++
    "6c4JA1p6pFF1P2A3D14D1U3a1e16111a1e1611DW1S1dS1z2lalwY2+1ALl+1AUuD2"),
  (["changeswhenlowercased", "cwl"],
    "B2pF3m16B1010101010101010101010101010101010101010101010101010101020101010101010102010101" ++
    "0101010101010101010101010101010101010101110103110111223111231111010111020111210113071111" ++
    "1101010101010101020101010101010101021101210101010101010101010101010101010101010101010101" ++
    "010101010107111201310101010B90103080601210111g18D108010101010101010101010105020112S1Q101" ++
    "0101010101010101010101010101010901010101010101010101010101010101010101010101010101010111" ++
    "0101010101020101010101010101010101010101010101010101010101010101010101010101010101010101" ++
    "01010101010101010102F1Jw2F11050SmV2TE206K122Aa010101010101010101010101010101010101010101" ++
    "0101010101010101010101010101010101010101010101010101010101010101010101010101010101010101" ++
    "0101010101010101010901010101010101010101010101010101010101010101010101010101010101010101" ++
    "010101010101010101010101010109785a78785b010101087o7878784b4b3c4b4J903160N1fj0SppQZ1P1Q10" ++
    "1220101013102082101010101010101010101010101010101010101010101010101010101010101010101010" ++
    "10101010101010101010101010801040NKu010101010101010101010101010101010101010101010j0101010" ++
    "10101010101010101010H4010101010101030101010101010101010101010101010101010101010101010101" ++
    "010101010a010111010101040102010301010101010101010101414101010101010101310113050101010o0L" ++
    "ZlpFG1H1I4D1y4a1e1611KX1S1z4lwZ2vAMlvAVuB1"),
  (["changeswhentitlecased", "cwt"],
    "B3pw10J1n1710101010101010101010101010101010101010101010101010101010201010101010101110101" ++
    "0101010101010101010101010101010101010101020101220102030502032202010102040203010203010401" ++
    "1111010101010101010111010101010101010121010301010101010101010101010101010101010101030101" ++
    "010101010101080211040101010151110113113142011207020113550a1G50L10103032i0rC1113210101010" ++
    "1010101010101014102020U1P110101010101010101010101010101010109010101010101010101010101010" ++
    "1010101010101010101010101020101010101011101010101010101010101010101010101010101010101010" ++
    "101010101010101010101010101010101010101010101010R1G1QT35CE2810O7030g0S301010101010101010" ++
    "1010101010101010101010101010101010101010101010101010101010101010101010101010101010101010" ++
    "1010101010101010101010101010101010101010101650101010101010101010101010101010101010101010" ++
    "101010101010101010101010101010101010101010101010101885a78785a7878d2787878411603211832187" ++
    "a211Wa0B1f40LqpGw1P110311010106020a01010101010101010101010101010101010101010101010101010" ++
    "1010101010101010101010101010101010101010101010801040cF11050TIu01010101010101010101010101" ++
    "0101010101010101010j010101010101010101010101010H4010101010101030101010101010101010101010" ++
    "101010101010101010101010101010101010a010201010101040401120101010101010101010b01010101010" ++
    "101040102030501010q0yq0sP2Awj6c4JB1pNG1H1I4D1x4a1e1611DY1S1z3lwZ2vAMlvCVuB1"),
  (["changeswhenuppercased", "cwu"],
    "B3pw10J1n1710101010101010101010101010101010101010101010101010101010201010101010101110101" ++
    "0101010101010101010101010101010101010101020101220102030502032202010102040203010203010511" ++
    "1111010101010101011101010101010101011111030101010101010101010101010101010101010103010101" ++
    "0101010101080211040101010151110113113142011207020113550a1G50L10103032i0rC111321010101010" ++
    "10101010101014102020U1P11010101010101010101010101010101010901010101010101010101010101010" ++
    "1010101010101010101010102010101010101110101010101010101010101010101010101010101010101010" ++
    "1010101010101010101010101010101010101010101010R1G1Iw2K122Yn5CE2810O7030g0S30101010101010" ++
    "1010101010101010101010101010101010101010101010101010101010101010101010101010101010101010" ++
    "1010101010101010101010101010101010101010101010165010101010101010101010101010101010101010" ++
    "1010101010101010101010101010101010101010101010101010101885a78785a7878d2U1114010321140332" ++
    "187a21140Ra0B1f40LqpGw1P110311010106020a010101010101010101010101010101010101010101010101" ++
    "010101010101010101010101010101010101010101010101010801040cF11050TIu010101010101010101010" ++
    "101010101010101010101010j010101010101010101010101010H40101010101010301010101010101010101" ++
    "01010101010101010101010101010101010101010a010201010101040401120101010101010101010b010101" ++
    "01010101040102030501010q0yq0sP2Awj6c4JB1pNG1H1I4D1x4a1e1611DY1S1z3lwZ2vAMlvCVuB1"),
  (["dash"],
    "N10yK10T10BS30FA10JA25z10H10f0Gc0EA3020v140s0.d0j0P30QMT11F10a0J50AT30.90"),
  (["defaultignorablecodepoint", "di"],
    "N50Bl0Mm0Cw21TS11V24x+14q4R1fUH40xET1fP70A50P28HFP13PG57FULo++3"),
  (["dep", "deprecated"],
    "Ja0JJ10DI2010JB21FG25Zl1WGXr0"),
  (["dia", "diacritic"],
    ".2010H20604021Xf.41755h14091z74R60X1g1q101110G4741G414132D2qx2aw1aC11.37J19grz10g033s0K2" ++
    "0g0O30g0O30g0P12y10g070X30O30g0O30g0N31g0y30P30c510L30d4L21r0101041C2211.10Q3011I1144p61" ++
    "0a1Bm2Ut1u0U4a90xa2E90k720Q1e2aI30f0G18W11w10b1C21A25S2o406022S1.1Q1D15bF1azd012b2d2d2d1" ++
    "QH32z90wf5J33+20SLt0c110s1S21eB1G32N31c0F10X40rhZ13E10+20c0E10V42B23T10E3492A41QZj0BofO8" ++
    "010P10N11D20yn0+E151J118zj240F51xh5G10q4Pc2G2aR13A60J10I21Y31.10M2092I31S51Q21g0o634Z221" ++
    "1d1+2030x31x71.30W31T30N81C8140y40T20i0R20Fd0C8011R20Jd1n0MH5eZGb0AO24x16Uh1ChgQ21.+f316" ++
    "11BY7N12mAh2358726u3CU3z1C66Xb0z13.n1An6N3212"),
  (["emoji"],
    "D106059P3040Ny70c0Y60m0w25f1Pb1c0G50pa42H60H71a090w1314902021204020112030318250105bb1201" ++
    "110i021i5101131502141b15120511011k155132040202510201010603060a1f02040104210b1Q1290e0e0Ub" ++
    "1Pe2j1T1040wG10c0Zi010KLP30K60A51c1e029L2p11n0k028l1O5B12P321122S2221G81.1b51n7127c02320" ++
    "41d120819052c28220104060306V2Q1F257224930113029D7b40x8O1191Y5Q3c395X17e2a68"),
  (["ecomp", "emojicomponent"],
    "D106059T.70V60LJX10W.y1pxf4QN13MTBo+2"),
  (["emod", "emojimodifier"],
    "x+y34"),
  (["ebase", "emojimodifierbase"],
    "zQ90x60g3XDT30y122022V312ali3042127010o0J6140l041O5234T20g290b0+h02087609922Y10z111110h2" ++
    "1cF72K18"),
  (["emojipresentation", "epres"],
    "wY81N633020Jg1l1S1bL10j0d081h1518050l0711040207041s0D10104210z12o0e0xq1T1040OFR30K60.502" ++
    "9L2p10o0k02412l1O5A1c81F21lcK144cg303G2101w52.1d31ni0q1d0W2U2Q1F260322243b178D7b40x8O119" ++
    "1Y5Q3c395X17e2a68"),
  (["extendedpictographic", "extpict"],
    "J5040Ny70c0Y60m0w25f1Pb1c0+20G20pa42H60H71a090w13151b1R3aV32a1010603060a1f02040104210b4N" ++
    "1290e0e0Ub1Pe2j1T1040wG10c0Zi010GLP3+7d2v0y15c1e029iY1rea0k028139Rd5z98J8Q1+3U3bV2K1c3Y1" ++
    "7a5I17uR2cO1191YdA8zv"),
  (["ext", "extender"],
    "X50Yg1Or0Zd0Wj0J40Z20Qn0+30DK20Y10Dj0Oc0E20Jy40L14H31z22WYr0WP10Cu0m0J40M30l1xDl0QA21LO1" ++
    "0r040HG10F90U31Sf2PG10JFk1yE1110YKs1RF10Uq2"),
  (["graphemebase", "grbase"],
    "A1.2B1c1RiQ372546101j1+67F51F12R122O101020209q45h9b01N1lf1E38061204v201ttY2b0eK1963n4090" ++
    "307e1o501a5uhJ1Z1W110138312792s1117212l1610333011612110d1124n5015412l1611111142o31079221" ++
    "0c018121l16111433801130f14b708117212l16111430206121f1124hb015321331101131323b5011321230l" ++
    "k6217121m1f3033j2202149791a121m1914312011o1114912ea121I1201152121142194p211h3n1810269166" ++
    "7922cP111b78cF1110141n1019119024109923A1n2q10101d1D1i05024R17151cF1M14060212o233f4c11251" ++
    "e1H110502Yb132610132I1132A1132610132e1Y1132C25s3p6V2252yk3Y27hdi319hec12fT1207711b839696" ++
    "a596Y2742B1105F2au43224115703J124bL14p6a3Y1213X110901185d9696dW2P1a3371s9b2v416X1102210d" ++
    "P1815e3z15K12ab0d0731512205+5A2V8252F125271010101u2U11e1d251i22181a5n7Q1g12q1c3A1+1L44Zk" ++
    "malTY12v1Xa315M110502X171fm9616161616161616B1z2C1p1Y2cV6qZ16f1V24E35K11z21V29P11MTs3W19x" ++
    "akO140av2P2258N6211017lf12131o24496X18D2aboc1F18ob0ct6P11141211c1a461o1I16121b21710292v1" ++
    "S11031242010og27b5252596161x14U31113396Dzacm4Q1EI8Nb2J3G16c4501n141011111y3gyd2V170A1fg9" ++
    "mC11i13441G44y42u352525223616d12b1p1i111e2dC1w3524M13X21c30P1M1D4s3Q1gq4D19t5F1at1E14dK1" ++
    "z4296D14D14H18T1bb1e16111a1e16113T1cW99la7o51J118F25201L111302m1H288Q1i115A13q50A2X14j2O" ++
    "1f3121sa8787+1A1E16b9V13s2q5p73c6Q2I2X1S1dS17J1c96F18n81Q6u1J13021g2x1H18lb8mh43G1rkm901" ++
    "V1f64t1120cQ1412113eo799D1509h8C112bT19017411f1jbh1r314511+1610131e1a6O112d98117212l1611" ++
    "14301013212130c6s910201F11011f011301211H1X181301k1012uP111601110202389G5O11163202qE1S181" ++
    "1023b96cjK1101181696jsq3011409mZ5O19020E3S2c72027111n1411631299G272J18313r0aH1614790613N" ++
    "1d028dI279W5B1e9681F1e015as3vp07020L26111F1l09965111E141101079W9i239e1D1813mW20fR1dwsG3O" ++
    "314bD6MS2C3dPB1h5pwy35GiZV6tc239GW1Yh7u194Q2196t70aP17ea9161k5iQdZ1G6w2F3K25X1bcA23sX+58" ++
    "VG1J19HX8316111C9f0t220e38LcEI2K35c38792020Ax3Z76Tdy4T3y1V7aG12x152m17t4y1lB230w3jcjcW29" ++
    "oH4U21G2112021231b10161A21327161r131410361Ta2D92RhX13S171d16UD1u65F8z1S4M1a62941AatiL149" ++
    "50Qer49W6t2a40Af613111e1E628Q1D2704941RoD2M2y1C631q1110201913101060401010121110201010101" ++
    "011102316131310191g52141gU11O8L14D3ce2e1e1E1aN5Y1sdL14871e5w4Xu4g3c3W34.26b40fb4X1896H18" ++
    "t2b41.1Tacd2c395X17e2a687S41F3GA1+WJ1A1ZB46z62BU5eQJ7fNjCN2zgCP1Kw45+C4"),
  (["graphemeextend", "grext"],
    "AoP3T86H8M110111110I2aQ1kg0F36252113D10uqx2aw1890o3181214L12x18K1n1vX1010474036a1t0w1010" ++
    "238090a1q021Z1041412230u130b1Z10441140k1m510w1011138072a1u0x1010c090I1030X1012521371b1t0" ++
    "w102110321371b1s1Z1110238090a1t0I2040221080R2026c7C3028b6J21r01010X1d14115a1D190G3315112" ++
    "1p142g3d02160f0+l2St3s2t1u1A2116802a90N1210V31C10W32419062x6120w10161010276920Q1uR13Q194" ++
    "2G18c1A1325Y10113014Y1721Y421c16406031G6+1Mg0D6A1.+22N40A3vKh5J31UOt319A11Q21Q803040p150" ++
    "X41qhd0G17pa10M12Q10232120E10D252121c080P10T1012215110K1180O702040QZj0BnfgfOb1zi0C70V44G" ++
    "U121153I1240F51zh3B24z91P23G2aR13x30W1eJ1021a2R132170z12E1417.10c1U18108320+22236020z403" ++
    "7l1Z111010c090e634D20251020124210e1V272210n0R202510201111L70236111r1V272011K301027F30102" ++
    "314D8811V70a340Q432140A19I1523809522O1c11Wc61510S2l261111w3530111610I213010xa1b1U1452n0F" ++
    "H506eIGbb32AO24x16YA10+13R20b1LFj1BT4N12m.g4358726u3U42xz1W14R180e0m41eQK161g261114E30A5" ++
    "6Xb0z13yf3.71An6N36VWFo+2A4P7"),
  (["graphemelink", "grlink"],
    "NK20+30+30+30+30+30+30+30N31g0y30P30+30J60U51ZW11u0z40Nk0D70F31G21LM40GUu0F10X40O40M30V9" ++
    "0W70RSn0GQ10J10e0Z10Z31L40U30U50C30A42R30+30y70+30W30U30N80D81B50T20i0R20Fd0E81R20Jd1MPg" ++
    "0"),
  (["hex", "hexdigit"],
    "Q1975q5JV+1975q5"),
  (["hyphen"],
    "N10+30yG10xT40JA21FQ30Dn0HLT10J50X20"),
  (["idcompatmathstart"],
    "CQ8040m0CFN30p0v0p0v0p0v0p0v0p0"),
  (["idsb", "idsbinaryoperator"],
    "Q+b129Rf0"),
  (["idst", "idstrinaryoperator"],
    "S+b1"),
  (["idsu", "idsunaryoperator"],
    ".+b1"),
  (["idc", "idcontinue"],
    "Q197p401pP10a010205m1u1Je4be47010hU311231064101j1S21K4142F51F1206I18M1101111108q43ta5J24" ++
    "F317291i20gw12E3eV140202N1ir4a5n158K21A4291i17212l1610332821238041142ba0102215412l161111" ++
    "11201441223073107fb218121l16111429121220f329961217212l1611142821227241142910g11532133110" ++
    "1131323b4432132060e9gc121m1f2812137112202329g317121m19142812137161132912cc121S1121453742" ++
    "9a5121h3n181026304510176921dZ15e19H1110141n101m2410161923A10n169b01010491D14j1h1D190Z1J2" ++
    "6N22F110502K11Ma132610132I1132A1132610132e1Y1132C22298efgV2253Lj2g1p5K23a7l9lbjcc1211cT2" ++
    "304129B121a6Y27K15F2au1b4baH124bL14p6aF1r4.11s2a69d08d1fR1M239h8cT3cX1893Q12a5K122g21G15" ++
    "Vg252F125271010101u2U11610321633254c5216f1R11j0s0d0gcT1c403bh0402910256010101f235440hI1X" ++
    "T2E768cF110502X170fn96161616161616161vFg2pe14244V2261.25K11z2hvQ1fAg+N6A2MUlD2N12M83rkP1" ++
    "491S3F182G32C2211017lV140jT1cF2a96n301Q12D1cs3A2ea6u1W19d296m3I2o22f24a5252596161K11d6w3" ++
    "11296Dzacm4Q1EI8Nb2J3G16c45b1c141011111L3B1Kbi+12V1I1b4fgf31o2A141G4j97p401paZ235252522D" ++
    "1b1p1i111e2dC1w3F2U1I40C4s3Q1f0vvdt5K15t2D14714K1z4296D14D14H18T1ca1e16111a1e16113T1cW99" ++
    "la7o51J118F25201L111302mam9uB2i11alapG2X161A231157121s2240A1s3sD171tpV1alaidhO3I2X1S1dS1" ++
    "dH1896F1341mw7J11131g2X1A1a08A1vlK1krm9G2vf9x170do796U119438D1209E2431c10D1h1E163.161013" ++
    "1e197w1596317212l1611141921222060562634b910201F11910201317d1tK25943uF21089G5V128n5C1A230" ++
    "b9G1Y1796jsq2e4966Z5w1F3J2l72027111t1128c9G272N12711r.1808J230iI2H6A1f9681M118f9ot2l1dJ2" ++
    "6111L13011188965111E1111579W9m9g1I134daV20P2ZsG3O3hD6MS2A3fPB1glawy35GiZV6Z1GW1Yh7u196O2" ++
    "196t24bW193c99k5iQdM139G6+1A4K24Y17gA2111b1eX+58VG1J19HX8316111C9f0t220e38LcEI2K35c38793" ++
    "1RC49GgN12m.g4358726u3U42xdU21G2112021231b10161A21327161r131410361Ta2o1o1u1o1u1o1u1o1u1o" ++
    "172R1AgW14R180e0m41eQC1u65V661g2611145z1B10Q3M13d2940BauhZ1WeJ1W6K1Ff613111e1E6b6J1L249G" ++
    "F131q1110201913101060401010121110201010101011102316131310191g52141gUJ39GA1+WJ1A1ZB46z62B" ++
    "U5eQJ7fNjCN2zgCP1Kw45+C4QKXlP7"),
  (["ids", "idstart"],
    "B2p6pP10a0405m1u1Je4be47010B441123106012101j1S21K48F51F1206I1H2q43N1K1D111C310f171a220g0" ++
    "1ttY2b0oA191405l409030no7a5n15hJ1w1V130i079ff47212l16103330g0d112e1a085412l16111111v310j" ++
    "2g8121l16111430i0f1n0b7212l16111430u112f0h015321331101131323bm0U17121m1f30q22021u047121m" ++
    "191430v111f1h8121I120g05282o55h3n181026w1P111c6w1110141n101911902410l3A10+171D1r4T3K1k0g" ++
    "5433031724cc0hF110502K11Ma132610132I1132A1132610132e1Y1132C2F1fgV2253Lj2g1p5K23a7hdiehec" ++
    "12fT1D1040D2Y27I1105F2auR1t24bL14pW1m9U1S20z2O1h7W1td1aL1qD1J12aD12a5K122J131511305+5A2V" ++
    "8252F125271010101u2U11610321633254c5216U30d0gcF30402910256010101f235440hI1XT2E76331cF110" ++
    "502X170gm9616161616161616Gh2p874244V2441Z2135K11z2hvQ1fAg+N6A2MUlD2N12M83fa1kO1gu2P2H182" ++
    "G32C2211017lf12131mtT1eR1.153011bramps7O1s0g419a41I1n217km303R11031242010o22a72c52525961" ++
    "61K11d6S3tDzacm4Q1EI8Nb2J3G16c450191c141011111L3B1Kbi+12V1I1bU341G4E1p6pbY235252522D1b1p" ++
    "1i111e2dC1w3F2U1L8s3Q1P1vdt5F1at2D14714K1z4iD14D14H18T1ca1e16111a1e16113T1cW99la7o51J118" ++
    "F25201L111302mam9uB2i11alapG2X161A20f3121sK1s3sD171rrV1alaidhO3I2X1S1dS1dD1G1r9mw7J161g2" ++
    "x1sa08lK1hO1krmcU1Z1120dM1A1oqD1t0208C130cP1e3l010D1h1oj1+1610131e197O1G17212l16111430i0" ++
    "c4u910201F110p010M1U1i3k2uP1k110Y5O1J13E1P1k0x1K1d0H2qF16Z5L1U3+1v72027111nf010.272G1g01" ++
    "0s0aH170l0bN1j0iI2H6A1v81E1h0R1tQ36111F1l0p5111ve0Haif01c1B1y30P2ZsG3O3hD6MS2A3fPB1h5pwy" ++
    "35GiZV6tCX1Yh7uhO2htiP1g3vk5iQdM1T6+1A4K250C2cA2110sX+58VG1J19HX8316111C9f0t220e38LcEI2K" ++
    "35c3879Gx5U21G2112021231b10161A21327161r131410361Ta2o1o1u1o1u1o1u1o1u1o17UZ1u65F8z1S4M1a" ++
    "6g0BatiL1EfrE7t20Pf613111e1E6x1D270UF131q11102019131010604010101211102010101010111023161" ++
    "31310191g52141gEK4+WJ1A1ZB46z62BU5eQJ7fNjCN2zgCP1Kw45+C4"),
  (["ideo", "ideographic"],
    "GAc1p8e2Fu+N6A2+PkAImNb2J3KIt0rX+58VG1J19HD9LcEIj+WJ1A1ZB46z62BU5eQJ7fNjCN2zgCP1Kw45+C4"),
  (["joinc", "joincontrol"],
    "MA81"),
  (["loe", "logicalorderexception"],
    "AS34x34QX2220wHE112011"),
  (["lower", "lowercase"],
    "B3pP10a040E1n171010101010101010101010101010101010101010101010101010101110101010101010111" ++
    "0101010101010101010101010101010101010101010102010122010203140203220201010201110203010212" ++
    "2602020101010101010101110101010101010101120103010101010101010101010101010101010101010101" ++
    "01010101010101016202110401010101E21D171u4A30L10103023i0rC1113210101010101010101010101410" ++
    "2021T1P110101010101010101010101010101010109010101010101010101010101010101010101010101010" ++
    "1010101020101010101011101010101010101010101010101010101010101010101010101010101010101010" ++
    "101010101010101010101010101010Q1I1Hw2K113Yn5CE2810V3+5B201010101010101010101010101010101" ++
    "0101010101010101010101010101010101010101010101010101010101010101010101010101010101010101" ++
    "0101010101010101010101010101810101010101010101010101010101010101010101010101010101010101" ++
    "01010101010101010101010101010101010101885a78785a7878d2787878411603211832187a211Z30d0gcN3" ++
    "03130r04040218340B1f40LqpGw1P11031101010401117301010101010101010101010101010101010101010" ++
    "1010101010101010101010101010101010101010101010101010101011701040cF11050TIu01010101010101" ++
    "0101010101010101010101010101010j010101010101010101010101012F4010101010101210101010101010" ++
    "1010101010101010101010101010101010101010101010191010201010101040102012101010101010101010" ++
    "10505010101010101010401020301010101010m21012VpK11d6P2Awj6c4JB1pNG1H1I4D1x4a1e1611De0221J" ++
    "118FI1S1z3lwZ2vAMlvwMppq61hqpq310161aqpqpqpqpqpqpqpqpqrso15qo15qo15qo15qo1510UZ191j65F8z" ++
    "1UF2B1"),
  (["math"],
    "L10g2v0t010N1040F10v0Ym220q122Pg2NQ60r2b030d0e3l4b4B2c403144i04029102560312112153d10E2n1" ++
    "511414v1061eL883k1w20uq10o0b6zd1c945412134e01025b751Z1010t392Qa+1A8+fQ1k25y.T10Xp510C50g" ++
    "2t010t010D4063BN31QTR1U21G2112021231b10161A21327161r131410361Ta2D92R1AQ531q1110201913101" ++
    "060401010121110201010101011102316131310191g52141gU11"),
  (["mcm", "modifiercombiningmark"],
    "US1120D406031Bf11230v0"),
  (["nchar", "noncharactercodepoint"],
    "QO+1vOg1.++11.++11.++11.++11.++11.++11.++11.++11.++11.++11.++11.++11.++11.++11.++11.++11"),
  (["patsyn", "patternsyntax"],
    "B1ea6q310q3C1610111011404030n0v0YY7n8e2i19R9PmA5VjuLD1Ag+3Bc24of0NIT11F81"),
  (["patternwhitespace", "patws"],
    "94i0E30Iy71o1"),
  (["pcm", "prependedconcatenationmark"],
    "AQ15X60R10Ac1Q20w.B20f0"),
  (["qmark", "quotationmark"],
    "C1040D40f0yw77p1HQ30Je3d2BRT13z5040w21"),
  (["radical"],
    "AUbp1Y2cV6"),
  (["regionalindicator", "ri"],
    "GPy3p"),
  (["sentenceterminal", "sterm"],
    "B10c0g0JK10T42U50L12W70z101031F91EX11Wo041Fo0G61z41N1050w91Cb3C51a121t2x51B21Et0n192PF32" ++
    "S90d0m1Nd0yHt0O81D7030.b1W21+20Y41T42Q41Z70GRk021x1031J50c0g0B20UX21zH14M13z51V33+32B416" ++
    "0g1Y2111M30K91V31Vb15eJ31Z72Fg010x71X21Ed1Ul1K21JZi1F40B21b0Jh1I90GQj0IP70"),
  (["sd", "softdotted"],
    "J31E60Z80u0U10k0Aa0C3010JI60T10d030E40z40Fd0W61SZ20FzJ31S11S11S11S11S11S11S11S11S11S11S1" ++
    "1S11GE20R91q0"),
  (["term", "terminalpunctuation"],
    "B10a010b130.p080Bg0Z10I20e012U50L1a10L71W1517v0F81UH11M5045X91Vo7Fo0y32H21z4230H1321w91C" ++
    "b3C51a112t2x54.11Et0n192PF32S90d040a01131Md1xHt1N82D74.b1W21+20X42T42+30g1Z70GRk021Z1213" ++
    "J50a010b130B2020wB10Q10GE10H60W91Y45E25Z23Yt4M13z56Q33+32B4160g1Y24M30K91V32c1Gb33eJ31Z7" ++
    "2Fg010x71X2141.c2N10Fk1K21LJ14ZPh1F40B22a0Jh1H91GQj0HP73"),
  (["uideo", "unifiedideograph"],
    "AAd+N6A2+PkOQm11011a0101122WOB2+WJ1A1ZB46z62BU5eQJ7fNjCN4Kw45+C4"),
  (["upper", "uppercase"],
    "B2pF3m16B1010101010101010101010101010101010101010101010101010101020101010101010102010101" ++
    "0101010101010101010101010101010101010101110103110111223111231111010111020111210113070202" ++
    "0201010101010101020101010101010101020201210101010101010101010101010101010101010101010101" ++
    "010101010107111201310101010B90103080601210111g18D10223010101010101010101010105020112S1Q1" ++
    "0101010101010101010101010101010109010101010101010101010101010101010101010101010101010101" ++
    "1101010101010201010101010101010101010101010101010101010101010101010101010101010101010101" ++
    "0101010101010101010102F1Jw2F11050SmV2TE206K122Aa0101010101010101010101010101010101010101" ++
    "0101010101010101010101010101010101010101010101010101010101010101010101010101010101010101" ++
    "0101010101010101010109010101010101010101010101010101010101010101010101010101010101010101" ++
    "01010101010101010101010101010109785a78785b010101087I23c3c3c4b3G8040322220346010101323a15" ++
    "0qfj0SppQZ1P1Q10122010101310208210101010101010101010101010101010101010101010101010101010" ++
    "101010101010101010101010101010101010101010801040NKu0101010101010101010101010101010101010" ++
    "10101010j010101010101010101010101010H401010101010103010101010101010101010101010101010101" ++
    "0101010101010101010101010a01011101010104010201030101010101010101010141410101010101010131" ++
    "0113050101010o0LZlpFG1H1I4D1y4a1e1611KX1S1z4lwZ2vAMlvANppqpqpq01120212317qpq1132716r1131" ++
    "41036rpqpqpqpqpqpuoB1oB1oB1oB1oB10VJ4B1OA2p6p6p"),
  (["variationselector", "vs"],
    "LA6210QPZ1fQXAqP7"),
  (["space", "whitespace", "wspace"],
    "94i0E30q0+O50+L2at150P10Az30"),
  (["xidc", "xidcontinue"],
    "Q197p401pP10a010205m1u1Je4be47010hU311321064101j1S21K4142F51F1206I18M1101111108q43ta5J24" ++
    "F317291i20gw12E3eV140202N1ir4a5n158K21A4291i17212l1610332821238041142ba0102215412l161111" ++
    "11201441223073107fb218121l16111429121220f329961217212l1611142821227241142910g11532133110" ++
    "1131323b4432132060e9gc121m1f2812137112202329g317121m19142812137161132912cc121S1121453742" ++
    "9a5121h3n181026304510176921dZ15e19H1110141n101m2410161923A10n169b01010491D14j1h1D190Z1J2" ++
    "6N22F110502K11Ma132610132I1132A1132610132e1Y1132C22298efgV2253Lj2g1p5K23a7l9lbjcc1211cT2" ++
    "304129B121a6Y27K15F2au1b4baH124bL14p6aF1r4.11s2a69d08d1fR1M239h8cT3cX1893Q12a5K122g21G15" ++
    "Vg252F125271010101u2U11610321633254c5216f1R11j0s0d0gcT1c403bh0402910256010101f235440hI1X" ++
    "T2E768cF110502X170fn96161616161616161vFg2pe14244V221221.25K11z2hvQ1fAg+N6A2MUlD2N12M83rk" ++
    "P1491S3F182G32C2211017lV140jT1cF2a96n301Q12D1cs3A2ea6u1W19d296m3I2o22f24a5252596161K11d6" ++
    "w311296Dzacm4Q1EI8Nb2J3G16c45b1c141011111L3B1K46Z6i+12V1I196fgf31o2B1010301010101z3j97p4" ++
    "01paZ235252522D1b1p1i111e2dC1w3F2U1I40C4s3Q1f0vvdt5K15t2D14714K1z4296D14D14H18T1ca1e1611" ++
    "1a1e16113T1cW99la7o51J118F25201L111302mam9uB2i11alapG2X161A231157121s2240A1s3sD171tpV1al" ++
    "aidhO3I2X1S1dS1dH1896F1341mw7J11131g2X1A1a08A1vlK1krm9G2vf9x170do796U119438D1209E2431c10" ++
    "D1h1E163.1610131e197w1596317212l1611141921222060562634b910201F11910201317d1tK25943uF2108" ++
    "9G5V128n5C1A230b9G1Y1796jsq2e4966Z5w1F3J2l72027111t1128c9G272N12711r.1808J230iI2H6A1f968" ++
    "1M118f9ot2l1dJ26111L13011188965111E1111579W9m9g1I134daV20P2ZsG3O3hD6MS2A3fPB1glawy35GiZV" ++
    "6Z1GW1Yh7u196O2196t24bW193c99k5iQdM139G6+1A4K24Y17gA2111b1eX+58VG1J19HX8316111C9f0t220e3" ++
    "8LcEI2K35c387931RC49GgN12m.g4358726u3U42xdU21G2112021231b10161A21327161r131410361Ta2o1o1" ++
    "u1o1u1o1u1o1u1o172R1AgW14R180e0m41eQC1u65V661g2611145z1B10Q3M13d2940BauhZ1WeJ1W6K1Ff6131" ++
    "11e1E6b6J1L249GF131q1110201913101060401010121110201010101011102316131310191g52141gUJ39GA" ++
    "1+WJ1A1ZB46z62BU5eQJ7fNjCN2zgCP1Kw45+C4QKXlP7"),
  (["xids", "xidstart"],
    "B2p6pP10a0405m1u1Je4be47010B441132106012101j1S21K48F51F1206I1H2q43N1K1D111C310f171a220g0" ++
    "1ttY2b0oA191405l409030no7a5n15hJ1w1V130i079ff47212l16103330g0d112e1a085412l16111111v310j" ++
    "2g8121l16111430i0f1n0b7212l16111430u112f0h015321331101131323bm0U17121m1f30q22021u047121m" ++
    "191430v111f1h8121I120g05282o55h3n181026w1P110d6w1110141n101910a02410l3A10+171D1r4T3K1k0g" ++
    "5433031724cc0hF110502K11Ma132610132I1132A1132610132e1Y1132C2F1fgV2253Lj2g1p5K23a7hdiehec" ++
    "12fT1D1040D2Y27I1105F2auR1t24bL14pW1m9U1S20z2O1h7W1td1aL1qD1J12aD12a5K122J131511305+5A2V" ++
    "8252F125271010101u2U11610321633254c5216U30d0gcF30402910256010101f235440hI1XT2E76331cF110" ++
    "502X170gm9616161616161616Gh2p874244V2621Z2135K11z2hvQ1fAg+N6A2MUlD2N12M83fa1kO1gu2P2H182" ++
    "G32C2211017lf12131mtT1eR1.153011bramps7O1s0g419a41I1n217km303R11031242010o22a72c52525961" ++
    "61K11d6S3tDzacm4Q1EI8Nb2J3G16c450191c141011111L3B1K46Z6i+12V1I19X3010301010101z3E1p6pbX1" ++
    "2u35252522D1b1p1i111e2dC1w3F2U1L8s3Q1P1vdt5F1at2D14714K1z4iD14D14H18T1ca1e16111a1e16113T" ++
    "1cW99la7o51J118F25201L111302mam9uB2i11alapG2X161A20f3121sK1s3sD171rrV1alaidhO3I2X1S1dS1d" ++
    "D1G1r9mw7J161g2x1sa08lK1hO1krmcU1Z1120dM1A1oqD1t0208C130cP1e3l010D1h1oj1+1610131e197O1G1" ++
    "7212l16111430i0c4u910201F110p010M1U1i3k2uP1k110Y5O1J13E1P1k0x1K1d0H2qF16Z5L1U3+1v7202711" ++
    "1nf010.272G1g010s0aH170l0bN1j0iI2H6A1v81E1h0R1tQ36111F1l0p5111ve0Haif01c1B1y30P2ZsG3O3hD" ++
    "6MS2A3fPB1h5pwy35GiZV6tCX1Yh7uhO2htiP1g3vk5iQdM1T6+1A4K250C2cA2110sX+58VG1J19HX8316111C9" ++
    "f0t220e38LcEI2K35c3879Gx5U21G2112021231b10161A21327161r131410361Ta2o1o1u1o1u1o1u1o1u1o17" ++
    "UZ1u65F8z1S4M1a6g0BatiL1EfrE7t20Pf613111e1E6x1D270UF131q11102019131010604010101211102010" ++
    "10101011102316131310191g52141gEK4+WJ1A1ZB46z62BU5eQJ7fNjCN2zgCP1Kw45+C4")]

def stored? (name : String) : Option CharSet :=
  (tables.find? fun row => row.1.contains name).map fun row => CharSet.ofTable row.2

/-- The members of a property that are in none of some categories. -/
def outside (name : String) (categories : List String) : CharSet :=
  ((stored? name).getD CharSet.empty).diff (CharSet.unions (categories.filterMap Category.find?))

/-- The characters that a table has to name because no rule of its property covers them. -/
def remainder? (name : String) : Option CharSet :=
  if name = "oalpha" ∨ name = "otheralphabetic" then some (outside "alphabetic" ["l", "nl"])
  else if name = "odi" ∨ name = "otherdefaultignorablecodepoint" then
    some ((outside "defaultignorablecodepoint" ["cf"]).diff
      ((stored? "variationselector").getD CharSet.empty))
  else if name = "ogrext" ∨ name = "othergraphemeextend" then
    some (outside "graphemeextend" ["me", "mn"])
  else if name = "oidc" ∨ name = "otheridcontinue" then
    some ((outside "idcontinue" ["mn", "mc", "nd", "pc"]).diff
      ((stored? "idstart").getD CharSet.empty))
  else if name = "oids" ∨ name = "otheridstart" then some (outside "idstart" ["l", "nl"])
  else if name = "olower" ∨ name = "otherlowercase" then some (outside "lowercase" ["ll"])
  else if name = "omath" ∨ name = "othermath" then some (outside "math" ["sm"])
  else if name = "oupper" ∨ name = "otheruppercase" then some (outside "uppercase" ["lu"])
  else none

/-- The characters that may follow in a mathematical identifier: those that may start one, and
superscript and subscript digits and signs. -/
def mathContinue : CharSet :=
  ((stored? "idcompatmathstart").getD CharSet.empty).union
    ⟨[(0xB2, 0xB3), (0xB9, 0xB9), (0x2070, 0x2070), (0x2074, 0x207E), (0x2080, 0x208E)]⟩

def find? (name : String) : Option CharSet :=
  if name = "idcompatmathcontinue" then some mathContinue
  else (stored? name).orElse fun _ => remainder? name

/-- The characters that have the property with a name, none if there is no such property. -/
def get (name : String) : CharSet := (find? name).getD CharSet.empty

end Registrar.Property
