import Registrar.Unicode.CharSet

/-!
# General categories

The general category of each character, and the sets that category names stand for. A name is looked
up in its loose form: small letters, without blanks, hyphens and underscores.
-/

namespace Registrar.Category

/-- The characters of each category that is assigned to some, by its two-letter name. -/
def tables : List (String × String) := [
  ("lu",
    "B2pF3m16B1010101010101010101010101010101010101010101010101010101020101010101010102010101" ++
    "0101010101010101010101010101010101010101110103110111223111231111010111020111210113070202" ++
    "0201010101010101020101010101010101020201210101010101010101010101010101010101010101010101" ++
    "010101010107111201310101010B90103080601210111g18D10223010101010101010101010105020112S1Q1" ++
    "0101010101010101010101010101010109010101010101010101010101010101010101010101010101010101" ++
    "1101010101010201010101010101010101010101010101010101010101010101010101010101010101010101" ++
    "0101010101010101010102F1Jw2F11050SmV2TE206K122Aa0101010101010101010101010101010101010101" ++
    "0101010101010101010101010101010101010101010101010101010101010101010101010101010101010101" ++
    "0101010101010101010109010101010101010101010101010101010101010101010101010101010101010101" ++
    "01010101010101010101010101010109785a78785b010101087I23c3c3c4b3G8040322220346010101323a15" ++
    "0z10yT2P1Q101220101013102082101010101010101010101010101010101010101010101010101010101010" ++
    "10101010101010101010101010101010101010801040NKu01010101010101010101010101010101010101010" ++
    "1010j010101010101010101010101010H4010101010101030101010101010101010101010101010101010101" ++
    "010101010101010101010a010111010101040102010301010101010101010101414101010101010101310113" ++
    "050101010o0LZlpFG1H1I4D1y4a1e1611KX1S1z4lwZ2vAMlvANppqpqpq01120212317qpq1132716r11314103" ++
    "6rpqpqpqpqpqpuoB1oB1oB1oB1oB10VJ4B1"),
  ("ll",
    "B3pw10J1n1710101010101010101010101010101010101010101010101010101011101010101010101110101" ++
    "0101010101010101010101010101010101010101020101220102031402032202010102011102030102122602" ++
    "0201010101010101011101010101010101011201030101010101010101010101010101010101010101010101" ++
    "0101010101016202110401010101E21qB60103032i0rC11132101010101010101010101014102021T1P11010" ++
    "1010101010101010101010101010109010101010101010101010101010101010101010101010101010102010" ++
    "1010101011101010101010101010101010101010101010101010101010101010101010101010101010101010" ++
    "101010101010101010Q1I1Hw2K122Yn5CE2810V3L1+1c1B1G301010101010101010101010101010101010101" ++
    "0101010101010101010101010101010101010101010101010101010101010101010101010101010101010101" ++
    "0101010101010101010101810101010101010101010101010101010101010101010101010101010101010101" ++
    "01010101010101010101010101010101885a78785a7878d2787878411603211832187a211S803130r0404021" ++
    "8340V10LV2P11031101010401115501010101010101010101010101010101010101010101010101010101010" ++
    "1010101010101010101010101010101010101011701040cF11050TIu01010101010101010101010101010101" ++
    "0101010101010j010101010101010101010101010H4010101010101210101010101010101010101010101010" ++
    "1010101010101010101010101010101710102010101010401020121010101010101010101050501010101010" ++
    "1010401020301010101010q030VpK1587P2Awj6c4JB1pNG1H1I4D1x4a1e1611DY1S1z3lwZ2vAMlvwMppq61hq" ++
    "pq310161aqpqpqpqpqpqpqpqpqrso15qo15qo15qo15qo1510UZ191j65XP2B1"),
  ("lt",
    "Fe02020G10VM778787c0f0P10"),
  ("lm",
    "Qlh4be47010F4050.e0G70E51N8140v09030A50H50UG10+30Vh0wW10L30Dj0Qe5O5.1d0C1E1Rl0d0gc+.21R7" ++
    "0+50Ve0L1450B31z22WYr0CH15O80S30s1Z38Q20n0J3231Ve0m0J40M30l1H3390GAl0N11A+151J118TM10A10" ++
    "QOn3yf2I11GhcA2110MAg31611RBcz1J66Nt0+C10"),
  ("lo",
    "K50f0A8043Q60xpq43N1v19D111C310o1a220g01ttY2b0oA1llK1o7a5n15hI1x1V130i079ge47212l1610333" ++
    "0g0d112e1a085412l16111111v310j2g8121l16111430i0f1n0b7212l16111430u112f0h0153213311011313" ++
    "23bm0U17121m1f30q22021u047121m191430v111f1h8121I120g05282o55h3n181026w1P111c5x1110141n10" ++
    "19119024n3A10+171D1r4T3K1k0g5433031724cc0R3Ia132610132I1132A1132610132e1Y1132C2F1fR3Lj2g" ++
    "1p5K2677hdiehec12fT1I10D2C11U1742B1105F2auR1t24bL14pW1m9U1Q5O1h7W1td1aL1qD1J12atR3315113" ++
    "0wB13X+2X1om9616161616161616Hh0V104V2801Z2405K11z2hvQ1fAg+N6A2UQk1WD1D2H18L84fa1C20R1F2J" ++
    "50H303612131mtT1eR1.153011bramps7O1N1428a41I1n217kf15303R11031242010o13a70e525259616R4C1" ++
    "tDzacm4Q1EI8Nb2J3D20191c141011111L3B1Kbi+12V1I1bU341G4J391M12u35252522D1b1p1i111e2dC1w3F" ++
    "cs3Q1P1vdj176F1at2D147A4N2C3H18T1y2T1cW99la7Y45201L111302mam9uB2i11alapG2X161A20f3121sK1" ++
    "s3sD171rrV1alaidhO3I2X5D1G1310Q9J161g2x1sa08lK1hO1krmcU1Z1120dM1A1oqD1t0208C130cP1e3l010" ++
    "D1h1oj1+1610131e197O1G17212l16111430i0c4u910201F110p010M1U1i3k2uP1k110Y5O1J13E1P1k0x1K1d" ++
    "0H2qF16Z5L1T672027111nf010.272G1g010s0aH170l0bN1j0iI2H6A1v81E1h0R1tQ36111F1l0p5111ve0Hai" ++
    "f01c1B1y30P2ZsG7D6MS2A3fPB1h5pwy35GiZV6tCX1Yh7uhO2htiP1T1k5iTdH1VcK250P5X+58VG1J19XX8C9f" ++
    "0t220e38LcEI2K35c3879QT80VfM1B10BatiL1EfqF7t20Pf613111e1E6xJ131q111020191310106040101012" ++
    "1110201010101011102316131310191g52141gEK4+WJ1A1ZB46z62BU5eQJ7fNjCN2zgCP1Kw45+C4"),
  ("mn",
    "AoP3T84J8M110111110I2aQ1kg0F36252113D10uqx2aw1890o3181214L12x18K1n1vX1010474036a1t0w1043" ++
    "80k1q021Z1041412230u130b1Z10441140k1m510w1020138071b1u0z10c0S1030X1012521371b1t0w1020605" ++
    "1k1s1Z114380k1t0I207210w2026c7C3028b6J21r01010X1d14115a1D190G33151121p142g3d02160f0+l2St" ++
    "2t1u1u1A2116802a90N1210V31C10W32419062x6120w10161010276920Q1d1fR13Q10141050I18c1A132112Y" ++
    "10113012w1721Y421c16406031G6+1Qmc403b.+22N40A3vKh3L31UOt049A11Q21Q803040p150X41qhd0G17pa" ++
    "O12Q102321H10D252121c080P10T1012215110K1180O702040QZj0BnfgfNu0C70V44GU121153I1240F51zh3B" ++
    "24z91P23G2aR13x30W1eJ1021a2R132170z12E1417.10c1U18a320+2220116020z4037l1Z1130F1634G25d01" ++
    "010e1V272210n0U25104111O736111r1V272011K30102510F30102314D8811A811040Q432140A19I15238095" ++
    "22O1c11Wc61510S2l261111w3530111610I213010xa1b1U145010n0FH506eIGbb32AO24x16YA10+13R20YFj1" ++
    "BT4N12mAh2h726u3U42xz1W14R180e0m41eQK161g261114E30A56Xb0z13yf3.71An6N36VzFoP7"),
  ("mc",
    "DI20X10228311S11w126121a0L10w12C20w128011V11w10106121a0G31113212a0J12z13z11w1014211191s0" ++
    "e1w125212a0K11L2267i1Ka1+10L51406021p1a226l12520a2YT10u0B407711wa3224115A71w1010901185R4" ++
    "0Q10501411z10u04120y10221031Q1781L50l0WZ41T+t120Y21S1fO41P10Q114122O3121o0N1010N302150N7" ++
    "1111110TAp010+30N1241T30o1x10Q1291d0z223110K52v1w1113212290a1U227020131110F328130K326013" ++
    "20N726320R328110N301160H301140F8290X7511402010O428340U20t1.10Xc0e0K307020V644110.a1c0Q11" ++
    "8110IPg2ER3W1I31TLo165"),
  ("me",
    "IE11UR50.Q1312LMB12"),
  ("nd",
    "Q19GR19G49G69yc9W39W39W39W39W39W39W39W39W39A39W39G29W89G29Gw19G19M99A49G5969W59W29G4969G" ++
    "OC19Gl9G19G69m9W29Wc9WYk9GM19GE2969yo9A49y19Q49W89Wa9W39Wb9G396jM29Gd9G39Wk9W29W79G29Gd9" ++
    "WOg9GJ29W29G49Wg9Wxn9UW2R1AK29Gd9Wf9X79Vq9WU49"),
  ("nl",
    "OX52PT2C123.T30p8e2LVt9QSmU1Me080G44KB8O3"),
  ("no",
    "S515022VJ25Yb5Y32F46Z66h8Rd9VB1jTD19Af0VU103569G6fJ10Wmx1O2lWjtJL10UE13K49u71eA19H1eQLt5" ++
    "RGmM1B23h1VaqE13UJ17p6H18L24m5A512f2N1A28U11u2L24I37o7J16Ka5Abu.49K13Q36G4jxbjFK11Od8Hri" ++
    "TqkGyi6.omJBpjcjM3oOK58Btw11213M2M11eCuc"),
  ("pc",
    "+20+.71j0.OX11o2P70"),
  ("pd",
    "N10yK10T10BS30FA10JA25BQ3020v140s0.d0j0P30QMT11F10a0J50AT30.90"),
  ("ps",
    "I10S10v0.V3010.w10.L2030G10X10f0wj010u0.B10101010101010Q20A1010101010Uc01010101010101010" ++
    "1010A2010B10FB10101010p0i0101010Md0101010103010101020BJT10X60t01010101010101030h01010K50" ++
    "S10v03020"),
  ("pe",
    "J10T10v0zV3010.w10JN20X10f0wj010u0.B10101010101010Q20A1010101010Uc010101010101010101010A" ++
    "2010B10FB10101010M10101010Md0101010103010101021.IT10Z60t01010101010101030h01010K50T10v02" ++
    "020"),
  ("pi",
    "L50Mx702120p0IO30104020f030"),
  ("pf",
    "x50zw7030s0IO30104020f030"),
  ("po",
    "B1212201011a131r0E2050e170.l080Se5J10W102020M11k111d012K23G30L1dJ72W1ev0F81a0M40Y30Z30Gc" ++
    "0c0Pb0w20a1I5e10Q30K2441P35L50Ej8Fo0y32H21z4212F1513Z91Y61A4615A51a6s2y33x14.11A27b0Cq18" ++
    "78823223a1019wE3311Q30P41422028111021a41923101c22Md2Z10z50CAt1N82D30a0T35yb3W21I1210R11P" ++
    "10B3cg1y33.31g1Z70ERk620m0k1233213726011V4212201011a131r0E1021wc2yk0Q10.c0Hn0H60v0Q88G10" ++
    "Q36C26Z23Yt4M13z56N3113.33Q11P2340d012Y25L30K9111S34a110I30w7mJ32scM20C42y70I82x40y27T22" ++
    "14z29X60+24K11Fk1K2cP50QD14yx21xTe1F40B2480Ih2H93Ha0yFj0HP74Tx20.q1"),
  ("sm",
    "L10g2z1010N1040F10v0.n0Pg2xR60d0H12d2L40H1460E245140202070v12010vL8A11w20uoI15Ve090W17P3" ++
    "0Qa42uafA8C4m.14v2B8Q1k25y.T10Yp012E50g2z1010D4063BN31RJS10p0v0p0v0p0v0p0v0p0MZ51"),
  ("sc",
    "E10z33JH10x30Sf1Sf170V70H80Fi0xM20EG2A1XxB10DOl0M30w40x6131W+73.YQ10QN20"),
  ("sk",
    ".2010H20604030Jg3cd56101gV30e1CI10UZ5012b2d2d2d1yE41DTtm91H31Qu0e1GCkgxr010C50XAz14"),
  ("so",
    "G50204010Ru0K81+31O60a0j1X70Dg0Vb0C4510E40P60J10Hc2f01225k01010F47151153F61Qn9Tm0Sm0z4B1" ++
    "Bb998DM111311a0116510101040b1e01110w1194231111161u21101uM874j262Q21tpH16H2maR2N2mW5181V1" ++
    "8O31X7M1L1A2+7AgP1l16G12v1I3F75Fb1O1p1Y2cV6qf40d1c0l161Qa149A1F190gubt80fvaG1f+9AO6+1QUl" ++
    "W1Br3a110zh2GWkf+30N12Ef03041d1Z98Z1g221c30P1M1wT11Pi0WD30VE274gKwi350WKk0Dx3P7gTdy4T3y1" ++
    "V7aG12x152m17t4y1lB230w5W2JF1+fX13S171d11IW10yw20B40RmL14D3ce2e1e1E1nA5Y1sdL14871e5w4w75" ++
    "Xm4g3c3W34.26b40fb4X1896H18t2b41.1Tacd2c395X17e2a687S41x2"),
  ("zs",
    "A10+30+O50+L2aE10P10Az30"),
  ("zl",
    "IB80"),
  ("zp",
    "JB80"),
  ("cc",
    "0v+2A1"),
  ("cf",
    "N50SK15m0A60R10Ac1Q20LZ30y+14q4R1419PUX10Z72BG40f0Cx8fADC13PG57GULo0u+2"),
  ("co",
    "AAY1+H6AYBsz++12z++1")]

/-- The names of each set of categories, in loose form, and the categories it joins. Surrogates are
no characters and have no category here, and `cn` stands for all characters without a category. -/
def names : List (List String × List String) := [
  (["c", "other"],
    ["cc", "cf", "co", "cn"]),
  (["cc", "cntrl", "control"],
    ["cc"]),
  (["cf", "format"],
    ["cf"]),
  (["cn", "unassigned"],
    ["cn"]),
  (["co", "privateuse"],
    ["co"]),
  (["l", "letter"],
    ["lu", "ll", "lt", "lm", "lo"]),
  (["casedletter", "lc"],
    ["lu", "ll", "lt"]),
  (["ll", "lowercaseletter"],
    ["ll"]),
  (["lm", "modifierletter"],
    ["lm"]),
  (["lo", "otherletter"],
    ["lo"]),
  (["lt", "titlecaseletter"],
    ["lt"]),
  (["lu", "uppercaseletter"],
    ["lu"]),
  (["combiningmark", "m", "mark"],
    ["mn", "mc", "me"]),
  (["mc", "spacingmark"],
    ["mc"]),
  (["enclosingmark", "me"],
    ["me"]),
  (["mn", "nonspacingmark"],
    ["mn"]),
  (["n", "number"],
    ["nd", "nl", "no"]),
  (["decimalnumber", "digit", "nd"],
    ["nd"]),
  (["letternumber", "nl"],
    ["nl"]),
  (["no", "othernumber"],
    ["no"]),
  (["p", "punct", "punctuation"],
    ["pc", "pd", "ps", "pe", "pi", "pf", "po"]),
  (["connectorpunctuation", "pc"],
    ["pc"]),
  (["dashpunctuation", "pd"],
    ["pd"]),
  (["closepunctuation", "pe"],
    ["pe"]),
  (["finalpunctuation", "pf"],
    ["pf"]),
  (["initialpunctuation", "pi"],
    ["pi"]),
  (["otherpunctuation", "po"],
    ["po"]),
  (["openpunctuation", "ps"],
    ["ps"]),
  (["s", "symbol"],
    ["sm", "sc", "sk", "so"]),
  (["currencysymbol", "sc"],
    ["sc"]),
  (["modifiersymbol", "sk"],
    ["sk"]),
  (["mathsymbol", "sm"],
    ["sm"]),
  (["othersymbol", "so"],
    ["so"]),
  (["separator", "z"],
    ["zs", "zl", "zp"]),
  (["lineseparator", "zl"],
    ["zl"]),
  (["paragraphseparator", "zp"],
    ["zp"]),
  (["spaceseparator", "zs"],
    ["zs"])]

def leaf (name : String) : CharSet :=
  match tables.find? fun row => row.1 == name with
  | some row => CharSet.ofTable row.2
  | none =>
    if name = "cn" then
      (CharSet.unions (tables.map fun row => CharSet.ofTable row.2)).complement
    else CharSet.empty

def find? (name : String) : Option CharSet :=
  if name = "any" then some CharSet.empty.complement
  else if name = "assigned" then some (leaf "cn").complement
  else if name = "ascii" then some (CharSet.range 0 0x7F)
  else
    (names.find? fun row => row.1.contains name).map fun row => CharSet.unions (row.2.map leaf)

/-- The characters that a category name stands for, none if there is no such category. -/
def get (name : String) : CharSet := (find? name).getD CharSet.empty

end Registrar.Category
