import Registrar.Unicode.CharSet

/-!
# Simple case folding

Each character folds to itself or to one other character. Two characters differ only in case when
they fold to the same one.
-/

namespace Registrar.CaseFolding

/-- The characters that do not fold to themselves: for each, the distance from the one before, and
twice the distance to what it folds to, less one where that lies below. -/
def table : String :=
  "B2A21A21A21A21A21A21A21A21A21A21A21A21A21A21A21A21A21A21A21A21A21A21A21A21A21A2x2OQ1bA21" ++
  "A21A21A21A21A21A21A21A21A21A21A21A21A21A21A21A21A21A21A21A21A21A22A21A21A21A21A21A21A2C1" ++
  "2222222222222222222222222222222222222222222222242222232222222222222223222222222222222222" ++
  "2222222222222222222222222222R71222222Xg2Ed12222yc122wc1wc123.41Uc1Wc122wc1.c2Gd1Cd124Gd1" ++
  "Kd2Md1222222Ud122Ud322Ud122Sd1Sd12222Wd1242841224122412222222222222222232222222222222222" ++
  "23412222B61P312222222222222222222222222222222222222222D82222222222222222228WCl122Fa1QCl3" ++
  "22Fc1K41O41222222222X7I7L1222429I77M22K21K21K22A42.31.32A21A21A21A21A21A21A21A21A21A21A2" ++
  "1A21A21A21A21A21A22A21A21A21A21A21A21A21A21A2n2dg1x11R14t1L12222222222222222222222222L31" ++
  "+23X31+3222d123D81D81D81A51A51A51A51A51A51A51A51A51A51A51A51A51A51A51A51A21A21A21A21A21A" ++
  "21A21A21A21A21A21A21A21A21A21A21A21A21A21A21A21A21A21A21A21A21A21A21A21A21A21A2R12222222" ++
  "22222222222222222222222222a222222222222222222222222222222222222222222222222222222u122222" ++
  "2222222232222222222222222222222222222222222222222222222222222222222222222222222222222222" ++
  "22222222222222223A31A31A31A31A31A31A31A31A31A31A31A31A31A31A31A31A31A31A31A31A31A31A31A3" ++
  "1A31A31A31A31A31A31A31A31A31A31A31A31A31A3Kw2AGe1AGe1AGe1AGe1AGe1AGe1AGe1AGe1AGe1AGe1AGe" ++
  "1AGe1AGe1AGe1AGe1AGe1AGe1AGe1AGe1AGe1AGe1AGe1AGe1AGe1AGe1AGe1AGe1AGe1AGe1AGe1AGe1AGe1AGe" ++
  "1AGe1AGe1AGe1AGe1AGe2AGe6AGeLpf1f1f1f1f1fDE2xEc1ZEc1HEc1DEc1DEc1FEc1XDc1HCc1GyE2127+x51+" ++
  "x51+x51+x51+x51+x51+x51+x51+x51+x51+x51+x51+x51+x51+x51+x51+x51+x51+x51+x51+x51+x51+x51+" ++
  "x51+x51+x51+x51+x51+x51+x51+x51+x51+x51+x51+x51+x51+x51+x51+x51+x51+x51+x51+x53+x51+x51+" ++
  "x5Ba222222222222222222222222222222222222222222222222222222222222222222222222222222222222" ++
  "222222222222222222222222222222222222222222222222222222222222222227T33zxe2222222222222222" ++
  "22222222222222222222222222222222222222222222222222222222222222222222222222222222af1f1f1f" ++
  "1f1f1f1f9f1f1f1f1f1fbf1f1f1f1f1f1f1f9f1f1f1f1f1f1f1f9f1f1f1f1f1fcf2f2f2f9f1f1f1f1f1f1f1f" ++
  "pf1f1f1f1f1f1f1f9f1f1f1f1f1f1f1f9f1f1f1f1f1f1f1f9f1f1T41T41h2JAeaL51L51L51L51h7FEe5f1f1H" ++
  "61H68FDe5f1f1+61+61dc+71+71x71x71hK9ZVe4zLg1LEg7Y1O1A11A11A11A11A11A11A11A11A11A11A11A11" ++
  "A11A11A11A1k2TpU11U11U11U11U11U11U11U11U11U11U11U11U11U11U11U11U11U11U11U11U11U11U11U11U" ++
  "11U1RZ1A31A31A31A31A31A31A31A31A31A31A31A31A31A31A31A31A31A31A31A31A31A31A31A31A31A31A31" ++
  "A31A31A31A31A31A31A31A31A31A31A31A31A31A31A31A31A31A31A31A31A3R122N+k1LO71N.k3222222XBl1" ++
  "Z+k1zBl1xBl22329zDl1zDl12222222222222222222222222222222222222222222222222222222222222222" ++
  "22222222222222222222222222222222222922252OKu22222222222222222222222222222222222222222222" ++
  "2k222222222222222222222222222I4222222222222242222222222222222222222222222222222222222222" ++
  "222222222222222222b2222HAF21222222222522PSS23222422222222222222222222HUS21zUS21VUS21BUS2" ++
  "1HUS22DRS21TSS21JRS21Aw112222222222222222+21FUS21PDF212222NWS212426222222BET2p2xr+yL21+y" ++
  "L21+yL21+yL21+yL21+yL21+yL21+yL21+yL21+yL21+yL21+yL21+yL21+yL21+yL21+yL21+yL21+yL21+yL21" ++
  "+yL21+yL21+yL21+yL21+yL21+yL21+yL21+yL21+yL21+yL21+yL21+yL21+yL21+yL21+yL21+yL21+yL21+yL" ++
  "21+yL21+yL21+yL21+yL21+yL21+yL21+yL21+yL21+yL21+yL21+yL21+yL21+yL21+yL21+yL21+yL21+yL21+" ++
  "yL21+yL21+yL21+yL21+yL21+yL21+yL21+yL21+yL21+yL21+yL21+yL21+yL21+yL21+yL21+yL21+yL21+yL2" ++
  "1+yL21+yL21+yL21+yL21+yL21+yL21+yL21+yL2Gwj2yA1A21A21A21A21A21A21A21A21A21A21A21A21A21A2" ++
  "1A21A21A21A21A21A21A21A21A21A21A21A2GG1Q21Q21Q21Q21Q21Q21Q21Q21Q21Q21Q21Q21Q21Q21Q21Q21Q" ++
  "21Q21Q21Q21Q21Q21Q21Q21Q21Q21Q21Q21Q21Q21Q21Q21Q21Q21Q21Q21Q21Q21Q21Q2J4Q21Q21Q21Q21Q21Q" ++
  "21Q21Q21Q21Q21Q21Q21Q21Q21Q21Q21Q21Q21Q21Q21Q21Q21Q21Q21Q21Q21Q21Q21Q21Q21Q21Q21Q21Q21Q2" ++
  "1Q2z4O21O21O21O21O21O21O21O21O21O21O22O21O21O21O21O21O21O21O21O21O21O21O21O21O21O22O21O2" ++
  "1O21O21O21O21O22O21O2LX1A41A41A41A41A41A41A41A41A41A41A41A41A41A41A41A41A41A41A41A41A41A" ++
  "41A41A41A41A41A41A41A41A41A41A41A41A41A41A41A41A41A41A41A41A41A41A41A41A41A41A41A41A41A4" ++
  ".4A21A21A21A21A21A21A21A21A21A21A21A21A21A21A21A21A21A21A21A21A21A2xZ2A21A21A21A21A21A21" ++
  "A21A21A21A21A21A21A21A21A21A21A21A21A21A21A21A21A21A21A21A21A21A21A21A21A21A2BMlA21A21A2" ++
  "1A21A21A21A21A21A21A21A21A21A21A21A21A21A21A21A21A21A21A21A21A21A21A21A21A21A21A21A21A2B" ++
  "VuE21E21E21E21E21E21E21E21E21E21E21E21E21E21E21E21E21E21E21E21E21E21E21E21E21E21E21E21E2" ++
  "1E21E21E21E21E2"

/-- Turns distances into pairs of a character and what it folds to. -/
def pairsFrom (previous : Nat) : List Nat → List (Nat × Nat)
  | step :: jump :: rest =>
    let c := previous + step
    (c, if jump % 2 = 0 then c + jump / 2 else c - (jump + 1) / 2) :: pairsFrom c rest
  | _ => []

/-- The characters that do not fold to themselves, each with what it folds to. -/
def pairs : List (Nat × Nat) := pairsFrom 0 (CharSet.numbers table)

/-- A set with all characters that differ from a member only in case. -/
def close (set : CharSet) : CharSet :=
  let moving := pairs.filter fun pair => set.holds pair.1 || set.holds pair.2
  let targets := (moving.map (·.2)).eraseDups
  let further := pairs.filter fun pair => targets.contains pair.2
  set.union (CharSet.ofPoints (targets ++ further.map (·.1)))

end Registrar.CaseFolding
