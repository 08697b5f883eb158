import Registrar.Unicode.CharSet

/-!
# Recent additions

Characters of version 17.0 of the standard. The other tables are those of version 16.0, for which
these characters are unassigned.
-/

namespace Registrar.Recent

def alphabetic : CharSet :=
  CharSet.ofTable
    ("PE20Mu0+30RXG112010s0OKopLL12S11ED37IiL1EGko2o.84BA67JI1lB3S3NGmu1l81wBU15Cx5bCIlJG4")

def number : CharSet :=
  CharSet.ofTable "APH29KQk2"

def visible : CharSet :=
  CharSet.ofTable
    ("PE20Mu0+30E+40UW20XBv12010s0R.kfzd1W16Rx2pLL1288IE303010IiL149WFko2o.84BA67JI1lB3S3H" ++
      "Yf2zdmfgP.5u1211162491Y.30.43Va8xb3S1030Z1040s040K80+ZO15Cx5bCIlJG4")

end Registrar.Recent
