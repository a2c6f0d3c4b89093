/-! # General categories

The general category of every code point, as the standard's table gives it, and what follows from it.
-/

namespace Emend.Text

inductive Category where
  | lu | ll | lt | lm | lo | mn | mc | me | nd | nl | no | pc | pd | ps | pe
  | pi | pf | po | sm | sc | sk | so | zs | zl | zp | cc | cf | cs | co | cn
deriving DecidableEq, Repr, Inhabited

namespace Category

/-- In the order of the letters in `runs`: `A` to `Z`, then `a` to `d`. -/
def all : List Category := [
  .lu, .ll, .lt, .lm, .lo, .mn, .mc, .me, .nd, .nl, .no, .pc, .pd, .ps, .pe,
  .pi, .pf, .po, .sm, .sc, .sk, .so, .zs, .zl, .zp, .cc, .cf, .cs, .co, .cn]

def name : Category → String
  | lu => "Lu"
  | ll => "Ll"
  | lt => "Lt"
  | lm => "Lm"
  | lo => "Lo"
  | mn => "Mn"
  | mc => "Mc"
  | me => "Me"
  | nd => "Nd"
  | nl => "Nl"
  | no => "No"
  | pc => "Pc"
  | pd => "Pd"
  | ps => "Ps"
  | pe => "Pe"
  | pi => "Pi"
  | pf => "Pf"
  | po => "Po"
  | sm => "Sm"
  | sc => "Sc"
  | sk => "Sk"
  | so => "So"
  | zs => "Zs"
  | zl => "Zl"
  | zp => "Zp"
  | cc => "Cc"
  | cf => "Cf"
  | cs => "Cs"
  | co => "Co"
  | cn => "Cn"

/-- Runs of code points of one category from zero upwards: a letter for the category, then the length of
the run unless it is one. -/
def runs : List String := [
  "Z32WR3TR3NORSRMR2I10R2S3R2A26NROULUB26NSOSZ33WRT4VRUVEPSaVUVSK2UBR2UKEQK3RA23SA7B24SB8ABABABABABABAB",
  "ABABABABABABABABABABABABABABABABABABABABAB2ABABABABABABABAB2ABABABABABABABABABABABABABABABABABABABAB",
  "ABABABA2BABAB3A2BABA2BA3B2A4BA2BA3B3A2BA2BABABA2BAB2ABA2BA3BABA2B2EAB3E4ACBACBACBABABABABABABABAB2AB",
  "ABABABABABABABAB2ACBABA3BABABABABABABABABABABABABABABABABABABABABABABABABABABABABAB7A2BA2B2ABA4BABAB",
  "ABAB69EB27D18U4D12U14D5U7DUDU17F112ABABDUABd2DB3RAd4U2ARA3dAdA2BA17dA9B35AB2A3B3ABABABABABABABABABAB",
  "ABAB5ABSABA2B2A51B48ABABABABABABABABABABABABABABABABABVF5H2ABABABABABABABABABABABABABABABABABABABABA",
  "BABABABABABABA2BABABABABABAB2ABABABABABABABABABABABABABABABABABABABABABABABABABABABABABABABABABABABA",
  "BABABABABABABABABABABABABdA38d2DR6B41RMd2V2TdF45MFRF2RF2RFd8E27d4E4R2d11a6S3R2TR2V2F11RaR3E32DE10F21",
  "I10R4E2FE99REF7aVF6D2F2VF4E2I10E3V2ER14daEFE30F27d2E89F11Ed14I10E33F9D2VR3Dd2FT2E22F4DF9DF3DF5d2R15d",
  "E25F3d2RdE11d5E24UE6da2d6F8E41DF24aF32GE54FGFEG3F8G4FG2EF7E10F2R2I10RDE15FG2dE8d2E2d2E22dE7dEd3E4d2F",
  "EG3F4d2G2d2G2FEd8Gd4E2dE3F2d2I10E2T2K6VTERFd2F2GdE6d4E2d2E22dE7dE2dE2dE2d2FdG3F2d4F2d2F3d3Fd7E4dEd7",
  "I10F2E3FRd10F2GdE9dE3dE22dE7dE2dE5d2FEG3F5dF2GdG2Fd2Ed15E2F2d2I10RTd7EF6dFG2dE8d2E2d2E22dE7dE2dE5d2F",
  "EGFGF4d2G2d2G2Fd7F2Gd4E2dE3F2d2I10VEK6d10FEdE6d3E3dE4d3E2dEdE2d3E2d3E3d3E12d4G2FG2d3G3dG3Fd2Ed6Gd14",
  "I10K3V6TVd5FG3FE8dE3dE23dE16d2FEF3G4dF3dF4d7F2dE3d2Ed2E2F2d2I10d7RK7VEFG2RE8dE3dE23dE10dE5d2FEGFG5dF",
  "G2dG2F2d7G2d6E2dE2F2d2I10dE2Gd12F2G2E9dE3dE41F2EG3F4dG3dG3FEVd4E3GK7E3F2d2I10K9VE6dFG2dE18d3E24dE9dE",
  "d2E7d3Fd4G3F3dFdG8d6I10d2G2Rd12E48FE2F7d4TE6DF8RI10R2d37E2dEdE5dE24dEdE10FE2F9Ed2E5dDdF7dI10d2E4d32E",
  "V3R15VRV3F2V6I10K10VFVFVFNONOG2E8dE36d4F14GF5RF2E5F11dF36dV8FV6dV2R5V4R2d37E43G2F4GF6GF2G2F2EI10R6E6",
  "G2F2E4F3EG3E2G7E3F4E13FG2F2G6FEGI10G3FV2A38dAd5Ad2B43RDB3E329dE4d2E7dEdE4d2E41dE4d2E33dE4d2E7dEdE4d2",
  "E15dE57dE4d2E67d2F3R9K20d3E16V10d6A86d2B6d2ME620VRE17WE26NOd3E75R3J3E8d7E18F3Gd9E19F2GR2d9E18F2d12",
  "E13dE3dF2d12E52F2GF7G8FG2F11R3DR3TEFd2I10d6K10d6R6MR4F3aFI10d6E35DE53d7E5F2E34FEd5E70d10E31dF3G4F2G3",
  "d4G2FG6F3d4Vd3R2I10E30d2E5d11E44d4E26d6I10Kd3V34E23F2G2Fd2R2E53GFGF7dFGFG2F8G6F10d2FI10d6I10d6R7DR6",
  "d2F14HF16d49F4GE47FGF5GFG5FG2E8d3I10R7V10F9V9R2dF2GE30GF4G2F2GF3E2I10E44FGF2G3FGF3G2d8R4E36G8F8G2F2",
  "d3R5I10d3E3I10E30D6R2B9d7A43d2A3R8d8F3RF13GF7E4FE6FE2GF2Ed5B44D63B13DB34D37F64ABABABABABABABABABABAB",
  "ABABABABABABABABABABABABABABABABABABABABABABABABABABABABABABABABABABABABABABABABABABABABABABABABABAB",
  "ABABABABABABABABABABABABABAB9ABABABABABABABABABABABABABABABABABABABABABABABABABABABABABABABABABABABA",
  "BABABABABABABABABABABABABAB9A8B6d2A6d2B8A8B8A8B6d2A6d2B8dAdAdAdAB8A8B14d2B8C8B8C8B8C8B5dB2A4CUBU3B3d",
  "B2A4CU3B4d2B2A4dU3B8A5U3d2B3dB2A4CU2dW11a5M6R2PQNP2QNPR8XYa5WR9PQR4L2R3SNOR11SRLR10Wa5da10KDd2K6S3NO",
  "DK10S3NOdD13d3T33d15F13H4FH3F12d15V2AV4AV2BA3B2A3BVAV2SA5V6AVAVAVA4VBA4BE4BV2B2A2S5AB4VSV2BVK16J35AB",
  "J4KV2d4S5V5S2V4SV2SV2SV7SV31S2V2SVSV31S268V8NONOV20S2V7NOV81SV30S25V40S6V69d25V11d21K60V78K22V183SV9",
  "SV54S8V111SV248NONONONONONONOK30V44S5NOS31NONONONONOS16V256S131NONONONONONONONONONONOS63NONOS32NO",
  "S258V48S21V2S6V39d2V32dV105A48B48ABA3B2ABABABA4BAB2AB6D2A3BABABABABABABABABABABABABABABABABABABABABA",
  "BABABABABABABABABABABABABABABABABABABABABABABABABABABABAB2V6ABABF3ABd5R4KR2B38dBd5Bd2E56d7DRd14FE23",
  "d9E7dE7dE7dE7dE7dE7dE7dE7dF32R2PQPQR3PQRPQR9MR2MRPQR2PQNONONONOR5DR10M2R4MRNR13V2R3NONONONOMd34V26d",
  "V89d12V214d26V12d4WR3VDEJNONONONONOV2NONONONOMNO2VJ9F4G2MD5V2J3DERV2dE86d2F2U2D2EME90RD3Ed5E43dE94d",
  "V2K4V10E32V36d12E16V31dK10V30K8VK15V32K10V39K15V320E6592V64E21013DE1143d3V55d9E40D6R2E268DR3E16I10E2",
  "d20ABABABABABABABABABABABABABABABABABABABABABABABEFH3RF10RDABABABABABABABABABABABABABABD2F2E70J10F2",
  "R6d8U23D9U2ABABABABABABAB3ABABABABABABABABABABABABABABABABABABABABABABABABABABABABABABABDB8ABABA2BAB",
  "ABABABDU2ABABEABAB3ABABABABABABABABABABA5BA5BABABABABABABABA4BABd5ABdBdBABABd24D3ABED2BE7FE3FE4FE23",
  "G2F2GV4Fd3K6V2TVd6E52R4d8G2E50G16F2d8R2I10d6F18E6R3ERE2FI10E28F8R2E23F11G2d11RE29d3F3GE47FG2F4G2F2G3",
  "R13dDI10d4R2E5FDE9I10E5dE41F6G2F2G2F2d9E3FE8FGd2I10d2R4E16DE6V3EGFGE50FEF3E2F2E5F2EFEd24E2DR2E11GF2",
  "G2R2ED2GFd10E6d2E6d2E6d9E7dE7dB43UD4B9DU2d4B80E35G2FG2FG2RGFd2I10d6E11172d12E23d4E49d4b2048c6400E366",
  "d2E106d38B7d12B5d5EFE10SE13dE5dEdE2dE2dE108U17d16E363ONV16E64d2E54d7Vd32E12TV3F16R7NORd6F16RM2L2NONO",
  "NONONONONONOR2NOR4L3R3dR4MNONONOR3SMS3dRTR2d4E5dE135d2adR3TR3NORSRMR2I10R2S3R2A26NROULUB26NSOSNORNO",
  "R2E10DE45D2E31d3E6d2E6d2E6d2E3d3T2SUVT2dVS4V2d10a3V2d2E12dE26dE19dE2dE15d2E14d34E123d5R3d4K45d3V9J53",
  "K4V17K2V3dV13d3Vd47V45Fd130E29d3E49d15FK27d4E32K4d9E20JE8Jd5E38F5d5E30dRE36d4E8RJ5d42A40B40E78d2I10",
  "d6A36d4B36d4E40d8E52d11RA11dA15dA7dA2dB11dB15dB7dB2d67E311d9E22d10E8d24D6dD42dD9d69E6d2EdE44dE2d3Ed2",
  "E23dRK8E23V2K7E31d8K9d48E19dE2d5K5E22K6d3RE26d5Rd64E56d4K2E2K16d2K46EF3dF2d5F4E4dE3dE29d2F3d4FK9d7R9",
  "d7E29K2RE29K3d32E8VE28F2d4K5R7d9E54d3R7E22d2K8E19d5K8E18d7R4d12K7d80E73d55A51d13B51d7K6E36F4d8I10",
  "d294K31dE42dF2Md2E2d75F3E29K10Ed8E22F11K4R5d22E18F4R4d38E21K7d20E23d9GFGE53F15R7d4K20I10FE2F2Ed9F3G",
  "E45G3F4G2F2R2aR4Fd10ad2E25d7I10d6F3E36F5GF8dI10R4EG2Ed8E35FR2Ed9F2GE48G3F9G2E4R4F4RGFI10ERER3dK20d11",
  "E18dE25G3F3G2FGF2R6FE2Fd62E7dEdE4dE15dE10Rd6E47FG3F8d5I10d6F2G2dE8d2E2d2E22dE7dE2dE5dF2EG2FG4d2G2d2",
  "G3d2Ed6Gd5E5G2d2F7d3F5d139E53G3F8G2F3GFE4R5I10R2dRFE3d30E48G3F6GFG4F2GF2E2REd8I10d166E47G3F4d2G4F2G",
  "F2R23E4F2d34E48G3F8G2FGF2R3Ed11I10d6R13d19E43FGFG2F6GFERd6I10d54E27d2F3G2F4GF5d4I10K2R3VE7d185E44G3",
  "F9GF2Rd100A32B32I10K9d12E8d2Ed2E8dE2dE24G6dG2d2F2GFEGEGFR3d9I10d70E8d2E39G3F4d2F2G4FEREGd27EF10E40F6",
  "GEF4R8Fd8EF6G2F3E46F13GF2R3ER5d13E73d7R10d246E9dE37GF7dF6GFER5d10I10K19d3R2E30d2F22dGF7GF2GF2d73E7d",
  "E2dE38F6d3FdF2dF7EFd8I10d6E6dE2dE32G5dF2dG2FGFEd7I10d310E19F2G2R2d7F2EGE13dE34G2F5d3G2FGFR13I10d86E",
  "d15K21V8T4V17d13RE922d102J111dR5d11E196d2636E97R2d13E1072a16FE6F15d4010E583d8633E569d7E31dI10d4R2E79",
  "dI10d6E30d2F5Rd10E48F7R5V4D4RVd10I10dK7dE21d5E19d688A32B32K23R4d101E75d4FEG55d7F4D13d64D2RDFd11G2d14",
  "E6136d8E1238d42E9d8935D4dD7dD2dE291d15Ed29E3d2Ed14E4d8E396d2308E107d5E13d3E9d7E10d2VF2Ra4d4700F46d2",
  "F23d9V116d60V246d10V39d2V60G2F3V3G6a8F8V2F7V30F4V61d21V66F3Vd122K20d12K20d12V87d9K25d135A26B26A26B7d",
  "B18A26B26AdA2d2Ad2A2d2A4dA8B4dBdB7dB11A26B26A2dA4d2A8dA7dB26A2dA4dA5dAd3A7dB26A26B26A26B26A26B26A26",
  "B26A26B26A26B28d2A25SB25SB6A25SB25SB6A25SB25SB6A25SB25SB6A25SB25SB6ABd2I50V512F55V4F50V8FV14FV2R5d15",
  "F5dF15d1104B10EB20d6B6d213F7dF17d2F7dF2dF5d5D62d33Fd112E45d3F7D7d2I10d4EVd320E30Fd17E44F4I10d5Td464",
  "E27DF4I10d742E7dE4dE2dE15dE197d2K9F7d41A34B34F7Dd4I10d4R2d785K59VK3TK4d76K45VK15d194E4dE27dE2dEd2Ed",
  "E10dE4dEdEd6Ed4EdEdEdE3dE2dEd2EdEdEdEdEdE2dEd2E4dE7dE4dE4dEdE10dE17d5E3dE5dE17d52S2d270V44d4V100d12",
  "V15d2V15dV15dV37d10K13V161d56V29d13V44d4V9d7V2d14V6d154V251U5V728d4V17d3V13d3V119d4V95d6V12d4Vd15V12",
  "d4V56d8V10d6V40d8V30d2V2d78V340d12V14d2V13d3V9d7V46dV7d8V14d4V9d7V9d7V147dV55d37I10d1030E42720d32",
  "E4154d6E222d2E5762d14E7473d3103E542d1506E4939d5E4192d711761ad30a96d128F240d65040c65534d2c65534d2"]

def ofLetter (c : Char) : Category :=
  all.getD (if c.toNat < 91 then c.toNat - 65 else c.toNat - 71) .cn

def starts : Array (Nat × Category) :=
  let step (acc : Array (Nat × Category) × Nat × Option (Category × Nat)) (c : Char) :=
    let (found, start, current) := acc
    if c.isDigit then
      (found, start, current.map fun (k, n) => (k, n * 10 + (c.toNat - 48)))
    else match current with
      | none => (found, start, some (ofLetter c, 0))
      | some (k, n) => (found.push (start, k), start + max n 1, some (ofLetter c, 0))
  let (found, start, current) := runs.foldl (fun acc line => line.toList.foldl step acc) (#[], 0, none)
  match current with
  | none => found
  | some (k, _) => found.push (start, k)

/-- The last run that starts at or below `n`, between `low` and `high`; each step halves the distance. -/
def search (n : Nat) : Nat → Nat → Nat → Category
  | 0, low, _ => (starts.getD low (0, .cn)).2
  | fuel + 1, low, high =>
    if high ≤ low + 1 then (starts.getD low (0, .cn)).2
    else
      let middle := (low + high) / 2
      if (starts.getD middle (0, .cn)).1 ≤ n then search n fuel middle high else search n fuel low middle

def ofCode (n : Nat) : Category := search n 16 0 starts.size

end Category

def category (c : Char) : Category := Category.ofCode c.toNat

def Category.isLetter : Category → Bool
  | lu | ll | lt | lm | lo => true
  | _ => false

def Category.isMark : Category → Bool
  | mn | mc | me => true
  | _ => false

def extendingSpacers : List (Nat × Nat) := [
  (0x9BE, 0x9BE), (0x9D7, 0x9D7), (0xB3E, 0xB3E), (0xB57, 0xB57), (0xBBE, 0xBBE), (0xBD7, 0xBD7),
  (0xCC2, 0xCC2), (0xCD5, 0xCD6), (0xD3E, 0xD3E), (0xD57, 0xD57), (0xDCF, 0xDCF), (0xDDF, 0xDDF),
  (0x1B35, 0x1B35), (0x200C, 0x200C), (0x302E, 0x302F), (0xFF9E, 0xFF9F), (0x1133E, 0x1133E),
  (0x11357, 0x11357), (0x114B0, 0x114B0), (0x114BD, 0x114BD), (0x115AF, 0x115AF), (0x11930, 0x11930),
  (0x1D165, 0x1D165), (0x1D16E, 0x1D172), (0xE0020, 0xE007F)]

def extendsGrapheme (c : Char) : Bool :=
  match category c with
  | .mn | .me => true
  | _ => extendingSpacers.any fun (low, high) => low ≤ c.toNat && c.toNat ≤ high

/-- Shows on paper: no control, format, private or unassigned character, and no blank but the space. -/
def isPrintable (c : Char) : Bool :=
  match category c with
  | .cc | .cf | .cs | .co | .cn | .zl | .zp => false
  | .zs => c == ' '
  | _ => true

end Emend.Text
