import ClassBackend.Text.CharSet

/-!
# General categories

Every character has one general category, such as upper-case letter or
decimal digit. A category is known by a short and a long name; those whose short
names start alike form a larger one. A character of no category is unassigned.
-/

namespace ClassBackend.Text

def categories : List CharClass :=
  CharClass.table "
  Lu Uppercase_Letter: 2N1a3XxBh1hBB1bcBBhcBBwBcbbDcbBcBdCeBcBdDcBcbbBcbcBcBdbBcdhCBdBBhcBBiccBdBB1d
  0HcBccBeBBe11dbdigBdbBcBrBj1jCddBBlfcBcC1z1wBBqjBB1aBcBBgcBB1vC1m111D1mbf27U3i84lG1rCd12iBB2wjBB1w
  0JiIgKiIiIglBBdIi2UeMEcMfLe10ceDdCdcDfgbbBeCeKcf2j103G1w1wBdcbbBebcIdBB1xibe1194jBBwtBBn5fBBgdBB1e
  kbBcBBeebcbdBBjBFcBBhBebBcdfBBdy858H1a46Z1o5G1k6AlBpBhBc68C1z6Bw110O1g841W1g1000Q1a1A1Ac1aBccCcCe
  0Bi1A1a1AcBeCiBh1BcBeBfbDh1B1a1A1Af1Ez1HZe1h169L1i;
  Ll Lowercase_Letter: 3T1a2g1PyBiBB1bBcBBhBcBBxcbBdcbcDcecDdccbbcBcbcdbCcCdgccBBhBcBBiBccbdBB1cBhc
  0CcbeBBdB2rB1b7lbdDds1B1jBcDdBBlBfbcCc1Z1wBBrjBB1acBBfBcBB1w1W1p111B1rCd29Gg83Ujb4N1s2LnB1i3yBB2v
  0BjBB1wBjIgKiIiIgKiIiIoCiIIcIfBcgDdBcIeCcIiKdBc10oDcd1beeCcIee2b105B1wbDcBBdeBcBgfBB1wBchbeM1mbf
  1192dBBwtBBn5fBBfBdBB1fBibbcBBeebcBdBBkffBBhebcdBBf1ad31P1rFjH3c780IhMf40Z1a47H1o5G1k5ZlBpBhBc
  69B1z4Vw110O1g841W1g1000K1a1AhBs1A1a1AebBhBl1A1Ai1A1c1CzBg1AzBg1AzBg1AzBg1AzBgb70YkBuGg98D1i;
  Lt Titlecase_Letter: 17lcc1m291HiIIcmp1v;
  Lm Modifier_Letter: 26MsEmOfhb5df18k8w6Ic10Jce1fjd6e6l47o4x21t67m4d23n17Wg6S2ln1I1l26nnQn116Xc9h7j
  18b1Rff3Tc3Pd1093u48Cg10k4k1Cc4Rj3cx4BdDc18bw5h4eVc3Zej827i1Tc77OgB1qBj54x1g923Se19Od1Oc21En2Mcb
  630QeBhBc474N2k7Th36f43b;
  Lo Other_Letter: 6op9wEe8a31V1bEe1T1gBk1JcB3vbYcKdcqB1e1D3llY1hVw1QzHlFyBgR1p2H2cdsHkQpEiCcCwBhbDe
  dqNcBdOckIgEcCwBhBCd1FebTdQjBdBwBhBcBfdsPcxLiCcCwBhBcBfd1EcBdprBgDdBeDcbBcDcDdDmw2AiBdBxBqd1AdcCc
  1eEiBdBxBkBfd1FcBcPcRjBdB1pcqFdIdYgFsDyBjbCh2G1wBcMg2HcbBfBybBkBcjCfXe1g2LiB1k1Bf4L1ruQgEedDcHdEnm
  4J12rBeChbBeC1pBeC1hBeChbBeCpB2fBeC2p1Lq4J23wCrB1aF2xGiHsNtOsOnBdP2a1o2P1jB2bHfC1ibF2sK1f1X1eCfL1s
  0E1a2CxJ2b6U1vRi2C1eNcK1s1A1k1PdK1e4JeBgBcd41Qe117V2eYxJhBHh21f2bE3iiB3meF1rB3qR1g1Wq19S253o2M808f
  0B43z2P1oI10iEqKc2o1X2s6n3zDhBdBeBx1D2aO1y2KgdBcL1cKxZ1dH1v1TfCjKfB1pXdBiUqBgdD1ybDcCfcbYcDlhOgCGc
  0JhBh5P1j1D429sMxE1x325C14cC4c2pBkBnBfbBCcB4e1H13zS2mC2c1Om4MfB5f4BkB1tC1fDgCGcCd1JmB1aBtBcBpCo
  1I4t14Z1dD1x1V1gNuBiG1mK1eC1kEi4Y3a3U1oI2a3O2aM11zJwKi5WgcB1sBcdCxKxJ1f2NtBcKwK1a2S2eGc2mPeBdB1d
  1Q1dD1d1JiB1c1B2cKwKtNs4G2v7B1k1Meb11S1qGcQd2H1dkIw1Qs1Uv1BxM2b2FccN1t1Gz1A1k1dcI1jdM1wOevb1JsBzTc
  2LhbBeBpBkH1v1MiCcCwBhBcBfdsMf1EkbcB1mbzb1S2bSeUd1E1wUcb7C1v1Pe1K1wu2H1rn2T1b1Lh7D1s8DicCiBcBypb
  3QiC1nqb1cK1ohvL1utS2v7R1h1FjB1lr1X1e4IhBcB1mvZgBcB1go12PtpBnB1i4u3B35m8W7o101K3tP41gRgZ153rF22l
  263D1e67U21xH1fR3bR1eS1w1ZvFt16T1o15P2xf6T236aI47q1Pk344H11fp1DdcOeI15g88U4dFnDjHk339c19H1t1h12J1e
  0S1s18Q1b8V1ec19BhBeBcBpB7p51NeB1bBcbcBkBebbgebbBdBcbcBBeBcbCeBhBEcbBkBrFdBfBr170A1643c1G159uG8o
  0C221qO287lP23y94W20w57Y189zF161g;
  Mn Nonspacing_Mark: 29O4i10Pf10F1tbBCcb2Ul1Wvq3XhCgCcBe1j1E1b3Nl2GjjYeBjBdBf1Rd2Hj1QyB1g2dbEieDhKc
  1d2gEeiUc1aCc2fECcCdd1EcdLc2fEfBceUcWgb2gcBeiHcLc1e2jm1yd2dBdFdBeHcLc1d2gcgFcUc1Cc2FcEeiUc1d2uHdb
  3mChMi3uCjLh2Vc1bbb2DoBfBcFlB1kj3YeBgBcCcZcEdQenCcgp27Bd36Kd1Dc1ECc2McBhiClj1Tdb4Nc1i4OdEcjGd8Lcc
  2gBhbbCiGkc1WoBq1Xe1wBfbf1OjMc1GeCcBd2eBcdBd2GiCc5WdBnBhegDc7Q2m27SneDm118Cd5l3S1g21Ie4Dc1160eEk
  1Gc3Cc10mdeZcf5Vc1Asn1MiZl1Ud1wCeCc1n2PgCCcmi1v1zBdCcFcb1Qci9ece779s28JqQq37l8s5Tf64GdBcFe1Ode6Jc
  22Be2Nf12Fc3Be2Sl1Xe4t2Cp1pCcKd1XeCch2Jd1KfBi2kMc2AjKec3RdcBcgc6bDiVc2Fcd1LhDf2SgnbbOc3HiCdbx3Ggb
  0EcBc9EeGcBc1Bc3HicBc4cbCgb3xbCeBf9ZjBc9Wcbe5OeCce1Gk1OgCeiJgCd1UnBc15QhBgb3EwChBCc4SgdBcBhb2Ucdb
  13JcLc2Affbx205tGp440YmDd96Af2Hh40i2Le3d755Kc180Z1uCx20YdRiCh1Ee5Sd76D2dE1yioWfBp52IhBrChBcBf3w6Eh
  14l2Je19Oe9Uc28Ih4Fh30480V9g;
  Mc Spacing_Mark: 88t2dCdIeBc1Yc2GdGcCck1r2Gd2o2GdiBc2Bc2gbGcCck3YcBcDdBdk1Pd2Je2Jc2gBfCcBcJc1cOc
  2GdFdBdk1Qc2XdGiSc12Sc2l6PcegCcZcKdChVcCgcKd63s1e4zHiBc13IeCdEcBg8Qc2gbjBcIg5p1wfBfBc2j1eEcc2iCdb
  0Dc1WiIc6pv189Ec1181Bcc3Kc1Yq5Mc1v1WcEcCd4GcCcy1tb4fCcf9DcBCcb985jb4x1TdEc4lYc2h1WdJcn3PdDcb6Od1Fc
  2GcBeCcCdjKc3GdhcBeBcb3XdIcd4CdgBec9DdGec4JdIcb4fBcg3zBce10Bdj9NgBcecb5MdIee3g1Dc2k15ro4chc8FfEcb
  13Mcm1WcIcb648Yd139G2d4Ac959NcGg;
  Me Enclosing_Mark: 44Qc218q60GeBd1314Xd;
  Nd Decimal_Number digit: 1Wk60Ok5Ek7Qk15Wk4OKj3Sk4Ok2Sk10Sk2Sk71Qk1Mk11Ok4Yk6KkGk7Ak3Ik5EkGk1356Ok
  26Ck1Mk7QkWk3Ik15Qk818Ck54Kk83YkGk30Qk4Yk2Ik5Ok10Sk13Ek4Ok14Kk3YkGu2Yk16Gk3Yk25Mk3Ik9Mk2Sk16Gk
  648Gk90Ck3Ik5Ek20Ok939Yk106Q1y91Ck16Gk19Ik9Nk32Vk183Ak;
  Nl Letter_Number: 225Ud102T1jCe142sZjOd1168Lk889G2b17si5Ef316S4h;
  No Other_Number: 6WcfCd90Rg14Mg4Qd5Dh8JhRj16Rk41Lu43Vk18m64vDgGk7Qq1p27Y2i3Aw24G1e53h45Ce5Ik1EiBp
  1Gk1Np1156Ig874N1t2NeRc13D1b1Ke51GiZh1Nj2XfWg6EcCqC1u2Mj2Ac1Ed2Xf4AiYi1Ph12Sg13O1f6Ck1Qe4Ih5Eu14Pu
  51Xc16Oj33Nt32Tv743Qh30Sx986FuMu4Ez209Uj35T2hBdBe2Y1tBp37An;
  Pc Connector_Punctuation: 3r313Vct2184OcYd9f;
  Pd Dash_Punctuation: 1t52u1z140j39p79Dg137xc1Fce1c17et4h2024Ac1lk6n141o12g;
  Ps Open_Punctuation: 1o1y1f145eb72o93md1m2dp24kb1e41uBBg3c1gBBe15oBBk2mb1h40vBBdzsBBd16mBBedBBdc
  2019t8h1dBBhdrbb6o1y1fdc;
  Pe Close_Punctuation: 1p1z1f145db72o95d2dp24kb1e41uBBg3c1gBBe15oBBk2mb1h40vBBd1sBBd16mBBedBBdCc
  2019q8j1dBBhdrbb6o1z1fcc;
  Pi Initial_Punctuation: 6p309kCccz135sbecpd;
  Pf Final_Punctuation: 7f308vd1c135sbecpd;
  Po Other_Punctuation: 1HdBdcbBcKcDc1b2qfOch27ai17Yg1p2ccc1ScUcBcnBd2We3y1Ro8Zd2Cp1f10Bck5k4q4r15am
  14d3mKc6Mpb4i2WfEc4Hg6p23Oj29t4Ud2Tc6BdBd1LgBe12Bc8Ic4YhBg6EcKh1Cd4Ue2Hf2Kc2Mil32CcIiIjCeCdDlbBk
  124CeBc4i5NcEdcCjBcbCcKfBkCebBnCd16Md2f7h1142Gc10Jd3vk4Lg14Qe3Ic1Odb1Xc1v3TnQc4Ue4WcQc9p808UhcwUc
  0CeDdBeHdgBc5TdBdcbBcKcDc1b1kCc15Ud25s1w15y28p7r1f10Mj1m4Ih2Oh3Le36Qf1Se7Hh4FcBe4We1Wc3BeenBd3Kg4d
  11McBc4KfKcb4a9Qx4Bd1Cn2y5Ad9s10Ed5z3Oi3FdBf3Pk8h3Rf1Qc24Vc2Wn6t43Sf113Cc575Vc5d2Nfi21Gd11Je12p
  755o294Lf112t33Ec;
  Sm Math_Symbol: 1rQd2jb1te1l1f29m20Hd258hn1NdNd5j1Nfg2QfFcecch1Fccb1F10i1Gc3m1Ez1Og18bj2Ci4h12Yf
  0C1fKq9W5bW2lE1gC9y1WvCg2046q31sBd6iQd2jb5bGe134Fc1980zz1fz1fz1fz1fz228Ec;
  Sc Currency_Symbol: 1k4Ve48j4t19ECch9l10d22j94p86I1h1333v844l4e5y8LcDc314Se1921e95k;
  Sk Modifier_Symbol: 3qb2tged20BeMoFhbBr4nOc49i228mBdLdNDcNc163Oc1165RxJc3Zc37oOc790Kr34hb6g2403Jf;
  So Other_Symbol: 6kceb37p10Gc4Xc7ykTc9n19v14j5Agb5c7z1p15BdpBdCgubb5DiBgBcFe7Pc28Yk27v27u6B1i13Pk
  0Jj54HcBeBckBcGgBBdeLcoBcb2GcJfCeBCcBhB1fCcbB1f10IiEuChC3dB1eZ1oG2uWl3D3aW7bBjB2cI4hB9o1S1s2M9w
  19S1wVcG1nC1gB4b8Vg13Tc1U1aB3lM8g1AqeNcmVcGc12YcEk1G1mjQ1fL1eiP1gK1nP12i253O2m852I2d33HeKcb22Bd
  815Aq4x1Td18qdEcNc12Bj2FrCdBnd1V1t63Uc22t122s84NiEr741Ief800w151N9gQ16u6A4m2I9mK1nC2iFdWcH1eE2jV2o
  d7E3j45X19s2De1YiBoBc66u111w4z27T1sE3wMpCpBpB1lX6f2E1dN1sEjHcOg5Y9rF28aErDnD4pE3rGmePmE2eIkG1oI1e
  0CmEc2K13cMoCnDkF2eHpClGjH5rB3o;
  Zs Space_Separator: 1g4x215j93Nl1k1v153w;
  Zl Line_Separator: 316q;
  Zp Paragraph_Separator: 316r;
  Cc Control cntrl: 0A1g3R1h;
  Cf Format: 6r52Kgw7k1x14Uc3c149j78Qf1Af1XfBk2191j9Pd164zp348Kq1342Ue204Xi30705m1E3s;
  Co Private_Use: 2205O246e35357O2520oC2520o"

/-- The characters of the categories whose short names start with one of the
given texts. -/
def inCategories (starts : List String) : CharSet :=
  .ofRanges ((categories.filter fun category =>
    starts.any fun start => (category.names.head?.getD "").startsWith start).flatMap
      CharClass.ranges)

def CharClass.set (c : CharClass) : CharSet :=
  let whole := CharSet.ofRanges ((inCategories c.categories).ranges ++ c.ranges)
  if c.without.isEmpty then whole else whole.diff (.ofRanges c.without)

end ClassBackend.Text
