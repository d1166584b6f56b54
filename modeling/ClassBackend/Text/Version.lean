import ClassBackend.Text.CharSet

/-!
# Versions of the character set

Characters have been added over the years, version by version, and a character
once added stays. Some code points count as added though they will never stand
for a character.
-/

namespace ClassBackend.Text

def versions : List CharClass :=
  CharClass.table "
  1.1 V1_1: 0A19iE1e2E3lH1vBkW2s1AcScedFhbBuB1sBhdBBdBsNmB2oBmB1pJ2bCCcD1cCiCc2D1mChB1nb1MkBjM1bFfxo
  dB1aFtNoC2uCfBpB1eCk19ZdB2bCsCfDzQdBiCcCwBhbDecBhCcCdjEcBfCvhCgEcCwBhBCdcBfEcCdLebHpMdBhbBdBwBhBc
  0BfCkBDccpFkRdBiCcCwBhBcCeCiDcCdIcEcBdElRcBgDdBeDcbBcDcDdDiBdEfDdBejPmOdBiBdBxBkBfEhBdBeHcJcEkScBi
  0BdBxBkBfEhBdBeHchBcEkScBiBdBxBqEgCdBejIcEk5P2gE1d1LcbCcbcGeBhBdbbCcBnBdCfbBgCkCc17I1mK1neE3mF2q
  0F3e118K5zF3mGwCgC1mCgCiBBdB1fC2bBpBoCgBtCdBjB1vBx1JhD1bRl1Ls1E2f1A1wN3nV9ioB4r5D1l1BlV5jV5uK3cQu
  0G3i5PeBeC1cB1jbBedBhChO1fDyBo81H2ehB3gEgC3qG1oE3qBq3S1dD1k1C1cD1yPmE1vB4pE3vC1f256B803y633Q257u
  8ChMfGzBfbBCcB4e1H14bQ2mC2c1Om1KeMvEkBtBeEdbB5fcB3qC3qDgCGcCdDhBhOd;
  2.0 V2_0: 54VrBnu90X2uB1hH1bEgbBvDhb146n20h1371W429s2917Yc2520OCm2520O5041i;
  2.1 V2_1: 321s2198t;
  3.0 V3_0: 19Ie1EiCs4Nf1xKf3Jjt4mdBBd1em2om1QcCe3Oc6a7Sd3Ucfp1QfBoB1eD1b2B1x57HcBsDyBjbChdEgbBiSd
  14j1rXdhBdBpc1W1iBfBcBhDeG1a16GhB2lbBeChbBeC1nbBeC1fbBeChbBeChBhBxB1fbBeChB1nBtG1c1J3hM24gJ1dD3d
  5N3pDkWpBkG3kI1q74bYg3Rd1Yc3Hc2u3Zj10j4rB1e5Ic17Pi1h3Ic15I9w54E1aB3lM8g1Am2Idd13Py22M253e810G44vDs
  0CqBmBdb850c47Vd;
  3.1 V3_1: 38Yc2460C1g49W1fBeM1b6Z1mC1m2005Q9mK1nD6y21A3hB2tBccCcCeBmbBeBcB2nBeCiBhB1cBeBfbDhB13a
  0E11eE1y393W1642t799D20w27784t1E3s;
  3.2 V3_2: 20y11qTn4Ac1c5Rc2FcCCc1Xq13Mc12j91Hc59JnBhLxJuMnBdBc86xGfeHfn2Kc1Yh3Ep6Mm9Io4u1E2a10Yu
  5Vk3KiWc3MmCk8Oo3M1cEq9W19s51Nd3JcIc3q9Gq3DPc1121Icqmd841A2h35dDq2Bc1s9Bc;
  4.0 V4_0: 20zSd4Pc2Lr3CiFd5Vf19WeJj2Md5Tcp1Td1Dd16u7c2pb5g3Gdn2p2h4Zi7Lc109nSk10C1dDmEmeD1qCf4D1g
  29O4e28Pc8w25Jc11q10Qc4MiOc43Ao69Nc1x1Rc3Ae6Le3Vc1f253O2m1732v2Vc16XmB1aBtBcBpCo1I4tFdE1tDj22E1eb
  5Ec1M3cCk32WgcB1sBcdc1996I3j13y30683A9g;
  4.1 V4_1: 21Vl10Sf6De9Mc6o1Id2ps2Gg9H1e20h3c18t1v38Nc11Jcb10g2LBc1n1FBdp1nXc1F1a58C1qG1aGkEc1G1cCc
  32M3k25HcBh1Xf1De2b3cp24Ul22a3XcSlFq10Kh32Hg9C1vB1v1H4dO1tK2cjQxJhBHh1HyEc35Uq6s1074Tw71Ox8Z1s
  810A4c31Qk31A2x20N1kEo60SeBcFiBdB1bEdEjIj1965V2s43Ac;
  5.0 V5_0: 22Go11Nd12z1QgQe6k19X2h14UcBc33IcNc138J2yE1t22Lh1Zc28Ue3Pc2b23Bm27m10Qe32JhFe12EnHe
  1207JeFc11A2e950M1af225G33v5P3vNe1722Is42Uc;
  5.1 V5_1: 33WeCc3j7b5Kq8SfLf1Gf11Qs19Dc8o1j7y1Dc4EBc1AcIcUi7hg1DcMgDh18Xc3tDd2zfcHdEg1A2mEc79e
  27X1rDm2S2eDpD1z12T1c6Ze3Mg13s5j3q2Be50aVkDe10e1Fe31FfE1pDf10UdBdEg13Q1gYeCt29k6Gu1081Oi51O11oU1g
  0CsI1c5BfC4d4Gf4Y2rJm1M3gl6E2dJoCkCe824Ud33Pm2A1u5A1dD1x62D1af1968j303Q1sE3w;
  5.2 V5_2: 50Qc28C1uCp7l2zg1Jc4y57Pe7Le7Gf2Qf3Eg19s24Gj21O2s6Yc1u2R2lB1dClGkGo21A1j10g26Ud5Vd2c23i
  26Rc1DdEkBtbEy3j39Hf10sNc4Dh12h40Cm1077Si49K1w16A3k12Ak6K1c3W1dD3aBlEc4Y1cE2pYf8Q1uCk430KxE1x339Bd
  136CwBj7Ec12M1g4Y2cD1dC1bFi4Y2v20P1f19T2o307Q41f1859DlF1fclbcdDfihzBccKec4hP1iOj1779J159p;
  6.0 V6_0: 50Sc9o2k18M1cc8LctGc1Bf19Mg16rqt22Be2Vc34Oc82N2aIe19o25Oi1c31Jl28ctBe1dEc1c1jbEdJc2Adyo
  0Oc55ko41Od1148Nc11NcBcOk3c29UgCGcJhBh792Tq199I3aE1e862E21x687Bc636GpCoCpBp3cBlbBcBDcFiBhBkGjbCcBk
  0EcBk2X1aBc1VjVc6S1hPgB2sDuM1lBfVrP2lbB7aBeD2kSy5RfBqBdBBdBdBgCebCeBmEl1W2s2G4m1888M8o;
  6.1 V6_1: 54t4m25rBl2D1b19d38Rc18tf1Vd105BdMg9Wi1Re106qb50Qc1zf2Ec7Uk1118e65Ni1j9Icw2Zc28Ox779Zc
  150U2eGc69OzHkG2bBo2I2vHk45U2eIk868O2rL1vQr1244IeB1bBcbcBkBebbgebbBdBcbcBBeBcbCeBhBEcbBkBrFdBfBr
  2Ac24Ic37Se7gqdBBddGceBce;
  6.2 V6_2: 322g;
  6.3 V6_3: 60e258Ve;
  7.0 V7_0: 34l16Ii3Pc4o25rLg2y4qh24p1z2y4x8Uk88Ri21Cc15Lp21Xc9Dp27Hd31Qh29t42IdK1aC1gC1iDmBi23Uh
  1184Vg9MmLdCc2r18U1f4Ve6U1wEc814Vh33Dct12H1c1j1W1r14Z1oI2al5O11zJwKi9O2lIj17W1g1G1nEm5HsHeMh47j
  8A1n3imGuLsB1r4K2hFkHdBiCcCwBhBcBfCjCcCdjFhChDf10H2uIk6K2cCs2C2rLk22K3fm17G2f83I1q7Umf687F1fBkEc
  3S1eCgK2sKkBhBvFt792A4dFnDjHkCi426Y7pCq77w1GwVc20Mmj2sWm1lFeFmRh2tb7aEc2LcEh1DsB1pB3i2ScN1w2SkQnDe
  5K3h1RmE2eIkG1oI1e;
  8.0 V8_0: 85Rc1u20n13o10a64vCg125o7Vc102Ee1140Vj66u9g1Ig12Mc23MeM3c811Qc105GtBcFf7GcCqC1u24Q1zN1z
  0Hg47DeOf6EhbBeBpBl3i3b24Ju11E1aDpEq121p8W7o302Q22l1374Ll59Z25cPfBp241Dd3Ac3Bf1Ki9v2Xf9Jc5j22Dj3Zf
  2h1874L221q;
  9.0 V9_0: 85UiWp35p7yEdBhXd147Zj14g59Be101Cc1195l10s874Dc30V1kE1k130o17H3mbb19Un54XjB1tBoK1dD1gCw
  0Bo818v1F235pT29b837LhBrChBcBf86Z2xFkEc81Bs5m31y1p11Oc1Hd21AgBiiCmBmEp1Mn;
  10.0 V10_0: 82Ml15Lc9Sg19s2Gc154w9Ue27h31z77a24Cf28m1089Nv977Id224Q2uI2aCxBf23HhBcB1sdBcBjIk812p
  631K10z3D15g624Eg43Pc1Ic19ZmtIiBczSn1Mg2Ex2095D287l;
  11.0 V11_0: 52y1n3y20Fd8d11m4p15h4x117r40H1rCd147MdWzEp22Pf28i1090Hf76hIc12Mc957Ccs26T1oIk17M1oI1q
  14h4Od19g11e26x8V2i23l27EgBcB1lBcBgHk11Yz780P3n249If737Uu4Wh245W2q44c56z8Le14Id1CfCedBeYlNkHc1Kz
  3So;
  12.0 V12_0: 122t20gccBgehHccn140h145u2b22t1195MgCf35Rc989Gx43k23c28PiC1uCl6Dc51M1yn198Uj581Kge1Vj
  3Mc236Wg407CdRe468Q1tDoCkEc14E2gf61z36N2j41e53g1k8Vm11Dd1v1xj1PgDcKgDiCd1W3g1CeEdFdNg;
  12.1 V12_1: 502d;
  13.0 V13_0: 86Ck25d16o4u130Jc165u26Ud33Of275Ik809Gn76Se1Qc2b31Ve848q126X1qBdCc9U1c14p5Ec25aFc45Mhc
  0CiBcB1eBcCmJk62k789rLc265X18p1Qj984Ud3Pd2j50Uc1Jc16Tc3m3xEc1QcGd1d6mOePtHhJdNh1P5rB2d1Lk1682Jh
  877Q189z;
  14.0 V14_0: 60f22W1fBcGivSl33p1g4x100hhj9f26No4v1Wc24l27h112o1v19Fl1118Td76IcOcbBfYd825d14Rq4x1Uc
  73GlBpBhBcBlBpBhBc17JgB1qBj75X1a8Wg2y58s5Eh33Pq204Y3v575X3bBk680WeBhBc11Ce294B1uCxJ4m21Dc128V1f
  33X1f51DhBeBcBp146Kd10m15c3e6Sc1SeKeIdRdGiIh1692Pc160Ve;
  15.0 V15_0: 127n18g2522Kd31Zd86Ck39ArB1pD1c205dJ1d1229k1i329Au121Hg10B2k1h41W1q176c5VdEf3l25RdPc
  1KdLdbOcKcmOc1853o906S161g;
  15.1 V15_1: 472Me19b6872Q23y;
  16.0 V16_0: 84p184Gc1v10Fc74Yd135Ec1160VdMd924L2a71W1mD1dIc11Ud2d44LkbcB1mBkbcBeBkBcIc28Vu47W1iOk
  33g206Z153r285T2g118K2g310j620I9qG16u227O1re184CkEc17nf1uhvcj8R1l"

end ClassBackend.Text
