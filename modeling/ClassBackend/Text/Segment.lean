import ClassBackend.Text.CharSet

/-!
# Classes for dividing text

Text is divided into visible characters, words and sentences by the classes its
characters belong to. The classes are given by the categories they are made of.
-/

namespace ClassBackend.Text

def characterBreaks : List CharClass :=
  CharClass.table "
  CR: n;
  LF: k;
  Control CN: Cc Cf Zl Zp 318z2201Aj32768hB1e3S4y9G138m - kc58Og8h1x14Uc3c228Bc2369vp32603U3s;
  Extend EX: Mn Me 95yy13uy3yy8ybEcBcJc3zy4pp90r1e39kfbFc3x2Tc40i158Vc1192t4e845Lc178m4m10eoj3sjcBdf
  8qm9h10c24jm59f794Kc959NcGg340Af30366U3s;
  Prepend PP: 59Cg8h1x14Uc3c43n2554kp9Kc20f53lb9o2Vg26y17b;
  SpacingMark SM: Mc 139v4x - 95yy13uy3yy8ybEcBcJc3zy4pp22Pcl1PdChvDgcKd63s1e31gBc8afbFc3x2Tc199Ec
  1192t4e7eb1016s4m10eoj3sjcBdf8qm9h10c4Bc20gm59f794Kc959NcGg;
  L: 167K3s1496Q1d;
  V: 171C2u1949Wx1473cDe;
  T: 173W3k1947N1x;
  LV: 1693o1BB15i;
  LVT: 1693P1bB1B15i;
  Regional_Indicator RI: 4902K1a;
  ZWJ: 315p"

def wordBreaks : List CharClass :=
  CharClass.table "
  CR: n;
  LF: k;
  Newline NL: 0Lc4q311Mc;
  ALetter LE: L Nl 27EeMgGcFhbBr23Edb1r4a10x291Y2a1281EpJc3Zc37o3208E1aG1Ac - 57G1bEe79I1wBcMh2GcbBf
  0BybBkBcjCfbVe11C1ruQgEedDcHdEnm68J2a1je14H1eCfL1sE1a3I2b3e210KcZjHfCdG3iGdB3mBe9Gq19S253o2M807k
  97GfBkKf3TxdD1ybDcCfcbYd769I14cC4c2pBkBnBfbBCcBk40G2g230E1b1Lh873P236aI47q1Pk343ReBhBcB11fp1DdcOe
  0I15g758I1643c1G159uG8oC221qO287lP23y94W20w57Y189zF161g;
  Hebrew_Letter HL: 57G1bEe2413yBkBnBfbBCcBk;
  Katakana KA: 474Nf3XcD3nBe9Gq8A1vB3k2009E2e1736CeBhBcb11Bd1yOe;
  Numeric NU: Nd 59Cg3x4j16Sc3c167b2430wp;
  Extend: M 315o2201Hc2405Zf30366U3s;
  ExtendNumLet EX: Pc 316x;
  Format FO: Cf - 59Cg8h1x14Uc3c228Ad2369vp32603U3s;
  MidLetter ML: 2g4u27r18d5s257y2185b2n7o;
  MidNum MN: 1so32c20c5Ac3q15f239f2186hd7bo;
  MidNumLet MB: 1u314Fck2187p6yg;
  Single_Quote SQ: 1n;
  Double_Quote DQ: 1i;
  WSegSpace: Zs - 6e309e1n;
  Regional_Indicator RI: 4902K1a;
  ZWJ: 315p"

def sentenceBreaks : List CharClass :=
  CharClass.table "
  CR: n;
  LF: k;
  Sep SE: 5d311Mc;
  Sp: Zs jBc;
  Lower LO: Ll 6op19HjHc1Ef5t132z119Z2ln1I1l26nnQn8Dq32Q1a74Oc1202Kc8c4ZdDc33Iej906sCdB1qBj2131H2k -
  165O1rCd;
  Upper UP: Lu Lt 328Qq32G1a4532Y1aG1Ac - 281G1rCd;
  OLetter LE: Lm Lo Nl 58p106Y1rCd113W1rCd - 6op19HjHc1Ef5t132z119Z2ln1I1l26nnQn7N1g108Ec1202Kc8c4Zd
  0Dc33Iej829Cc77oCdB1qBj2131H2k;
  Numeric NU: Nd 59Cg3Xc4i16Sc3c167b2430wp;
  Extend EX: M 315Oc2201Gc32772Y3s;
  Format FO: Cf - 59Cg8h16Sc3c228Bc2369vp32603U3s;
  ATerm AT: 1u314r2187p7f;
  STerm ST: 1h1d52b5Rd6y1Rd9m2jbDc11Hc67Wc30kEc29t7Qc6Bc1tf12Cc13Qe6GcKcCc1Dd7Fc2Nc36UcJd124Xd11unWc
  16n1151w10Kc8td14Sc3Ic3r5Wc5Rd5Oc9p808wCc2Lc6n1d2n107Wc49Df1Se7Hc4Ne4Xd4ZcgQc3KcBc4e11Mc4Nc14JcFp
  4Bc9Pd19xb9Rc3Jc16Ec26Qc2Wc740Bc5d2Ncl21Hc11k768g294m;
  SContinue SC: 1ScMc32c18k6Sc18w157xf79Ec156u2028WcBc1Cc1DcCcck6McMc2u;
  Close CL: Ps Pe Pi Pf 1ie385Zg65FcEdc4493Yd"

end ClassBackend.Text
