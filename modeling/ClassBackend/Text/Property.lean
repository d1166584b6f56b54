import ClassBackend.Text.Alphabetic

/-!
# Properties of characters

Properties that a character has or lacks, beside its category and script: being
alphabetic, being a dash, changing with the case, and many more. Each is known
by a long name and mostly by a short one.
-/

namespace ClassBackend.Text

def properties : List CharClass :=
  alphabetic :: CharClass.table "
  ASCII_Hex_Digit AHex: 1WkHg1Ag;
  Bidi_Control Bidi_C: 60e255Lc1Af2De;
  Bidi_Mirrored Bidi_M: 1Ocsb1cb1db1tp142Se72Nc94QcKc2CcOc6v7KeDgdDcDeBebbEjfBsFeJcbBiB1gCefJcCtFcJf
  0CcEyCqIeUcHc41To2wCeBcBdFeFdDo15NwCgBoiHgdEfBcCfeBdCcKgCcMtBecbcBeFcGdYcLcEeBcCcE1rCiB1ofbDfFdeDf
  b9w19VeDcBcOcCk1Ri16LkCi2030RgFc6Gcsb1cb1dbBCc2121n2FBe;
  Case_Ignorable CI: Mn Me Cf Lm Sk 1ngl4u27r18d5s257Jckc2185b2kc6vgl;
  Cased: Lu Ll Lt 6op19HjHc1Ef3s2a132z119Z2ln1I1l26nnQn7N1g31Q2a74Oc1202Kc8c4ZdDc33Iej906sCdB1qBj
  2131H2k165A1aG1Ac;
  Changes_When_Casefolded CWCF: Lu Lt 6z1p4b2b17l4uNcDcZcd15l142Eg83Uj20Jc8UiIIcKdcKdc1Qdc13Wq32G1a
  1325O3c780IhMf - 37Qd155N3i128meDdCdcDfgdDcCcbKcf4280K1a1A1Ac1aBccCcCeBi1A1a1AcBeCiBh1BcBeBfbDh
  1B1a1A1Af1Ez1HZe1h;
  Changes_When_Casemapped CWCM: Lu Ll Lt 32f296K1g31Q2a - 12a3g1Ccod3uSg1bcbCdceFcbCcBhBcbCdGfbBiCr
  11Ed1n13r1n231B1s2LnCdBqBm9Xcb23meCkbDfgdDcBdBceCeFf109vcCf4a1204Dc2Livgz1jb1k31P1jBhFj2920H3hB2t
  0BccCcCeBmbBhB2nBeCiBhB1cBeBfbDhB13cCzBzB1fBzB1fBzB1fBzB1fBzBi70YkBuGg;
  Changes_When_Lowercased CWL: Lu Lt 328Qq32G1a - 37Qd287heDdCdcDfgdDcCcbKcf4280K1a1A1Ac1aBccCcCeBi
  1A1a1AcBeCiBh1BcBeBfbDh1B1a1A1Af1Ez1HZe1h;
  Changes_When_Titlecased CWT: Ll 17kcc1m13b297Aq32Q1a - 12a3g1Ccod3uSg1bcbCdceFcbCcBhBcbCdGfbBiCr
  12u13r1n111B1rCd118E1s2LnCdBqBm9Xcb23uDcd1beeCcIe109vcCf4a1204Dc2Livgz1jb1k31P1jBhFj2921H1a1AhBs
  1A1a1AebBhBl1A1Ai1A1c1CzBg1AzBg1AzBg1AzBg1AzBgb70YkBuGg;
  Changes_When_Uppercased CWU: Ll Lt 32f297Aq32Q1a - 12a3g1Ccod3uSg1bcbCdceFcbCcBhBcbCdGfbBiCr12u13r
  1n231B1s2LnCdBqBm9Xcb23uDcd1beeCcIe109vcCf4a1204Dc2Livgz1jb1k31P1jBhFj2921H1a1AhBs1A1a1AebBhBl
  1A1Ai1A1c1CzBg1AzBg1AzBg1AzBg1AzBgb70YkBuGg;
  Dash: Pd 318h1np15a;
  Default_Ignorable_Code_Point DI: 6r25x27o110Wc62Hc3Hf78Pf1Af1Xq166y2014Pq9f6e3Bj1857Ne204Xi
  30705L157o;
  Deprecated Dep: 12r50v88tb80Jc86Jg26Vc34942k;
  Diacritic Dia: Sk 7b19KsEmOfhbR3bBiFgrf10Ef8b2DrB1bbBcb5EiEc5EcEcDd2P1b3Nl2Gl1Ic4Wi1PkQ1c2jqDe1c2w
  q4gq4gq1Vd2iqh4p4gq4gq4Fcq4u4hMgb4dNf2Xc1bbbEc2OdBc2k4iBc1OcEfZhbKc27Dd36Mc1e5Slj13Jd11gUic1WpCl4a
  p1Mj2Cc2gLc2Oc2Mg3EzegCd1Y2l3Lm1Ll147Bd12f19Mg4Bc3t1156kMcb1Cc3Ec1Lj4a4Hcm1l5v1Bs2Fe1k3rm1k5Td2Ne
  1z3Xej5Ac779s29Pq12i1Tc32a45NgB1qBj24Nde6Jc21Zg1m1Af15Jd2Sl1Xe7k1p2Uc4Qc2k2yJd4Ac6Wc3CcqYhDf3LdBc
  0Nc3rd4Tc9Rc4w4Oc4l10Jc9Yce6a3fs3d16f9yBc3d16Jcx206Ap441p96Af2Hh21Sc21Ar3Cc630CeBhBc305H1uCx20YdDg
  0IiCh1Ee142W2k7Mh14l2Je29Mc28Ih4FdBd - 84a2394Fr2444Af;
  Emoji: 1jgFk4he310rm8iw3MgPc14Dcm6kZlEd7r8Xckj2GeBfjcCccecBccdDcIdfbFmLccBcbsCcSgbBcDcfCcEcLcFccFc
  bBcUcFgBececCgbcbbgdgKcpcebEdbLc1Wdjoo14Ic17VdTc1ze47um23db4385q7u6EcMcoCk2X1aBcxuCjVc6S1iC4iCcBd
  0C3fCdB10dB2lLgByHcCimCecEcNccIcjFdMdIdcbegdG3i1W2sFiCdEkdBcdCk8Tme10X1vBkB7d4InDkF2eHpClGj;
  Emoji_Component EComp: 1jgFk313j8f2177r2400W1a19Nf56Ae30310Q3s;
  Emoji_Modifier EMod: 4922Xf;
  Emoji_Modifier_Base EBase: 375h8lQe4533v2IdcCd4NcClVtdEdBdhby7TcevEc6SdDf3fQdjl22dcIigJkCd2e2JcBcb
  0RdBn8Vd1Qj;
  Emoji_Presentation EPres: 345Qc7Xedc20BcVc1Ym1rtnIcRcFcifvHcbechEc1c1jbEdb2Jdyo33Bc1ze4457e7u7iCk
  2X1abyuCfBdVc6S1hMjB2sBwM1rEfMrdD2tbB7fC2lNeBys1Acn3I3h1W2sgDdCdEeLcHj8Tme10X1vBkB7d4InDkF2eHpCl
  0Gj;
  Extended_Pictographic ExtPict: 6ne310rm8iw3MgPc14Dcm3r2sZlEd7r8Xckj2GeBgBmB4kK4oClbbgdgKcpcebEdbLf
  1Tdjoo14Ic17VdTc1ze47um23db4385M9wNd1f2IgMcoCkS2f1BpkuCjBeJ16sF12gI10g1W4y4Mm3H1rMe2EiKg1Oi1E3eM1v
  0BkB16z9W39i;
  Extender Ext: 7b20Qc33u16z24g5h3l28y4x91f2e23n15i2q192j1Rf3Zc3Pd1093u58s37aw5h4eVc831v79Kc57b1be
  47b11h4Mc19Ed47j794Fc45Kcb1116Ac46f32Ud;
  Grapheme_Base Gr_Base: L Mc N P S Zs - 95yy13uy3yy8ybEcBcJc3zy4pp90r1e39kfbFc3x2Tc199Ec1192t4e
  845Lc178m4m10eoj3sjcBdf8qm9h10c24jm59f794Kc959NcGg;
  Grapheme_Extend Gr_Ext: Mn Me 95yy13uy3yy8ybEcBcJc3zy4pp90r1e39kfbFc3x2Tc40i158Vc1192t4e845Lc178m
  4m10eoj3sjcBdf8qm9h10c24jm59f794Kc959NcGg30706Z3s;
  Grapheme_Link Gr_Link: 91p4XBh4Fcq4u4h4x7t6Yc67Lc1e6b25d8t3Xc2Sc172t1206k1l5v5m4e11x9m928r59i1po2f
  4Rc5j4m6y3u4Yd4j4x9s4x4o4m10j9Zc6f3fs3d16f10Ac3d16Jc649c;
  Hex_Digit Hex: 1WkHg1Ag2507LkHg1Ag;
  Hyphen: 1t4x47w181z79Dc138b28l2022l6n3j;
  IDS_Binary_Operator IDSB: 472AcCk19d;
  IDS_Trinary_Operator IDST: 472Cc;
  IDS_Unary_Operator IDSU: 472Oc;
  ID_Compat_Math_Continue: 6Wcf312gDlBp14hew4299ez1fz1fz1fz1fz;
  ID_Compat_Math_Start: 334wew4299ez1fz1fz1fz1fz;
  ID_Continue IDC: L Nl Mn Mc Nd Pc 7b27r156Jj63c60Zc10gv151Wc3q2032j - 454t;
  ID_Start IDS: L Nl 241Lc84jv151Wc - 454t;
  Ideographic Ideo: 472WcZjOd37D253o2M807k876I14cC4c1152k1B236aI47q1Pk358L15g758I1643c1G159uG8oC221q
  0O287lP23y94W20w57Y189zF161g;
  Join_Control Join_C: 315Oc;
  Logical_Order_Exception LOE: 140If4Tf107Sdc1427MccBc;
  Lowercase Lower: Ll 6op19HjHc1Ef3s2a132z119Z2ln1I1l26nnQn8Dq32Q1a74Oc1202Kc8c4ZdDc33Iej906sCdB1qBj
  2131H2k;
  Math: Sm 3q33Xdc1AcCc276y1Bdl1GeYcOc2NneDcEfseCkbDfgDcCcBdBgDeFf2XfCeBCcbBfCcEcEsCcbBhbGc11Ee6Mcby
  r17DcMjFfFcCcDfobCgYc2fb1DeJc13Ec1Fk15Nw2Le1Gc2091fbe8db2094V3hB2tBccCcCeBmbBhB2nBeCiBhB1cBeBfbDh
  0B13cCzBzB1fBzB1fBzB1fBzB1fBzBiC1y216QeB1bBcbcBkBebbgebbBdBcbcBBeBcbCeBhBEcbBkBrFdBfBr;
  Modifier_Combining_Mark MCM: 62Icc5bgDc18NcBdd1f;
  Noncharacter_Code_Point NChar: 2499C1g20Gc2520OCq;
  Other_Alphabetic OAlpha: Mn Mc 361M2a4531Y1aG1Ac - 29O2rB1d11Cf10F1f6m5EcJd3Fl6Ejj1Act1Rd2Ii1QkMc
  0Ig2yqDe3zq1w2jq4gq1Vd2iqh4p4gq4gq4Fcq4u4Ugb4dNfb2Vc1bbbEc2qBc2k4iBc30Wd36Mc1e4XcTlj1Tdb11Ld11gUic
  1WoDl4ap1Mj2Cc2gLc2p5WdBvegCd7Qt1Il27SneDm118Cd5l26Gg4Bc1160eMc4Kc10q1l5v1Bs2Fd1l3rm9ub2a9Lc808Cq
  0Qq37l8s72Hde6Jc24Te15Jd2Sl1Xe7k1po2Fc4Qc2k2yIe4Ac6Wc3CcqYhDf3LdbOc3rdx3Vc9Rc4w4Oc4l10Jc9Yce6a3Ecs
  3Cc16f9yBc3d16Jcx205tGp441p96Af2Hh46b755k181A1uCx20WfDgIiCh1Ee5Sd76D2dE1yioWfBp64Ah14l2Je19Oe9Uc
  28Ih4FdBd30480V9g;
  Other_Default_Ignorable_Code_Point ODI: 32p138Lc62Hc85n167i2030p3Bj32768hB1e3S4y9G138m;
  Other_Grapheme_Extend OGr_Ext: 95yy13uy3yy8ybEcBcJc3zy4pp90r1e39kfbFc3x2Tc40i158Vc1192t4e845Lc178m
  4m10eoj3sjcBdf8qm9h10c24jm59f794Kc959NcGg30706Z3s;
  Other_ID_Continue OIDC: 7b27r156Jj63c60Zc166r2032j;
  Other_ID_Start OIDS: 241Lc84jv151Wc;
  Other_Lowercase OLower: 6op19HjHc1Ef3s2a132z119Z2ln1I1l26nnQn8Dq32Q1a74Oc1202Kc8c4ZdDc33Iej906sCd
  0B1qBj2131H2k;
  Other_Math OMath: 3q33Xdc1AcCc276y1Bdl1GeYcOc2NneDcEfseCkbDfgDcCcBdBgDeFf2XfCeBCcbBfCcEcEsCcbBhbGc
  11Ee6Mcbyr17DcMjFfFcCcDfobCgYc2fb1DeJc13Ec1Fk15Nw2Le1Gc2091fbe8db2094V3hB2tBccCcCeBmbBhB2nBeCiBh
  0B1cBeBfbDhB13cCzBzB1fBzB1fBzB1fBzB1fBzBiC1y216QeB1bBcbcBkBebbgebbBdBcbcBBeBcbCeBhBEcbBkBrFdBfBr;
  Other_Uppercase OUpper: 328Qq32G1a4532Y1aG1Ac;
  Pattern_Syntax Pat_Syn: 1HpKh1Aeb1Ae1IhbBcbBceedx1f306EyIpCtBk11T27s6E24g1E43o19S4y14VdEzp2018Zc
  10Bc;
  Pattern_White_Space Pat_WS: 0Jfs3w310McYc;
  Prepended_Concatenation_Mark PCM: 59Cg8h1x14Uc3c2597yp;
  Quotation_Mark QMark: 1ie5bp308UiZc138d17PeNd2029Pe7he3Mc;
  Radical: 457W1aB3lM8g;
  Regional_Indicator RI: 4902K1a;
  Sentence_Terminal STerm: 1hmq52b5Rd6y1Rd9m2jbDc11Hc67Wc30kEc29t7Qc6Bc1tf12Cc13Qe6GcKcCc1Dd7Fc2Nc
  35wXcJd124Xd11unWc16n1151w10Kc8td14Sc3Ic3r5Wc5Rd5Oc9p808wCc2hDc6nmq2n107Wc49Df1Se7Hc4Ne4Xd4ZcgQc
  3KcBc4e11Mc4Nc14JcFp4Bc9Pd19xb9Rc3Jc16Ec26Qc2Wc740Bc5d2Ncl21Hc11k768g294m;
  Soft_Dotted SD: 4Bc7o10v1e2au12i3ub246n1znd5c6b16f8Gc110g4171Hc1YCm83y11Tc1a;
  Terminal_Punctuation Term: 1hkbLcd31yi19t2f2uoBd6y1Rlb9Bc2CgBi1f10Bc48Uc6qEg11Zc30Ji29t4Ud2Tc6Bdd
  1NeCc12Cc13Qe6GcKcBd1Dd7Ff2Kc35wXcJd124Xd11unekBcDc16Mc1151Vc10Jd8Tf14Sc3Ic3r5Vd5Rd4xQc9p808wCc2Fd
  0Be6nkbLcd2nc41q1w44o7r11Yc5Wg2Qg3Le36Qf1Se7Hh4Ie4Xd4ZcgQc3Kf4e11Mc4NdMc13UeDp4Bc9Pd19xb9Rc3JcEc
  15Yd1t24Vc2Wc50Xf688Zc5d2Ndk21Hc11Jc768g294Le;
  Unified_Ideograph UIdeo: 512A253o2M807k886ScbBckbBcCd2578C1643c1G159uG8oC221qO287lP23y173Q189z
  0F161g;
  Uppercase Upper: Lu 328Qq32G1a4532Y1aG1Ac;
  Variation_Selector VS: 236Tdb2264Aq32796Y9g;
  White_Space WSpace space: Z 0Jf4p;
  XID_Continue XIDC: L Nl Mn Mc Nd Pc 7b27r156Jj63c60Zc10gv155o2032j - 34g420m2030Cg15Qc4mBBh;
  XID_Start XIDS: L Nl 241Lc84jv - 34g105o4x309z2030Cg15Qc4mBBh11Bc"

end ClassBackend.Text
