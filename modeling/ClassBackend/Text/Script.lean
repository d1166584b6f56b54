import ClassBackend.Text.CharSet

/-!
# Scripts

The characters of each writing system, and beside them those common to several
systems and those that take the system of their neighbour. A script is known by
a long name and a short one of four letters.
-/

namespace ClassBackend.Text

def scripts : List CharClass :=
  CharClass.table "
  Adlam Adlm: 4814U2yEkEc;
  Ahom: 2747C1bCpEx;
  Anatolian_Hieroglyphs Hluw: 3190E22l;
  Arabic Arab: 59CfBgBoBdB1gBkL1aB4eB1i3C1w9G1fBcF2xB1d2385W4lQ13zC3cC2ch1Gq4IfB5f151N1f2Pd2De2195Se
  0B1bBcbcBkBebbgebbBdBcbcBBeBcbCeBhBEcbBkBrFdBfBr2Ac;
  Armenian Armn: 51D1mC1yCd2417Jf;
  Avestan Avst: 2628Y2cDh;
  Balinese Bali: 265W2zB1y;
  Bamum Bamu: 1640Q3k1900Q21x;
  Bassa_Vah Bass: 3572I1eCg;
  Batak Batk: 273G2aIe;
  Bengali Beng: 93OeBiCcCwBhbDeCjCcCeiEcBfCz;
  Bhaiksuki Bhks: 2796IjB1tBoK1d;
  Bopomofo Bopo: 28Sc453X1r4I1g;
  Brahmi Brah: 2678E3aE1kj;
  Braille Brai: 393W9w;
  Buginese Bugi: 256A1cCc;
  Buhid Buhd: 228Yu;
  Canadian_Aboriginal Cans: 196Y24q21O2s2537Qq;
  Carian Cari: 2546M1x;
  Caucasian_Albanian Aghb: 2571S2al;
  Chakma Cakm: 2688A2bBs;
  Cham: 1673W2dJoCkCe;
  Cherokee Cher: 193G3iCg1491E3c;
  Chorasmian Chrs: 2675C1c;
  Common Zyyy: 0A2n1Ag1A1vBpBfx1f17H1nFfCu4mjgb24ngod1g6a19w4Zc47t15Pe11e58Ld2Tc7Vcb47hnHeBgBdc29Tm
  0C3jBlDlBpR1h2L1mBdCgB1bBr1PdE25qWlV35s9W24eC1gB4b19S3q15MvbBzPiEe3Ncd3Mc5Rq1G1mj1W2m1F3d1v3K6m
  253O2m876I1i3Yd6Jk9k6e15fOc805Qc8AkW1jBtBe5rB1g1Ag1Alk1Tc2MhBhKf9YdE1tDj3Cn1Z1t8U1b1827We151G9q
  0G16u6A4m2I9mK1nC2kDrIcH1eE2j8FuMuM3jJz5F3hB2tBccCcCeBmbBhB2nBeCiBhB1cBeBfbDhB13cC11gC1y201H2q2Y2j
  27E1sE3wMpCpBpB1lK6s2E1aBcN1sEjHcOg5Y37wErDnD4pE3rGmePmE2eIkG1oI1eCmEc2K13cMoCnDkF2eHpClGjH5rB3y
  30287b1E3s;
  Coptic Copt Qaac: 38Go399K4mFh;
  Cuneiform Xsux: 2835S35m3Y4hBfL7o;
  Cypriot Cprt: 2599KgcB1sBcdc;
  Cypro_Minoan Cpmn: 2988Y3v;
  Cyrillic Cyrl: 39K5dC6n229Ol6e2y161N1g1184A3s862Cc2225G2k1h;
  Deseret Dsrt: 2560A3c;
  Devanagari Deva: 88Q3dEpC1a1569G1g1122Mk;
  Dives_Akuru Diak: 2766UhcCiBcB1eBcCmJk;
  Dogra Dogr: 2756Y2i;
  Duployan Dupl: 4371S4dFnDjHkCe;
  Egyptian_Hieroglyphs Egyp: 2993G42sK153r;
  Elbasan Elba: 2569W1o;
  Elymaic Elym: 2676Yx;
  Ethiopic Ethi: 177G2vBeChbBeC1pBeC1hBeChbBeCpB2fBeC2pC1gD1a255AxJhBHh1232CgCGcJhBh3118FhBeBcBp;
  Garay Gara: 2651C1mD1dIc;
  Georgian Geor: 163S1mbfC1rBe113W1rCd160A1mbf;
  Glagolitic Glag: 433G3s4289GhBrChBcBf;
  Gothic Goth: 2552A1b;
  Grantha Gran: 2707SeBiCcCwBhBcBfCjCcCdcgFhChDf;
  Greek Grek: 33WeBdCebebBdbBuB2lOq247Qf1YfEf3g12IwCgC1mCgCiBBdB1fC2bBpBoCgBtCdBj11j1361e845I3br
  2051R2s;
  Gujarati Gujr: 103LdBjBdBwBhBcBfCkBDccPeCmHh;
  Gunjala_Gondi Gong: 2809WgBcB1lBcBgHk;
  Gurmukhi Guru: 98NdBgEcCwBhBCdcBfEcCddHebHr;
  Gurung_Khema Gukh: 3475S2g;
  Han Hani: 457W1aB3lM8g1vbZjOe37C253o2M807k876I14cC4c1152IcMc1418K1643c1G159uG8oC221qO287lP23y
  94W20w57Y189zF161g;
  Hangul Hang: 167K9w297Ec9X3q4J1f2N1f1170N1d24T429sMxE1x390I1fDgCGcCd;
  Hanifi_Rohingya Rohg: 2648Q1oIk;
  Hanunoo Hano: 227Sv;
  Hatran Hatr: 2608AtBcFf;
  Hebrew Hebr: 54V2dI1bEg2413W1aBfbBCcBk;
  Hiragana Hira: 475D3iGd3774V11bs1Dd636v;
  Imperial_Aramaic Armi: 2601WwBj;
  Inherited Zinh Qaai: 29O4i10Rc17Kl1a28Ie170X1f19TdBnBhegDc7Q2m20Ec7M1h149Xe4Dc2022JqQo37n8s161a
  1848U1uCx20YdRiCh1Ee30713I9g;
  Inscriptional_Pahlavi Phli: 2632QtFi;
  Inscriptional_Parthian Prti: 2631KwCi;
  Javanese Java: 1668Y3aCkEc;
  Kaithi Kthi: 2683C2pk;
  Kannada Knda: 123CnBdBxBkBfCjBdBeHcGcBeCkBd;
  Katakana Kana: 478V3mCd9Gq8A1vB3k2009EkB1t1736CeBhBcb11Bd1yOe;
  Kawi: 2825WrB1pD1d;
  Kayah_Li Kali: 1664A1ub;
  Kharoshthi Khar: 2619CeBcFiBdB1dCdEkHj;
  Khitan_Small_Script Kits: 3622i266X18c1p;
  Khmer Khmr: 231K3qCkGk18S1g;
  Khojki Khoj: 2697WsB1v;
  Khudawadi Sind: 2704Q2hFk;
  Kirat_Rai Krai: 3596I2g;
  Lao Laoo: 142VcbBfBybBxCfbBhBkCe;
  Latin Latn: 2N1aG1a1vpFxB1fB17h1Nf257B1mG1xFeFnB2s2N9w14fnQn5Lcg1bR1p106T1g1207M3yD2pCcbBiVo31K1r
  0BjBe783Qh40K1aG1a80FgB1qBj2119P1fGg;
  Lepcha Lepc: 275S2eDpDd;
  Limbu Limb: 246E1fBmEmeDm;
  Linear_A Lina: 2579S11zJwKi;
  Linear_B Linb: 2520QmB1aBtBcBpCo1I4t;
  Lisu: 1622U1w1208a;
  Lycian Lyci: 2545G1d;
  Lydian Lydi: 2610M1af;
  Mahajani Mahj: 2691C1n;
  Makasar Maka: 2824Qz;
  Malayalam Mlym: 128AnBdB1zBdBgEqC1a;
  Mandaic Mand: 81G1cc;
  Manichaean Mani: 2626M1nEm;
  Marchen Marc: 2800Q1gCwBo;
  Masaram_Gondi Gonm: 2806EhBcB1sdBcBjIk;
  Medefaidrin Medf: 3606E3n;
  Meetei_Mayek Mtei: 1682Mx7T1uCk;
  Mende_Kikakui Mend: 4804Y7pCq;
  Meroitic_Cursive Merc: 2615KyEuC1u;
  Meroitic_Hieroglyphs Mero: 2614E1g;
  Miao Plrd: 3613O2xE2fHr;
  Modi: 2737G2rLk;
  Mongolian Mong: 236IccBuG3lH1r2498Bn;
  Mro Mroo: 3566U1fBkEc;
  Multani Mult: 2702UhbBeBpBl;
  Myanmar Mymr: 157O6e1508Y1f3T1g1066Mu;
  Nabataean Nbat: 2604I1fIj;
  Nag_Mundari Nagm: 4773O1q;
  Nandinagari Nand: 2772YiC1uCl;
  New_Tai_Lue Talu: 251C1sE1aGlDc;
  Newa: 2717O3oBf;
  Nko Nkoo: 76I2hCd;
  Nushu Nshu: 3622f645M15g;
  Nyiakeng_Puachue_Hmong Hmnp: 4736A1tDoCkEc;
  Ogham Ogam: 221O1d;
  Ol_Chiki Olck: 278U1w;
  Ol_Onal Onao: 4783K1re;
  Old_Hungarian Hung: 2643S1zN1zHg;
  Old_Italic Ital: 2550E1kJd;
  Old_North_Arabian Narb: 2624A1g;
  Old_Permic Perm: 2553G1r;
  Old_Persian Xpeo: 2556I1kEo;
  Old_Sogdian Sogo: 2668I1o;
  Old_South_Arabian Sarb: 2622U1g;
  Old_Turkic Orkh: 2638U2v;
  Old_Uyghur Ougr: 2672Q1a;
  Oriya Orya: 108JdBiCcCwBhBcBfCjCcCdHdEcBfCs;
  Osage Osge: 2566U1kE1k;
  Osmanya Osma: 2564Y1eCk;
  Pahawh_Hmong Hmng: 3574E2sKkBhBvFt;
  Palmyrene Palm: 2603C1g;
  Pau_Cin_Hau Pauc: 2784A2f;
  Phags_Pa Phag: 1656Q2e;
  Phoenician Phnx: 2609G1cd;
  Psalter_Pahlavi Phlp: 2633WsHeMh;
  Rejang Rjng: 1665W1kl;
  Runic Runr: 222U2xDl;
  Samaritan Samr: 78U1uCp;
  Saurashtra Saur: 1659C2sIm;
  Sharada Shrd: 2692Y3s;
  Shavian Shaw: 2563C1w;
  Siddham Sidd: 2732I2cC1m;
  SignWriting Sgnw: 4647K25cPfBp;
  Sinhala Sinh: 132ZdBsDyBjbChdEgbBiGkCd2559Gu;
  Sogdian Sogd: 2670E1q;
  Sora_Sompeng Sora: 2686EzHk;
  Soyombo Soyo: 2779S3f;
  Sundanese Sund: 270U2m9Wi;
  Sunuwar Sunu: 2793W1iOk;
  Syloti_Nagri Sylo: 1654E1t;
  Syriac Syrc: 68YoB2iCd10Ml;
  Tagalog Tglg: 226Mwj;
  Tagbanwa Tagb: 230EnBdBc;
  Tai_Le Tale: 249G1eCf;
  Tai_Tham Lana: 257G2lB1dClGkGo;
  Tai_Viet Tavt: 1678U2pYf;
  Takri Takr: 2742E2gGk;
  Tamil Taml: 113IcBgDdBeDcbBcDcDdDmEfDdBecgOv2715H1yn;
  Tangsa Tnsa: 3568Q3bBk;
  Tangut Tang: 3622e1F236aI29o19Sj;
  Telugu Telu: 118EnBdBxBqCjBdBeHcBdcCeCkHj;
  Thaana Thaa: 73W1y;
  Thai: 137X2gF1c;
  Tibetan Tibt: 147S2uB1kE1nB1kBpBhEc;
  Tifinagh Tfng: 444Y2eHco;
  Tirhuta Tirh: 2722M2uIk;
  Todhri Todr: 2577G2a;
  Toto: 4751K1f;
  Tulu_Tigalari Tutg: 2712QkbcB1mBkbcBeBkBcIc;
  Ugaritic Ugar: 2555C1eb;
  Vai Vaii: 1624Q11o;
  Vithkuqi Vith: 2574ElBpBhBcBlBpBhBc;
  Wancho Wcho: 4753G2gf;
  Warang_Citi Wara: 2763C3fm;
  Yezidi Yezi: 2663K1qBdCc;
  Yi Yiii: 1575K44vD2d;
  Zanabazar_Square Zanb: 2776Q2u"

end ClassBackend.Text
