import ClassBackend.Text.Script

/-!
# Characters of several scripts

Most characters belong to one script. Some are used in a known few, whichever
script they count under, and then belong to each of these and to no other.
-/

namespace ClassBackend.Text

/-- The characters that are used in a known few scripts. Each class has the names
of its scripts. -/
def sharedUses : List CharClass :=
  CharClass.table "
  Avst Cari Copt Dupl Elba Geor Glag Gong Goth Grek Hani Latn Lydi Mahj Perm Shaw: 7b;
  Beng Cyrl Deva Latn Lisu Thai Toto: 26y;
  Bopo Latn: 27jBdn;
  Latn Lisu: 27p;
  Latn Thai: 27z;
  Cher Copt Cyrl Grek Latn Perm Sunu Tale: 29o;
  Cher Cyrl Grek Latn Osge Sunu Tale Todr: 29p;
  Cher Cyrl Latn Tfng: 29q;
  Glag Latn Sunu Syrc Thai: 29r;
  Aghb Cher Copt Cyrl Goth Grek Latn Osge Syrc Tfng Todr: 29s;
  Copt Elba Glag Goth Kana Latn: 29t;
  Cyrl Grek Latn Perm: 29u;
  Copt Dupl Hebr Latn Perm Syrc Tale Tfng Todr: 29v;
  Armn Cyrl Dupl Goth Grek Hebr Latn Perm Syrc Tale: 29w;
  Latn Tfng: 29x;
  Dupl Latn Syrc: 29y;
  Cher Cyrl Latn Osge: 29z;
  Cher Latn Tale: 30a;
  Latn Sunu: 30bc;
  Ethi Latn: 30c;
  Cyrl Latn Todr: 30f;
  Grek Latn Perm Todr: 30h;
  Latn Syrc: 30uei;
  Cher Dupl Kana Latn Syrc: 30x;
  Cher Dupl Latn Syrc: 30y;
  Latn Sunu Syrc: 31h;
  Cher Latn Syrc: 31k;
  Aghb Cher Goth Latn Sunu Thai: 31l;
  Grek: 32cc260Sc;
  Latn Osge: 32y;
  Aghb Latn Todr: 33e;
  Latn: 33Jn;
  Copt Grek: 34Ac;
  Cyrl Perm: 44l;
  Cyrl Glag: 44mc410x1183f;
  Cyrl Latn: 44Nc;
  Armn Geor Glag: 54n;
  Arab Gara Nkoo Rohg Syrc Thaa Yezi: 59oo;
  Arab Syrc Thaa: 60e;
  Adlm Arab Gara Nkoo Rohg Syrc Thaa Yezi: 60h;
  Adlm Arab Mand Mani Ougr Phlp Rohg Sogd Syrc: 61o;
  Arab Syrc: 61Zl1a;
  Arab Thaa Yezi: 62Uk;
  Arab Rohg: 67g;
  Beng Deva Gran Gujr Guru Knda Latn Mlym Orya Shrd Taml Telu Tirh: 91t;
  Beng Deva Gran Gujr Guru Knda Latn Mlym Orya Taml Telu Tirh: 91u;
  Beng Deva Dogr Gong Gonm Gran Gujr Guru Knda Mahj Mlym Nand Onao Orya Sind Sinh Sylo Takr
    Taml Telu Tirh:
  92m;
  Beng Deva Dogr Gong Gonm Gran Gujr Gukh Guru Knda Limb Mahj Mlym Nand Onao Orya Sind Sinh Sylo
    Takr Taml Telu Tirh:
  92n;
  Deva Dogr Kthi Mahj: 92Ok;
  Beng Cakm Sylo: 97Mk;
  Guru Mult: 102Kk;
  Gujr Khoj: 107Ik;
  Gran Taml: 117Eo2590bb2Dc123Vcb;
  Knda Nand Tutg: 127Ak;
  Cakm Mymr Tale: 160Ak;
  Geor Glag Latn: 167f;
  Runr: 225Rd;
  Buhd Hano Tagb Tglg: 228Nc;
  Mong Phag: 236Kcb;
  Beng Deva Gran Knda: 283sb;
  Deva: 283tcgCcChCcBe;
  Deva Gran Knda: 283v;
  Beng Deva: 283XcbiicHc;
  Deva Shrd: 283zbCcc;
  Deva Knda Mlym Orya Taml Telu: 284c;
  Deva Nand: 284r;
  Beng Deva Gran Knda Mlym Nand Orya Sinh Telu Tirh Tutg: 285a;
  Deva Gran: 285bEc;
  Deva Gran Knda Tutg: 285c;
  Beng: 285f;
  Nand: 285i;
  Cyrl Latn Syrc: 295c;
  Syrc: 295e;
  Latn Mong Phag: 316x;
  Adlm Arab: 318d;
  Cari Geor Glag Hung Lyci Orkh: 318o;
  Cari Grek Hung Mero: 318r;
  Deva Gran Latn: 324i;
  Copt Latn: 453v;
  Avst Orkh: 454u;
  Avst Cari Geor Hung Kthi Lydi Samr: 454v;
  Dupl: 455g3922Pe;
  Adlm Arab Hung: 455l;
  Hani Tang: 472Aq19b;
  Bopo Hang Hani Hira Kana Mong Yiii: 472r;
  Bopo Hang Hani Hira Kana Mong Phag Yiii: 472s;
  Bopo Hang Hani Hira Kana: 472tpIeqg2028Vc;
  Hani: 472w2Dc12Yq1G1m2G1o2E1xPm1z3KzKf3S1f4089Xs303Yc;
  Bopo Hang Hani Hira Kana Mong Tibt Yiii: 472Yc;
  Bopo Hang Hani Hira Kana Lisu Mong Tibt Yiii: 473Ac;
  Bopo Hang Hani Hira Kana Yiii: 473CgCi8p2032Ff;
  Bopo Hani: 474Ge;
  Hira Kana: 474Nf3Ved3n2032t1Tc;
  Hani Hira Kana: 474Yc;
  Hani Latn: 1644Ii;
  Deva Dogr Gujr Guru Khoj Knda Kthi Mahj Mlym Modi Nand Shrd Sind Takr Tirh Tutg: 1656Ad;
  Deva Dogr Gujr Guru Khoj Knda Kthi Mahj Modi Nand Shrd Sind Takr Tirh Tutg: 1656Dd;
  Deva Dogr Gujr Guru Khoj Kthi Mahj Modi Sind Takr Tirh: 1656Gcb;
  Deva Dogr Gujr Guru Khoj Kthi Mahj Modi Shrd Sind Takr Tirh: 1656i;
  Beng Deva Tutg: 1663l;
  Deva Taml: 1663n;
  Kali Latn Mymr: 1665u;
  Bugi Java: 1671z;
  Arab Nkoo: 2493Mc;
  Arab Thaa: 2500kk;
  Cpmn Cprt Linb: 2530Mc;
  Cprt Linb: 2530o2Aj;
  Cprt Lina Linb: 2530T1t;
  Arab Copt: 2548Y1c;
  Mani Ougr: 2628k"

/-- The characters used in a script: those that only it has, and those it
shares. -/
def usedIn (script : CharClass) : CharSet :=
  let shared := sharedUses.filter fun use => use.names.any script.names.contains
  let rest := (CharSet.ofRanges script.ranges).diff (.ofRanges (sharedUses.flatMap (·.ranges)))
  rest.union (.ofRanges (shared.flatMap (·.ranges)))

end ClassBackend.Text
