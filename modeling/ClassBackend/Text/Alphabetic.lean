import ClassBackend.Text.Category

/-!
# Alphabetic and numeric characters

Alphabetic characters are letters, letter-like numbers and the vowel signs that
belong to letters. Numeric ones are digits and the other signs for numbers.
-/

namespace ClassBackend.Text

def alphabetic : CharClass :=
  .read "Alphabetic Alpha: L M Nl 361M2a4531Y1aG1Ac - 29O2rB1d11Ch10D1f6m5EcJd3Fl6Ejj1Act1Rd2Ii1QkMc
  0Ig2yqDe3zq1w2jq4gq1Vd2iqh4p4gq4gq4Fcq4u4Ugb4dNfb2Vc1bbbEc2qBc2k4iBc30Wd36Mc1e4XcTlj1Tdb11Ld11gUic
  1WpCl4ap1Mj2Cc2gLc2p5WdBvegCd7Qt1Il27S1h118Cd5l26Gg4Bc1160EeJc4Kc10q1l5v1Bs2Fd1l3rm9ub2a9Lc808CqQq
  37l8s72Hde6Jc24Te15Jd2Sl1Xe7k1po2Fc4Qc2k2yIe4Ac6Wc3CcqYhDf3LdbOc3rdx3Vc9Rc4w4Oc4l10Jc9Yce6a3Ecs3Cc
  16f9yBc3d16Jcx205tGp441p96Af2Hh46b755k181A1uCx20WfDgIiCh1Ee5Sd76D2dE1yioWfBp64Ah14l2Je19Oe9Uc28Ih
  4FdBd30480V9g"

def lateAlphabetic : CharSet :=
  .ofText "84h37k4x1525Pccb1c958C1a53Jd1Yc122Ai22M1s795GzCz11Af236Ji49Pw3T4l874J1fBwIc2050Gg230Gm
  837A165i"

def numeric : CharClass := .read "Numeric: N 2814Uk807Ud"

def isAlphabetic (c : Char) : Bool :=
  if c.toNat < 0x80 then c.isAlpha
  else alphabetic.set.contains c.toNat || lateAlphabetic.contains c.toNat

def isAlphanumeric (c : Char) : Bool :=
  if c.toNat < 0x80 then c.isAlphanum
  else isAlphabetic c || numeric.set.contains c.toNat

end ClassBackend.Text
