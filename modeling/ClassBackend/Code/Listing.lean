import ClassBackend.Code.ClassFile
import ClassBackend.Decimal.Layout
import ClassBackend.Text.Align
import ClassBackend.Text.Quoted

/-!
# Listings

The readable form of instructions, methods and classes. Mnemonics fill a column
of fifteen characters, instructions are numbered with four digits, and labels
stand on lines of their own before the instruction they mark.
-/

namespace ClassBackend

def listedDouble (x : Double) : String := Decimal.Layout.listing.render x.parts

def listedSingle (x : Single) : String := Decimal.Layout.listing.render x.parts

def inColumn (mnemonic operands : String) : String :=
  Text.padRight 15 mnemonic ++ operands

def MemberRef.fieldText (field : MemberRef) : String :=
  field.owner ++ "." ++ field.name ++ ":" ++ field.descriptor

def MemberRef.methodText (method : MemberRef) : String :=
  method.owner ++ "." ++ method.name ++ method.descriptor

namespace Instruction

/-- An `int` constant under its shortest encoding. -/
def iconstText (value : Int32) : String :=
  let n := value.toInt
  if -1 ≤ n && n ≤ 5 then "iconst_" ++ toString n
  else if -128 ≤ n && n ≤ 127 then inColumn "bipush" (toString n)
  else if -32768 ≤ n && n ≤ 32767 then inColumn "sipush" (toString n)
  else inColumn "ldc" (toString n)

def typed (letter : Char) (rest : String) : String := String.singleton letter ++ rest

def listing : Instruction → String
  | .aconstNull => "aconst_null"
  | .iconst value => iconstText value
  | .lconst value => inColumn "ldc2_w" (toString value.toInt ++ "L")
  | .fconst value => inColumn "ldc" (listedSingle value ++ "f")
  | .dconst value => inColumn "ldc2_w" (listedDouble value ++ "d")
  | .ldc (.text value) => inColumn "ldc" (Text.quoted value)
  | .ldc (.classObject name) => inColumn "ldc" ("class " ++ name)
  | .load kind slot => inColumn (typed kind.letter "load") (toString slot.toNat)
  | .store kind slot => inColumn (typed kind.letter "store") (toString slot.toNat)
  | .iinc slot delta =>
    inColumn "iinc" (toString slot.toNat ++ " " ++ toString delta.toInt)
  | .newArray component => inColumn "newarray" component.name
  | .anewArray component => inColumn "anewarray" component
  | .arrayLoad kind => typed kind.letter "aload"
  | .arrayStore kind => typed kind.letter "astore"
  | .arrayLength => "arraylength"
  | .pop => "pop"
  | .pop2 => "pop2"
  | .dup => "dup"
  | .dupX1 => "dup_x1"
  | .dupX2 => "dup_x2"
  | .dup2 => "dup2"
  | .dup2X1 => "dup2_x1"
  | .dup2X2 => "dup2_x2"
  | .swap => "swap"
  | .arith kind op => typed kind.letter op.mnemonic
  | .neg kind => typed kind.letter "neg"
  | .convert source target => typed source.letter "2" ++ String.singleton target.letter
  | .lcmp => "lcmp"
  | .fcmpl => "fcmpl"
  | .fcmpg => "fcmpg"
  | .dcmpl => "dcmpl"
  | .dcmpg => "dcmpg"
  | .ifZero cond target => inColumn ("if" ++ cond.mnemonic) target.name
  | .ifInt cond target => inColumn ("if_icmp" ++ cond.mnemonic) target.name
  | .ifRef cond target => inColumn ("if_acmp" ++ cond.mnemonic) target.name
  | .ifNull target => inColumn "ifnull" target.name
  | .ifNonNull target => inColumn "ifnonnull" target.name
  | .goto target => inColumn "goto" target.name
  | .ret none => "return"
  | .ret (some kind) => typed kind.letter "return"
  | .athrow => "athrow"
  | .new className => inColumn "new" className
  | .checkcast className => inColumn "checkcast" className
  | .instanceOf className => inColumn "instanceof" className
  | .getField field => inColumn "getfield" field.fieldText
  | .putField field => inColumn "putfield" field.fieldText
  | .getStatic field => inColumn "getstatic" field.fieldText
  | .putStatic field => inColumn "putstatic" field.fieldText
  | .invoke kind method => inColumn kind.mnemonic method.methodText

end Instruction

namespace MethodInfo

def labelLines (method : MethodInfo) (index : Nat) : String :=
  let marked := (List.range method.labels.size).filter fun id =>
    method.labels[id]? == some index
  String.join (marked.map fun id => "   " ++ (Label.mk id).name ++ ":\n")

def entryLine (entry : ExceptionEntry) : String :=
  "    catch " ++ entry.catchType.getD "any" ++ " [" ++ toString entry.start ++ ", " ++
    toString entry.stop ++ ") -> " ++ toString entry.handler ++ "\n"

def listing (method : MethodInfo) : String :=
  let modifiers := Access.describe method.access
  let header := "  " ++ (if modifiers.isEmpty then "" else modifiers ++ " ") ++
    method.name ++ method.descriptor ++ "\n"
  let body := method.code.toList.zipIdx.map fun (instruction, index) =>
    method.labelLines index ++ "    " ++ Text.padLeft '0' 4 (toString index) ++ " " ++
      instruction.listing ++ "\n"
  header ++ String.join body ++ method.labelLines method.code.size ++
    String.join (method.exceptionTable.map entryLine)

end MethodInfo

mutual

def Annotation.listing : Annotation → String
  | .mk typeName _ values =>
    "@" ++ typeName ++
      (if values.isEmpty then ""
        else "(" ++ ", ".intercalate (annotationValuesListing values) ++ ")")

def AnnotationValue.listing : AnnotationValue → String
  | .text value => Text.quoted value
  | .int value => toString value.toInt
  | .boolean value => toString value
  | .classObject descriptor => descriptor ++ ".class"
  | .array items => "\x7b" ++ ", ".intercalate (annotationItemsListing items) ++ "\x7d"
  | .nested annotated => annotated.listing

def annotationItemsListing : List AnnotationValue → List String
  | [] => []
  | item :: rest => item.listing :: annotationItemsListing rest

def annotationValuesListing : List (String × AnnotationValue) → List String
  | [] => []
  | (name, value) :: rest => (name ++ "=" ++ value.listing) :: annotationValuesListing rest

end

def ConstantValue.listing : ConstantValue → String
  | .int value => toString value.toInt
  | .long value => toString value.toInt ++ "L"
  | .float value => listedSingle value ++ "f"
  | .double value => listedDouble value ++ "d"
  | .text value => Text.quoted value

/-- The lines of a field: its annotations, then the field itself. -/
def FieldInfo.listing (field : FieldInfo) : String :=
  String.join (field.annotations.map fun annotated => "  " ++ annotated.listing ++ "\n") ++
    "  " ++ Access.describe field.access ++ " " ++ field.descriptor ++ " " ++ field.name ++
    (match field.constant with
      | some constant => " = " ++ constant.listing
      | none => "") ++ "\n"

def ClassFile.listing (c : ClassFile) : String :=
  let kind := if c.isInterface then "interface" else "class"
  let modifiers := Access.describe (c.access &&& ~~~Access.abstractFlag)
  let extending := match c.superclass with
    | some superclass => " extends " ++ superclass
    | none => ""
  let implementing :=
    if c.interfaces.isEmpty then "" else " implements " ++ ", ".intercalate c.interfaces
  let source := match c.sourceFile with
    | some file => "  // source: " ++ file ++ " (version " ++ toString c.version.toNat ++ ")\n"
    | none => ""
  modifiers ++ " " ++ kind ++ " " ++ c.name ++ extending ++ implementing ++ "\n" ++ source ++
    String.join (c.innerClasses.map fun inner => "  inner " ++ inner ++ "\n") ++
    String.join (c.fields.map FieldInfo.listing) ++
    String.join (c.methods.map fun method => "\n" ++ method.listing)

end ClassBackend
