import ClassBackend.Code.ClassFile
import ClassBackend.Json.Value

/-!
# Machine-readable dumps

A class file as a JSON document. Members stand in a fixed order, a case without
payload is its name, and a case with payload is an object with one member.
-/

namespace ClassBackend

def Primitive.dumpName : Primitive → String
  | .boolean => "Boolean"
  | .byte => "Byte"
  | .char => "Char"
  | .short => "Short"
  | .int => "Int"
  | .long => "Long"
  | .float => "Float"
  | .double => "Double"

def Kind.dumpName : Kind → String
  | .int => "Int"
  | .long => "Long"
  | .float => "Float"
  | .double => "Double"
  | .ref => "Ref"

def ArrayKind.dumpName : ArrayKind → String
  | .byte => "Byte"
  | .char => "Char"
  | .short => "Short"
  | .int => "Int"
  | .long => "Long"
  | .float => "Float"
  | .double => "Double"
  | .ref => "Ref"

def capitalized (mnemonic : String) : String :=
  match mnemonic.toList with
  | [] => ""
  | c :: rest => String.ofList (c.toUpper :: rest)

def InvokeKind.dumpName : InvokeKind → String
  | .virtual => "Virtual"
  | .special => "Special"
  | .static => "Static"
  | .interface => "Interface"

def MemberRef.dump (reference : MemberRef) : Json :=
  .object [("owner", .text reference.owner), ("name", .text reference.name),
    ("descriptor", .text reference.descriptor)]

def Instruction.dump : Instruction → Json
  | .aconstNull => .text "AconstNull"
  | .iconst value => .tagged "Iconst" (.int value.toInt)
  | .lconst value => .tagged "Lconst" (.int value.toInt)
  | .fconst value => .tagged "Fconst" (.single value)
  | .dconst value => .tagged "Dconst" (.double value)
  | .ldc (.text value) => .tagged "Ldc" (.tagged "String" (.text value))
  | .ldc (.classObject name) => .tagged "Ldc" (.tagged "Class" (.text name))
  | .load kind slot => .tagged "Load" (.array [.text kind.dumpName, .nat slot.toNat])
  | .store kind slot => .tagged "Store" (.array [.text kind.dumpName, .nat slot.toNat])
  | .iinc slot delta => .tagged "Iinc" (.array [.nat slot.toNat, .int delta.toInt])
  | .newArray component => .tagged "NewArray" (.text component.dumpName)
  | .anewArray component => .tagged "ANewArray" (.text component)
  | .arrayLoad kind => .tagged "ArrayLoad" (.text kind.dumpName)
  | .arrayStore kind => .tagged "ArrayStore" (.text kind.dumpName)
  | .arrayLength => .text "ArrayLength"
  | .pop => .text "Pop"
  | .pop2 => .text "Pop2"
  | .dup => .text "Dup"
  | .dupX1 => .text "DupX1"
  | .dupX2 => .text "DupX2"
  | .dup2 => .text "Dup2"
  | .dup2X1 => .text "Dup2X1"
  | .dup2X2 => .text "Dup2X2"
  | .swap => .text "Swap"
  | .arith kind op =>
    .tagged "Arith" (.array [.text kind.dumpName, .text (capitalized op.mnemonic)])
  | .neg kind => .tagged "Neg" (.text kind.dumpName)
  | .convert source target =>
    .tagged "Convert" (.array [.text source.dumpName, .text target.dumpName])
  | .lcmp => .text "Lcmp"
  | .fcmpl => .text "Fcmpl"
  | .fcmpg => .text "Fcmpg"
  | .dcmpl => .text "Dcmpl"
  | .dcmpg => .text "Dcmpg"
  | .ifZero cond target => .tagged "If" (branch cond target)
  | .ifInt cond target => .tagged "IfIcmp" (branch cond target)
  | .ifRef cond target => .tagged "IfAcmp" (branch cond target)
  | .ifNull target => .tagged "IfNull" (.nat target.id)
  | .ifNonNull target => .tagged "IfNonNull" (.nat target.id)
  | .goto target => .tagged "Goto" (.nat target.id)
  | .ret kind => .tagged "Return" (.textOrNull (kind.map Kind.dumpName))
  | .athrow => .text "Athrow"
  | .new className => .tagged "New" (.text className)
  | .checkcast className => .tagged "Checkcast" (.text className)
  | .instanceOf className => .tagged "InstanceOf" (.text className)
  | .getField field => .tagged "GetField" field.dump
  | .putField field => .tagged "PutField" field.dump
  | .getStatic field => .tagged "GetStatic" field.dump
  | .putStatic field => .tagged "PutStatic" field.dump
  | .invoke kind method => .tagged "Invoke" (.array [.text kind.dumpName, method.dump])
where
  branch (cond : Cond) (target : Label) : Json :=
    .array [.text (capitalized cond.mnemonic), .nat target.id]

mutual

def Annotation.dump : Annotation → Json
  | .mk typeName runtime values =>
    .object [("type_name", .text typeName), ("runtime", .bool runtime),
      ("values", .array (dumpNamedValues values))]

def AnnotationValue.dump : AnnotationValue → Json
  | .text value => .tagged "String" (.text value)
  | .int value => .tagged "Int" (.int value.toInt)
  | .boolean value => .tagged "Boolean" (.bool value)
  | .classObject descriptor => .tagged "Class" (.text descriptor)
  | .array items => .tagged "Array" (.array (dumpValues items))
  | .nested annotated => .tagged "Nested" annotated.dump

def dumpValues : List AnnotationValue → List Json
  | [] => []
  | item :: rest => item.dump :: dumpValues rest

def dumpNamedValues : List (String × AnnotationValue) → List Json
  | [] => []
  | (name, value) :: rest => .array [.text name, value.dump] :: dumpNamedValues rest

end

def ConstantValue.dump : ConstantValue → Json
  | .int value => .tagged "Int" (.int value.toInt)
  | .long value => .tagged "Long" (.int value.toInt)
  | .float value => .tagged "Float" (.single value)
  | .double value => .tagged "Double" (.double value)
  | .text value => .tagged "String" (.text value)

def FieldInfo.dump (field : FieldInfo) : Json :=
  .object [("name", .text field.name), ("descriptor", .text field.descriptor),
    ("access", .nat field.access.toNat),
    ("constant", (field.constant.map ConstantValue.dump).getD .null),
    ("annotations", .array (field.annotations.map Annotation.dump))]

def ExceptionEntry.dump (entry : ExceptionEntry) : Json :=
  .object [("start", .nat entry.start), ("end", .nat entry.stop),
    ("handler", .nat entry.handler), ("catch_type", .textOrNull entry.catchType)]

def LocalVar.dump (entry : LocalVar) : Json :=
  .object [("name", .text entry.name), ("descriptor", .text entry.descriptor),
    ("slot", .nat entry.slot.toNat)]

def MethodInfo.dump (method : MethodInfo) : Json :=
  .object [("name", .text method.name), ("descriptor", .text method.descriptor),
    ("access", .nat method.access.toNat),
    ("code", .array (method.code.toList.map Instruction.dump)),
    ("labels", .array (method.labels.toList.map Json.nat)),
    ("exception_table", .array (method.exceptionTable.map ExceptionEntry.dump)),
    ("lines", .array (method.lines.map fun entry => .array [.nat entry.1, .nat entry.2])),
    ("locals", .array (method.locals.map LocalVar.dump)),
    ("max_locals", .nat method.maxLocals.toNat),
    ("exceptions", .array (method.exceptions.map Json.text)),
    ("annotations", .array (method.annotations.map Annotation.dump))]

def ClassFile.dump (c : ClassFile) : Json :=
  .object [("name", .text c.name), ("superclass", .textOrNull c.superclass),
    ("interfaces", .array (c.interfaces.map Json.text)),
    ("access", .nat c.access.toNat), ("version", .nat c.version.toNat),
    ("source_file", .textOrNull c.sourceFile),
    ("fields", .array (c.fields.map FieldInfo.dump)),
    ("methods", .array (c.methods.map MethodInfo.dump)),
    ("inner_classes", .array (c.innerClasses.map Json.text))]

end ClassBackend
