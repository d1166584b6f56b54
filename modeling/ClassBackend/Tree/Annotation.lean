import ClassBackend.Code.ClassFile
import ClassBackend.Tree.Node

/-!
# Annotations of source in class files

A note in the source becomes an annotation of the class file. The two differ in
how they name classes, so the mapping takes a function from names to
descriptors.
-/

namespace ClassBackend

section Notes

variable (descriptor : String → String)

mutual

def Note.toAnnotation : Note → Annotation
  | .mk typeName runtime values => .mk (descriptor typeName) runtime (annotationValues values)

def annotationValues : List (String × AnnotationArg) → List (String × AnnotationValue)
  | [] => []
  | (name, value) :: rest => (name, value.toValue) :: annotationValues rest

def AnnotationArg.toValue : AnnotationArg → AnnotationValue
  | .text value => .text value
  | .int value => .int value
  | .boolean value => .boolean value
  | .classObject name => .classObject (descriptor name)
  | .array items => .array (annotationItems items)
  | .nested note => .nested note.toAnnotation

def annotationItems : List AnnotationArg → List AnnotationValue
  | [] => []
  | item :: rest => item.toValue :: annotationItems rest

end

end Notes

end ClassBackend
