import JniGenerator.Mangle

/-! The extractors of `JNIFromJavaSource`: the JNI namespace, the native
declarations and the `@CalledByNative` methods, each found by one regex over
the comment-free contents. -/

namespace JniGenerator

open Regex

/-- `.*?@JNINamespace\("(.*?)"\)`; the group is the only group of the pattern. -/
def reJniNamespace : Regex := .cat [.manyLazy (.chr .dot), .lit "@JNINamespace(\"".toList,
  .group "namespace" (.manyLazy (.chr .dot)), .lit "\")".toList]

def extractJNINamespace (contents : Str) : Str :=
  match reJniNamespace.findIter contents with
  | [] => []
  | mt :: _ => (mt.group "namespace").getD []

/-- `re_native` of `ExtractNatives`. -/
def reNative : Regex := .cat [
  .opt (.cat [.lit "@NativeClassQualifiedName(\"".toList,
    .group "native_class_name" (.manyLazy (.chr .dot)), .lit "\")".toList, .plus (.chr .space)]),
  .opt (.cat [.lit "@NativeCall".toList, .lit "(\"".toList,
    .group "java_class_name" (.manyLazy (.chr .dot)), .lit "\")".toList, .plus (.chr .space)]),
  .group "qualifiers" (.alt (.cat [.plus (.chr .word), .chr .space, .plus (.chr .word)])
    (.alt (.plus (.chr .word)) (.plus (.chr .space)))),
  .many (.chr .space), .lit "native ".toList,
  .group "return_type" (.many (.chr (.neg .space))), .lit " ".toList,
  .group "name" (.seq (.lit "native".toList) (.plus (.chr .word))), .lit "(".toList,
  .group "params" (.manyLazy (.chr .dot)), .lit ");".toList]

/-- The `NativeMethod` one match of `re_native` describes. -/
def nativeOfMatch (ptrType : Str) (mt : Match) : Except Error NativeMethod := do
  let params ← JniParams.parse ((mt.group "params").getD [])
  pure (NativeMethod.init (contains ((mt.group "qualifiers").getD []) "static".toList)
    (mt.group "java_class_name") (mt.group "native_class_name")
    ((mt.group "return_type").getD [])
    (replace ((mt.group "name").getD []) "native".toList []) params ptrType)

/-- Returns a list of dict containing information about a native method. -/
def extractNatives (contents ptrType : Str) : Except Error (List NativeMethod) :=
  (reNative.findIter (replace contents "\n".toList [])).mapM (nativeOfMatch ptrType)

set_option maxRecDepth 100000 in
/-- `str.replace` removes every `native` of the declared name, the one inside
`Alternative` too. -/
theorem extractNatives_removes_inner_native :
    (extractNatives "  private native boolean nativeHasAlternativeServices();\n".toList
      "int".toList).map (·.map NativeMethod.name) = .ok ["HasAlterServices".toList] := by
  decide

/-- `RE_CALLED_BY_NATIVE`; `(:?\s*@\w+)?` is a group with an optional colon. -/
def reCalledByNative : Regex := .cat [
  .lit "@CalledByNative".toList, .group "Unchecked" (.manyLazy (.lit "Unchecked".toList)),
  .opt (.cat [.lit "(\"".toList, .group "annotation" (.many (.chr .dot)), .lit "\")".toList]),
  .plus (.chr .space), .group "prefix" (.manyLazy (.chr (.union .word (.lit ' ')))),
  .opt (.cat [.opt (.chr (.lit ':')), .many (.chr .space), .lit "@".toList, .plus (.chr .word)]),
  .many (.chr .space), .group "return_type" (.plusLazy (.chr (.neg .space))),
  .plus (.chr .space), .group "name" (.plus (.chr .word)),
  .many (.chr .space), .lit "(".toList, .group "params" (.many (.chr (.neg (.lit ')')))),
  .lit ")".toList]

/-- The `CalledByNative` one match of `RE_CALLED_BY_NATIVE` describes. -/
def calledByNativeOfMatch (mt : Match) : Except Error CalledByNative := do
  let params ← JniParams.parse ((mt.group "params").getD [])
  pure { systemClass := false
         unchecked := contains ((mt.group "Unchecked").getD []) "Unchecked".toList
         static := contains ((mt.group "prefix").getD []) "static".toList
         javaClassName := (mt.group "annotation").getD []
         returnType := (mt.group "return_type").getD []
         name := (mt.group "name").getD []
         params := params }

/-- The check for `@CalledByNative` occurrences that weren't matched, over the
pairs `zip(unmatched_lines, unmatched_lines[1:])`. -/
def checkUnmatched : List Str → Except Error Unit
  | line1 :: line2 :: rest =>
    if contains line1 "@CalledByNative".toList then
      .error (.parseError "could not parse @CalledByNative method signature".toList [line1, line2])
    else checkUnmatched (line2 :: rest)
  | _ => pure ()

/-- Parses all methods annotated with @CalledByNative. -/
def extractCalledByNatives (p : JniParams) (implicitImports : List Str) (contents : Str) :
    Except Error (List CalledByNative) := do
  let calledByNatives ← (reCalledByNative.findIter contents).mapM calledByNativeOfMatch
  checkUnmatched (split (reCalledByNative.sub (fun _ => []) contents) '\n')
  mangleCalledByNatives p implicitImports calledByNatives

set_option maxRecDepth 100000 in
/-- The greedy class-string group of one annotation runs to the last `")` of
the line: two annotated methods on one line give one `CalledByNative`, whose
class string holds the first method, and no `ParseError`. -/
theorem extractCalledByNatives_merges_one_line_annotations (p : JniParams)
    (implicitImports : List Str) :
    (extractCalledByNatives p implicitImports
      "  @CalledByNative(\"A\") void f() \x7b\x7d @CalledByNative(\"B\") void g() \x7b\x7d\n".toList).map
      (·.map fun c => (c.name, c.javaClassName)) =
      .ok [("g".toList, "A\") void f() \x7b\x7d @CalledByNative(\"B".toList)] := rfl

end JniGenerator
