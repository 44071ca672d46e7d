import JniGenerator.Extract
import JniGenerator.Header.Content

/-!
# `JNIFromJavaSource`, file after file

`JNIFromJavaSource(contents, fully_qualified_class, options)` removes the
comments, sets and fills the class state of `JniParams`, runs the extractors
and renders the header. The class state outlives the call, so a process that
handles several files is a state machine over `JniParams`, one file a step.

Proved here:

* `jniFromJavaSource_carries_imports_across_files`: an import of one file
  makes a later file's `@JNIAdditionalImport` of the same class raise, where
  a fresh process accepts it;
* `afterFile_congr`, `fileResult_congr`: `SetFullyQualifiedClass` overwrites
  the class and the package, so a file's result and the state it leaves read
  only the imports and inner classes of the state before it;
* `processFiles_reads_only_imports_and_inner_classes`: over any sequence of
  files, two starting states with the same imports and inner classes give the
  same result for every file.
-/

namespace JniGenerator

open Regex

/-- `'(?:\\.|[^\\'])*'` and its double-quoted twin, under `DOTALL`. -/
def quotedLiteral (q : Char) : Regex :=
  .cat [.chr (.lit q),
    .many (.alt (.seq (.chr (.lit '\\')) (.chr .any)) (.chr (.neg (.union (.lit '\\') (.lit q))))),
    .chr (.lit q)]

/-- `_comment_remover_regex`, under `DOTALL | MULTILINE`. -/
def reCommentRemover : Regex :=
  .alt (.cat [.lit "//".toList, .manyLazy (.chr .any), .eol])
    (.alt (.cat [.lit "/*".toList, .manyLazy (.chr .any), .lit "*/".toList])
      (.alt (quotedLiteral '\'') (quotedLiteral '"')))

/-- Replace matches that are comments with nothing; return literals/strings unchanged. -/
def removeComments (contents : Str) : Str :=
  reCommentRemover.sub (fun mt => if startswith mt.text "/".toList then [] else mt.text) contents

/-- A pure step of `JNIFromJavaSource`, raising in the state monad. -/
def ofExcept {α : Type} : Except Error α → EStateM Error JniParams α
  | .ok a => pure a
  | .error e => throw e

theorem JniParams.setFullyQualifiedClass_congr {p q : JniParams} (hi : p.imports = q.imports)
    (hc : p.innerClasses = q.innerClasses) (fullyQualifiedClass : Str) :
    JniParams.setFullyQualifiedClass fullyQualifiedClass p =
      JniParams.setFullyQualifiedClass fullyQualifiedClass q := by
  cases p; cases q; simp_all [JniParams.setFullyQualifiedClass]

section
variable (implicitImports : List Str) (options : Options) (licenseHeader : Str)
  (textWrap : Str → Str → List Str)

/-- `JNIFromJavaSource(contents, fully_qualified_class, options).GetContent()` -/
def jniFromJavaSource (contents fullyQualifiedClass : Str) : EStateM Error JniParams Str := do
  let contents := removeComments contents
  modify (JniParams.setFullyQualifiedClass fullyQualifiedClass)
  JniParams.extractImportsAndInnerClasses contents
  let jniNamespace := match extractJNINamespace contents with
    | [] => options.namespaceName
    | ns => ns
  let p ← get
  let natives ← ofExcept (extractNatives contents options.ptrType)
  let calledByNatives ← ofExcept (extractCalledByNatives p implicitImports contents)
  if natives = [] ∧ calledByNatives = [] then
    throw (.syntaxError ("Unable to find any JNI methods for ".toList ++ fullyQualifiedClass ++ ".".toList))
  let g : InlHeaderFileGenerator := ⟨jniNamespace, fullyQualifiedClass, natives, calledByNatives, [], options⟩
  ofExcept (g.getContent p implicitImports licenseHeader textWrap)

/-- `.*?package (.*?);` -/
def rePackage : Regex := .cat [.manyLazy (.chr .dot), .lit "package ".toList,
  .group "package" (.manyLazy (.chr .dot)), .lit ";".toList]

/-- `os.path.basename(p)` -/
def basename (p : Str) : Str := (split p '/').getLastD []

/-- `os.path.splitext(p)[0]` for a name without `/`: the name without the text
from its last `.`, unless only dots come before that `.`. -/
def splitextRoot (p : Str) : Str :=
  let root := ((p.reverse.dropWhile (· != '.')).drop 1).reverse
  if '.' ∈ p ∧ root.any (· != '.') then root else p

/-- The package of the first `package` line, slashed, and the file's name
without its extension; the contents still hold their comments. -/
def extractFullyQualifiedJavaClassName (javaFileName contents : Str) : Except Error Str :=
  match rePackage.findIter contents with
  | [] => .error (.syntaxError ("Unable to find \"package\" line in ".toList ++ javaFileName))
  | mt :: _ => .ok (replace ((mt.group "package").getD []) ".".toList "/".toList ++
      '/' :: splitextRoot (basename javaFileName))

/-- `JNIFromJavaSource.CreateFromFile(java_file_name, options).GetContent()`,
from the contents read from the file. -/
def createFromFile (javaFileName contents : Str) : EStateM Error JniParams Str := do
  let fullyQualifiedClass ← ofExcept (extractFullyQualifiedJavaClassName javaFileName contents)
  jniFromJavaSource implicitImports options licenseHeader textWrap contents fullyQualifiedClass

/-- The header text or the error of one file `(contents, fully_qualified_class)`,
run from the class state `p`. -/
def fileResult (file : Str × Str) (p : JniParams) : Except Error Str :=
  match (jniFromJavaSource implicitImports options licenseHeader textWrap file.1 file.2).run p with
  | .ok s _ => .ok s
  | .error e _ => .error e

/-- The class state one file leaves behind, whether it raised or not. -/
def afterFile (file : Str × Str) (p : JniParams) : JniParams :=
  match (jniFromJavaSource implicitImports options licenseHeader textWrap file.1 file.2).run p with
  | .ok _ p' => p'
  | .error _ p' => p'

/-- One process handling the files in order; a file that raises leaves its
updates to the class state, and the later files are still handled. -/
def processFiles : List (Str × Str) → JniParams → List (Except Error Str)
  | [], _ => []
  | file :: files, p =>
    fileResult implicitImports options licenseHeader textWrap file p ::
      processFiles files (afterFile implicitImports options licenseHeader textWrap file p)

section
variable {p q : JniParams} (hi : p.imports = q.imports) (hc : p.innerClasses = q.innerClasses)
include hi hc

/-- The first step of a file is `SetFullyQualifiedClass`, which keeps of the state
before it only its imports and inner classes. -/
theorem run_jniFromJavaSource_congr (contents fullyQualifiedClass : Str) :
    (jniFromJavaSource implicitImports options licenseHeader textWrap contents fullyQualifiedClass).run p =
      (jniFromJavaSource implicitImports options licenseHeader textWrap contents fullyQualifiedClass).run q := by
  have h := JniParams.setFullyQualifiedClass_congr hi hc fullyQualifiedClass
  unfold jniFromJavaSource
  simp only [run_eq, bind, EStateM.bind, modify, modifyGet, MonadStateOf.modifyGet, EStateM.modifyGet]
  rw [h]

theorem fileResult_congr (file : Str × Str) :
    fileResult implicitImports options licenseHeader textWrap file p =
      fileResult implicitImports options licenseHeader textWrap file q := by
  rw [fileResult, fileResult, run_jniFromJavaSource_congr implicitImports options licenseHeader textWrap hi hc]

theorem afterFile_congr (file : Str × Str) :
    afterFile implicitImports options licenseHeader textWrap file p =
      afterFile implicitImports options licenseHeader textWrap file q := by
  rw [afterFile, afterFile, run_jniFromJavaSource_congr implicitImports options licenseHeader textWrap hi hc]

end

/-- Over any sequence of files, the results read only the imports and inner
classes of the starting state. -/
theorem processFiles_reads_only_imports_and_inner_classes :
    ∀ (files : List (Str × Str)) {p q : JniParams}, p.imports = q.imports → p.innerClasses = q.innerClasses →
      processFiles implicitImports options licenseHeader textWrap files p =
        processFiles implicitImports options licenseHeader textWrap files q
  | [], _, _, _, _ => rfl
  | file :: files, p, q, hi, hc => by
    rw [processFiles, processFiles, fileResult_congr implicitImports options licenseHeader textWrap hi hc,
      afterFile_congr implicitImports options licenseHeader textWrap hi hc]

end

set_option maxRecDepth 100000 in
/-- `import q.Foo;` in one file puts `Lq/Foo` in the class state, and the
`@JNIAdditionalImport(Foo.class)` of a later file of package `q` then raises;
in a fresh process that file gives its header. -/
theorem jniFromJavaSource_carries_imports_across_files :
    let a := ("import q.Foo;\nclass A \x7b\n  private native void nativeA();\n\x7d\n".toList, "q/A".toList)
    let b := ("@JNIAdditionalImport(Foo.class)\nclass B \x7b\n  private native void nativeB();\n\x7d\n".toList,
      "q/B".toList)
    let opts : Options := ⟨[], [], [], "int".toList, false⟩
    (fileResult [] opts [] (fun _ line => [line]) a JniParams.initial).toBool = true ∧
    fileResult [] opts [] (fun _ line => [line]) b
        (afterFile [] opts [] (fun _ line => [line]) a JniParams.initial) =
      .error (.syntaxError "Do not use JNIAdditionalImport on an already imported class: Lq.Foo".toList) ∧
    (fileResult [] opts [] (fun _ line => [line]) b JniParams.initial).toBool = true :=
  ⟨rfl, rfl, rfl⟩

/-- The state a file with one import and one inner class leaves, and the same
state with its class and package cleared. -/
theorem processFiles_reads_only_imports_and_inner_classes_after_import :
    let a := ("import q.Foo;\nclass A \x7b\n  interface Listener \x7b\x7d\n  private native void nativeA();\n\x7d\n".toList,
      "q/A".toList)
    let b := ("class B \x7b\n  private native void nativeB(Foo foo);\n\x7d\n".toList, "q/B".toList)
    let opts : Options := ⟨[], [], [], "int".toList, false⟩
    let p := afterFile [] opts [] (fun _ line => [line]) a JniParams.initial
    let q : JniParams := ⟨p.imports, [], [], p.innerClasses⟩
    p.imports = q.imports ∧ p.innerClasses = q.innerClasses ∧
      processFiles [] opts [] (fun _ line => [line]) [b] p =
        processFiles [] opts [] (fun _ line => [line]) [b] q :=
  ⟨rfl, rfl, processFiles_reads_only_imports_and_inner_classes _ _ _ _ [_] rfl rfl⟩

end JniGenerator
