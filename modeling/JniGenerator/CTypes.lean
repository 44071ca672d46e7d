import JniGenerator.Resolver

/-! The maps from Java type names to C types, return values, casts and
`JNIEnv` call names. They read the syntactic type name only, never the
resolution state, and are compared here with the C type `jni.h` gives the
descriptor `JavaToJni` resolves the same name to. -/

namespace JniGenerator

def javaPodTypeMap : List (Str × Str) :=
  [("int".toList, "jint".toList), ("byte".toList, "jbyte".toList),
   ("char".toList, "jchar".toList), ("short".toList, "jshort".toList),
   ("boolean".toList, "jboolean".toList), ("long".toList, "jlong".toList),
   ("double".toList, "jdouble".toList), ("float".toList, "jfloat".toList)]

def javaTypeMap : List (Str × Str) :=
  [("void".toList, "void".toList), ("String".toList, "jstring".toList),
   ("Throwable".toList, "jthrowable".toList), ("java/lang/String".toList, "jstring".toList),
   ("java/lang/Class".toList, "jclass".toList),
   ("java/lang/Throwable".toList, "jthrowable".toList)]

/-- Returns a C datatype for the given java type. -/
def javaDataTypeToC (javaType : Str) : Str :=
  match javaPodTypeMap.lookup javaType with
  | some c => c
  | none =>
  match javaTypeMap.lookup javaType with
  | some c => c
  | none =>
  if endswith javaType "[]".toList then
    match javaPodTypeMap.lookup (javaType.dropLast.dropLast) with
    | some c => c ++ "Array".toList
    | none => "jobjectArray".toList
  -- Checking just the start of the name, rather than a direct comparison,
  -- in order to handle generics.
  else if startswith javaType "Class".toList then "jclass".toList
  else "jobject".toList

/-- `RE_SCOPED_JNI_TYPES`: the JNI types that should be wrapped in a JavaRef. -/
def reScopedJniTypes : Regex :=
  .alt (.lit "jobject".toList) (.alt (.lit "jclass".toList) (.alt (.lit "jstring".toList)
    (.alt (.lit "jthrowable".toList) (.seq (.many (.chr .dot)) (.lit "Array".toList)))))

/-- `re.match(RE_SCOPED_JNI_TYPES, c_type)` -/
def isScopedJniType (cType : Str) : Bool := (reScopedJniTypes.matchPrefix cType).isSome

/-- Wrap the C datatype in a JavaRef if required. -/
def wrapCTypeForDeclaration (cType : Str) : Str :=
  if isScopedJniType cType then "const base::android::JavaParamRef<".toList ++ cType ++ ">&".toList
  else cType

def javaDataTypeToCForDeclaration (javaType : Str) : Str :=
  wrapCTypeForDeclaration (javaDataTypeToC javaType)

/-- Returns a C datatype to be when calling from native. -/
def javaDataTypeToCForCalledByNativeParam (javaType : Str) : Str :=
  if javaType = "int".toList then "JniIntWrapper".toList
  else
    let cType := javaDataTypeToC javaType
    if isScopedJniType cType then
      "const base::android::JavaRefOrBare<".toList ++ cType ++ ">&".toList
    else cType

/-- Returns a valid C return value for the given java type. -/
def javaReturnValueToC (javaType : Str) : Str :=
  ([("int".toList, "0".toList), ("byte".toList, "0".toList), ("char".toList, "0".toList),
    ("short".toList, "0".toList), ("boolean".toList, "false".toList),
    ("long".toList, "0".toList), ("double".toList, "0".toList), ("float".toList, "0".toList),
    ("void".toList, [])].lookup javaType).getD "NULL".toList

def getStaticCastForReturnType (returnType : Str) : Option Str :=
  match [("String".toList, "jstring".toList), ("java/lang/String".toList, "jstring".toList),
      ("Throwable".toList, "jthrowable".toList), ("java/lang/Throwable".toList, "jthrowable".toList),
      ("boolean[]".toList, "jbooleanArray".toList), ("byte[]".toList, "jbyteArray".toList),
      ("char[]".toList, "jcharArray".toList), ("short[]".toList, "jshortArray".toList),
      ("int[]".toList, "jintArray".toList), ("long[]".toList, "jlongArray".toList),
      ("float[]".toList, "jfloatArray".toList),
      ("double[]".toList, "jdoubleArray".toList)].lookup returnType with
  | some c => some c
  | none => if endswith returnType "[]".toList then some "jobjectArray".toList else none

/-- Maps the types availabe via env->Call__Method. -/
def getEnvCall (isConstructor isStatic : Bool) (returnType : Str) : Str :=
  if isConstructor then "NewObject".toList
  else
    let call := ([("boolean".toList, "Boolean".toList), ("byte".toList, "Byte".toList),
      ("char".toList, "Char".toList), ("short".toList, "Short".toList),
      ("int".toList, "Int".toList), ("long".toList, "Long".toList),
      ("float".toList, "Float".toList), ("void".toList, "Void".toList),
      ("double".toList, "Double".toList),
      ("Object".toList, "Object".toList)].lookup returnType).getD "Object".toList
    let call := if isStatic then "Static".toList ++ call else call
    "Call".toList ++ call ++ "Method".toList

/-! ## The C type of a stub's call

`GetEnvCall` keys on exact names and `GetStaticCastForReturnType` on exact names
and the `[]` suffix, while `JavaDataTypeToC` also maps every name starting with
`Class` to `jclass`. -/

/-- The C type `jni.h` declares for the result of each `JNIEnv` call a stub makes. -/
def envCallResultTypes : List (Str × Str) :=
  [("NewObject".toList, "jobject".toList),
   ("CallVoidMethod".toList, "void".toList), ("CallStaticVoidMethod".toList, "void".toList),
   ("CallBooleanMethod".toList, "jboolean".toList),
   ("CallStaticBooleanMethod".toList, "jboolean".toList),
   ("CallByteMethod".toList, "jbyte".toList), ("CallStaticByteMethod".toList, "jbyte".toList),
   ("CallCharMethod".toList, "jchar".toList), ("CallStaticCharMethod".toList, "jchar".toList),
   ("CallShortMethod".toList, "jshort".toList), ("CallStaticShortMethod".toList, "jshort".toList),
   ("CallIntMethod".toList, "jint".toList), ("CallStaticIntMethod".toList, "jint".toList),
   ("CallLongMethod".toList, "jlong".toList), ("CallStaticLongMethod".toList, "jlong".toList),
   ("CallFloatMethod".toList, "jfloat".toList), ("CallStaticFloatMethod".toList, "jfloat".toList),
   ("CallDoubleMethod".toList, "jdouble".toList),
   ("CallStaticDoubleMethod".toList, "jdouble".toList),
   ("CallObjectMethod".toList, "jobject".toList),
   ("CallStaticObjectMethod".toList, "jobject".toList)]

def envCallCType (call : Str) : Option Str := envCallResultTypes.lookup call

/-- The C type of the call expression of a called-by-native stub: the
`static_cast` when there is one, else the result of the `JNIEnv` call. -/
def callCType (isConstructor isStatic : Bool) (returnType : Str) : Option Str :=
  match getStaticCastForReturnType returnType with
  | some cast => some cast
  | none => envCallCType (getEnvCall isConstructor isStatic returnType)

/-- The names one of the tables of `javaDataTypeToC`, `getStaticCastForReturnType`
and `getEnvCall` has an entry for. -/
def returnTypeKeys : List Str :=
  javaPodTypeMap.map Prod.fst ++ javaTypeMap.map Prod.fst ++
    javaPodTypeMap.map (·.1 ++ "[]".toList) ++ ["Object".toList]

set_option maxRecDepth 10000 in
theorem callCType_of_key : ∀ r ∈ returnTypeKeys, ∀ isStatic : Bool,
    callCType false isStatic r =
      some (if javaDataTypeToC r = "jclass".toList then "jobject".toList else javaDataTypeToC r) ∧
    (envCallCType (getEnvCall false isStatic r) = some "void".toList ↔ r = "void".toList) := by
  decide

theorem javaPodTypeMap_keys : ∀ e ∈ javaPodTypeMap, e.1 ∈ returnTypeKeys := fun _ he =>
  List.mem_append_left _ (List.mem_append_left _ (List.mem_append_left _ (List.mem_map_of_mem _ he)))

theorem javaTypeMap_keys : ∀ e ∈ javaTypeMap, e.1 ∈ returnTypeKeys := fun _ he =>
  List.mem_append_left _ (List.mem_append_left _ (List.mem_append_right _ (List.mem_map_of_mem _ he)))

theorem lookup_eq_none_of_not_key {tbl : List (Str × Str)} {r : Str}
    (htbl : ∀ e ∈ tbl, e.1 ∈ returnTypeKeys) (hr : r ∉ returnTypeKeys) : tbl.lookup r = none :=
  List.lookup_eq_none_iff.2 fun e he => by
    simpa using fun h : r = e.1 => hr (h ▸ htbl e he)

theorem dropLast_dropLast_append {r : Str} (h : "[]".toList <:+ r) :
    r.dropLast.dropLast ++ "[]".toList = r := by
  obtain ⟨u, rfl⟩ := h
  simp [show "[]".toList = ['[', ']'] from rfl, ← List.append_assoc, List.dropLast_concat]

theorem envCallCType_of_not_key (isStatic : Bool) {r : Str} (hr : r ∉ returnTypeKeys) :
    envCallCType (getEnvCall false isStatic r) = some "jobject".toList := by
  simp only [getEnvCall]
  rw [lookup_eq_none_of_not_key (by decide) hr]
  cases isStatic <;> decide

theorem callCType_of_not_key (isStatic : Bool) {r : Str} (hr : r ∉ returnTypeKeys) :
    callCType false isStatic r =
      some (if javaDataTypeToC r = "jclass".toList then "jobject".toList else javaDataTypeToC r) := by
  simp only [callCType, getStaticCastForReturnType, javaDataTypeToC]
  rw [lookup_eq_none_of_not_key (by decide) hr, lookup_eq_none_of_not_key javaPodTypeMap_keys hr,
    lookup_eq_none_of_not_key javaTypeMap_keys hr]
  by_cases he : endswith r "[]".toList = true
  · -- an array of no primitive type: both are `jobjectArray`
    have hpod : javaPodTypeMap.lookup r.dropLast.dropLast = none :=
      List.lookup_eq_none_iff.2 fun e he' => by
        simpa using fun h : r.dropLast.dropLast = e.1 => hr (by
          rw [← dropLast_dropLast_append (endswith_iff.1 he), h]
          exact List.mem_append_left _ (List.mem_append_right _ (List.mem_map_of_mem _ he')))
    simp only [he, if_true, hpod]
    decide
  · simp only [he, Bool.false_eq_true, if_false, envCallCType_of_not_key isStatic hr]
    cases startswith r "Class".toList <;> decide

/-- The call expression of a method stub has the C type `JavaDataTypeToC` gives
its return type, except where that is `jclass`: no cast is emitted there and
the call returns a `jobject`. -/
theorem callCType_eq (isStatic : Bool) (r : Str) :
    callCType false isStatic r =
      some (if javaDataTypeToC r = "jclass".toList then "jobject".toList else javaDataTypeToC r) := by
  by_cases hr : r ∈ returnTypeKeys
  · exact (callCType_of_key r hr isStatic).1
  · exact callCType_of_not_key isStatic hr

/-- A method stub makes a `Void` call exactly for the return type `void`. -/
theorem envCallCType_getEnvCall_void_iff (isStatic : Bool) (r : Str) :
    envCallCType (getEnvCall false isStatic r) = some "void".toList ↔ r = "void".toList := by
  by_cases hr : r ∈ returnTypeKeys
  · exact (callCType_of_key r hr isStatic).2
  · rw [envCallCType_of_not_key isStatic hr]
    exact ⟨fun h => absurd h (by decide), fun h => absurd (h ▸ by decide) hr⟩

/-! ## The C type of a descriptor -/

def primitiveCTypes : List (Char × Str) :=
  [('Z', "jboolean".toList), ('B', "jbyte".toList), ('C', "jchar".toList),
   ('S', "jshort".toList), ('I', "jint".toList), ('J', "jlong".toList),
   ('F', "jfloat".toList), ('D', "jdouble".toList)]

/-- The C type `jni.h` gives a value of JNI descriptor `d`. -/
def descriptorCType : Str → Str
  | ['V'] => "void".toList
  | [c] => (primitiveCTypes.lookup c).getD "jobject".toList
  | ['[', c] => match primitiveCTypes.lookup c with
    | some t => t ++ "Array".toList
    | none => "jobjectArray".toList
  | '[' :: _ => "jobjectArray".toList
  | d =>
    if d = "Ljava/lang/String;".toList then "jstring".toList
    else if d = "Ljava/lang/Class;".toList then "jclass".toList
    else if d = "Ljava/lang/Throwable;".toList then "jthrowable".toList
    else "jobject".toList

/-- An imported class whose name starts with `Class` resolves to an object
descriptor, but `JavaDataTypeToC` gives it the C type `jclass`. -/
theorem javaDataTypeToC_disagrees_on_classifier (implicitImports : List Str) :
    JniParams.javaToJni ⟨["Lorg/example/Classifier".toList], "Lorg/example/Main".toList,
        "org/example".toList, []⟩ implicitImports "Classifier".toList =
      .ok "Lorg/example/Classifier;".toList ∧
    descriptorCType "Lorg/example/Classifier;".toList = "jobject".toList ∧
    javaDataTypeToC "Classifier".toList = "jclass".toList := ⟨rfl, by decide, by decide⟩

end JniGenerator
