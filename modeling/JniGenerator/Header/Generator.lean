import JniGenerator.Mangle
import Mathlib.Data.List.Nodup

/-! `InlHeaderFileGenerator`: the generator record, the class dictionaries of
`GetUniqueClasses`, and the stubs for native and called-by-native methods.
Each `string.Template` is a concatenation of its fixed text and its values. -/

namespace JniGenerator

/-- The options the generator reads. `None` and `''` behave alike for
`namespace` and `includes`, so both are `Str`. -/
structure Options where
  namespaceName : Str
  scriptName : Str
  includes : Str
  ptrType : Str
  nativeExportsOptional : Bool
  deriving DecidableEq, Repr

/-- `InlHeaderFileGenerator(namespace, fully_qualified_class, natives,
called_by_natives, constant_fields, options)` -/
structure InlHeaderFileGenerator where
  namespaceName : Str
  fullyQualifiedClass : Str
  natives : List NativeMethod
  calledByNatives : List CalledByNative
  constantFields : List ConstantField
  options : Options
  deriving DecidableEq, Repr

/-! ## Dictionaries -/

/-- `d[key] = value` on a dict, kept in insertion order. -/
def dictSet (d : List (Str × Str)) (key value : Str) : List (Str × Str) :=
  if d.any (·.1 == key) then d.map fun e => if e.1 = key then (key, value) else e
  else d ++ [(key, value)]

/-- `d.update(other)` -/
def dictUpdate (d other : List (Str × Str)) : List (Str × Str) :=
  other.foldl (fun d e => dictSet d e.1 e.2) d

/-- The keys of a dict, in iteration order. -/
def keys (d : List (Str × Str)) : List Str := d.map Prod.fst

theorem keys_dictSet (d : List (Str × Str)) (k v : Str) :
    keys (dictSet d k v) = if d.any (·.1 == k) then keys d else keys d ++ [k] := by
  unfold dictSet keys
  split
  · simp only [List.map_map]
    exact List.map_congr_left fun e _ => by by_cases h : e.1 = k <;> simp [h]
  · simp

theorem mem_keys_dictSet {d : List (Str × Str)} {k v x : Str} :
    x ∈ keys (dictSet d k v) ↔ x = k ∨ x ∈ keys d := by
  rw [keys_dictSet]
  split
  · rename_i h
    obtain ⟨e, he, hek⟩ := List.any_eq_true.mp h
    have : k ∈ keys d := List.mem_map.mpr ⟨e, he, by simpa using hek⟩
    constructor
    · exact .inr
    · rintro (rfl | hx) <;> assumption
  · simp [or_comm]

theorem nodup_keys_dictSet {d : List (Str × Str)} (k v : Str) (hd : (keys d).Nodup) :
    (keys (dictSet d k v)).Nodup := by
  rw [keys_dictSet]
  split
  · exact hd
  · rename_i h
    refine List.nodup_append.mpr ⟨hd, List.nodup_singleton k, ?_⟩
    simp only [List.disjoint_singleton, keys, List.mem_map, not_exists, not_and]
    intro e he hek
    exact h (List.any_eq_true.mpr ⟨e, he, by simpa using hek⟩)

/-- `d[key] = value` keeps a property every entry has, if the new entry has it. -/
theorem dictSet_forall {P : Str × Str → Prop} {d : List (Str × Str)} {k v : Str}
    (hd : ∀ e ∈ d, P e) (hkv : P (k, v)) : ∀ e ∈ dictSet d k v, P e := by
  unfold dictSet
  split
  · simp only [List.mem_map]
    rintro _ ⟨e, he, rfl⟩
    split
    · exact hkv
    · exact hd e he
  · intro e he
    rcases List.mem_append.mp he with h | h
    · exact hd e h
    · rw [List.mem_singleton.mp h]
      exact hkv

theorem dictUpdate_forall {P : Str × Str → Prop} {other : List (Str × Str)} :
    ∀ {d : List (Str × Str)}, (∀ e ∈ d, P e) → (∀ e ∈ other, P e) → ∀ e ∈ dictUpdate d other, P e := by
  induction other with
  | nil => exact fun hd _ => hd
  | cons e other ih =>
    intro d hd he
    exact ih (dictSet_forall hd (he e (.head _))) fun x hx => he x (.tail _ hx)

theorem nodup_keys_dictUpdate {other : List (Str × Str)} :
    ∀ {d : List (Str × Str)}, (keys d).Nodup → (keys (dictUpdate d other)).Nodup := by
  induction other with
  | nil => exact id
  | cons e other ih => exact fun hd => ih (nodup_keys_dictSet e.1 e.2 hd)

theorem mem_keys_dictUpdate {other : List (Str × Str)} {x : Str} :
    ∀ {d : List (Str × Str)}, x ∈ keys (dictUpdate d other) ↔ x ∈ keys d ∨ x ∈ keys other := by
  induction other with
  | nil => simp [dictUpdate, keys]
  | cons e other ih =>
    intro d
    rw [dictUpdate, List.foldl_cons, ← dictUpdate, ih, mem_keys_dictSet]
    simp only [keys, List.map_cons, List.mem_cons, or_assoc]
    exact or_left_comm

namespace InlHeaderFileGenerator

variable (g : InlHeaderFileGenerator)

def className : Str := (split g.fullyQualifiedClass '/').getLastD []

def headerGuard : Str := replace g.fullyQualifiedClass "/".toList "_".toList ++ "_JNI".toList

/-- The body of the loop of `GetUniqueClasses`, for one `java_class_name`. -/
def addUniqueClass (ret : List (Str × Str)) (javaClassName : Str) : List (Str × Str) :=
  if javaClassName = [] then dictSet ret g.className g.fullyQualifiedClass
  else dictSet ret javaClassName (g.fullyQualifiedClass ++ '$' :: javaClassName)

/-- `GetUniqueClasses(origin)`, given the `java_class_name` of each entry
(`None` and `''` both select the file's class). -/
def getUniqueClasses (origin : List Str) : List (Str × Str) :=
  origin.foldl g.addUniqueClass [(g.className, g.fullyQualifiedClass)]

/-- `java_class_name or self.class_name`: the class an entry belongs to. -/
def classKey (javaClassName : Str) : Str := if javaClassName = [] then g.className else javaClassName

/-- The class path `GetUniqueClasses` gives a class name. -/
def classPath (clazz : Str) : Str :=
  if clazz = g.className then g.fullyQualifiedClass else g.fullyQualifiedClass ++ '$' :: clazz

theorem mem_keys_addUniqueClass {ret : List (Str × Str)} {j x : Str} :
    x ∈ keys (g.addUniqueClass ret j) ↔ x = g.classKey j ∨ x ∈ keys ret := by
  unfold addUniqueClass classKey
  split <;> exact mem_keys_dictSet

theorem getUniqueClasses_foldl_keys {origin : List Str} :
    ∀ {ret : List (Str × Str)}, (keys ret).Nodup →
      (keys (origin.foldl g.addUniqueClass ret)).Nodup ∧
      ∀ x, x ∈ keys (origin.foldl g.addUniqueClass ret) ↔
        x ∈ keys ret ∨ ∃ j ∈ origin, x = g.classKey j := by
  induction origin with
  | nil => exact fun h => ⟨h, by simp⟩
  | cons j origin ih =>
    intro ret hret
    have hstep : (keys (g.addUniqueClass ret j)).Nodup := by
      unfold addUniqueClass; split <;> exact nodup_keys_dictSet _ _ hret
    refine ⟨(ih hstep).1, fun x => ?_⟩
    rw [List.foldl_cons, (ih hstep).2, mem_keys_addUniqueClass]
    simp only [List.mem_cons, exists_eq_or_imp, or_assoc]
    exact or_left_comm

theorem keys_initial_nodup : (keys [(g.className, g.fullyQualifiedClass)]).Nodup :=
  List.nodup_singleton _

theorem nodup_keys_getUniqueClasses (origin : List Str) : (keys (g.getUniqueClasses origin)).Nodup :=
  (g.getUniqueClasses_foldl_keys g.keys_initial_nodup).1

theorem mem_keys_getUniqueClasses {origin : List Str} {x : Str} :
    x ∈ keys (g.getUniqueClasses origin) ↔ x = g.className ∨ ∃ j ∈ origin, x = g.classKey j := by
  rw [getUniqueClasses, (g.getUniqueClasses_foldl_keys g.keys_initial_nodup).2]
  simp [keys]

/-- Every entry of `GetUniqueClasses` maps its class to `classPath`, when no
explicit `java_class_name` is the file's class name. -/
theorem getUniqueClasses_classPath {origin : List Str}
    (horigin : ∀ j ∈ origin, j ≠ [] → j ≠ g.className) :
    ∀ e ∈ g.getUniqueClasses origin, e.2 = g.classPath e.1 := by
  suffices ∀ ret : List (Str × Str), (∀ e ∈ ret, e.2 = g.classPath e.1) →
      ∀ e ∈ origin.foldl g.addUniqueClass ret, e.2 = g.classPath e.1 from
    this _ (by simp [classPath])
  induction origin with
  | nil => exact fun _ h => h
  | cons j origin ih =>
    intro ret hret
    refine ih (fun j hj => horigin j (.tail _ hj)) _ ?_
    unfold addUniqueClass
    split
    · exact dictSet_forall hret (by simp [classPath])
    · exact dictSet_forall hret (by simp [classPath, horigin j (.head _) ‹_›])

/-- The `java_class_name` of a native, with `None` as `''`. -/
def nativeClassKey (native : NativeMethod) : Str := native.javaClassName.getD []

/-! ## Native stubs -/

def getJNIFirstParamType (native : NativeMethod) : Str :=
  match native.type with
  | .method _ => "jobject".toList
  | .function => if native.static then "jclass".toList else "jobject".toList

def getJNIFirstParam (native : NativeMethod) (forDeclaration : Bool) : List Str :=
  let cType := getJNIFirstParamType native
  let cType := if forDeclaration then wrapCTypeForDeclaration cType else cType
  [cType ++ " jcaller".toList]

/-- Returns the params for the forward declaration. -/
def getParamsInDeclaration (native : NativeMethod) : Str :=
  join ",\n    ".toList (getJNIFirstParam native true ++
    native.params.map fun param => javaDataTypeToCForDeclaration param.datatype ++ ' ' :: param.name)

/-- Returns the params for the stub declaration. -/
def getParamsInStub (native : NativeMethod) : Str :=
  join ",\n    ".toList (getJNIFirstParam native false ++
    native.params.map fun param => javaDataTypeToC param.datatype ++ ' ' :: param.name)

def getCalledByNativeParamsInDeclaration (c : CalledByNative) : Str :=
  join ",\n    ".toList (c.params.map fun param =>
    javaDataTypeToCForCalledByNativeParam param.datatype ++ ' ' :: param.name)

/-- Return the name of the stub function for this native method. -/
def getStubName (native : NativeMethod) : Str :=
  let javaName := replace (replace g.fullyQualifiedClass "_".toList "_1".toList) "/".toList "_".toList
  let javaName := match native.javaClassName with
    | some (c :: cs) => javaName ++ "_00024".toList ++ c :: cs
    | _ => javaName
  "Java_".toList ++ javaName ++ "_native".toList ++ native.name

def getJavaParamRefForCall (cType name : Str) : Str :=
  "base::android::JavaParamRef<".toList ++ cType ++ ">(env, ".toList ++ name ++ ")".toList

def getJNIFirstParamForCall (native : NativeMethod) : List Str :=
  [getJavaParamRefForCall (getJNIFirstParamType native) "jcaller".toList]

def getNativeStub (native : NativeMethod) : Str :=
  let params := match native.type with
    | .method _ => native.params.drop 1
    | .function => native.params
  let paramsInCall := join ", ".toList (["env".toList] ++ getJNIFirstParamForCall native ++
    params.map fun p =>
      let cType := javaDataTypeToC p.datatype
      if isScopedJniType cType then getJavaParamRefForCall cType p.name else p.name)
  let returnType := javaDataTypeToC native.returnType
  let (postCall, returnDeclaration) := if isScopedJniType returnType then
      (".Release()".toList, "base::android::ScopedJavaLocalRef<".toList ++ returnType ++ ">".toList)
    else ([], returnType)
  match native.type with
  | .method p0Type =>
    let optionalErrorReturn := match javaReturnValueToC native.returnType with
      | [] => []
      | r => ", ".toList ++ r
    "extern \"C\" __attribute__((visibility(\"default\")))\n".toList ++
    returnType ++ ' ' :: g.getStubName native ++ "(JNIEnv* env,\n    ".toList ++
    getParamsInStub native ++ ") \x7b\n  ".toList ++
    p0Type ++ "* native = reinterpret_cast<".toList ++ p0Type ++ "*>(".toList ++
    ((native.params.head?.map Param.name).getD []) ++ ");\n  CHECK_NATIVE_PTR(env, jcaller, native, \"".toList ++
    native.name ++ '"' :: optionalErrorReturn ++ ");\n  return native->".toList ++
    native.name ++ '(' :: paramsInCall ++ ')' :: postCall ++ ";\n\x7d\n".toList
  | .function =>
    "\nstatic ".toList ++ returnDeclaration ++ ' ' :: native.name ++ "(JNIEnv* env, ".toList ++
    getParamsInDeclaration native ++ ");\n\nextern \"C\" __attribute__((visibility(\"default\")))\n".toList ++
    returnType ++ ' ' :: g.getStubName native ++ "(JNIEnv* env, ".toList ++
    getParamsInStub native ++ ") \x7b\n  return ".toList ++ native.name ++ '(' :: paramsInCall ++
    ')' :: postCall ++ ";\n\x7d\n".toList

def getArgument (param : Param) : Str :=
  if param.datatype = "int".toList then "as_jint(".toList ++ param.name ++ ")".toList
  else if isScopedJniType (javaDataTypeToC param.datatype) then param.name ++ ".obj()".toList
  else param.name

/-- The class a called-by-native stub uses: `java_class_name or self.class_name`. -/
def calledByNativeClass (c : CalledByNative) : Str := g.classKey c.javaClassName

/-- `str(called_by_native.method_id_var_name)` as `Template.substitute` renders it. -/
def methodIdVarNameText (c : CalledByNative) : Str := c.methodIdVarName.getD "None".toList

/-- The template of `GetKMethodArrayEntry`. -/
def kMethodArrayEntryTemplate (name jniSignature stubName : Str) : Str :=
  "    \x7b \"native".toList ++ name ++ "\", ".toList ++ jniSignature ++
    ", reinterpret_cast<void*>(".toList ++ stubName ++ ") \x7d,".toList

section
variable (p : JniParams) (implicitImports : List Str)

/-- Returns the implementation of GetMethodID. -/
def getMethodIDImpl (c : CalledByNative) : Except Error Str := do
  let (jniName, jniReturnType) :=
    if c.isConstructor then ("<init>".toList, "void".toList) else (c.name, c.returnType)
  let signature ← match c.signature with
    | some (s :: ss) => pure (s :: ss)
    | _ => JniParams.signature p implicitImports c.params jniReturnType true
  let javaClass := g.calledByNativeClass c
  pure ("  base::android::MethodID::LazyGet<\n      base::android::MethodID::TYPE_".toList ++
    (if c.static then "STATIC".toList else "INSTANCE".toList) ++ ">(\n      env, ".toList ++
    javaClass ++ "_clazz(env),\n      \"".toList ++ jniName ++ "\",\n      ".toList ++ signature ++
    ",\n      &g_".toList ++ javaClass ++ '_' :: methodIdVarNameText c ++ ");\n".toList)

/-- The values `GetCalledByNativeValues` fills in, under their template names. -/
structure CalledByNativeValues where
  javaClass : Str
  returnType : Str
  optionalErrorReturn : Str
  returnDeclaration : Str
  returnClause : Str
  firstParamInDeclaration : Str
  paramsInDeclaration : Str
  preCall : Str
  postCall : Str
  envCall : Str
  firstParamInCall : Str
  paramsInCall : Str
  methodIdVarName : Str
  checkException : Str
  getMethodIdImpl : Str
  deriving DecidableEq, Repr

/-- Fills in necessary values for the CalledByNative methods. -/
def getCalledByNativeValues (c : CalledByNative) : Except Error CalledByNativeValues := do
  let javaClass := g.calledByNativeClass c
  let (firstParamInDeclaration, firstParamInCall) := if c.static || c.isConstructor then
      ([], javaClass ++ "_clazz(env)".toList)
    else (", const base::android::JavaRefOrBare<jobject>& obj".toList, "obj.obj()".toList)
  let prefixed := fun (s : Str) => if s = [] then s else ", ".toList ++ s
  let (preCall, postCall) := match c.staticCast with
    | some cast => ("static_cast<".toList ++ cast ++ ">(".toList, ")".toList)
    | none => ([], [])
  let returnType := javaDataTypeToC c.returnType
  let (preCall, returnType, returnDeclaration, returnClause) :=
    if returnType ≠ "void".toList then
      if isScopedJniType returnType then
        let wrapped := "base::android::ScopedJavaLocalRef<".toList ++ returnType ++ ">".toList
        (' ' :: preCall, wrapped, returnType ++ " ret =".toList,
          "return ".toList ++ wrapped ++ "(env, ret);".toList)
      else (' ' :: preCall, returnType, returnType ++ " ret =".toList, "return ret;".toList)
    else (preCall, returnType, [], [])
  let getMethodIdImpl ← g.getMethodIDImpl p implicitImports c
  pure { javaClass, returnType, returnDeclaration, returnClause, firstParamInDeclaration,
         firstParamInCall, preCall, postCall, getMethodIdImpl
         optionalErrorReturn := prefixed (javaReturnValueToC c.returnType)
         paramsInDeclaration := prefixed (getCalledByNativeParamsInDeclaration c)
         envCall := c.envCall
         paramsInCall := prefixed (join ", ".toList (c.params.map getArgument))
         methodIdVarName := methodIdVarNameText c
         checkException := if c.unchecked then [] else "jni_generator::CheckException(env);".toList }

def getLazyCalledByNativeMethodStub (c : CalledByNative) : Except Error Str := do
  let v ← g.getCalledByNativeValues p implicitImports c
  let functionSignature := "static ".toList ++ v.returnType ++ " Java_".toList ++ v.javaClass ++
    '_' :: v.methodIdVarName ++ "(JNIEnv* env".toList ++ v.firstParamInDeclaration ++
    v.paramsInDeclaration ++ ")".toList
  let functionHeader := if c.systemClass then
      functionSignature ++ " __attribute__ ((unused));\n".toList ++ functionSignature ++ " \x7b".toList
    else functionSignature ++ " \x7b".toList
  pure ("\nstatic base::subtle::AtomicWord g_".toList ++ v.javaClass ++ '_' :: v.methodIdVarName ++
    " = 0;\n".toList ++ functionHeader ++ "\n  CHECK_CLAZZ(env, ".toList ++ v.firstParamInCall ++
    ",\n      ".toList ++ v.javaClass ++ "_clazz(env)".toList ++ v.optionalErrorReturn ++
    ");\n  jmethodID method_id =\n    ".toList ++ v.getMethodIdImpl ++ "\n  ".toList ++
    v.returnDeclaration ++ "\n     ".toList ++ v.preCall ++ "env->".toList ++ v.envCall ++ '(' ::
    v.firstParamInCall ++ ",\n          method_id".toList ++ v.paramsInCall ++ ')' :: v.postCall ++
    ";\n  ".toList ++ v.checkException ++ "\n  ".toList ++ v.returnClause ++ "\n\x7d".toList)

def getKMethodArrayEntry (native : NativeMethod) : Except Error Str := do
  let jniSignature ← JniParams.signature p implicitImports native.params native.returnType true
  pure (kMethodArrayEntryTemplate native.name jniSignature (g.getStubName native))

end

end InlHeaderFileGenerator

end JniGenerator
