import JniGenerator.Natives
import JniGenerator.Header.Generator

/-! What the stubs are named and what their calls return, against what the
runtime and `jni.h` expect.

* A native method's stub is named by `GetStubName`. Without `RegisterNatives`
  the runtime binds it by the JNI short name, which escapes `_`, `;`, `[` and
  every character that is no ASCII letter or digit of both the class and the
  method name: `getStubName_eq_jniShortName_iff` says when the two agree.
* A called-by-native stub assigns its call to a variable of the C type
  `JavaDataTypeToC` gives the return type: `getCalledByNativeValues_call`
  reads the call off the values, and `callCType_eq` gives its type. -/

namespace JniGenerator

/-! ## JNI short names -/

/-- Four lowercase hexadecimal digits of a UTF-16 code unit. -/
def hex4 (n : Nat) : Str := [n / 4096 % 16, n / 256 % 16, n / 16 % 16, n % 16].map Nat.digitChar

/-- The JNI escape of one character of a class or method name. -/
def jniEscapeChar (c : Char) : Str :=
  if c = '/' then ['_']
  else if c = '_' then "_1".toList
  else if c = ';' then "_2".toList
  else if c = '[' then "_3".toList
  else if c.isAlphanum then [c]
  else '_' :: '0' :: hex4 c.toNat

def jniEscape (s : Str) : Str := s.flatMap jniEscapeChar

/-- The class that declares a native method: `F`, or `F$J` for the inner class `J`
of `@NativeCall`. -/
def nativeDeclaringClass (fullyQualifiedClass : Str) : Option Str → Str
  | some (c :: cs) => fullyQualifiedClass ++ '$' :: c :: cs
  | _ => fullyQualifiedClass

/-- The JNI short name of method `method` of class `cls`, the symbol the runtime
looks up for a native method that is not registered. -/
def jniShortName (cls method : Str) : Str :=
  "Java_".toList ++ jniEscape cls ++ '_' :: jniEscape method

@[simp] theorem jniEscape_nil : jniEscape [] = [] := rfl

@[simp] theorem jniEscape_cons (c : Char) (s : Str) :
    jniEscape (c :: s) = jniEscapeChar c ++ jniEscape s := rfl

@[simp] theorem jniEscape_append (a b : Str) : jniEscape (a ++ b) = jniEscape a ++ jniEscape b :=
  List.flatMap_append a b jniEscapeChar

theorem digitChar_isAlphanum (n : Nat) : (Nat.digitChar (n % 16)).isAlphanum := by
  have h : ∀ d < 16, (Nat.digitChar d).isAlphanum := by decide
  exact h _ (Nat.mod_lt n (by decide))

theorem jniEscapeChar_of_isAlphanum {c : Char} (hc : c.isAlphanum) : jniEscapeChar c = [c] := by
  have h : c ≠ '/' ∧ c ≠ '_' ∧ c ≠ ';' ∧ c ≠ '[' := by
    refine ⟨?_, ?_, ?_, ?_⟩ <;> rintro rfl <;> exact absurd hc (by decide)
  simp [jniEscapeChar, h, hc]

/-- An escape is the character itself, a letter or digit, or `_` followed by
letters and digits. -/
theorem jniEscapeChar_cases (c : Char) :
    c.isAlphanum ∧ jniEscapeChar c = [c] ∨ ∃ t, jniEscapeChar c = '_' :: t ∧ ∀ x ∈ t, x.isAlphanum := by
  by_cases hc : c.isAlphanum
  · exact .inl ⟨hc, jniEscapeChar_of_isAlphanum hc⟩
  refine .inr ?_
  rw [jniEscapeChar]
  by_cases h1 : c = '/'
  · simp [h1]
  by_cases h2 : c = '_'
  · simp [h2]
  by_cases h3 : c = ';'
  · simp [h3]
  by_cases h4 : c = '['
  · simp [h4]
  simp only [h1, h2, h3, h4, hc, Bool.false_eq_true, if_false, List.cons.injEq, true_and,
    exists_eq_left', hex4, List.map_cons, List.map_nil, List.forall_mem_cons]
  exact ⟨rfl, digitChar_isAlphanum _, digitChar_isAlphanum _, digitChar_isAlphanum _,
    digitChar_isAlphanum _, nofun⟩

theorem mem_jniEscapeChar {x c : Char} (h : x ∈ jniEscapeChar c) : x.isAlphanum ∨ x = '_' := by
  rcases jniEscapeChar_cases c with ⟨hc, he⟩ | ⟨t, he, ht⟩ <;> rw [he] at h
  · exact .inl (List.eq_of_mem_singleton h ▸ hc)
  · exact (List.mem_cons.1 h).symm.imp (ht x) id

theorem mem_jniEscape {x : Char} {s : Str} (h : x ∈ jniEscape s) : x.isAlphanum ∨ x = '_' := by
  obtain ⟨c, -, hc⟩ := List.mem_flatMap.1 h
  exact mem_jniEscapeChar hc

theorem mem_jniShortName {x : Char} {cls method : Str} (h : x ∈ jniShortName cls method) :
    x.isAlphanum ∨ x = '_' := by
  simp only [jniShortName, List.mem_append, List.mem_cons] at h
  rcases h with (h | h) | h | h
  · revert x; decide
  · exact mem_jniEscape h
  · exact .inr h
  · exact mem_jniEscape h

theorem isAlphanum_of_jniEscapeChar_eq {c : Char} (h : jniEscapeChar c = [c]) : c.isAlphanum := by
  rcases jniEscapeChar_cases c with ⟨hc, -⟩ | ⟨t, he, -⟩
  · exact hc
  · obtain ⟨rfl, -⟩ := List.cons.inj (he.symm.trans h)
    exact absurd h (by decide)

theorem length_le_jniEscape (s : Str) : s.length ≤ (jniEscape s).length := by
  induction s with
  | nil => rfl
  | cons c s ih =>
    have : 1 ≤ (jniEscapeChar c).length := by
      rcases jniEscapeChar_cases c with ⟨-, he⟩ | ⟨t, he, -⟩ <;> simp [he]
    simp only [jniEscape_cons, List.length_append, List.length_cons]
    omega

/-- An escape that is no longer than what follows it leaves the text it escapes as it is. -/
theorem eq_jniEscape_of_append_eq {a u v : Str} (h : a ++ u = jniEscape a ++ v)
    (huv : u.length ≤ v.length) : a = jniEscape a ∧ u = v :=
  List.append_inj h (by
    have hl := congrArg List.length h
    simp only [List.length_append] at hl
    have := length_le_jniEscape a
    omega)

theorem jniEscape_eq_self_iff {s : Str} : jniEscape s = s ↔ ∀ c ∈ s, c.isAlphanum := by
  induction s with
  | nil => simp
  | cons c s ih =>
    rw [List.forall_mem_cons, ← ih]
    constructor
    · intro h
      obtain ⟨hc, hs⟩ := eq_jniEscape_of_append_eq (a := [c]) (by simpa using h.symm)
        (length_le_jniEscape s)
      exact ⟨isAlphanum_of_jniEscapeChar_eq (by simpa using hc.symm), hs.symm⟩
    · rintro ⟨hc, hs⟩
      simp [jniEscapeChar_of_isAlphanum hc, hs]

/-- The two `str.replace` calls of `GetStubName`, as one pass over the name. -/
theorem replace_underscore_slash (s : Str) :
    replace (replace s "_".toList "_1".toList) "/".toList "_".toList =
      s.flatMap fun x => if x = '_' then "_1".toList else if x = '/' then ['_'] else [x] := by
  rw [show "_".toList = ['_'] from rfl, show "/".toList = ['/'] from rfl, replace_char, replace_char,
    List.flatMap_assoc]
  congr 1
  funext x
  by_cases h : x = '_' <;> by_cases h' : x = '/' <;> simp_all

theorem replace_underscore_slash_eq_jniEscape {s : Str} (hs : ∀ c ∈ s, c.isAlphanum ∨ c = '_' ∨ c = '/') :
    replace (replace s "_".toList "_1".toList) "/".toList "_".toList = jniEscape s := by
  rw [replace_underscore_slash]
  induction s with
  | nil => rfl
  | cons c s ih =>
    rw [List.flatMap_cons, jniEscape_cons, ih fun x hx => hs x (.tail _ hx)]
    rcases hs c (.head _) with hc | rfl | rfl
    · have : c ≠ '_' ∧ c ≠ '/' := ⟨by rintro rfl; exact absurd hc (by decide),
        by rintro rfl; exact absurd hc (by decide)⟩
      simp [this, jniEscapeChar_of_isAlphanum hc]
    · rfl
    · rfl

theorem mem_replace_underscore_slash {c : Char} {s : Str} (hc : c ∈ s) (h : c ≠ '_' ∧ c ≠ '/') :
    c ∈ replace (replace s "_".toList "_1".toList) "/".toList "_".toList := by
  rw [replace_underscore_slash]
  exact List.mem_flatMap.2 ⟨c, hc, by simp [h]⟩

theorem jniShortName_nativeDeclaringClass (F J X : Str) (oJ : Option Str) (hJ : oJ.getD [] = J) :
    jniShortName (nativeDeclaringClass F oJ) ("native".toList ++ X) = "Java_".toList ++ jniEscape F ++
      ((if J = [] then [] else "_00024".toList) ++ jniEscape J ++ "_native".toList ++ jniEscape X) := by
  subst hJ
  rcases oJ with _ | _ | ⟨c, cs⟩ <;> simp [jniShortName, nativeDeclaringClass] <;> rfl

namespace InlHeaderFileGenerator

variable (g : InlHeaderFileGenerator)

/-- The inner-class part `GetStubName` and the JNI name share: `_00024` (the
escaped `$`) before a nonempty inner class name. -/
theorem getStubName_eq (native : NativeMethod) :
    g.getStubName native = "Java_".toList ++
      replace (replace g.fullyQualifiedClass "_".toList "_1".toList) "/".toList "_".toList ++
      ((if native.javaClassName.getD [] = [] then [] else "_00024".toList) ++
        native.javaClassName.getD [] ++ "_native".toList ++ native.name) := by
  rcases h : native.javaClassName with _ | _ | ⟨c, cs⟩ <;> simp [getStubName, h]

/-- `GetStubName` gives the JNI short name of the declared method `native` + name
of the declaring class exactly when the class name holds only letters, digits,
`_` and `/`, and the inner class and method names only letters and digits. -/
theorem getStubName_eq_jniShortName_iff (native : NativeMethod) :
    g.getStubName native = jniShortName (nativeDeclaringClass g.fullyQualifiedClass native.javaClassName)
        ("native".toList ++ native.name) ↔
      (∀ c ∈ g.fullyQualifiedClass, c.isAlphanum ∨ c = '_' ∨ c = '/') ∧
        ∀ c ∈ native.javaClassName.getD [] ++ native.name, c.isAlphanum := by
  constructor
  · intro h
    have hF : ∀ c ∈ g.fullyQualifiedClass, c.isAlphanum ∨ c = '_' ∨ c = '/' := by
      intro c hc
      by_cases hc' : c = '_' ∨ c = '/'
      · exact .inr hc'
      · have hmem : c ∈ g.getStubName native := by
          rw [getStubName_eq]
          exact List.mem_append_left _ (List.mem_append_right _
            (mem_replace_underscore_slash hc (not_or.1 hc')))
        rw [h] at hmem
        exact .inl ((mem_jniShortName hmem).resolve_right fun h => hc' (.inl h))
    refine ⟨hF, ?_⟩
    rw [getStubName_eq, jniShortName_nativeDeclaringClass _ _ _ _ rfl,
      replace_underscore_slash_eq_jniEscape hF] at h
    simp only [List.append_assoc, List.append_cancel_left_eq] at h
    obtain ⟨hJ, hX⟩ := eq_jniEscape_of_append_eq h (by simpa using length_le_jniEscape native.name)
    intro c hc
    rcases List.mem_append.1 hc with hc | hc
    · exact jniEscape_eq_self_iff.1 hJ.symm c hc
    · exact jniEscape_eq_self_iff.1 (List.append_cancel_left hX).symm c hc
  · rintro ⟨hF, hJX⟩
    rw [getStubName_eq, jniShortName_nativeDeclaringClass _ _ _ _ rfl,
      replace_underscore_slash_eq_jniEscape hF,
      jniEscape_eq_self_iff.2 fun c hc => hJX c (List.mem_append_left _ hc),
      jniEscape_eq_self_iff.2 fun c hc => hJX c (List.mem_append_right _ hc)]


/-- A method whose name holds `_` gets a stub that the runtime, looking for
`nativeFoo_1Bar`, does not find. -/
theorem getStubName_leaves_underscore (g : InlHeaderFileGenerator) :
    (extractNatives "  private native void nativeFoo_Bar();\n".toList "long".toList).map
        (·.map { g with fullyQualifiedClass := "org/example/Foo".toList }.getStubName) =
      .ok ["Java_org_example_Foo_nativeFoo_Bar".toList] ∧
    jniShortName "org/example/Foo".toList "nativeFoo_Bar".toList =
      "Java_org_example_Foo_nativeFoo_1Bar".toList := ⟨rfl, rfl⟩

/-! ## The call of a called-by-native stub -/

section
variable {p : JniParams} {implicitImports : List Str}

/-- The call a called-by-native stub emits is `env->E(...)` with `E = env_call`,
inside `static_cast<S>(...)` when the declaration has a cast, and it is assigned
to `T ret` with `T = JavaDataTypeToC(return_type)` unless `T` is `void`. -/
theorem getCalledByNativeValues_call {c : CalledByNative} {v : CalledByNativeValues}
    (h : g.getCalledByNativeValues p implicitImports c = .ok v) :
    v.envCall = getEnvCall c.isConstructor c.static c.returnType ∧
    v.preCall = (if javaDataTypeToC c.returnType ≠ "void".toList then " ".toList else []) ++
      (match c.staticCast with
        | some cast => "static_cast<".toList ++ cast ++ ">(".toList
        | none => []) ∧
    v.postCall = (match c.staticCast with
        | some _ => ")".toList
        | none => []) ∧
    v.returnDeclaration = if javaDataTypeToC c.returnType ≠ "void".toList then
      javaDataTypeToC c.returnType ++ " ret =".toList else [] := by
  simp only [getCalledByNativeValues, except_bind_eq_ok] at h
  obtain ⟨_, -, h⟩ := h
  cases h
  refine ⟨rfl, ?_⟩
  dsimp only
  generalize javaDataTypeToC c.returnType = T
  rcases c.staticCast with _ | cast <;> split_ifs <;> exact ⟨rfl, rfl, rfl⟩

end

end InlHeaderFileGenerator

set_option maxRecDepth 10000 in
/-- `static Class<?> getKlass()` resolves to a `jclass` variable but an object
call with no cast: the stub assigns a `jobject` to a `jclass`. -/
theorem lazyStub_assigns_object_call_to_jclass :
    (extractCalledByNatives JniParams.initial []
        "class Loader \x7b\n  @CalledByNative\n  static Class<?> getKlass() \x7b\n    return Loader.class;\n  \x7d\n\x7d\n".toList).bind
      (fun cs => cs.mapM (InlHeaderFileGenerator.getLazyCalledByNativeMethodStub
        ⟨[], "org/example/Loader".toList, [], cs, [], ⟨[], [], [], "long".toList, false⟩⟩
        JniParams.initial [])) =
      .ok ["\nstatic base::subtle::AtomicWord g_Loader_getKlass = 0;\nstatic base::android::ScopedJavaLocalRef<jclass> Java_Loader_getKlass(JNIEnv* env) \x7b\n  CHECK_CLAZZ(env, Loader_clazz(env),\n      Loader_clazz(env), NULL);\n  jmethodID method_id =\n      base::android::MethodID::LazyGet<\n      base::android::MethodID::TYPE_STATIC>(\n      env, Loader_clazz(env),\n      \"getKlass\",\n      \n\"(\"\n\")\"\n\"Ljava/lang/Class;\",\n      &g_Loader_getKlass);\n\n  jclass ret =\n      env->CallStaticObjectMethod(Loader_clazz(env),\n          method_id);\n  jni_generator::CheckException(env);\n  return base::android::ScopedJavaLocalRef<jclass>(env, ret);\n\x7d".toList] :=
  rfl

end JniGenerator
