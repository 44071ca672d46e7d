import JniGenerator.Header.Registration

/-!
# Class paths and class handles

`GetClassPathDefinitions` emits one `k<X>ClassPath` constant and one cached
`g_<X>_clazz` handle with its `<X>_clazz(env)` macro for each key of one dict:
the unique classes of the called-by-natives, updated with those of the natives
when `native_exports_optional` is set.

Proved here:

* `getCalledByNativeValues_javaClass`: a called-by-native stub, and the
  `GetMethodIDImpl` lookup inside it, use the class `java_class_name or
  class_name`;
* `filter_key_eq_of_nodup`: a dict with distinct keys whose values are a
  function of their keys has exactly one entry for each of its keys;
* `getClassPathDefinitions_eq_join`: the output is the lines `classPathLines`,
  the constants and then three lines per handle;
* with no explicit class string equal to the file's class name, every class
  `X` the output uses as `X_clazz(env)` gets exactly one line declaring
  `k<X>ClassPath`, with the path `classPath X`, exactly one declaring
  `g_<X>_clazz` and exactly one defining `<X>_clazz`.
-/

namespace JniGenerator

/-- A dict with distinct keys, each mapped to `f` of itself, holds one entry per key. -/
theorem filter_key_eq_of_nodup {f : Str → Str} {x : Str} :
    ∀ {d : List (Str × Str)}, (keys d).Nodup → x ∈ keys d → (∀ e ∈ d, e.2 = f e.1) →
      d.filter (fun e => e.1 = x) = [(x, f x)]
  | [], _, hx, _ => absurd hx (List.not_mem_nil _)
  | e :: d, hnd, hx, hv => by
    have hnd' := List.nodup_cons.mp hnd
    have hv' : ∀ e ∈ d, e.2 = f e.1 := fun e he => hv e (.tail _ he)
    by_cases he : e.1 = x
    · have hnone : d.filter (fun e => e.1 = x) = [] :=
        List.filter_eq_nil_iff.mpr fun e' he' hx' =>
          hnd'.1 (he ▸ List.mem_map.mpr ⟨e', he', by simpa using hx'⟩)
      have hval : e = (x, f x) := by
        rw [← he, ← hv e (.head _)]
      simp [he, hnone, hval]
    · have hx' : x ∈ keys d := (List.mem_cons.mp hx).resolve_left (Ne.symm he)
      simp [he, filter_key_eq_of_nodup hnd'.2 hx' hv']

/-- `sep.join` as the first part, then each later part after `sep`. -/
theorem join_cons_eq_flatMap (sep a : Str) (rest : List Str) :
    join sep (a :: rest) = a ++ rest.flatMap (sep ++ ·) := by
  induction rest generalizing a with
  | nil => simp [join_singleton]
  | cons b rest ih => simp [join_cons_cons, ih]

/-- Two texts that agree up to their first `x` agree before it. -/
theorem eq_of_append_cons_eq_append_cons {a b t u : Str} {x : Char} (ha : x ∉ a) (hb : x ∉ b)
    (h : a ++ x :: t = b ++ x :: u) : a = b := by
  rcases List.append_eq_append_iff.1 h with ⟨_ | ⟨y, a'⟩, rfl, hy⟩ | ⟨_ | ⟨y, c'⟩, rfl, hy⟩
  · simp
  · obtain ⟨rfl, -⟩ := List.cons.inj hy
    exact absurd (by simp) hb
  · simp
  · obtain ⟨rfl, -⟩ := List.cons.inj hy
    exact absurd (by simp) ha

/-- A line `pre ++ Y ++ mid ++ x :: rest` starts with `pre ++ X ++ mid ++ [x]`
exactly when `Y = X`, if no `x` comes before that point. -/
theorem startswith_line_iff {pre mid X Y rest : Str} {x : Char} (hX : x ∉ pre ++ (X ++ mid))
    (hY : x ∉ pre ++ (Y ++ mid)) :
    startswith (pre ++ (Y ++ (mid ++ x :: rest))) (pre ++ (X ++ (mid ++ [x]))) = decide (Y = X) := by
  by_cases h : Y = X
  · subst h
    simp
  · rw [decide_eq_false h]
    refine Bool.eq_false_iff.2 fun hp => h ?_
    obtain ⟨r, hr⟩ := startswith_iff.1 hp
    have heq := eq_of_append_cons_eq_append_cons hX hY (by simpa using hr)
    exact (List.append_cancel_right (List.append_cancel_left heq)).symm

theorem startswith_eq_false_of_head {l p : Str} {a b : Char} (hl : l.head? = some a) (hp : p.head? = some b)
    (hab : a ≠ b) : startswith l p = false := by
  obtain ⟨l', rfl⟩ := List.head?_eq_some_iff.1 hl
  obtain ⟨p', rfl⟩ := List.head?_eq_some_iff.1 hp
  simp [startswith, List.isPrefixOf, Ne.symm hab]

theorem flatMap_ite_key (d : List (Str × Str)) (x : Str) (F : Str × Str → List Str) :
    d.flatMap (fun e => if e.1 = x then F e else []) = (d.filter fun e => e.1 = x).flatMap F := by
  induction d with
  | nil => rfl
  | cons e d ih => by_cases h : e.1 = x <;> simp [List.filter_cons, h, ih]

namespace InlHeaderFileGenerator

variable (g : InlHeaderFileGenerator)

def classPathConstant (javaClass jniClassPath : Str) : Str :=
  "const char k".toList ++ javaClass ++ "ClassPath[] = \"".toList ++ jniClassPath ++ "\";".toList

def classHandle (javaClass : Str) : Str :=
  "// Leaking this jclass as we cannot use LazyInstance from some threads.\n".toList ++
  "base::subtle::AtomicWord g_".toList ++ javaClass ++
  "_clazz __attribute__((unused)) = 0;\n#define ".toList ++ javaClass ++
  "_clazz(env) base::android::LazyGetClass(env, k".toList ++ javaClass ++ "ClassPath, &g_".toList ++
  javaClass ++ "_clazz)".toList

/-- The handle line of `classHandle`. -/
def handleLine (javaClass : Str) : Str :=
  "base::subtle::AtomicWord g_".toList ++ javaClass ++ "_clazz __attribute__((unused)) = 0;".toList

/-- The macro line of `classHandle`. -/
def clazzMacroLine (javaClass : Str) : Str :=
  "#define ".toList ++ javaClass ++ "_clazz(env) base::android::LazyGetClass(env, k".toList ++ javaClass ++
    "ClassPath, &g_".toList ++ javaClass ++ "_clazz)".toList

def leakComment : Str := "// Leaking this jclass as we cannot use LazyInstance from some threads.".toList

/-- The three lines of `classHandle`. -/
def classHandleLines (javaClass : Str) : List Str := [leakComment, handleLine javaClass, clazzMacroLine javaClass]

theorem classHandle_eq (javaClass : Str) : classHandle javaClass = join "\n".toList (classHandleLines javaClass) := by
  simp only [classHandle, classHandleLines, leakComment, handleLine, clazzMacroLine, join_cons_cons, join_singleton,
    List.append_assoc]
  rfl

/-! ### Which line declares what -/

/-- The line declares the constant `k<X>ClassPath`. -/
def declaresClassPath (X l : Str) : Bool := startswith l ("const char k".toList ++ X ++ "ClassPath[".toList)

/-- The line declares the handle `g_<X>_clazz`. -/
def declaresClassHandle (X l : Str) : Bool :=
  startswith l ("base::subtle::AtomicWord g_".toList ++ X ++ "_clazz __attribute__(".toList)

/-- The line defines the macro `<X>_clazz`. -/
def definesClazzMacro (X l : Str) : Bool := startswith l ("#define ".toList ++ X ++ "_clazz(".toList)

section Lines

variable {X Y : Str}

theorem not_mem_around {x : Char} {pre mid : Str} (hpre : x ∉ pre) (hX : x ∉ X) (hmid : x ∉ mid) :
    x ∉ pre ++ (X ++ mid) := by
  simp [hpre, hX, hmid]

theorem filter_constant_declaresClassPath (hX : '[' ∉ X) (hY : '[' ∉ Y) (p : Str) :
    [classPathConstant Y p].filter (declaresClassPath X) = if Y = X then [classPathConstant Y p] else [] := by
  have h : declaresClassPath X (classPathConstant Y p) = decide (Y = X) := by
    rw [declaresClassPath, classPathConstant,
      show "ClassPath[] = \"".toList = "ClassPath".toList ++ '[' :: "] = \"".toList from rfl,
      show "ClassPath[".toList = "ClassPath".toList ++ ['['] from rfl]
    simp only [List.append_assoc, List.cons_append]
    exact startswith_line_iff (not_mem_around (by decide) hX (by decide)) (not_mem_around (by decide) hY (by decide))
  rcases eq_or_ne Y X with rfl | hYX <;> simp_all [List.filter]

theorem filter_handleLines_declaresClassPath :
    (classHandleLines Y).filter (declaresClassPath X) = [] := by
  have h1 : declaresClassPath X leakComment = false := startswith_eq_false_of_head (a := '/') (b := 'c') rfl rfl (by decide)
  have h2 : declaresClassPath X (handleLine Y) = false := startswith_eq_false_of_head (a := 'b') (b := 'c') rfl rfl (by decide)
  have h3 : declaresClassPath X (clazzMacroLine Y) = false :=
    startswith_eq_false_of_head (a := '#') (b := 'c') rfl rfl (by decide)
  simp [classHandleLines, List.filter, h1, h2, h3]

theorem filter_constant_declaresClassHandle (p : Str) : [classPathConstant Y p].filter (declaresClassHandle X) = [] := by
  have h : declaresClassHandle X (classPathConstant Y p) = false :=
    startswith_eq_false_of_head (a := 'c') (b := 'b') rfl rfl (by decide)
  simp [List.filter, h]

theorem filter_handleLines_declaresClassHandle (hX : '(' ∉ X) (hY : '(' ∉ Y) :
    (classHandleLines Y).filter (declaresClassHandle X) = if Y = X then [handleLine Y] else [] := by
  have h1 : declaresClassHandle X leakComment = false := startswith_eq_false_of_head (a := '/') (b := 'b') rfl rfl (by decide)
  have h2 : declaresClassHandle X (handleLine Y) = decide (Y = X) := by
    rw [declaresClassHandle, handleLine,
      show "_clazz __attribute__((unused)) = 0;".toList = "_clazz __attribute__".toList ++ '(' :: "(unused)) = 0;".toList
        from rfl,
      show "_clazz __attribute__(".toList = "_clazz __attribute__".toList ++ ['('] from rfl]
    simp only [List.append_assoc, List.cons_append]
    exact startswith_line_iff (not_mem_around (by decide) hX (by decide)) (not_mem_around (by decide) hY (by decide))
  have h3 : declaresClassHandle X (clazzMacroLine Y) = false :=
    startswith_eq_false_of_head (a := '#') (b := 'b') rfl rfl (by decide)
  rcases eq_or_ne Y X with rfl | hYX <;> simp_all [classHandleLines, List.filter]

theorem filter_constant_definesClazzMacro (p : Str) : [classPathConstant Y p].filter (definesClazzMacro X) = [] := by
  have h : definesClazzMacro X (classPathConstant Y p) = false :=
    startswith_eq_false_of_head (a := 'c') (b := '#') rfl rfl (by decide)
  simp [List.filter, h]

theorem filter_handleLines_definesClazzMacro (hX : '(' ∉ X) (hY : '(' ∉ Y) :
    (classHandleLines Y).filter (definesClazzMacro X) = if Y = X then [clazzMacroLine Y] else [] := by
  have h1 : definesClazzMacro X leakComment = false := startswith_eq_false_of_head (a := '/') (b := '#') rfl rfl (by decide)
  have h2 : definesClazzMacro X (handleLine Y) = false := startswith_eq_false_of_head (a := 'b') (b := '#') rfl rfl (by decide)
  have h3 : definesClazzMacro X (clazzMacroLine Y) = decide (Y = X) := by
    rw [definesClazzMacro, clazzMacroLine,
      show "_clazz(env) base::android::LazyGetClass(env, k".toList =
        "_clazz".toList ++ '(' :: "env) base::android::LazyGetClass(env, k".toList from rfl,
      show "_clazz(".toList = "_clazz".toList ++ ['('] from rfl]
    simp only [List.append_assoc, List.cons_append]
    exact startswith_line_iff (not_mem_around (by decide) hX (by decide)) (not_mem_around (by decide) hY (by decide))
  rcases eq_or_ne Y X with rfl | hYX <;> simp_all [classHandleLines, List.filter]

end Lines

/-- The dict `all_classes` of `GetClassPathDefinitions`. -/
def classPathClasses : List (Str × Str) :=
  let allClasses := g.getUniqueClasses (g.calledByNatives.map CalledByNative.javaClassName)
  if g.options.nativeExportsOptional then
    dictUpdate allClasses (g.getUniqueClasses (g.natives.map nativeClassKey))
  else allClasses

/-- Returns the ClassPath constants. -/
def getClassPathDefinitions : Str :=
  join "\n".toList (g.classPathClasses.map (fun e => classPathConstant e.1 e.2) ++
    g.classPathClasses.map fun e => classHandle e.1)

/-- The lines `GetClassPathDefinitions` writes: the constants, then three
lines per handle. -/
def classPathLines : List Str :=
  g.classPathClasses.map (fun e => classPathConstant e.1 e.2) ++
    g.classPathClasses.flatMap fun e => classHandleLines e.1

theorem getClassPathDefinitions_eq_join : g.getClassPathDefinitions = join "\n".toList g.classPathLines := by
  unfold getClassPathDefinitions classPathLines
  cases g.classPathClasses with
  | nil => rfl
  | cons e es =>
    simp [join_cons_eq_flatMap, classHandle_eq, classHandleLines, List.flatMap_map, List.flatMap_assoc]

def getClassPathDefinitionsString : Str := join "\n".toList [g.getClassPathDefinitions]

/-- The classes the output uses as `X_clazz(env)`: the class of every
called-by-native stub, and, with explicit registration, the class of every
`RegisterNatives` block. -/
def clazzUses : List Str :=
  g.calledByNatives.map g.calledByNativeClass ++
    if g.options.nativeExportsOptional then g.registeredClasses else []

theorem getCalledByNativeValues_javaClass {p : JniParams} {implicitImports : List Str}
    {c : CalledByNative} {v : CalledByNativeValues}
    (h : g.getCalledByNativeValues p implicitImports c = .ok v) : v.javaClass = g.calledByNativeClass c := by
  simp only [getCalledByNativeValues, except_bind_eq_ok] at h
  obtain ⟨_, -, h⟩ := h
  cases h
  rfl

theorem nodup_keys_classPathClasses : (keys g.classPathClasses).Nodup := by
  unfold classPathClasses
  split
  · exact nodup_keys_dictUpdate (g.nodup_keys_getUniqueClasses _)
  · exact g.nodup_keys_getUniqueClasses _

theorem mem_keys_classPathClasses {x : Str} (hx : x ∈ g.clazzUses) : x ∈ keys g.classPathClasses := by
  unfold clazzUses at hx
  unfold classPathClasses
  rcases List.mem_append.mp hx with hx | hx
  · obtain ⟨c, hc, rfl⟩ := List.mem_map.mp hx
    have : g.calledByNativeClass c ∈ keys (g.getUniqueClasses (g.calledByNatives.map CalledByNative.javaClassName)) :=
      g.mem_keys_getUniqueClasses.mpr (.inr ⟨_, List.mem_map_of_mem _ hc, rfl⟩)
    split
    · exact mem_keys_dictUpdate.mpr (.inl this)
    · exact this
  · split at hx
    · rename_i hopt
      obtain ⟨n, hn, rfl⟩ := g.mem_registeredClasses.mp hx
      rw [if_pos hopt]
      exact mem_keys_dictUpdate.mpr (.inr (g.mem_keys_getUniqueClasses.mpr
        (.inr ⟨_, List.mem_map_of_mem _ hn, rfl⟩)))
    · exact absurd hx (List.not_mem_nil _)

theorem classPathClasses_classPath
    (hcbn : ∀ c ∈ g.calledByNatives, c.javaClassName ≠ [] → c.javaClassName ≠ g.className)
    (hnat : ∀ n ∈ g.natives, n.javaClassName ≠ some g.className) :
    ∀ e ∈ g.classPathClasses, e.2 = g.classPath e.1 := by
  have hc : ∀ e ∈ g.getUniqueClasses (g.calledByNatives.map CalledByNative.javaClassName),
      e.2 = g.classPath e.1 := g.getUniqueClasses_classPath (List.forall_mem_map.2 hcbn)
  unfold classPathClasses
  split
  · refine dictUpdate_forall hc (g.getUniqueClasses_classPath ?_)
    simp only [List.mem_map, nativeClassKey]
    rintro _ ⟨n, hn, rfl⟩ hne heq
    cases hj : n.javaClassName with
    | none => exact hne (by rw [hj]; rfl)
    | some j =>
      rw [hj] at heq
      exact hnat n hn (hj.trans (congrArg some heq))
  · exact hc

/-- The lines a test picks out of the output: those of the constants and of
the handles whose key is `x`. -/
theorem filter_classPathLines {T : Str → Bool} {x : Str} {F G : Str × Str → List Str}
    (hc : ∀ e ∈ g.classPathClasses, [classPathConstant e.1 e.2].filter T = if e.1 = x then F e else [])
    (hh : ∀ e ∈ g.classPathClasses, (classHandleLines e.1).filter T = if e.1 = x then G e else []) :
    g.classPathLines.filter T =
      (g.classPathClasses.filter fun e => e.1 = x).flatMap F ++ (g.classPathClasses.filter fun e => e.1 = x).flatMap G := by
  rw [classPathLines, List.filter_append, List.map_eq_flatMap, List.filter_flatMap, List.filter_flatMap,
    List.flatMap_congr hc, List.flatMap_congr hh, flatMap_ite_key, flatMap_ite_key]

/-- The output of `GetClassPathDefinitions` is made of the lines `classPathLines`. -/
theorem split_getClassPathDefinitions (hne : g.classPathClasses ≠ [])
    (hnl : ∀ e ∈ g.classPathClasses, '\n' ∉ e.1 ∧ '\n' ∉ e.2) :
    split g.getClassPathDefinitions '\n' = g.classPathLines := by
  rw [getClassPathDefinitions_eq_join, show "\n".toList = ['\n'] from rfl]
  refine split_join (fun l hl => ?_) ?_
  swap
  · obtain ⟨e, es, h⟩ := List.exists_cons_of_ne_nil hne
    simp [classPathLines, h]
  simp only [classPathLines, List.mem_append, List.mem_map, List.mem_flatMap] at hl
  rcases hl with ⟨e, he, rfl⟩ | ⟨e, he, hl⟩
  · simp only [classPathConstant, List.append_assoc]
    exact not_mem_around (by decide) (hnl e he).1 (not_mem_around (by decide) (hnl e he).2 (by decide))
  · have hY := (hnl e he).1
    simp only [classHandleLines, List.mem_cons, List.mem_singleton, List.not_mem_nil, or_false] at hl
    rcases hl with rfl | rfl | rfl
    · decide
    · rw [handleLine, List.append_assoc]
      exact not_mem_around (by decide) hY (by decide)
    · simp only [clazzMacroLine, List.append_assoc]
      exact not_mem_around (by decide) hY (not_mem_around (by decide) hY (not_mem_around (by decide) hY (by decide)))

/-- With no explicit class string equal to the file's class name, and class
names without `[`, `(` or a line break, each class `X` a stub or a
`RegisterNatives` block uses as `X_clazz(env)` gets, among the lines
`GetClassPathDefinitions` writes, exactly one line declaring `k<X>ClassPath`,
whose path is the file's class path for the file's class and `F$X` for any
other, exactly one line declaring the handle `g_<X>_clazz` and exactly one
line defining the macro `<X>_clazz`. -/
theorem classPathDefinitions_cover_clazz_uses (p : JniParams) (implicitImports : List Str)
    (hcbn : ∀ c ∈ g.calledByNatives, c.javaClassName ≠ [] → c.javaClassName ≠ g.className)
    (hnat : ∀ n ∈ g.natives, n.javaClassName ≠ some g.className)
    (hnames : ∀ X ∈ keys g.classPathClasses, '[' ∉ X ∧ '(' ∉ X ∧ '\n' ∉ X) (hfqc : '\n' ∉ g.fullyQualifiedClass) :
    (∀ c ∈ g.calledByNatives, ∀ v, g.getCalledByNativeValues p implicitImports c = .ok v →
      v.javaClass ∈ g.clazzUses) ∧
    ∀ X ∈ g.clazzUses,
      (split g.getClassPathDefinitions '\n').filter (declaresClassPath X) = [classPathConstant X (g.classPath X)] ∧
      (split g.getClassPathDefinitions '\n').filter (declaresClassHandle X) = [handleLine X] ∧
      (split g.getClassPathDefinitions '\n').filter (definesClazzMacro X) = [clazzMacroLine X] := by
  refine ⟨fun c hc v hv => ?_, fun X hX => ?_⟩
  · rw [g.getCalledByNativeValues_javaClass hv]
    exact List.mem_append_left _ (List.mem_map_of_mem _ hc)
  have hkey := g.mem_keys_classPathClasses hX
  have hpath := g.classPathClasses_classPath hcbn hnat
  have hname : ∀ e ∈ g.classPathClasses, '[' ∉ e.1 ∧ '(' ∉ e.1 ∧ '\n' ∉ e.1 :=
    fun e he => hnames e.1 (List.mem_map_of_mem _ he)
  have hnl : ∀ e ∈ g.classPathClasses, '\n' ∉ e.1 ∧ '\n' ∉ e.2 := fun e he => by
    refine ⟨(hname e he).2.2, ?_⟩
    rw [hpath e he, classPath]
    split <;> simp [hfqc, (hname e he).2.2]
  have hX' := hnames X hkey
  rw [g.split_getClassPathDefinitions (List.ne_nil_of_mem (List.mem_map.1 hkey).choose_spec.1) hnl]
  have hfilter := filter_key_eq_of_nodup g.nodup_keys_classPathClasses hkey hpath
  refine ⟨?_, ?_, ?_⟩
  · rw [g.filter_classPathLines (F := fun e => [classPathConstant e.1 e.2]) (G := fun _ => [])
      (fun e he => filter_constant_declaresClassPath hX'.1 (hname e he).1 e.2)
      (fun e _ => by rw [filter_handleLines_declaresClassPath, ite_self]), hfilter]
    simp
  · rw [g.filter_classPathLines (F := fun _ => []) (G := fun e => [handleLine e.1])
      (fun e _ => by rw [filter_constant_declaresClassHandle, ite_self])
      (fun e he => filter_handleLines_declaresClassHandle hX'.2.1 (hname e he).2.1), hfilter]
    simp
  · rw [g.filter_classPathLines (F := fun _ => []) (G := fun e => [clazzMacroLine e.1])
      (fun e _ => by rw [filter_constant_definesClazzMacro, ite_self])
      (fun e he => filter_handleLines_definesClazzMacro hX'.2.1 (hname e he).2.1), hfilter]
    simp

/-- A file class `Foo` with one static called-by-native method of its inner class `Inner`. -/
theorem classPathDefinitions_cover_clazz_uses_inner :
    let g : InlHeaderFileGenerator := ⟨[], "org/chromium/Foo".toList, [],
      [{ systemClass := false, unchecked := false, static := true, javaClassName := "Inner".toList
         returnType := "void".toList, name := "bar".toList, params := [] }], [],
      ⟨[], [], [], "int".toList, true⟩⟩
    (∀ c ∈ g.calledByNatives, c.javaClassName ≠ [] → c.javaClassName ≠ g.className) ∧
    (∀ n ∈ g.natives, n.javaClassName ≠ some g.className) ∧
    (∀ X ∈ keys g.classPathClasses, '[' ∉ X ∧ '(' ∉ X ∧ '\n' ∉ X) ∧ '\n' ∉ g.fullyQualifiedClass ∧
    (∀ c ∈ g.calledByNatives, ∀ v, g.getCalledByNativeValues JniParams.initial [] c = .ok v →
      v.javaClass ∈ g.clazzUses) ∧
    ∀ X ∈ g.clazzUses,
      (split g.getClassPathDefinitions '\n').filter (declaresClassPath X) = [classPathConstant X (g.classPath X)] ∧
      (split g.getClassPathDefinitions '\n').filter (declaresClassHandle X) = [handleLine X] ∧
      (split g.getClassPathDefinitions '\n').filter (definesClazzMacro X) = [clazzMacroLine X] :=
  ⟨by decide, by decide, by decide, by decide,
    classPathDefinitions_cover_clazz_uses _ _ _ (by decide) (by decide) (by decide) (by decide)⟩

end InlHeaderFileGenerator

end JniGenerator
