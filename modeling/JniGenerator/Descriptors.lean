import JniGenerator.CTypes

/-!
# The C type of a resolved descriptor

The header declares each value with the C type `JavaDataTypeToC` reads off the
Java type name, and registers or looks up the method under the descriptor
`JavaToJni` resolves the same name to; `jni.h` fixes the C type of a
descriptor (`descriptorCType`). The two agree when the class state holds
only names of the form `L<class>`, which `Qualified` says of the imports and
the inner classes; `SetFullyQualifiedClass` gives the class itself that form.

Proved here, from one inversion lemma for `resolveElement` (its six ways to
return):

* `descriptorCType_resolveElement`: for a name with no array suffix that
  starts with `Class` only if it is `Class`, the descriptor's C type is
  `JavaDataTypeToC` of the name;
* `descriptorCType_resolveElement_arrays`: for its arrays, on both sides a
  primitive array or `jobjectArray`;
* `descriptorCType_javaToJni`: for every name without type arguments that
  starts with `Class` only if it is `Class` or an array. A longer name such as
  `Classifier` is an object to `JavaToJni` and a `jclass` to `JavaDataTypeToC`.
-/

namespace JniGenerator

namespace JniParams

/-- The names of the class state that `JavaToJni` may return are descriptors
without their `;`: `L` and the class. -/
structure Qualified (p : JniParams) : Prop where
  innerClasses_head : ∀ q ∈ p.innerClasses, q.head? = some 'L'
  imports_head : ∀ q ∈ p.imports, q.head? = some 'L'

/-- What `resolveElement` can return, in the order of its branches. -/
theorem resolveElement_eq_ok {p : JniParams} {implicitImports : List Str} {e d : Str}
    (h : resolveElement p implicitImports e = .ok d) :
    podParamMap.lookup e = some d ∨ podParamMap.lookup e = none ∧
      ('/' ∈ e ∧ d = 'L' :: e ++ [';'] ∨ '/' ∉ e ∧
        ((∃ q, (objectParamList ++ [p.fullyQualifiedClass] ++ p.innerClasses).find?
            (matchesQualified e) = some q ∧ d = q ++ [';']) ∨
         (objectParamList ++ [p.fullyQualifiedClass] ++ p.innerClasses).find? (matchesQualified e) = none ∧
           ((∃ q ∈ p.imports, endswith q ('/' :: e) ∧ d = q ++ [';']) ∨
            (∃ q ∈ p.imports, '.' ∈ e ∧ d = q ++ '$' :: (split e '.').getLastD [] ++ [';']) ∨
            '.' ∉ e ∧ d = 'L' :: p.package ++ '/' :: e ++ [';']))) := by
  unfold resolveElement at h
  split at h
  · exact .inl (by cases h; assumption)
  · next hpod =>
    refine .inr ⟨hpod, ?_⟩
    split at h
    · next hs => exact .inl ⟨hs, by cases h; rfl⟩
    · next hs =>
      refine .inr ⟨hs, ?_⟩
      split at h
      · next q hq => exact .inl ⟨q, hq, by cases h; rfl⟩
      · next hq =>
        refine .inr ⟨hq, ?_⟩
        split at h
        · next q hi =>
          obtain ⟨_, -, h⟩ := (except_bind_eq_ok _ _ _).1 h
          have hends := List.find?_some hi
          exact .inl ⟨q, List.mem_of_find?_eq_some hi, hends, by cases h; rfl⟩
        · split at h
          · next hd =>
            dsimp only at h
            split at h
            · next q hi => exact .inr (.inl ⟨q, List.mem_of_find?_eq_some hi, hd, by cases h; rfl⟩)
            · cases h
          · next hd =>
            obtain ⟨_, -, h⟩ := (except_bind_eq_ok _ _ _).1 h
            exact .inr (.inr ⟨hd, by cases h; rfl⟩)

/-- The JNI C types of the three object descriptors `jni.h` names. -/
def objectDescriptorTypes : List (Str × Str) :=
  [("java/lang/String".toList, "jstring".toList), ("java/lang/Class".toList, "jclass".toList),
   ("java/lang/Throwable".toList, "jthrowable".toList)]

theorem descriptorCType_object (x : Str) :
    descriptorCType ('L' :: x ++ [';']) = (objectDescriptorTypes.lookup x).getD "jobject".toList := by
  have h : descriptorCType ('L' :: x ++ [';']) =
      if 'L' :: x ++ [';'] = "Ljava/lang/String;".toList then "jstring".toList
      else if 'L' :: x ++ [';'] = "Ljava/lang/Class;".toList then "jclass".toList
      else if 'L' :: x ++ [';'] = "Ljava/lang/Throwable;".toList then "jthrowable".toList
      else "jobject".toList := by
    cases x <;> rfl
  rw [h, show "Ljava/lang/String;".toList = 'L' :: "java/lang/String".toList ++ [';'] from rfl,
    show "Ljava/lang/Class;".toList = 'L' :: "java/lang/Class".toList ++ [';'] from rfl,
    show "Ljava/lang/Throwable;".toList = 'L' :: "java/lang/Throwable".toList ++ [';'] from rfl]
  simp only [List.cons.injEq, true_and, List.append_cancel_right_eq]
  by_cases h1 : x = "java/lang/String".toList
  · subst h1; rfl
  by_cases h2 : x = "java/lang/Class".toList
  · subst h2; rfl
  by_cases h3 : x = "java/lang/Throwable".toList
  · subst h3; rfl
  rw [if_neg h1, if_neg h2, if_neg h3]
  simp only [objectDescriptorTypes, List.lookup_cons, List.lookup_nil, beq_eq_false_iff_ne.2 h1,
    beq_eq_false_iff_ne.2 h2, beq_eq_false_iff_ne.2 h3, Option.getD_none]

/-- The simple names whose `java.lang` class `jni.h` gives a C type of its own. -/
def specialNames : List Str := ["String".toList, "Class".toList, "Throwable".toList]

theorem objectDescriptorTypes_keys :
    ∀ k ∈ objectDescriptorTypes, ∃ n ∈ specialNames, k.1 = "java/lang/".toList ++ n := by
  decide

theorem find_specialName {e : Str} (he : e ∈ specialNames) (rest : List Str) :
    (objectParamList ++ rest).find? (matchesQualified e) = some ('L' :: "java/lang/".toList ++ e) := by
  have h : ∀ n ∈ specialNames, objectParamList.find? (matchesQualified n) =
      some ('L' :: "java/lang/".toList ++ n) := by decide
  rw [List.find?_append, h e he]
  rfl

/-- A name with no `/` that a `java.lang` class of `jni.h` ends with is that class's simple name. -/
theorem specialName_of_suffix {e x c : Str} (hx : objectDescriptorTypes.lookup x = some c)
    (hs : '/' ∉ e) (h : '/' :: e <:+ 'L' :: x) : e ∈ specialNames ∧ x = "java/lang/".toList ++ e := by
  obtain ⟨l₁, l₂, hl, -⟩ := List.lookup_eq_some_iff.1 hx
  obtain ⟨n, hn, hxn : x = _⟩ := objectDescriptorTypes_keys (x, c) (hl ▸ by simp)
  have hnslash : ∀ n ∈ specialNames, '/' ∉ n := by decide
  rw [hxn, show 'L' :: ("java/lang/".toList ++ n) = "Ljava/lang".toList ++ '/' :: n from rfl] at h
  obtain rfl := eq_of_cons_suffix_append_cons hs (hnslash n hn) h
  exact ⟨hn, hxn⟩

/-- A class whose name ends in `/e`, for a simple name `e` that is not one of
the well-known names, has the C type `jobject`. -/
theorem descriptorCType_object_of_suffix {e x : Str} (hs : '/' ∉ e) (hn : e ∉ specialNames)
    (hsuf : ∀ c, objectDescriptorTypes.lookup x = some c → '/' :: e <:+ 'L' :: x) :
    descriptorCType ('L' :: x ++ [';']) = "jobject".toList := by
  rw [descriptorCType_object]
  cases hx : objectDescriptorTypes.lookup x with
  | none => rfl
  | some c => exact absurd (specialName_of_suffix hx hs (hsuf c hx)).1 hn

theorem suffix_of_matchesQualified {e x c : Str} (hx : objectDescriptorTypes.lookup x = some c)
    (hs : '/' ∉ e) (h : matchesQualified e ('L' :: x) = true) : '/' :: e <:+ 'L' :: x := by
  obtain ⟨l₁, l₂, hl, -⟩ := List.lookup_eq_some_iff.1 hx
  obtain ⟨n, hn, hxn : x = _⟩ := objectDescriptorTypes_keys (x, c) (hl ▸ by simp)
  simp only [matchesQualified, Bool.or_eq_true, endswith_iff, beq_iff_eq, List.cons.injEq, true_and] at h
  rcases h with (h | h) | rfl
  · exact h
  · have hdollar : ∀ n ∈ specialNames, '$' ∉ 'L' :: ("java/lang/".toList ++ n) := by decide
    exact absurd (h.subset (.head _)) (hxn ▸ hdollar n hn)
  · exact (hs (hxn ▸ List.mem_append_left _ (by decide))).elim

theorem lookup_eq_none_of_mem {l : List (Str × Str)} {c : Char} {e : Str} (hl : ∀ x ∈ l, c ∉ x.1)
    (he : c ∈ e) : l.lookup e = none :=
  List.lookup_eq_none_iff.2 fun x hx => bne_iff_ne.2 fun h => hl x hx (h ▸ he)

theorem javaPodTypeMap_lookup_eq_none {e : Str} (hpod : podParamMap.lookup e = none) :
    javaPodTypeMap.lookup e = none := by
  have hkeys : ∀ x ∈ javaPodTypeMap, ∃ y ∈ podParamMap, y.1 = x.1 := by decide
  refine List.lookup_eq_none_iff.2 fun x hx => ?_
  obtain ⟨y, hy, hyx⟩ := hkeys x hx
  exact hyx ▸ List.lookup_eq_none_iff.1 hpod y hy

theorem javaTypeMap_eq :
    javaTypeMap = [("void".toList, "void".toList), ("String".toList, "jstring".toList),
      ("Throwable".toList, "jthrowable".toList)] ++ objectDescriptorTypes := rfl

theorem javaTypeMap_lookup_of_slash {e : Str} (hs : '/' ∈ e) :
    javaTypeMap.lookup e = objectDescriptorTypes.lookup e := by
  rw [javaTypeMap_eq, List.lookup_append, lookup_eq_none_of_mem (by decide) hs]
  rfl

theorem javaTypeMap_lookup_eq_none {e : Str} (hpod : podParamMap.lookup e = none) (hs : '/' ∉ e)
    (hn : e ∉ specialNames) : javaTypeMap.lookup e = none := by
  have hkeys : ∀ x ∈ javaTypeMap, '/' ∈ x.1 ∨ x.1 ∈ specialNames ∨ x.1 = "void".toList := by decide
  refine List.lookup_eq_none_iff.2 fun x hx => bne_iff_ne.2 fun h => ?_
  rcases hkeys x hx with hx | hx | hx
  · exact hs (h ▸ hx)
  · exact hn (h ▸ hx)
  · rw [h, hx] at hpod
    exact absurd hpod (by decide)

/-- Past the two tables, a name with no array suffix that does not start with
`Class` is a `jobject`, or the C type of a `java.lang` class of `jni.h`. -/
theorem javaDataTypeToC_of_not_pod {e : Str} (hpod : javaPodTypeMap.lookup e = none)
    (he : ¬ "[]".toList <:+ e) (hclass : ¬ "Class".toList <+: e) :
    javaDataTypeToC e = (javaTypeMap.lookup e).getD "jobject".toList := by
  unfold javaDataTypeToC
  rw [hpod]
  cases javaTypeMap.lookup e with
  | some c => rfl
  | none =>
    simp only [Bool.eq_false_iff.2 (mt endswith_iff.1 he), Bool.eq_false_iff.2 (mt startswith_iff.1 hclass)]
    rfl

theorem Qualified.import_eq {p : JniParams} (hp : p.Qualified) {q : Str} (hq : q ∈ p.imports) :
    ∃ x, q = 'L' :: x :=
  List.head?_eq_some_iff.1 (hp.imports_head q hq)

theorem Qualified.candidate_eq {p : JniParams} (hp : p.Qualified)
    (hfqc : p.fullyQualifiedClass.head? = some 'L') {q : Str}
    (hq : q ∈ objectParamList ++ [p.fullyQualifiedClass] ++ p.innerClasses) : ∃ x, q = 'L' :: x := by
  have hobj : ∀ q ∈ objectParamList, q.head? = some 'L' := by decide
  refine List.head?_eq_some_iff.1 ?_
  simp only [List.mem_append, List.mem_singleton] at hq
  rcases hq with (hq | rfl) | hq
  · exact hobj q hq
  · exact hfqc
  · exact hp.innerClasses_head q hq

theorem javaDataTypeToC_arrays (e : Str) (k : Nat) :
    javaDataTypeToC (e ++ (List.replicate (k + 1) "[]".toList).flatten) =
      if k = 0 then ((javaPodTypeMap.lookup e).map (· ++ "Array".toList)).getD "jobjectArray".toList
      else "jobjectArray".toList := by
  have hkeys : ∀ x ∈ javaPodTypeMap ++ javaTypeMap, '[' ∉ x.1 := by decide
  have hnone : ∀ u, '[' ∈ u → javaPodTypeMap.lookup u = none ∧ javaTypeMap.lookup u = none := fun u hu =>
    ⟨lookup_eq_none_of_mem (fun x hx => hkeys x (List.mem_append_left _ hx)) hu,
      lookup_eq_none_of_mem (fun x hx => hkeys x (List.mem_append_right _ hx)) hu⟩
  set u := e ++ (List.replicate k "[]".toList).flatten
  have ht : e ++ (List.replicate (k + 1) "[]".toList).flatten = u ++ "[]".toList := by
    rw [List.replicate_succ', List.flatten_append, ← List.append_assoc]
    rfl
  have hd : (u ++ "[]".toList).dropLast.dropLast = u :=
    List.append_cancel_right (dropLast_dropLast_append (List.suffix_append _ _))
  obtain ⟨h1, h2⟩ := hnone (u ++ "[]".toList) (List.mem_append_right _ (.head _))
  rw [ht]
  unfold javaDataTypeToC
  rw [h1, h2, hd]
  simp only [endswith_iff, List.suffix_append, if_true]
  cases k with
  | zero =>
    simp only [u, List.replicate_zero, List.flatten_nil, List.append_nil, if_true]
    cases javaPodTypeMap.lookup e <;> rfl
  | succ k =>
    rw [(hnone u (List.mem_append_right _ (by simp))).1]
    rfl

theorem descriptorCType_array_of_not_primitive {c : Char} (hc : primitiveCTypes.lookup c = none) (r : Str) :
    descriptorCType ('[' :: c :: r) = "jobjectArray".toList := by
  cases r <;> simp [descriptorCType, hc]

theorem exists_eq_append_arrays (t : Str) :
    ∃ e k, ¬ "[]".toList <:+ e ∧ t = e ++ (List.replicate k "[]".toList).flatten := by
  by_cases ht : "[]".toList <:+ t
  · obtain ⟨u, rfl⟩ := ht
    obtain ⟨e, k, he, rfl⟩ := exists_eq_append_arrays u
    exact ⟨e, k + 1, he, by rw [List.replicate_succ', List.flatten_append]; simp⟩
  · exact ⟨t, 0, ht, by simp⟩
termination_by t.length
decreasing_by
  subst_vars
  simp

section
variable {p : JniParams} {implicitImports : List Str} (hp : p.Qualified)
  (hfqc : p.fullyQualifiedClass.head? = some 'L')
include hp hfqc

/-- For a name with no array suffix that starts with `Class` only if it is
`Class`, the C type of the descriptor `JavaToJni` resolves it to is what
`JavaDataTypeToC` gives it. -/
theorem descriptorCType_resolveElement {e d : Str} (he : ¬ "[]".toList <:+ e)
    (hclass : "Class".toList <+: e → e = "Class".toList) (h : resolveElement p implicitImports e = .ok d) :
    descriptorCType d = javaDataTypeToC e := by
  have hjobject : podParamMap.lookup e = none → '/' ∉ e → e ∉ specialNames →
      javaDataTypeToC e = "jobject".toList := fun hpod hs hn => by
    have hclass' : ¬ "Class".toList <+: e := fun hc => hn (hclass hc ▸ by decide)
    rw [javaDataTypeToC_of_not_pod (javaPodTypeMap_lookup_eq_none hpod) he hclass',
      javaTypeMap_lookup_eq_none hpod hs hn]
    rfl
  have hspecial : ∀ n ∈ specialNames,
      descriptorCType ('L' :: "java/lang/".toList ++ n ++ [';']) = javaDataTypeToC n := by decide
  rcases resolveElement_eq_ok h with hpod | ⟨hpod, ⟨hs, rfl⟩ | ⟨hs, ⟨q, hq, rfl⟩ |
    ⟨hq, ⟨q, hqi, hend, rfl⟩ | ⟨q, hqi, -, rfl⟩ | ⟨-, rfl⟩⟩⟩⟩
  · -- a primitive
    obtain ⟨l₁, l₂, hl, -⟩ := List.lookup_eq_some_iff.1 hpod
    have htbl : ∀ x ∈ podParamMap, descriptorCType x.2 = javaDataTypeToC x.1 := by decide
    exact htbl (e, d) (hl ▸ by simp)
  · -- a name with a `/`, taken as it is
    have hclass' : ¬ "Class".toList <+: e := fun hc => absurd (hclass hc ▸ hs) (by decide)
    rw [descriptorCType_object, javaDataTypeToC_of_not_pod (javaPodTypeMap_lookup_eq_none hpod) he hclass',
      javaTypeMap_lookup_of_slash hs]
  · -- a well-known class, the file's class or an inner class
    by_cases hn : e ∈ specialNames
    · rw [List.append_assoc, find_specialName hn] at hq
      cases hq
      exact hspecial e hn
    have hm : matchesQualified e q = true := List.find?_some hq
    obtain ⟨x, rfl⟩ := hp.candidate_eq hfqc (List.mem_of_find?_eq_some hq)
    rw [hjobject hpod hs hn]
    exact descriptorCType_object_of_suffix hs hn fun _ hx => suffix_of_matchesQualified hx hs hm
  all_goals
    have hn : e ∉ specialNames := fun hn => by rw [List.append_assoc, find_specialName hn] at hq; cases hq
    rw [hjobject hpod hs hn]
  · -- an import
    obtain ⟨x, rfl⟩ := hp.import_eq hqi
    exact descriptorCType_object_of_suffix hs hn fun _ _ => endswith_iff.1 hend
  · -- an inner class of an imported outer class
    obtain ⟨x, rfl⟩ := hp.import_eq hqi
    rw [show 'L' :: x ++ '$' :: (split e '.').getLastD [] ++ [';'] =
        'L' :: (x ++ '$' :: (split e '.').getLastD []) ++ [';'] by simp, descriptorCType_object,
      lookup_eq_none_of_mem (by decide) (List.mem_append_right _ (.head _))]
    rfl
  · -- the file's package
    rw [show 'L' :: p.package ++ '/' :: e ++ [';'] = 'L' :: (p.package ++ '/' :: e) ++ [';'] by simp]
    exact descriptorCType_object_of_suffix hs hn fun _ _ => (List.suffix_append _ _).trans (List.suffix_cons _ _)

/-- Past the primitives, `JavaToJni` writes an object descriptor `L<name>;`. -/
theorem resolveElement_eq_object {e d : Str} (h : resolveElement p implicitImports e = .ok d)
    (hpod : podParamMap.lookup e = none) : ∃ x, d = 'L' :: x ++ [';'] := by
  rcases resolveElement_eq_ok h with hpod' | ⟨-, ⟨-, rfl⟩ | ⟨-, ⟨q, hq, rfl⟩ |
    ⟨-, ⟨q, hqi, -, rfl⟩ | ⟨q, hqi, -, rfl⟩ | ⟨-, rfl⟩⟩⟩⟩
  · rw [hpod] at hpod'; cases hpod'
  · exact ⟨e, rfl⟩
  · obtain ⟨x, rfl⟩ := hp.candidate_eq hfqc (List.mem_of_find?_eq_some hq)
    exact ⟨x, rfl⟩
  · obtain ⟨x, rfl⟩ := hp.import_eq hqi
    exact ⟨x, rfl⟩
  · obtain ⟨x, rfl⟩ := hp.import_eq hqi
    exact ⟨x ++ '$' :: (split e '.').getLastD [], by simp⟩
  · exact ⟨p.package ++ '/' :: e, by simp⟩

/-- An array of a resolved element: `[` and a primitive letter is an array of
that primitive, every other array an array of objects, on both sides. -/
theorem descriptorCType_resolveElement_arrays {e d : Str} (h : resolveElement p implicitImports e = .ok d)
    (k : Nat) :
    descriptorCType (List.replicate (k + 1) '[' ++ d) =
      javaDataTypeToC (e ++ (List.replicate (k + 1) "[]".toList).flatten) := by
  rw [javaDataTypeToC_arrays]
  cases k with
  | succ k =>
    rw [List.replicate_succ, List.replicate_succ, List.cons_append, List.cons_append,
      descriptorCType_array_of_not_primitive (by decide)]
    rfl
  | zero =>
    rw [if_pos rfl, List.replicate_one, List.singleton_append]
    rcases resolveElement_eq_ok h with hpod | ⟨hpod, -⟩
    · obtain ⟨l₁, l₂, hl, -⟩ := List.lookup_eq_some_iff.1 hpod
      have htbl : ∀ x ∈ podParamMap, descriptorCType ('[' :: x.2) =
          ((javaPodTypeMap.lookup x.1).map (· ++ "Array".toList)).getD "jobjectArray".toList := by decide
      exact htbl (e, d) (hl ▸ by simp)
    · obtain ⟨x, rfl⟩ := resolveElement_eq_object hp hfqc h hpod
      rw [List.cons_append, descriptorCType_array_of_not_primitive (by decide),
        javaPodTypeMap_lookup_eq_none hpod]
      rfl

/-- The C type of the descriptor `JavaToJni` resolves a type name to is what
`JavaDataTypeToC` gives the name, for every name without type arguments that
starts with `Class` only if it is `Class` or an array. -/
theorem descriptorCType_javaToJni {t d : Str} (hlt : '<' ∉ t)
    (hclass : "Class".toList <+: t → t = "Class".toList ∨ "[]".toList <:+ t)
    (h : javaToJni p implicitImports t = .ok d) : descriptorCType d = javaDataTypeToC t := by
  obtain ⟨e, k, he, rfl⟩ := exists_eq_append_arrays t
  have hle : '<' ∉ e := fun h' => hlt (List.mem_append_left _ h')
  rw [javaToJni_append_arrays, javaToJni_of_not_array p implicitImports he,
    takeWhile_of_not_mem hle] at h
  obtain ⟨de, hde, rfl⟩ := (except_map_eq_ok _ _ _).1 h
  cases k with
  | zero =>
    simp only [List.replicate_zero, List.flatten_nil, List.append_nil, List.nil_append] at hclass ⊢
    exact descriptorCType_resolveElement hp hfqc he (fun hc => (hclass hc).resolve_right he) hde
  | succ k => exact descriptorCType_resolveElement_arrays hp hfqc hde k

end

end JniParams
end JniGenerator
