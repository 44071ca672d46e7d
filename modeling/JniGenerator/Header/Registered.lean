import JniGenerator.Header.Generator
import JniGenerator.MethodDescriptor

/-!
# A registered native as the JVM calls it

`RegisterNatives` binds each native to its stub `GetStubName(native)` under the
signature `GetKMethodArrayEntry` writes. The JVM calls the stub with the
arguments that signature types, as C values of the types `jni.h` gives their
descriptors (`descriptorCType`); the stub declares its parameters and its
result with `JavaDataTypeToC`. The two agree for the type names
`SimpleTypeName` admits, in a class state whose names are `L<class>` and hold
none of the `stopChars`.

Proved here, from `decodeMethodDescriptor_signature` and
`descriptorCType_javaToJni`:

* `getKMethodArrayEntry_types`: the C string of the entry's signature is a
  method descriptor with one descriptor per parameter; the stub declares each
  parameter with the C type of its descriptor and returns the C type of the
  return descriptor.
-/

namespace JniGenerator

/-- A type name whose descriptor and C type agree: no type arguments, `Class`
only as itself or an array, and none of the stop characters. -/
def SimpleTypeName (t : Str) : Prop :=
  '<' ∉ t ∧ ("Class".toList <+: t → t = "Class".toList ∨ "[]".toList <:+ t) ∧ ∀ c ∈ stopChars, c ∉ t

instance : DecidablePred SimpleTypeName := fun _ => inferInstanceAs (Decidable (_ ∧ _))

theorem map_eq_of_forall₂ {α β γ : Type} {R : α → β → Prop} {f : β → γ} {g : α → γ} :
    ∀ {l₁ : List α} {l₂ : List β}, List.Forall₂ R l₁ l₂ → (∀ a ∈ l₁, ∀ b, R a b → f b = g a) →
      l₂.map f = l₁.map g
  | _, _, .nil, _ => rfl
  | _, _, .cons hab hl, h => by
    rw [List.map_cons, List.map_cons, h _ (.head _) _ hab,
      map_eq_of_forall₂ hl fun a ha => h a (.tail _ ha)]

namespace InlHeaderFileGenerator

variable (g : InlHeaderFileGenerator) {p : JniParams} {implicitImports : List Str}

/-- The registration entry of a native and its stub agree on its C types: the
signature's C string decodes to one descriptor per parameter, the stub
declares each parameter with the C type of its descriptor, and its result has
the C type of the return descriptor. -/
theorem getKMethodArrayEntry_types (hp : p.Qualified) (hfqc : p.fullyQualifiedClass.head? = some 'L')
    (hs : ∀ c ∈ stopChars, p.Avoids c) {native : NativeMethod} {entry : Str}
    (hparams : ∀ param ∈ native.params, SimpleTypeName param.datatype ∧
      param.datatype.takeWhile (fun c => c != '<' && c != '[') ≠ "void".toList)
    (hreturn : SimpleTypeName native.returnType ∧
      (native.returnType.takeWhile (fun c => c != '<' && c != '[') = "void".toList →
        native.returnType = "void".toList))
    (h : g.getKMethodArrayEntry p implicitImports native = .ok entry) :
    ∃ jniSignature args ret, entry = kMethodArrayEntryTemplate native.name jniSignature (g.getStubName native) ∧
      cStringLiterals jniSignature = some ('(' :: args.flatten ++ ')' :: ret) ∧
      decodeMethodDescriptor ('(' :: args.flatten ++ ')' :: ret) = some (args, ret) ∧
      getParamsInStub native = join ",\n    ".toList (getJNIFirstParam native false ++
        List.zipWith (fun cType param => cType ++ ' ' :: param.name) (args.map descriptorCType) native.params) ∧
      descriptorCType ret = javaDataTypeToC native.returnType := by
  obtain ⟨sig, hsig, hentry⟩ := (except_bind_eq_ok _ _ _).1 h
  obtain ⟨args, ret, hargs, hret, hc, hdec⟩ := JniParams.decodeMethodDescriptor_signature hp hfqc hs true
    (fun param hparam => ⟨(hparams param hparam).1.2.2, (hparams param hparam).2⟩)
    ⟨hreturn.1.2.2, hreturn.2⟩ hsig
  have hmap : args.map descriptorCType = native.params.map fun param => javaDataTypeToC param.datatype :=
    map_eq_of_forall₂ hargs fun param hparam _ hd =>
      JniParams.descriptorCType_javaToJni hp hfqc (hparams param hparam).1.1 (hparams param hparam).1.2.1 hd
  refine ⟨sig, args, ret, (Except.ok.inj hentry).symm, hc, hdec, ?_,
    JniParams.descriptorCType_javaToJni hp hfqc hreturn.1.1 hreturn.1.2.1 hret⟩
  rw [hmap, List.zipWith_map_left, List.zipWith_same]
  rfl

/-- A static native taking an `int[]`, an imported class and a `String`, and
returning an `int`. -/
theorem getKMethodArrayEntry_types_sum :
    let p : JniParams := ⟨["Lorg/example/Foo".toList], "Lorg/example/Main".toList, "org/example".toList, []⟩
    let native : NativeMethod := ⟨true, none, "int".toList, "Sum".toList,
      [⟨"int[]".toList, "values".toList⟩, ⟨"Foo".toList, "foo".toList⟩, ⟨"String".toList, "s".toList⟩],
      .function⟩
    let g : InlHeaderFileGenerator :=
      ⟨[], "org/example/Main".toList, [native], [], [], ⟨[], [], [], "int".toList, true⟩⟩
    ∃ entry, g.getKMethodArrayEntry p [] native = .ok entry ∧
    ∃ jniSignature args ret, entry = kMethodArrayEntryTemplate native.name jniSignature (g.getStubName native) ∧
      cStringLiterals jniSignature = some ('(' :: args.flatten ++ ')' :: ret) ∧
      decodeMethodDescriptor ('(' :: args.flatten ++ ')' :: ret) = some (args, ret) ∧
      getParamsInStub native = join ",\n    ".toList (getJNIFirstParam native false ++
        List.zipWith (fun cType param => cType ++ ' ' :: param.name) (args.map descriptorCType) native.params) ∧
      descriptorCType ret = javaDataTypeToC native.returnType := by
  intro p native g
  have hs : ∀ c ∈ stopChars, p.Avoids c := by
    intro c hc
    exact ⟨fun _ => by revert c; decide, fun _ => by revert c; decide, nofun,
      fun q hq _ => by revert q c; decide⟩
  obtain ⟨entry, h⟩ : ∃ entry, g.getKMethodArrayEntry p [] native = .ok entry := ⟨_, rfl⟩
  exact ⟨entry, h, getKMethodArrayEntry_types g (⟨by decide, by decide⟩ : p.Qualified) rfl hs
    (by decide) (by decide) h⟩

end InlHeaderFileGenerator

end JniGenerator
