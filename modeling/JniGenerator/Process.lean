import JniGenerator.Source
import JniGenerator.ClassState
import JniGenerator.Descriptors

/-!
# The class state over a process

`processFiles` handles files one after another in one class state. Each file
sets the class, then extracts its imports and inner classes, and then only
reads the state: the extractors and the header read it through `get`, and
nothing after the extraction writes it. So the state a file resolves its names
in (`resolutionState`) is also the state it leaves (`afterFile_eq_resolutionState`),
and one lemma says everything a file does to the state (`resolutionState_eq`):
it sets the class and the package and appends to the imports and the inner
classes.

Proved here, from that step lemma and by induction over the files before:

* `imports_prefix_stateAfter`: the imports and inner classes of a state are a
  prefix of those of every later state of the process;
* `qualified_stateAfter`: every state of a process holds only names `L<class>`;
* `descriptorCType_javaToJni_of_run`: so in every file of every process,
  `JavaToJni` and `JavaDataTypeToC` agree on the C type of every name that
  `descriptorCType_javaToJni` covers.
-/

namespace JniGenerator

open JniParams

theorem finalState_ofExcept {α : Type} (x : Except Error α) (p : JniParams) :
    finalState (ofExcept x) p = p := by
  cases x <;> rfl

/-! ## What `ExtractImportsAndInnerClasses` appends -/

theorem finalState_extractImportsAndInnerClasses_of_package_nil (contents : Str) {p : JniParams}
    (hp : p.package = []) : finalState (extractImportsAndInnerClasses contents) p = p := by
  unfold extractImportsAndInnerClasses
  simp only [finalState_bind, run_eq, get, getThe, MonadStateOf.get, EStateM.get, hp, if_true]
  rfl

/-- Raising or not, the extraction appends imports `L<class>` and inner classes
of the file's class, and changes nothing else. -/
theorem finalState_extract_eq (contents : Str) (p : JniParams) :
    ∃ imports inner : List Str, (∀ q ∈ imports, q.head? = some 'L') ∧
      (∀ q ∈ inner, ∃ x, q = p.fullyQualifiedClass ++ x) ∧
      finalState (extractImportsAndInnerClasses contents) p =
        { p with imports := p.imports ++ imports, innerClasses := p.innerClasses ++ inner } := by
  by_cases hpk : p.package = []
  · refine ⟨[], [], by simp, by simp, ?_⟩
    rw [finalState_extractImportsAndInnerClasses_of_package_nil contents hpk]
    simp
  · obtain ⟨extra, hextra, heq⟩ := finalState_extractImportsAndInnerClasses contents hpk
    refine ⟨foundImports (contents.filter (· != '\n')) ++ extra,
      innerClassesOf p.fullyQualifiedClass (foundInnerNames (contents.filter (· != '\n'))),
      fun q hq => ?_, fun q hq => ?_, by rw [heq, List.append_assoc]⟩
    · rcases List.mem_append.1 hq with hq | hq
      · obtain ⟨mt, -, rfl⟩ := List.mem_map.1 hq
        rfl
      · obtain ⟨raw, -, rfl⟩ := hextra q hq
        rfl
    · obtain ⟨inner, -, -, rfl⟩ := mem_innerClassesOf.1 hq
      exact ⟨_, rfl⟩

/-! ## One file -/

/-- The class state in which `JNIFromJavaSource` resolves the names of a file
(the `p ← get` after the extraction): the state after `SetFullyQualifiedClass`
and `ExtractImportsAndInnerClasses`. -/
def resolutionState (file : Str × Str) (p : JniParams) : JniParams :=
  finalState (extractImportsAndInnerClasses (removeComments file.1)) (setFullyQualifiedClass file.2 p)

/-- What a file does to the class state: it sets the class and the package,
and appends imports `L<class>` and inner classes of its class. -/
theorem resolutionState_eq (file : Str × Str) (p : JniParams) :
    ∃ imports inner : List Str, (∀ q ∈ imports, q.head? = some 'L') ∧
      (∀ q ∈ inner, ∃ x, q = 'L' :: file.2 ++ x) ∧
      resolutionState file p = { setFullyQualifiedClass file.2 p with
        imports := p.imports ++ imports, innerClasses := p.innerClasses ++ inner } :=
  finalState_extract_eq (removeComments file.1) (setFullyQualifiedClass file.2 p)

theorem qualified_resolutionState {p : JniParams} (hp : p.Qualified) (file : Str × Str) :
    (resolutionState file p).Qualified ∧ (resolutionState file p).fullyQualifiedClass.head? = some 'L' := by
  obtain ⟨imports, inner, himports, hinner, heq⟩ := resolutionState_eq file p
  rw [heq]
  refine ⟨⟨fun q hq => ?_, fun q hq => ?_⟩, rfl⟩
  · rcases List.mem_append.1 hq with hq | hq
    · exact hp.innerClasses_head q hq
    · obtain ⟨x, rfl⟩ := hinner q hq
      rfl
  · rcases List.mem_append.1 hq with hq | hq
    · exact hp.imports_head q hq
    · exact himports q hq

section
variable (implicitImports : List Str) (options : Options) (licenseHeader : Str)
  (textWrap : Str → Str → List Str)

theorem afterFile_eq_finalState (file : Str × Str) (p : JniParams) :
    afterFile implicitImports options licenseHeader textWrap file p =
      finalState (jniFromJavaSource implicitImports options licenseHeader textWrap file.1 file.2) p := by
  unfold afterFile finalState
  cases (jniFromJavaSource implicitImports options licenseHeader textWrap file.1 file.2).run p <;> rfl

/-- Past the extraction, `JNIFromJavaSource` only reads the class state. -/
theorem afterFile_eq_resolutionState (file : Str × Str) (p : JniParams) :
    afterFile implicitImports options licenseHeader textWrap file p = resolutionState file p := by
  rw [afterFile_eq_finalState]
  unfold jniFromJavaSource resolutionState
  simp only [finalState_bind, run_eq, modify, modifyGet, MonadStateOf.modifyGet, EStateM.modifyGet]
  conv_rhs => unfold finalState
  simp only [run_eq]
  cases extractImportsAndInnerClasses (removeComments file.1) (setFullyQualifiedClass file.2 p) with
  | error e s => rfl
  | ok _ s =>
    dsimp only [get, getThe, MonadStateOf.get, EStateM.get]
    cases extractNatives (removeComments file.1) options.ptrType with
    | error e => rfl
    | ok natives =>
      cases extractCalledByNatives s implicitImports (removeComments file.1) with
      | error e => rfl
      | ok calledByNatives =>
        simp only [ofExcept, pure, EStateM.pure]
        by_cases hn : natives = [] ∧ calledByNatives = []
        · rw [if_pos hn, finalState_bind]
          rfl
        · rw [if_neg hn, finalState_bind]
          exact finalState_ofExcept _ s

/-! ## Runs -/

/-- The class state of a process after it has handled `files` from `p`. -/
def stateAfter (files : List (Str × Str)) (p : JniParams) : JniParams :=
  files.foldl (fun p file => afterFile implicitImports options licenseHeader textWrap file p) p

@[simp] theorem stateAfter_cons (file : Str × Str) (files : List (Str × Str)) (p : JniParams) :
    stateAfter implicitImports options licenseHeader textWrap (file :: files) p =
      stateAfter implicitImports options licenseHeader textWrap files
        (afterFile implicitImports options licenseHeader textWrap file p) := rfl

/-- A process never drops an import or an inner class: those of a state are a
prefix of those of every later state. -/
theorem imports_prefix_stateAfter (files : List (Str × Str)) (p : JniParams) :
    p.imports <+: (stateAfter implicitImports options licenseHeader textWrap files p).imports ∧
      p.innerClasses <+: (stateAfter implicitImports options licenseHeader textWrap files p).innerClasses := by
  induction files generalizing p with
  | nil => exact ⟨List.prefix_refl _, List.prefix_refl _⟩
  | cons file files ih =>
    rw [stateAfter_cons, afterFile_eq_resolutionState]
    obtain ⟨hi, hc⟩ := ih (resolutionState file p)
    obtain ⟨imports, inner, -, -, heq⟩ := resolutionState_eq file p
    rw [heq] at hi hc ⊢
    exact ⟨(List.prefix_append _ _).trans hi, (List.prefix_append _ _).trans hc⟩

theorem qualified_stateAfter (files : List (Str × Str)) {p : JniParams} (hp : p.Qualified) :
    (stateAfter implicitImports options licenseHeader textWrap files p).Qualified := by
  induction files generalizing p with
  | nil => exact hp
  | cons file files ih =>
    rw [stateAfter_cons, afterFile_eq_resolutionState]
    exact ih (qualified_resolutionState hp file).1

theorem qualified_initial : initial.Qualified := ⟨nofun, nofun⟩

/-- In every process, each file resolves its names in a state where the C type
of a resolved descriptor is the C type `JavaDataTypeToC` gives the name. -/
theorem descriptorCType_javaToJni_of_run (pre : List (Str × Str)) (file : Str × Str) {t d : Str}
    (hlt : '<' ∉ t) (hclass : "Class".toList <+: t → t = "Class".toList ∨ "[]".toList <:+ t)
    (h : javaToJni (resolutionState file
      (stateAfter implicitImports options licenseHeader textWrap pre initial)) implicitImports t = .ok d) :
    descriptorCType d = javaDataTypeToC t :=
  have hs := qualified_resolutionState
    (qualified_stateAfter implicitImports options licenseHeader textWrap pre qualified_initial) file
  descriptorCType_javaToJni hs.1 hs.2 hlt hclass h

end

/-- The first file of a process, with one import, and an array of the imported class. -/
theorem descriptorCType_javaToJni_of_run_import :
    let options : Options := ⟨[], [], [], "int".toList, false⟩
    let s := resolutionState ("import q.Foo;".toList, "q/A".toList)
      (stateAfter [] options [] (fun _ line => [line]) [] initial)
    javaToJni s [] "Foo[]".toList = .ok "[Lq/Foo;".toList ∧
      descriptorCType "[Lq/Foo;".toList = javaDataTypeToC "Foo[]".toList := by
  intro options s
  have h : javaToJni s [] "Foo[]".toList = .ok "[Lq/Foo;".toList := rfl
  exact ⟨h, descriptorCType_javaToJni_of_run [] options [] (fun _ line => [line]) [] _
    (by decide) (by decide) h⟩

end JniGenerator
