import JniGenerator.Source
import JniGenerator.Regex.Search

/-!
# `JNIFromJavaP`: the header of a class from its `javap` listing

`JNIFromJavaP(contents, options)` reads the lines of `javap -c -verbose -s`:
the first line naming a public class or interface gives the class, then from
the third line on every method line and every constructor line becomes a
`CalledByNative` whose JNI signature is the descriptor `javap` printed on the
next line, and every `public static final int` field takes its value from the
second or third line after it. The lines are those of `stdout.split('\n')`, so
none holds a line break: there `\Z` and `$` are `eol`.
-/

namespace JniGenerator

open Regex

/-- `.*?(public).*?(class|interface) (?P<class_name>\S+?)( |\Z)`; no code
reads the unnamed groups. -/
def reClassName : Regex := .cat [.manyLazy (.chr .dot), .lit "public".toList, .manyLazy (.chr .dot),
  .alt (.lit "class".toList) (.lit "interface".toList), .lit " ".toList,
  .group "class_name" (.plusLazy (.chr (.neg .space))), .alt (.lit " ".toList) .eol]

/-- The loop over the lines that stops at the first class line; without one
`self.fully_qualified_class` is never set and reading it raises. -/
def findClassName : List Str → Except Error Str
  | [] => .error .attributeError
  | line :: lines =>
    match reClassName.matchPrefix line with
    | some (_, g) => pure ((g.lookup "class_name").getD [])
    | none => findClassName lines

/-- `s[s.find(sub) + len(sub):]`, or `None` where `s.find(sub)` is `-1`. -/
def afterFind (sub : Str) : Str → Option Str
  | [] => if sub = [] then some [] else none
  | c :: s => if startswith (c :: s) sub then some ((c :: s).drop sub.length) else afterFind sub s

/-- `JniParams.ParseJavaPSignature`: the text after `Signature: ` or else
after `descriptor: `, quoted; `str.index` raises when neither is there. -/
def parseJavaPSignature (signatureLine : Str) : Except Error Str := do
  let rest ← match afterFind "Signature: ".toList signatureLine with
    | some rest => pure rest
    | none => match afterFind "descriptor: ".toList signatureLine with
      | some rest => pure rest
      | none => throw .valueError
  pure ('"' :: rest ++ "\"".toList)

/-- `(?P<return_type>\S+?) (?P<name>\w+?)\((?P<params>.*?)\)`, what `re_method`
reads after its prefix. -/
def reMethodTail : List Regex := [.group "return_type" (.plusLazy (.chr (.neg .space))), .lit " ".toList,
  .group "name" (.plusLazy (.chr .word)), .lit "(".toList,
  .group "params" (.manyLazy (.chr .dot)), .lit ")".toList]

/-- `(?P<prefix>.*?)(?P<return_type>\S+?) (?P<name>\w+?)\((?P<params>.*?)\)` -/
def reMethod : Regex := .cat (.group "prefix" (.manyLazy (.chr .dot)) :: reMethodTail)

/-- A class name pasted into a pattern, as `re.compile` reads it: `.` is any
character but a line break and `$` the end of the line, and a word character
stands for itself. Other characters are taken as themselves too, which is what
`re.compile` does only for those that are not operators (`+`, `*`, `?`, `|`,
`(`, `)`, `{`, `}`, `^`, `\` and `[` are): the results about
`reConstructor` assume a name of word characters and `/`. -/
def namePattern (name : Str) : Regex :=
  .cat (name.map fun c => if c = '.' then .chr .dot else if c = '$' then .eol else .chr (.lit c))

/-- `'(.*?)public ' + fully_qualified_class.replace('/', '.') + '\((?P<params>.*?)\)'` -/
def reConstructor (fullyQualifiedClass : Str) : Regex := .cat [.manyLazy (.chr .dot),
  .lit "public ".toList, namePattern (replace fullyQualifiedClass "/".toList ".".toList), .lit "(".toList,
  .group "params" (.manyLazy (.chr .dot)), .lit ")".toList]

/-- `l[i]`, which raises `IndexError` past the end. -/
def getItem (l : List Str) (i : Nat) : Except Error Str :=
  match l.get? i with
  | some a => pure a
  | none => throw .indexError

/-- The two loops that read methods and constructors: from each line `r`
matches, `make` builds the `CalledByNative` from the groups, the parameters
(`JniParams.Parse` of the dotted list made slashed) and the signature read from
the next line, `contents[lineno + 1]`. -/
def calledByNativesOfLines (r : Regex) (make : Groups → List Param → Str → CalledByNative) :
    List Str → Except Error (List CalledByNative)
  | [] => pure []
  | content :: rest =>
    match r.matchPrefix content with
    | none => calledByNativesOfLines r make rest
    | some (_, g) => do
      let params ← JniParams.parse (replace ((g.lookup "params").getD []) ".".toList "/".toList)
      let signatureLine ← getItem rest 0
      let signature ← parseJavaPSignature signatureLine
      let calledByNatives ← calledByNativesOfLines r make rest
      pure (make g params signature :: calledByNatives)

/-- A method of the listing, as a system class's `CalledByNative`. -/
def javaPMethod (g : Groups) (params : List Param) (signature : Str) : CalledByNative :=
  { systemClass := true, unchecked := false
    static := contains ((g.lookup "prefix").getD []) "static".toList
    javaClassName := []
    returnType := replace ((g.lookup "return_type").getD []) ".".toList "/".toList
    name := (g.lookup "name").getD []
    params := params
    signature := some signature }

/-- A constructor of the class `fullyQualifiedClass`. -/
def javaPConstructor (fullyQualifiedClass : Str) (_ : Groups) (params : List Param) (signature : Str) :
    CalledByNative :=
  { systemClass := true, unchecked := false, static := false, javaClassName := []
    returnType := fullyQualifiedClass
    name := "Constructor".toList
    params := params
    signature := some signature
    isConstructor := true }

/-- `.*?public static final int (?P<name>.*?);` -/
def reConstantField : Regex := .cat [.manyLazy (.chr .dot), .lit "public static final int ".toList,
  .group "name" (.manyLazy (.chr .dot)), .lit ";".toList]

/-- `.*?Constant(Value| value): int (?P<value>(-*[0-9]+)?)` -/
def reConstantFieldValue : Regex := .cat [.manyLazy (.chr .dot), .lit "Constant".toList,
  .alt (.lit "Value".toList) (.lit " value".toList), .lit ": int ".toList,
  .group "value" (.opt (.seq (.many (.chr (.lit '-'))) (.plus (.chr .digit))))]

/-- The loop that reads constant fields: the value is on `contents[lineno + 2]`
or else on `contents[lineno + 3]`; a field with neither is skipped. -/
def constantFieldsOfLines : List Str → Except Error (List ConstantField)
  | [] => pure []
  | content :: rest =>
    match reConstantField.matchPrefix content with
    | none => constantFieldsOfLines rest
    | some (_, g) => do
      let line2 ← getItem rest 1
      let value ← match reConstantFieldValue.matchPrefix line2 with
        | some v => pure (some v)
        | none => do
          let line3 ← getItem rest 2
          pure (reConstantFieldValue.matchPrefix line3)
      let constantFields ← constantFieldsOfLines rest
      pure (match value with
        | some (_, vg) => ⟨(g.lookup "name").getD [], (vg.lookup "value").getD []⟩ :: constantFields
        | none => constantFields)

/-! ## The loops -/

theorem calledByNativesOfLines_forall {r : Regex} {make : Groups → List Param → Str → CalledByNative}
    {P : CalledByNative → Prop} (hmake : ∀ g params signature, P (make g params signature)) :
    ∀ {lines : List Str} {calledByNatives : List CalledByNative},
      calledByNativesOfLines r make lines = .ok calledByNatives → ∀ c ∈ calledByNatives, P c
  | [], _, h => by cases h; exact nofun
  | content :: rest, calledByNatives, h => by
    unfold calledByNativesOfLines at h
    split at h
    · exact calledByNativesOfLines_forall hmake h
    · obtain ⟨params, -, h⟩ := (except_bind_eq_ok _ _ _).1 h
      obtain ⟨line, -, h⟩ := (except_bind_eq_ok _ _ _).1 h
      obtain ⟨signature, -, h⟩ := (except_bind_eq_ok _ _ _).1 h
      obtain ⟨cs, hcs, h⟩ := (except_bind_eq_ok _ _ _).1 h
      cases h
      exact List.forall_mem_cons.2 ⟨hmake _ _ _, calledByNativesOfLines_forall hmake hcs⟩

theorem calledByNativesOfLines_of_no_match {r : Regex} {make : Groups → List Param → Str → CalledByNative} :
    ∀ {lines : List Str}, (∀ l ∈ lines, r.matchPrefix l = none) → calledByNativesOfLines r make lines = .ok []
  | [], _ => rfl
  | content :: rest, h => by
    rw [calledByNativesOfLines, h content (.head _)]
    exact calledByNativesOfLines_of_no_match fun l hl => h l (.tail _ hl)

/-! ## A nested class -/

/-- With `$` in it, a class name pasted into a pattern never matches on a line:
`$` ends the line, and a character has to follow. -/
theorem namePattern_m_eq_none {name s : Str} {g : Groups} {k : Cont} (hname : '$' ∈ name)
    (hs : '\n' ∉ s) (hk : ∀ g', k [] g' = none) : (namePattern name).m s g k = none := by
  obtain ⟨n₁, n₂, rfl⟩ := List.append_of_mem hname
  rw [namePattern, List.map_append, List.map_cons, m_cat_append]
  refine m_eq_none_of_cont _ fun s' g' hs' => ?_
  rw [m_cat_cons, if_neg (by decide), if_pos rfl]
  cases s' with
  | nil =>
    rw [m_eol_of_head (s := []) (.inl rfl)]
    exact m_eq_none_of_cont _ fun s'' g'' h => by rw [List.suffix_nil.1 h]; exact hk g''
  | cons c t => exact m_eol_cons fun hc => hs (hc ▸ hs'.subset (.head _))

theorem matchPrefix_reConstructor_eq_none {fullyQualifiedClass line : Str} (hclass : '$' ∈ fullyQualifiedClass)
    (hline : '\n' ∉ line) : (reConstructor fullyQualifiedClass).matchPrefix line = none := by
  have hname : '$' ∈ replace fullyQualifiedClass "/".toList ".".toList :=
    (replace_char _ _ fullyQualifiedClass).symm ▸ List.mem_flatMap.2 ⟨'$', hclass, by simp⟩
  rw [matchPrefix, reConstructor, m_cat_cons]
  refine m_eq_none_of_cont _ fun s₁ _ h₁ => ?_
  rw [m_cat_cons]
  refine m_eq_none_of_cont _ fun s₂ _ h₂ => ?_
  rw [m_cat_cons]
  exact namePattern_m_eq_none hname (fun h => hline ((h₂.trans h₁).subset h)) fun _ => rfl

/-- The class `javap` names, with `.replace('.', '/')` and `.split('<', 1)[0]`. -/
def javaPClass (className : Str) : Str := (split (replace className ".".toList "/".toList) '<').headD []

section
variable (implicitImports : List Str) (options : Options) (licenseHeader : Str)
  (textWrap : Str → Str → List Str)

/-- What `__init__` builds once the class is set, in the class state `p`: the
loops only read the lines, and `MangleCalledByNatives` reads the state. -/
def javaPGenerator (p : JniParams) (fullyQualifiedClass : Str) (contents : List Str) :
    Except Error InlHeaderFileGenerator := do
  let javaClassName := (split fullyQualifiedClass '/').getLastD []
  let namespaceName := if options.namespaceName = [] then "JNI_".toList ++ javaClassName
    else options.namespaceName
  let methods ← calledByNativesOfLines reMethod javaPMethod (contents.drop 2)
  let constructors ← calledByNativesOfLines (reConstructor fullyQualifiedClass)
    (javaPConstructor fullyQualifiedClass) (contents.drop 2)
  let calledByNatives ← mangleCalledByNatives p implicitImports (methods ++ constructors)
  let constantFields ← constantFieldsOfLines (contents.drop 2)
  pure ⟨namespaceName, fullyQualifiedClass, [], calledByNatives, constantFields, options⟩

/-- `JNIFromJavaP(contents, options)`: the class state it sets and the
generator it builds. -/
def jniFromJavaPInit (contents : List Str) : EStateM Error JniParams InlHeaderFileGenerator := do
  let className ← ofExcept (findClassName contents)
  modify (JniParams.setFullyQualifiedClass (javaPClass className))
  let p ← get
  ofExcept (javaPGenerator implicitImports options p (javaPClass className) contents)

/-- `JNIFromJavaP(contents, options).GetContent()` -/
def jniFromJavaP (contents : List Str) : EStateM Error JniParams Str := do
  let g ← jniFromJavaPInit implicitImports options contents
  let p ← get
  ofExcept (g.getContent p implicitImports licenseHeader textWrap)

theorem jniFromJavaPInit_eq_ok {contents : List Str} {p p' : JniParams} {g : InlHeaderFileGenerator}
    (h : (jniFromJavaPInit implicitImports options contents).run p = .ok g p') :
    ∃ className, findClassName contents = .ok className ∧
      p' = JniParams.setFullyQualifiedClass (javaPClass className) p ∧
      javaPGenerator implicitImports options p' (javaPClass className) contents = .ok g := by
  unfold jniFromJavaPInit at h
  cases hc : findClassName contents with
  | error e => simp [hc, run_eq, ofExcept, bind, EStateM.bind, throw, throwThe, MonadExceptOf.throw, EStateM.throw] at h
  | ok className =>
    simp only [hc, run_eq, ofExcept, bind, EStateM.bind, pure, EStateM.pure, modify, modifyGet,
      MonadStateOf.modifyGet, EStateM.modifyGet, get, getThe, MonadStateOf.get, EStateM.get] at h
    refine ⟨className, rfl, ?_⟩
    cases hg : javaPGenerator implicitImports options (JniParams.setFullyQualifiedClass (javaPClass className) p)
      (javaPClass className) contents with
    | error e => rw [hg] at h; cases h
    | ok g' =>
      rw [hg] at h
      cases h
      exact ⟨rfl, hg⟩

theorem javaPGenerator_eq_ok {p : JniParams} {fullyQualifiedClass : Str} {contents : List Str}
    {g : InlHeaderFileGenerator} (h : javaPGenerator implicitImports options p fullyQualifiedClass contents = .ok g) :
    ∃ methods constructors,
      calledByNativesOfLines reMethod javaPMethod (contents.drop 2) = .ok methods ∧
      calledByNativesOfLines (reConstructor fullyQualifiedClass) (javaPConstructor fullyQualifiedClass)
        (contents.drop 2) = .ok constructors ∧
      mangleCalledByNatives p implicitImports (methods ++ constructors) = .ok g.calledByNatives ∧
      constantFieldsOfLines (contents.drop 2) = .ok g.constantFields ∧
      g.fullyQualifiedClass = fullyQualifiedClass ∧ g.natives = [] := by
  obtain ⟨methods, hm, h⟩ := (except_bind_eq_ok _ _ _).1 h
  obtain ⟨constructors, hc, h⟩ := (except_bind_eq_ok _ _ _).1 h
  obtain ⟨calledByNatives, hcb, h⟩ := (except_bind_eq_ok _ _ _).1 h
  obtain ⟨constantFields, hcf, h⟩ := (except_bind_eq_ok _ _ _).1 h
  cases h
  exact ⟨methods, constructors, hm, hc, hcb, hcf, rfl, rfl⟩

/-- The class name is pasted into the constructor pattern unescaped, so for a
nested class, whose binary name holds `$`, no constructor is ever read: every
`CalledByNative` of the header is a method. -/
theorem jniFromJavaPInit_nested_no_constructor {contents : List Str} {p p' : JniParams}
    {g : InlHeaderFileGenerator} (hlines : ∀ l ∈ contents, '\n' ∉ l) (hnested : '$' ∈ g.fullyQualifiedClass)
    (h : (jniFromJavaPInit implicitImports options contents).run p = .ok g p') :
    ∀ c ∈ g.calledByNatives, c.isConstructor = false := by
  obtain ⟨className, -, rfl, hg⟩ := jniFromJavaPInit_eq_ok implicitImports options h
  obtain ⟨methods, constructors, hm, hc, hcb, -, hclass, -⟩ := javaPGenerator_eq_ok implicitImports options hg
  rw [hclass] at hnested
  rw [calledByNativesOfLines_of_no_match fun l hl =>
    matchPrefix_reConstructor_eq_none hnested (hlines l (List.mem_of_mem_drop hl))] at hc
  cases hc
  rw [List.append_nil] at hcb
  have hmethods := calledByNativesOfLines_forall (P := fun c => c.isConstructor = false)
    (fun _ _ _ => rfl) hm
  exact forall_mem_of_forall₂ (mangleCalledByNatives_eq_ok _ _ hcb) fun m hm _ ⟨_, hn⟩ =>
    hn ▸ hmethods m hm

end

/-- `android.os.Build$VERSION`: its constructor line is skipped. -/
theorem jniFromJavaPInit_nested_no_constructor_build_version :
    let contents := ["Compiled from \"Build.java\"".toList, "public class android.os.Build$VERSION \x7b".toList,
      "  public android.os.Build$VERSION();".toList, "    descriptor: ()V".toList, "\x7d".toList]
    let options : Options := ⟨[], [], [], "int".toList, false⟩
    ∃ g p', (jniFromJavaPInit [] options contents).run JniParams.initial = .ok g p' ∧
      '$' ∈ g.fullyQualifiedClass ∧ ∀ c ∈ g.calledByNatives, c.isConstructor = false := by
  intro contents options
  obtain ⟨g, p', h⟩ : ∃ g p', (jniFromJavaPInit [] options contents).run JniParams.initial = .ok g p' :=
    ⟨_, _, rfl⟩
  have hnested : '$' ∈ g.fullyQualifiedClass := by
    obtain ⟨className, hc, -, hg⟩ := jniFromJavaPInit_eq_ok [] options h
    obtain ⟨-, -, -, -, -, -, hclass, -⟩ := javaPGenerator_eq_ok [] options hg
    cases hc
    rw [hclass]
    decide
  exact ⟨g, p', h, hnested, jniFromJavaPInit_nested_no_constructor [] options (by decide) hnested h⟩

end JniGenerator
