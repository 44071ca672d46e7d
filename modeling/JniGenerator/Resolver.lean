import JniGenerator.Regex
import JniGenerator.Params

/-! The class state of `JniParams` and the resolution of Java type names to
JNI descriptors. The state is process-wide in the source; here it is a record
the stateful methods take and return (`EStateM`, so that a raised exception
keeps the updates made before it). The implicit-imports table is read from
`android_jar.classes`, which is not in the repository: it is a parameter. -/

namespace JniGenerator

/-- The class attributes of `JniParams`. -/
structure JniParams where
  imports : List Str
  fullyQualifiedClass : Str
  package : Str
  innerClasses : List Str
  deriving DecidableEq, Repr

/-- `EStateM.run` applies the computation to the state. -/
theorem run_eq {ε σ α : Type} (x : EStateM ε σ α) (s : σ) : x.run s = x s := rfl

namespace JniParams

/-- The attributes as the class body sets them. -/
def initial : JniParams := ⟨[], [], [], []⟩

def setFullyQualifiedClass (fullyQualifiedClass : Str) (p : JniParams) : JniParams :=
  { p with fullyQualifiedClass := 'L' :: fullyQualifiedClass
           package := join "/".toList (split fullyQualifiedClass '/').dropLast }

def addAdditionalImport (className : Str) : EStateM Error JniParams Unit := do
  if !endswith className ".class".toList then throw .assertionError
  let rawClassName := className.take (className.length - ".class".length)
  if contains rawClassName ".".toList then
    throw (.syntaxError (className ++ (" cannot be used in @JNIAdditionalImport. " ++
      "Only import unqualified outer classes.").toList))
  let p ← get
  let newImport := 'L' :: p.package ++ '/' :: rawClassName
  if newImport ∈ p.imports then
    throw (.syntaxError ("Do not use JNIAdditionalImport on an already imported class: ".toList ++
      replace newImport "/".toList ".".toList))
  set { p with imports := p.imports ++ [newImport] }

def addAdditionalImports : List Str → EStateM Error JniParams Unit
  | [] => pure ()
  | className :: rest => do
    addAdditionalImport (strip className)
    addAdditionalImports rest

/-- `import.*?(?P<class>\S*?);` -/
def reImport : Regex := .cat [.lit "import".toList, .manyLazy (.chr .dot),
  .group "class" (.manyLazy (.chr (.neg .space))), .lit ";".toList]

/-- `(class|interface)\s+?(?P<name>\w+?)\W` -/
def reInner : Regex := .cat [.alt (.lit "class".toList) (.lit "interface".toList),
  .plusLazy (.chr .space), .group "name" (.plusLazy (.chr .word)), .chr (.neg .word)]

/-- `@JNIAdditionalImport\(\s*{?(?P<class_names>.*?)}?\s*\)` -/
def reAdditionalImports : Regex := .cat [.lit "@JNIAdditionalImport(".toList,
  .many (.chr .space), .opt (.chr (.lit '{')), .group "class_names" (.manyLazy (.chr .dot)),
  .opt (.chr (.lit '}')), .many (.chr .space), .lit ")".toList]

/-- The imports `re_import` finds in the newline-free contents. -/
def foundImports (contents : Str) : List Str :=
  (reImport.findIter contents).map fun mt =>
    'L' :: replace ((mt.group "class").getD []) ".".toList "/".toList

/-- The names `re_inner` finds, in order. -/
def foundInnerNames (contents : Str) : List Str :=
  (reInner.findIter contents).map fun mt => (mt.group "name").getD []

/-- The inner classes recorded for the found names: those the fully-qualified
class does not end with. -/
def innerClassesOf (fullyQualifiedClass : Str) (names : List Str) : List Str :=
  (names.filter fun inner => !endswith fullyQualifiedClass inner).map
    fun inner => fullyQualifiedClass ++ '$' :: inner

/-- The class names of every `@JNIAdditionalImport`, unstripped. -/
def foundAdditionalImports (contents : Str) : List Str :=
  (reAdditionalImports.findIter contents).flatMap fun mt =>
    split ((mt.group "class_names").getD []) ','

def extractImportsAndInnerClasses (contents : Str) : EStateM Error JniParams Unit := do
  let p ← get
  if p.package = [] then
    throw (.runtimeError ("SetFullyQualifiedClass must be called before " ++
      "ExtractImportsAndInnerClasses").toList)
  let contents := replace contents "\n".toList []
  set { p with imports := p.imports ++ foundImports contents
               innerClasses := p.innerClasses ++
                 innerClassesOf p.fullyQualifiedClass (foundInnerNames contents) }
  addAdditionalImports (foundAdditionalImports contents)

/-! ## `JavaToJni` -/

def podParamMap : List (Str × Str) :=
  [("int".toList, "I".toList), ("boolean".toList, "Z".toList), ("char".toList, "C".toList),
   ("short".toList, "S".toList), ("long".toList, "J".toList), ("double".toList, "D".toList),
   ("float".toList, "F".toList), ("byte".toList, "B".toList), ("void".toList, "V".toList)]

def objectParamList : List Str :=
  ["Ljava/lang/Boolean".toList, "Ljava/lang/Integer".toList, "Ljava/lang/Long".toList,
   "Ljava/lang/Object".toList, "Ljava/lang/String".toList, "Ljava/lang/Class".toList,
   "Ljava/lang/CharSequence".toList, "Ljava/lang/Runnable".toList,
   "Ljava/lang/Throwable".toList]

/-- The `while param[-2:] == '[]'` loop on the reversed name: the number of
trailing `[]` pairs and the reversed name without them. -/
def stripArraysRev : Str → Nat × Str
  | ']' :: '[' :: rest => let r := stripArraysRev rest; (r.1 + 1, r.2)
  | rest => (0, rest)

/-- The condition of the first resolution loop, for one qualified name. -/
def matchesQualified (param qualifiedName : Str) : Bool :=
  endswith qualifiedName ('/' :: param) ||
    endswith qualifiedName ('$' :: replace param ".".toList "$".toList) ||
    qualifiedName == 'L' :: param

/-- The `Please import the outer class` rejection of an imported inner class. -/
def checkNotInnerImport (qualifiedName param : Str) : Except Error Unit :=
  let components := split qualifiedName '/'
  if components.length > 2 then
    match components[components.length - 2]? with
    | some (c :: _) =>
      if c.isUpper then
        .error (.syntaxError ("Inner class (".toList ++ qualifiedName ++
          ") can not be imported and used by JNI (".toList ++ param ++
          "). Please import the outer class and use Outer.Inner instead.".toList))
      else pure ()
    | _ => .error .indexError
  else pure ()

def checkImplicitImports (implicitImports : List Str) (param : Str) : Except Error Unit :=
  match implicitImports.find? (fun line =>
      endswith (implicitImportName line) ('.' :: param)) with
  | some line =>
    .error (.syntaxError ("Ambiguous class (".toList ++ param ++
      ") can not be used directly by JNI.\nPlease import it, probably:\n\nimport ".toList ++
      implicitImportName line ++ ";".toList))
  | none => pure ()
where
  implicitImportName (line : Str) : Str :=
    replace (replace (strip line) ".class".toList []) "/".toList ".".toList

/-- `JavaToJni` after the array prefix is split off: resolves an element type. -/
def resolveElement (p : JniParams) (implicitImports : List Str) (param : Str) :
    Except Error Str :=
  match podParamMap.lookup param with
  | some code => pure code
  | none =>
  if '/' ∈ param then pure ('L' :: param ++ ";".toList)
  else
  match (objectParamList ++ [p.fullyQualifiedClass] ++ p.innerClasses).find?
      (matchesQualified param) with
  | some qualifiedName => pure (qualifiedName ++ ";".toList)
  | none =>
  match p.imports.find? (fun q => endswith q ('/' :: param)) with
  | some qualifiedName => do
    checkNotInnerImport qualifiedName param
    pure (qualifiedName ++ ";".toList)
  | none =>
  if '.' ∈ param then
    let components := split param '.'
    let outer := join "/".toList components.dropLast
    let inner := components.getLastD []
    match p.imports.find? (fun q => endswith q ('/' :: outer)) with
    | some qualifiedName => pure (qualifiedName ++ '$' :: inner ++ ";".toList)
    | none =>
      .error (.syntaxError ("Inner class (".toList ++ param ++
        ") can not be used directly by JNI. Please import the outer class, probably:\nimport ".toList ++
        replace p.package "/".toList ".".toList ++ '.' :: replace outer "/".toList ".".toList ++
        ";".toList))
  else do
    checkImplicitImports implicitImports param
    -- Type not found, falling back to same package as this class.
    pure ('L' :: p.package ++ '/' :: param ++ ";".toList)

/-- Converts a java param into a JNI signature type. -/
def javaToJni (p : JniParams) (implicitImports : List Str) (param : Str) : Except Error Str :=
  let (depth, elementRev) := stripArraysRev param.reverse
  -- `param[:param.index('<')]` when `'<' in param`
  let element := elementRev.reverse.takeWhile (· ≠ '<')
  (List.replicate depth '[' ++ ·) <$> resolveElement p implicitImports element

/-! ### Array suffixes and type arguments

The array loop runs on the whole name before the type arguments are cut, and
neither step reads the rest of the resolution: a trailing `[]` only adds a
`[` to a result, and `<g>` before the suffix is dropped. -/

theorem stripArraysRev_arrays (k : Nat) (r : Str) :
    stripArraysRev ((List.replicate k "][".toList).flatten ++ r) =
      ((stripArraysRev r).1 + k, (stripArraysRev r).2) := by
  induction k with
  | zero => simp
  | succ k ih =>
    rw [List.replicate_succ, List.flatten_cons, List.append_assoc]
    show stripArraysRev (']' :: '[' :: ((List.replicate k "][".toList).flatten ++ r)) = _
    simp only [stripArraysRev, ih, Nat.add_assoc]

theorem reverse_arrays (k : Nat) :
    ((List.replicate k "[]".toList).flatten).reverse = (List.replicate k "][".toList).flatten := by
  simp [List.reverse_flatten]

/-- Every name, whatever it ends with: `k` more pairs of `[]` give `k` more `[`. -/
theorem javaToJni_append_arrays (p : JniParams) (implicitImports : List Str) (e : Str) (k : Nat) :
    javaToJni p implicitImports (e ++ (List.replicate k "[]".toList).flatten) =
      (List.replicate k '[' ++ ·) <$> javaToJni p implicitImports e := by
  rcases h : stripArraysRev e.reverse with ⟨d, r⟩
  simp only [javaToJni, List.reverse_append, reverse_arrays, stripArraysRev_arrays, h,
    Functor.map_map]
  congr 1
  funext x
  rw [Nat.add_comm, List.replicate_add, List.append_assoc]

theorem stripArraysRev_reverse {e : Str} (he : ¬ "[]".toList <:+ e) :
    stripArraysRev e.reverse = (0, e.reverse) := by
  unfold stripArraysRev
  split
  · next rest h => exact absurd ⟨rest.reverse, by simpa using congrArg List.reverse h.symm⟩ he
  · rfl

/-- A name with no array suffix is resolved up to its first `<`. -/
theorem javaToJni_of_not_array (p : JniParams) (implicitImports : List Str) {e : Str}
    (he : ¬ "[]".toList <:+ e) :
    javaToJni p implicitImports e = resolveElement p implicitImports (e.takeWhile (· ≠ '<')) := by
  simp only [javaToJni, stripArraysRev_reverse he, List.reverse_reverse, List.replicate_zero,
    List.nil_append, id_map']

theorem takeWhile_of_not_mem {c : Char} {s : Str} (h : c ∉ s) : s.takeWhile (· ≠ c) = s :=
  List.takeWhile_eq_self_iff.2 fun x hx => by simpa using ne_of_mem_of_not_mem hx h

theorem takeWhile_append_cons_of_not_mem {c : Char} {s : Str} (h : c ∉ s) (r : Str) :
    (s ++ c :: r).takeWhile (· ≠ c) = s := by
  rw [List.takeWhile_append_of_pos fun x hx => by simpa using ne_of_mem_of_not_mem hx h]
  simp

theorem not_array_generic (t g : Str) : ¬ "[]".toList <:+ t ++ '<' :: g ++ ['>'] := by
  rintro ⟨u, hu⟩
  have h := congrArg List.getLast? hu
  rw [List.getLast?_concat] at h
  simp at h

theorem javaToJni_generic (p : JniParams) (implicitImports : List Str) {t : Str} (g : Str)
    (ht : ¬ "[]".toList <:+ t) (hlt : '<' ∉ t) :
    javaToJni p implicitImports (t ++ '<' :: g ++ ['>']) = javaToJni p implicitImports t := by
  rw [javaToJni_of_not_array p _ ht, javaToJni_of_not_array p _ (not_array_generic t g),
    List.append_assoc, List.cons_append, takeWhile_append_cons_of_not_mem hlt, takeWhile_of_not_mem hlt]

theorem javaToJni_array_generic_suffix (p : JniParams) (implicitImports : List Str) (t g : Str)
    (k : Nat) (ht : ¬ "[]".toList <:+ t) (hlt : '<' ∉ t) :
    javaToJni p implicitImports (t ++ (List.replicate k "[]".toList).flatten) =
        (List.replicate k '[' ++ ·) <$> javaToJni p implicitImports t ∧
      javaToJni p implicitImports (t ++ '<' :: g ++ '>' :: (List.replicate k "[]".toList).flatten) =
        (List.replicate k '[' ++ ·) <$> javaToJni p implicitImports t := by
  refine ⟨javaToJni_append_arrays p _ t k, ?_⟩
  rw [show t ++ '<' :: g ++ '>' :: (List.replicate k "[]".toList).flatten =
      t ++ '<' :: g ++ ['>'] ++ (List.replicate k "[]".toList).flatten by simp,
    javaToJni_append_arrays, javaToJni_generic p _ g ht hlt]

theorem javaToJni_array_generic_suffix_string :
    ¬ "[]".toList <:+ "String".toList ∧ '<' ∉ "String".toList ∧
      (javaToJni initial [] "String[][]".toList = .ok "[[Ljava/lang/String;".toList ∧
        javaToJni initial [] "String<?>[][]".toList = .ok "[[Ljava/lang/String;".toList) :=
  ⟨by decide, by decide,
    javaToJni_array_generic_suffix initial [] "String".toList "?".toList 2 (by decide) (by decide)⟩

/-- Returns the JNI signature for the given datatypes. -/
def signature (p : JniParams) (implicitImports : List Str) (params : List Param)
    (returns : Str) (wrap : Bool) : Except Error Str := do
  let args ← params.mapM fun param => javaToJni p implicitImports param.datatype
  let ret ← javaToJni p implicitImports returns
  let items := ["(".toList] ++ args ++ [")".toList] ++ [ret]
  if wrap then pure ('\n' :: join "\n".toList (items.map fun item => '"' :: item ++ "\"".toList))
  else pure ('"' :: join [] items ++ "\"".toList)

end JniParams

end JniGenerator
