import JniGenerator.Resolver
import JniGenerator.Entities
import JniGenerator.Regex.Match

/-! Overload mangling: `GetMangledParam`, `GetMangledMethodName` and
`MangleCalledByNatives`, which names the method-ID cache cell and stub of each
called-by-native declaration. -/

namespace JniGenerator

/-- The loop `for i in range(1, len(datatype))` of `GetMangledParam`, with the
previous character `prev = datatype[i - 1]`. -/
def mangleChars (prev : Char) : Str → Str
  | [] => []
  | c :: rest =>
    (if c = '[' then ['A'] else if c.isUpper || prev = '/' || prev = 'L' then [c.toUpper] else []) ++
      mangleChars c rest

/-- Returns a mangled identifier for the datatype. -/
def getMangledParam (datatype : Str) : Str :=
  if datatype.length ≤ 2 then replace datatype "[".toList "A".toList
  else match datatype with
    | c :: rest => mangleChars c rest
    | [] => []

/-- `[0-9a-zA-Z_]+`, which `re.match` checks at the start of the name only. -/
def reMangledName : Regex := .plus (.chr .word)

section
variable (p : JniParams) (implicitImports : List Str)

/-- Returns a mangled method name for the given signature. -/
def getMangledMethodName (name : Str) (params : List Param) (returnType : Str) :
    Except Error Str := do
  let mangledItems ← (returnType :: params.map Param.datatype).mapM fun datatype =>
    getMangledParam <$> JniParams.javaToJni p implicitImports datatype
  let mangledName := name ++ join "_".toList mangledItems
  if (reMangledName.matchPrefix mangledName).isNone then throw .assertionError
  pure mangledName

/-- `re.match(r'[0-9a-zA-Z_]+', s)` succeeds as soon as the first character is
a word character. -/
theorem matchPrefix_reMangledName_isSome {c : Char} (hc : isWord c = true) (s : Str) :
    (reMangledName.matchPrefix (c :: s)).isSome := by
  have hrest : ∀ x ∈ ((c :: s).dropWhile isWord).head?, CharClass.word.test x = false := by
    intro x hx
    have h := List.head?_dropWhile_not isWord (c :: s)
    rw [hx] at h
    exact h
  have hw : (c :: s).takeWhile isWord ≠ [] ∧
      ∀ x ∈ (c :: s).takeWhile isWord, CharClass.word.test x = true :=
    ⟨by simp [List.takeWhile_cons, hc], fun x hx => List.mem_takeWhile_imp hx⟩
  unfold Regex.matchPrefix reMangledName
  rw [← List.takeWhile_append_dropWhile isWord (c :: s), Regex.m_plus_chr_eq_of_some hw hrest rfl]
  rfl

/-- For a method name of word characters the assertion never fails: the result
is the name followed by the mangled descriptors, whatever characters they hold. -/
theorem getMangledMethodName_of_word {name : Str} (hname : name ≠ [] ∧ ∀ c ∈ name, isWord c = true)
    (params : List Param) (returnType : Str) :
    getMangledMethodName p implicitImports name params returnType =
      (fun items => name ++ join "_".toList items) <$>
        (returnType :: params.map Param.datatype).mapM fun datatype =>
          getMangledParam <$> JniParams.javaToJni p implicitImports datatype := by
  obtain ⟨c, cs, rfl⟩ := List.exists_cons_of_ne_nil hname.1
  unfold getMangledMethodName
  cases (returnType :: params.map Param.datatype).mapM fun datatype =>
      getMangledParam <$> JniParams.javaToJni p implicitImports datatype with
  | error e => rfl
  | ok items =>
    have h := matchPrefix_reMangledName_isSome (hname.2 c (.head _)) (cs ++ join "_".toList items)
    simp only [bind, Except.bind, Option.isNone_iff_eq_none, List.cons_append]
    rw [if_neg (Option.isSome_iff_ne_none.1 h)]
    rfl

/-- A class imported as `java.net.URL` resolves to `Ljava/net/URL;`, which
`GetMangledParam` turns into `JNURL;`: the name `fooJNURL;` passes the
assertion. -/
theorem getMangledMethodName_url_semicolon :
    getMangledMethodName ⟨["Ljava/net/URL".toList], "Lorg/example/Foo".toList, "org/example".toList, []⟩
      implicitImports "foo".toList [] "URL".toList = .ok "fooJNURL;".toList := rfl

/-- `method_counts[java_class_name][name]` -/
def methodCount (calledByNatives : List CalledByNative) (c : CalledByNative) : Nat :=
  (calledByNatives.filter fun c' => c'.javaClassName == c.javaClassName && c'.name == c.name).length

/-- Mangles all the overloads from the call_by_natives list. -/
def mangleCalledByNatives (calledByNatives : List CalledByNative) :
    Except Error (List CalledByNative) :=
  calledByNatives.mapM fun c => do
    let methodIdVarName ← if methodCount calledByNatives c > 1 then
        getMangledMethodName p implicitImports c.name c.params c.returnType
      else pure c.name
    pure { c with methodIdVarName := some methodIdVarName }

/-- Mangling only names the method-ID cache cell of each declaration. -/
theorem mangleCalledByNatives_eq_ok {calledByNatives mangled : List CalledByNative}
    (h : mangleCalledByNatives p implicitImports calledByNatives = .ok mangled) :
    List.Forall₂ (fun c c' => ∃ n, c' = { c with methodIdVarName := some n }) calledByNatives mangled :=
  (mapM_eq_ok_iff.1 h).imp fun c _ hc => by
    dsimp only at hc
    split at hc
    · obtain ⟨n, -, hn⟩ := (except_bind_eq_ok _ _ _).1 hc
      exact ⟨n, (Except.ok.inj hn).symm⟩
    · exact ⟨c.name, (Except.ok.inj hc).symm⟩

/-- The two overloads `void foo(int[] a)` and `void foo(int[][] a)` of one class
get the same method-ID name, in every resolution state. -/
theorem mangleCalledByNatives_int_array_overloads_collide :
    (mangleCalledByNatives p implicitImports
      [{ systemClass := false, unchecked := false, static := false, javaClassName := []
         returnType := "void".toList, name := "foo".toList, params := [⟨"int[]".toList, "a".toList⟩] },
       { systemClass := false, unchecked := false, static := false, javaClassName := []
         returnType := "void".toList, name := "foo".toList,
         params := [⟨"int[][]".toList, "a".toList⟩] }]).map (·.map CalledByNative.methodIdVarName) =
      .ok [some "fooV_AI".toList, some "fooV_AI".toList] := rfl

end

end JniGenerator
