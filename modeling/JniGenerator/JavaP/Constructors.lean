import JniGenerator.JavaP.Fields

/-!
# The constructors of a `javap` listing

`javap` prints a constructor as its indent, `public `, the class's name dotted
and its parameter types, then its descriptor. `JNIFromJavaP` pastes the class
name into `re_constructor` as it is, and its method loop runs over the same
lines. Proved here:

* `calledByNativesOfLines_javaPConstructors`: for a class whose name has no
  `$`, the constructor loop reads every constructor back;
* `calledByNativesOfLines_reMethod_package`: for a class in a package the
  method loop reads no constructor line, the name before `(` having a dot;
* `calledByNativesOfLines_reMethod_default_package`: for a class in the
  default package it reads every constructor line as a method named like the
  class, whose return type is `public`.
-/

namespace JniGenerator

open Regex

/-- A class name with no `$` and no line break matches its own pattern. -/
theorem namePattern_m_self {s : Str} {g : Groups} {k : Cont} :
    ∀ {name : Str}, '$' ∉ name → '\n' ∉ name → (namePattern name).m (name ++ s) g k = k s g
  | [], _, _ => rfl
  | c :: cs, hd, hn => by
    have ih : (namePattern cs).m (cs ++ s) g k = k s g :=
      namePattern_m_self (fun h => hd (.tail _ h)) fun h => hn (.tail _ h)
    rw [namePattern, List.map_cons, m_cat_cons, List.cons_append]
    split_ifs with hdot hdollar
    · rw [m_chr_cons, if_pos (CharClass.test_dot_of_ne fun h => hn (h ▸ .head _))]
      exact ih
    · exact absurd (hdollar ▸ .head _) hd
    · rw [m_chr_cons, if_pos (by simp [CharClass.test])]
      exact ih

theorem mem_replace_char_char {c d x : Char} {s : Str} (h : x ∈ replace s [c] [d]) : x = d ∨ x ∈ s := by
  rw [replace_char_char, List.mem_map] at h
  obtain ⟨y, hy, rfl⟩ := h
  split
  · exact .inl rfl
  · exact .inr hy

/-- A line whose only `(` follows a run without spaces that is not a word has
no call site. -/
theorem noCallSite_of_single_paren {v d t : Str} (hv : '(' ∉ v) (hd : ' ' ∉ d ∧ '(' ∉ d) (ht : '(' ∉ t)
    (hword : ∃ x ∈ d, isWord x = false) : NoCallSite (v ++ ' ' :: (d ++ '(' :: t)) := by
  intro a b c hb h
  have h' : (v ++ ' ' :: d) ++ '(' :: t = (a ++ ' ' :: b) ++ '(' :: c := by simpa using h
  obtain ⟨hP, -⟩ := (List.append_cons_inj_of_not_mem (by simp [hv, hd.2]) ht).1 h'
  obtain ⟨-, rfl⟩ := append_cons_eq_append_cons (fun h => absurd (hb.2 _ h) (by decide)) hd.1 hP.symm
  obtain ⟨x, hx, hw⟩ := hword
  exact absurd (hb.2 x hx) (by simp [hw])

/-- A constructor of the class `cls` as `javap` lists it: the indent,
`public `, the class's name dotted, its parameter types `, ` apart and what
follows them, then its descriptor and the lines that describe it. -/
structure JavaPConstructorDecl (cls : Str) where
  indent : Str
  paramTypes : List Str
  rest : Str
  descriptor : Str
  details : List Str
  indent_spaces : ∀ c ∈ indent, c = ' '
  paramTypes_javaP : ∀ t ∈ paramTypes, JniParams.IsJavaPType t ∧ ')' ∉ t ∧ '(' ∉ t
  rest_plain : '(' ∉ rest
  descriptor_method : descriptor.head? = some '(' ∧ ' ' ∉ descriptor
  details_plain : ∀ l ∈ details, NoCallSite l ∧ ¬ "public ".toList <:+: l

namespace JavaPConstructorDecl

variable {cls : Str} (c : JavaPConstructorDecl cls)

def declarationLine : Str :=
  c.indent ++ ("public ".toList ++
    (replace cls "/".toList ".".toList ++ '(' :: (join ", ".toList c.paramTypes ++ ')' :: c.rest)))

def lines : List Str := c.declarationLine :: descriptorLine c.descriptor :: c.details

/-- The `CalledByNative` the constructor stands for. -/
def calledByNative : CalledByNative :=
  { systemClass := true, unchecked := false, static := false, javaClassName := []
    returnType := cls
    name := "Constructor".toList
    params := (c.paramTypes.map fun t => replace t ".".toList "/".toList).mapIdx fun j t =>
      ⟨t, 'p' :: (toString j).toList⟩
    signature := some ('"' :: c.descriptor ++ "\"".toList)
    isConstructor := true }

theorem params_plain : ')' ∉ join ", ".toList c.paramTypes ∧ '\n' ∉ join ", ".toList c.paramTypes :=
  joinTypes_plain fun t ht => ⟨(c.paramTypes_javaP t ht).1, (c.paramTypes_javaP t ht).2.1⟩

/-- `re_constructor` reads a declaration line back when the class name has
no `$`. -/
theorem matchPrefix_reConstructor (hcls : '$' ∉ cls ∧ '\n' ∉ cls) :
    (reConstructor cls).matchPrefix c.declarationLine =
      some (c.rest, [("params", join ", ".toList c.paramTypes)]) := by
  have hname : ∀ x, x ≠ '.' → x ∉ cls → x ∉ replace cls "/".toList ".".toList := fun x hx hc h =>
    (mem_replace_char_char h).elim hx hc
  have hne : ∀ {c x : Char} {l : Str}, c ∉ l → x ∈ l → x ≠ c := fun hc hx h => hc (h ▸ hx)
  rw [matchPrefix, reConstructor, declarationLine]
  simp only [m_cat_cons]
  refine m_manyLazy_dot_lit (fun x hx => by rw [c.indent_spaces x hx]; decide) ?_
  rw [namePattern_m_self (hname _ (by decide) hcls.1) (hname _ (by decide) hcls.2)]
  refine (m_chr_cons (.lit '(') '(').trans ?_
  rw [if_pos (by simp [CharClass.test]), m_group]
  refine m_star_chr_eq_of_some (fun x hx => CharClass.test_dot_of_ne (hne c.params_plain.2 hx)) nofun ?_
    fun _ j hj => ?_
  · rw [Regex.take_length_sub_append]
    rfl
  · exact m_chr_drop_eq_none hj fun x hx => CharClass.test_lit_of_ne (hne c.params_plain.1 hx)

/-- Neither the descriptor line nor a detail line holds `public `. -/
theorem matchPrefix_reConstructor_after (l : Str) (hl : l ∈ descriptorLine c.descriptor :: c.details) :
    (reConstructor cls).matchPrefix l = none := by
  rcases List.mem_cons.1 hl with rfl | hl
  · exact matchPrefix_manyLazy_lit_eq_none
      (not_infix_append_of_space rfl (not_infix_of_not_mem (x := 'u') (by decide) (by decide))
        c.descriptor_method.2)
  · exact matchPrefix_manyLazy_lit_eq_none (c.details_plain l hl).2

/-- The constructor loop reads a constructor's block, then goes on with what
follows it. -/
theorem calledByNativesOfLines_lines_append (hcls : '$' ∉ cls ∧ '\n' ∉ cls) (rest : List Str) :
    calledByNativesOfLines (reConstructor cls) (javaPConstructor cls) (c.lines ++ rest) =
      (c.calledByNative :: ·) <$> calledByNativesOfLines (reConstructor cls) (javaPConstructor cls) rest := by
  have hrest : calledByNativesOfLines (reConstructor cls) (javaPConstructor cls)
      (descriptorLine c.descriptor :: (c.details ++ rest)) =
        calledByNativesOfLines (reConstructor cls) (javaPConstructor cls) rest := by
    rw [calledByNativesOfLines, c.matchPrefix_reConstructor_after _ (.head _),
      calledByNativesOfLines_append_of_no_match fun l hl => c.matchPrefix_reConstructor_after l (.tail _ hl)]
  rw [lines, List.cons_append, List.cons_append, calledByNativesOfLines, c.matchPrefix_reConstructor hcls]
  dsimp only
  rw [show List.lookup "params" [("params", join ", ".toList c.paramTypes)] = some (join ", ".toList c.paramTypes)
    from rfl, Option.getD_some, parse_replace_joinTypes fun t ht => (c.paramTypes_javaP t ht).1]
  simp only [bind, Except.bind, getItem, List.get?, pure, Except.pure,
    parseJavaPSignature_descriptorLine c.descriptor_method.2, hrest]
  cases calledByNativesOfLines (reConstructor cls) (javaPConstructor cls) rest <;> rfl

theorem not_mem_indent {x : Char} (hx : x ≠ ' ') : x ∉ c.indent := fun h => hx (c.indent_spaces x h)

theorem declarationLine_eq : c.declarationLine = (c.indent ++ "public".toList) ++
    ' ' :: (replace cls "/".toList ".".toList ++ '(' :: (join ", ".toList c.paramTypes ++ ')' :: c.rest)) := by
  simp [declarationLine]

/-! ### A class in a package -/

/-- For a class in a package no line of a constructor's block has a call
site: the only `(` of the declaration follows the dotted class name. -/
theorem noCallSite_lines (hpkg : '/' ∈ cls) (hcls : ' ' ∉ cls ∧ '(' ∉ cls) : ∀ l ∈ c.lines, NoCallSite l := by
  have hdotted : ∀ x, x ≠ '.' → x ∉ cls → x ∉ replace cls "/".toList ".".toList := fun x hx hc h =>
    (mem_replace_char_char h).elim hx hc
  have hdecl : NoCallSite c.declarationLine := by
    rw [declarationLine_eq]
    refine noCallSite_of_single_paren ?_ ⟨hdotted _ (by decide) hcls.1, hdotted _ (by decide) hcls.2⟩ ?_
      ⟨'.', ?_, rfl⟩
    · simp only [List.mem_append, not_or]
      exact ⟨c.not_mem_indent (by decide), by decide⟩
    · simp only [List.mem_append, List.mem_cons, not_or]
      refine ⟨fun h => ?_, by decide, c.rest_plain⟩
      rcases mem_join h with h | ⟨t, ht, h⟩
      · exact absurd h (by decide)
      · exact (c.paramTypes_javaP t ht).2.2 h
    · rw [show "/".toList = ['/'] from rfl, show ".".toList = ['.'] from rfl, replace_char_char, List.mem_map]
      exact ⟨'/', hpkg, if_pos rfl⟩
  refine List.forall_mem_cons.2 ⟨hdecl, List.forall_mem_cons.2 ⟨?_, fun l hl => (c.details_plain l hl).1⟩⟩
  exact noCallSite_append_space_descriptor (v := "    descriptor:".toList) (by decide) c.descriptor_method.1
    c.descriptor_method.2

/-- For a class in a package the method loop skips a constructor's block. -/
theorem calledByNativesOfLines_reMethod_lines_append (hpkg : '/' ∈ cls) (hcls : ' ' ∉ cls ∧ '(' ∉ cls)
    (rest : List Str) :
    calledByNativesOfLines reMethod javaPMethod (c.lines ++ rest) = calledByNativesOfLines reMethod javaPMethod rest :=
  calledByNativesOfLines_append_of_no_match fun l hl => matchPrefix_reMethod_eq_none (c.noCallSite_lines hpkg hcls l hl)

/-! ### A class in the default package -/

/-- A constructor of a class in the default package, read as a method: the
indent is the prefix, `public` the return type and the class the name. -/
def asMethod (hcls : IsIdent cls) : JavaPMethodDecl :=
  ⟨c.indent, "public".toList, cls, c.paramTypes, c.rest, c.descriptor, c.details,
    fun x hx => c.indent_spaces x (List.mem_of_getLast?_eq_some hx),
    ⟨c.not_mem_indent (by decide), c.not_mem_indent (by decide)⟩, by decide, hcls,
    fun t ht => ⟨(c.paramTypes_javaP t ht).1, (c.paramTypes_javaP t ht).2.1⟩, c.descriptor_method,
    fun l hl => (c.details_plain l hl).1⟩

theorem asMethod_lines (hcls : IsIdent cls) : (c.asMethod hcls).lines = c.lines := by
  have hslash : replace cls ['/'] ['.'] = cls :=
    replace_char_of_not_mem (hcls.not_mem (by decide))
  simp [asMethod, JavaPMethodDecl.lines, JavaPMethodDecl.methodLine, MethodLine.text, lines, declarationLine_eq,
    hslash]

theorem asMethod_calledByNative (hcls : IsIdent cls) : (c.asMethod hcls).calledByNative =
    { c.calledByNative with returnType := "public".toList, name := cls, isConstructor := false } := by
  have hstatic : contains c.indent "static".toList = false :=
    Bool.eq_false_iff.2 fun h => not_infix_of_not_mem (x := 's') (by decide) (c.not_mem_indent (by decide))
      (contains_iff.1 h)
  simp only [JavaPMethodDecl.calledByNative, asMethod, calledByNative, hstatic]
  rfl

end JavaPConstructorDecl

/-- For a class whose name has no `$`, the constructor loop of `JNIFromJavaP`
reads every constructor of a listing back, in order: named `Constructor`,
returning the class, its types slashed and named `p0`, `p1`, ..., and its
descriptor as its signature. -/
theorem calledByNativesOfLines_javaPConstructors {cls : Str} (hcls : ∀ x ∈ cls, isWord x = true ∨ x = '/') :
    ∀ cs : List (JavaPConstructorDecl cls),
      calledByNativesOfLines (reConstructor cls) (javaPConstructor cls) (cs.flatMap JavaPConstructorDecl.lines) =
        .ok (cs.map JavaPConstructorDecl.calledByNative)
  | [] => rfl
  | c :: cs => by
    have hplain : '$' ∉ cls ∧ '\n' ∉ cls :=
      ⟨fun h => absurd (hcls _ h) (by decide), fun h => absurd (hcls _ h) (by decide)⟩
    rw [List.flatMap_cons, c.calledByNativesOfLines_lines_append hplain,
      calledByNativesOfLines_javaPConstructors hcls cs]
    rfl

/-- `new Integer(int)` as `javap -c -verbose -s` lists it. -/
theorem calledByNativesOfLines_javaPConstructors_integer :
    (∀ x ∈ "java/lang/Integer".toList, isWord x = true ∨ x = '/') ∧
      ∃ c : JavaPConstructorDecl "java/lang/Integer".toList,
        c.lines = ["  public java.lang.Integer(int);".toList, "    descriptor: (I)V".toList,
          "    flags: ACC_PUBLIC".toList] ∧
        calledByNativesOfLines (reConstructor "java/lang/Integer".toList)
          (javaPConstructor "java/lang/Integer".toList) c.lines = .ok [c.calledByNative] :=
  ⟨by decide, ⟨"  ".toList, ["int".toList], ";".toList, "(I)V".toList,
    ["    flags: ACC_PUBLIC".toList], by decide, by decide, by decide, by decide,
    fun _ hl => List.mem_singleton.1 hl ▸ ⟨noCallSite_of_not_mem (by decide),
      not_infix_of_not_mem (x := 'p') (by decide) (by decide)⟩⟩, rfl,
    calledByNativesOfLines_javaPConstructors (by decide) [_]⟩

/-- For a class in a package, the method loop of `JNIFromJavaP` reads no
constructor: the name right before `(` is the dotted class name, not a word. -/
theorem calledByNativesOfLines_reMethod_package {cls : Str} (hpkg : '/' ∈ cls) (hcls : ' ' ∉ cls ∧ '(' ∉ cls) :
    ∀ cs : List (JavaPConstructorDecl cls),
      calledByNativesOfLines reMethod javaPMethod (cs.flatMap JavaPConstructorDecl.lines) = .ok []
  | [] => rfl
  | c :: cs => by
    rw [List.flatMap_cons, c.calledByNativesOfLines_reMethod_lines_append hpkg hcls,
      calledByNativesOfLines_reMethod_package hpkg hcls cs]

theorem calledByNativesOfLines_reMethod_package_integer :
    ('/' ∈ "java/lang/Integer".toList ∧ ' ' ∉ "java/lang/Integer".toList ∧ '(' ∉ "java/lang/Integer".toList) ∧
      ∃ c : JavaPConstructorDecl "java/lang/Integer".toList,
        c.lines = ["  public java.lang.Integer(int);".toList, "    descriptor: (I)V".toList] ∧
        calledByNativesOfLines reMethod javaPMethod c.lines = .ok [] :=
  ⟨⟨by decide, by decide, by decide⟩, ⟨"  ".toList, ["int".toList], ";".toList, "(I)V".toList, [], by decide,
    by decide, by decide, by decide, nofun⟩, rfl,
    calledByNativesOfLines_reMethod_package (by decide) ⟨by decide, by decide⟩ [_]⟩

/-- For a class in the default package, the method loop of `JNIFromJavaP`
reads every constructor line of a listing as a method: named like the class,
returning `public`, with the constructor's parameters and signature. -/
theorem calledByNativesOfLines_reMethod_default_package {cls : Str} (hcls : IsIdent cls) :
    ∀ cs : List (JavaPConstructorDecl cls),
      calledByNativesOfLines reMethod javaPMethod (cs.flatMap JavaPConstructorDecl.lines) =
        .ok (cs.map fun c => { c.calledByNative with returnType := "public".toList, name := cls, isConstructor := false })
  | [] => rfl
  | c :: cs => by
    rw [List.flatMap_cons, ← c.asMethod_lines hcls, (c.asMethod hcls).calledByNativesOfLines_lines_append,
      calledByNativesOfLines_reMethod_default_package hcls cs, c.asMethod_calledByNative hcls]
    rfl

/-- `Foo()` of a class `Foo` in the default package: read as a method `Foo`
returning `public`. -/
theorem calledByNativesOfLines_reMethod_default_package_foo :
    IsIdent "Foo".toList ∧ ∃ c : JavaPConstructorDecl "Foo".toList,
      c.lines = ["  public Foo(int);".toList, "    descriptor: (I)V".toList] ∧
      calledByNativesOfLines reMethod javaPMethod c.lines =
        .ok [{ c.calledByNative with returnType := "public".toList, name := "Foo".toList, isConstructor := false }] :=
  ⟨by decide, ⟨"  ".toList, ["int".toList], ";".toList, "(I)V".toList, [], by decide, by decide, by decide,
    by decide, nofun⟩, rfl, calledByNativesOfLines_reMethod_default_package (by decide) [_]⟩

end JniGenerator
