import JniGenerator.Extract
import JniGenerator.Regex.Search

/-!
# The native declarations `ExtractNatives` finds

`ExtractNatives` deletes every line break of the contents and runs `re_native`
over what is left, so a declaration is found as declared only when its text,
after the deletion, has the layout the pattern spells out.

* `extractNatives_layouts_lost`: a line break between the return type and the
  name loses the declaration, one space between an annotation and `native`
  loses the annotation, and of four modifiers only the last two are read, so
  `static` before them is lost.
* `NativeDecl`: a declaration in the layout `re_native` reads, with the layout
  as fields; `NativeDecl.render` is its text. `IsFiller` is the text between
  declarations that the pattern cannot read as one.
* `NativeDecl.reNative_matchPrefix_matched` and
  `reNative_matchPrefix_blank_eq_none`: the pattern matches the declaration from
  its first annotation or modifier (from its indentation when it has neither),
  with the groups `NativeDecl.groups`, and at no earlier point of its
  indentation; `reNative_matchPrefix_filler_eq_none`: and at no point of a
  filler.
* `extractNatives_of_render`: a text whose line-break-free form is a filler and
  then declarations, each followed by a filler, gives one `NativeMethod` per
  declaration, in order, each the one `NativeDecl.toNativeMethod` describes.
-/

namespace JniGenerator

open Regex

/-! ## Layouts `re_native` misreads -/

set_option maxRecDepth 100000 in
/-- Three layouts Java accepts that `ExtractNatives` misreads: the line break
after `int` leaves no separator before the name; `@NativeCall` followed by one
space leaves no whitespace for `qualifiers`, so the match starts after the
annotation; and the match of four modifiers starts at the third. -/
theorem extractNatives_layouts_lost :
    extractNatives "  private native int\n      nativeFoo();\n".toList "int".toList = .ok [] ∧
    (extractNatives "  @NativeCall(\"Bar\") native void nativeFoo();\n".toList "int".toList).map
      (·.map NativeMethod.javaClassName) = .ok [none] ∧
    (extractNatives "  private static final synchronized native void nativeFoo();\n".toList "int".toList).map
      (·.map NativeMethod.static) = .ok [false] :=
  ⟨rfl, rfl, rfl⟩

/-! ## The parts of `re_native` -/

/-- An annotation of `re_native` from its opening on: `key(?P<name>.*?)"\)\s+`. -/
def annotationRegex (key : Str) (name : String) : Regex :=
  .cat [.lit key, .group name (.manyLazy (.chr .dot)), .lit "\")".toList, .plus (.chr .space)]

/-- `(?P<qualifiers>\w+\s\w+|\w+|\s+)` -/
def reQualifiers : Regex := .group "qualifiers" (.alt (.cat [.plus (.chr .word), .chr .space, .plus (.chr .word)])
  (.alt (.plus (.chr .word)) (.plus (.chr .space))))

/-- `re_native` from the return type on. -/
def reNativeTail : List Regex := [.group "return_type" (.many (.chr (.neg .space))), .lit " ".toList,
  .group "name" (.seq (.lit "native".toList) (.plus (.chr .word))), .lit "(".toList,
  .group "params" (.manyLazy (.chr .dot)), .lit ");".toList]

/-- `re_native` from the qualifiers on. -/
def reQualified : List Regex := reQualifiers :: .many (.chr .space) :: .lit "native ".toList :: reNativeTail

theorem reNative_eq : reNative = .cat
    (.opt (annotationRegex "@NativeClassQualifiedName(\"".toList "native_class_name") ::
      .opt (.seq (.lit "@NativeCall".toList) (annotationRegex "(\"".toList "java_class_name")) :: reQualified) :=
  rfl

/-- `@NativeCall` and `(\"` are two literals of the pattern; they match as one. -/
theorem m_nativeCall_eq {s : Str} {g : Groups} {k : Cont} (name : String) :
    (Regex.seq (.lit "@NativeCall".toList) (annotationRegex "(\"".toList name)).m s g k =
      (annotationRegex "@NativeCall(\"".toList name).m s g k := by
  simp only [annotationRegex, m_cat_cons, m_seq]
  rw [show "@NativeCall(\"".toList = "@NativeCall".toList ++ "(\"".toList from rfl, m_lit_append_split]

/-! ## Declarations in the layout `re_native` reads -/

/-- Nonempty whitespace. -/
def IsBlank (s : Str) : Prop := s ≠ [] ∧ ∀ x ∈ s, isSpace x = true

instance : DecidablePred IsBlank := fun _ => inferInstanceAs (Decidable (_ ∧ _))

/-- The modifiers of a Java method that may stand before `native`. -/
def javaModifiers : List Str :=
  ["public", "protected", "private", "static", "final", "synchronized", "strictfp"].map String.toList

/-- The argument of an annotation and the whitespace after its `")`. -/
structure AnnotationArg where
  value : Str
  sep : Str
  /-- `.*?` stops at the first `")`. -/
  value_open : ¬ "\")".toList <:+: value
  sep_blank : IsBlank sep

/-- The text of an optional annotation, nothing when it is absent. -/
def annotationText (key : Str) : Option AnnotationArg → Str
  | none => []
  | some a => key ++ a.value ++ "\")".toList ++ a.sep

@[simp] theorem annotationText_none (key : Str) : annotationText key none = [] := rfl

/-- The group an optional annotation adds to a match. -/
def annotationGroups (name : String) : Option AnnotationArg → Groups
  | none => []
  | some a => [(name, a.value)]

/-- The annotation written last, right before the modifiers. -/
def lastAnnotationArg (nativeClassName javaClassName : Option AnnotationArg) : Option AnnotationArg :=
  match javaClassName with
  | some a => some a
  | none => nativeClassName

/-- A native declaration as `re_native` reads it once the line breaks are
deleted: indentation; the optional `@NativeClassQualifiedName("Q")` and
`@NativeCall("J")`, each with whitespace after it; at most two modifiers one
whitespace character apart, then whitespace; `native `, the return type, one
space, the name `nativeX` and the parameters up to the first `);`. -/
structure NativeDecl where
  indent : Str
  nativeClassName : Option AnnotationArg
  javaClassName : Option AnnotationArg
  modifiers : List Str
  modifierSep : Char
  beforeNative : Str
  returnType : Str
  name : Str
  params : Str
  indent_blank : IsBlank indent
  modifiers_java : ∀ m ∈ modifiers, m ∈ javaModifiers
  /-- `\w+\s\w+` holds two modifiers at most. -/
  modifiers_length : modifiers.length ≤ 2
  modifierSep_space : isSpace modifierSep = true
  beforeNative_blank : IsBlank beforeNative
  /-- With no modifier, `qualifiers` takes the last whitespace character after the
  last annotation, and `\w+\s\w+` is first tried on `native` and the return type. -/
  annotation_sep : modifiers = [] → ∀ a ∈ lastAnnotationArg nativeClassName javaClassName,
    2 ≤ a.sep.length ∧ ¬ "native".toList <:+ returnType
  returnType_token : returnType ≠ [] ∧ ∀ x ∈ returnType, isSpace x = false
  returnType_ne_native : returnType ≠ "native".toList
  name_ident : IsIdent name
  /-- `.*?` stops at the first `);`. -/
  params_open : ¬ ");".toList <:+: params

namespace NativeDecl

/-- The modifiers and the whitespace before `native`; nothing without modifiers. -/
def modifierText (d : NativeDecl) : Str :=
  if d.modifiers = [] then [] else join [d.modifierSep] d.modifiers ++ d.beforeNative

/-- The return type, the name and the parameters. -/
def signature (d : NativeDecl) : Str :=
  d.returnType ++ " native".toList ++ d.name ++ "(".toList ++ d.params ++ ");".toList

/-- The declaration from its first annotation or modifier on. -/
def core (d : NativeDecl) : Str :=
  annotationText "@NativeClassQualifiedName(\"".toList d.nativeClassName ++
    annotationText "@NativeCall(\"".toList d.javaClassName ++ d.modifierText ++ "native ".toList ++ d.signature

/-- The declaration's text once the line breaks are deleted. -/
def render (d : NativeDecl) : Str := d.indent ++ d.core

/-- The text `re_native` matches: from the indentation when the declaration has
neither annotation nor modifier, else from the first of them. -/
def matched (d : NativeDecl) : Str :=
  match d.modifiers, lastAnnotationArg d.nativeClassName d.javaClassName with
  | [], none => d.render
  | _, _ => d.core

/-- What the `qualifiers` group captures. -/
def qualifiers (d : NativeDecl) : Str :=
  match d.modifiers, lastAnnotationArg d.nativeClassName d.javaClassName with
  | [], none => d.indent
  | [], some a => a.sep.getLast?.toList
  | ms, _ => join [d.modifierSep] ms

theorem qualifiers_indent (d : NativeDecl) (hms : d.modifiers = [])
    (hann : lastAnnotationArg d.nativeClassName d.javaClassName = none) : d.qualifiers = d.indent := by
  rw [qualifiers, hms, hann]

theorem qualifiers_annotated (d : NativeDecl) (hms : d.modifiers = []) {a : AnnotationArg}
    (hann : lastAnnotationArg d.nativeClassName d.javaClassName = some a) : d.qualifiers = a.sep.getLast?.toList := by
  rw [qualifiers, hms, hann]

theorem qualifiers_modifiers (d : NativeDecl) (hms : d.modifiers ≠ []) :
    d.qualifiers = join [d.modifierSep] d.modifiers := by
  obtain ⟨m, ms, hm⟩ := List.exists_cons_of_ne_nil hms
  rw [qualifiers, hm]

/-- The groups of the match, the last group first. -/
def groups (d : NativeDecl) : Groups :=
  ("params", d.params) :: ("name", "native".toList ++ d.name) :: ("return_type", d.returnType) ::
    ("qualifiers", d.qualifiers) :: (annotationGroups "java_class_name" d.javaClassName ++
      annotationGroups "native_class_name" d.nativeClassName)

/-- The `NativeMethod` the declaration declares. -/
def toNativeMethod (ptrType : Str) (d : NativeDecl) : Except Error NativeMethod := do
  let params ← JniParams.parse d.params
  pure (NativeMethod.init (decide ("static".toList ∈ d.modifiers)) (d.javaClassName.map AnnotationArg.value)
    (d.nativeClassName.map AnnotationArg.value) d.returnType
    (replace ("native".toList ++ d.name) "native".toList []) params ptrType)

end NativeDecl

/-- Text between declarations that `re_native` cannot read as one: it holds no
annotation key and no `native `, and it ends in a character that is neither a
word character nor whitespace, such as `;`, `{` or `}`. -/
def IsFiller (f : Str) : Prop :=
  ¬ "@NativeClassQualifiedName(\"".toList <:+: f ∧ ¬ "@NativeCall(\"".toList <:+: f ∧ ¬ "native ".toList <:+: f ∧
    ∀ x ∈ f.getLast?, isWord x = false ∧ isSpace x = false

instance : DecidablePred IsFiller := fun _ => inferInstanceAs (Decidable (_ ∧ _ ∧ _ ∧ _))

/-! ## Matching the parts -/

section Parts

variable {g : Groups} {k : Cont} {r : Str × Groups}

theorem IsBlank.head? {s : Str} (h : IsBlank s) : ∀ x ∈ s.head?, isSpace x = true :=
  fun x hx => h.2 x (List.mem_of_mem_head? hx)

theorem m_plus_word_eq_none {y : Char} {s : Str} (hy : isSpace y = true) :
    (plus (chr .word)).m (y :: s) g k = none := by
  simp [plus, CharClass.test, isWord_eq_false_of_isSpace hy]

/-- The return type, one space, the name and the parameters up to the first `);`. -/
theorem reNativeTail_eq {T X P rest : Str} (hT : ∀ x ∈ T, isSpace x = false) (hX : IsIdent X)
    (hP : '\n' ∉ P) (hP' : ¬ ");".toList <:+: P)
    (hk : k rest (("params", P) :: ("name", "native".toList ++ X) :: ("return_type", T) :: g) = some r) :
    (Regex.cat reNativeTail).m (T ++ " native".toList ++ X ++ "(".toList ++ P ++ ");".toList ++ rest) g k =
      some r := by
  simp only [reNativeTail, m_cat_cons, Regex.cat, m_group, many, List.append_assoc]
  refine m_star_chr_eq_of_some (fun x hx => by simpa [CharClass.test] using hT x hx)
    (fun _ x hx => by cases hx; rfl) ?_ nofun
  simp only [take_length_sub_append, m_seq, show " native".toList = " ".toList ++ "native".toList from rfl,
    List.append_assoc, m_lit_append, m_group]
  refine m_plus_chr_eq_of_some (by simpa [CharClass.test] using hX) (by simp [CharClass.test, isWord]) ?_
  simp (disch := simp) only [take_length_sub_append_left, Nat.sub_self, List.take_zero, List.append_nil,
    m_lit_append]
  refine m_star_chr_eq_of_some (fun x hx => by
      have : x ≠ '\n' := fun h => hP (h ▸ hx)
      simpa [CharClass.test, CharClass.dot] using this)
    (fun h => by cases h) ?_ fun _ j hj => m_lit_pair_drop_eq_none (by decide) hP' hj
  simpa only [take_length_sub_append, m_lit_append] using hk

/-- Whitespace, `native ` and the rest of the declaration. -/
theorem reNative_native_eq {w T X P rest : Str} (hw : ∀ x ∈ w, isSpace x = true)
    (hT : ∀ x ∈ T, isSpace x = false) (hX : IsIdent X) (hP : '\n' ∉ P) (hP' : ¬ ");".toList <:+: P)
    (hk : k rest (("params", P) :: ("name", "native".toList ++ X) :: ("return_type", T) :: g) = some r) :
    (Regex.cat (.many (.chr .space) :: .lit "native ".toList :: reNativeTail)).m
      (w ++ "native ".toList ++ T ++ " native".toList ++ X ++ "(".toList ++ P ++ ");".toList ++ rest) g k =
      some r := by
  rw [m_cat_cons]
  simp only [List.append_assoc]
  refine m_star_chr_eq_of_some (by simpa [CharClass.test] using hw) (fun _ => by simp [CharClass.test, isSpace])
    ?_ fun h => by cases h
  rw [m_cat_cons, m_lit_append]
  simpa only [List.append_assoc] using reNativeTail_eq hT hX hP hP' hk

/-- A return type is followed by one space: `native ` starts there only when the
type is `native`. -/
theorem not_native_prefix_of_type {T s : Str} (hT : ∀ x ∈ T, isSpace x = false) (hT' : T ≠ "native".toList) :
    ¬ "native ".toList <+: T ++ ' ' :: s := fun ⟨t, ht⟩ => hT' <| by
  have h := congrArg (List.takeWhile fun x => !isSpace x) ht
  rw [show "native ".toList ++ t = "native".toList ++ ' ' :: t from rfl, List.takeWhile_append_of_pos (by decide),
    List.takeWhile_append_of_pos (by simpa using hT), List.takeWhile_cons_of_neg (by decide),
    List.takeWhile_cons_of_neg (by decide)] at h
  simpa using h.symm

/-- No split of a run of whitespace is followed by `native `. -/
theorem m_spaces_native_eq_none {u s : Str} {rs : List Regex}
    (hu : ∀ x ∈ u, isSpace x = true) (hs : ∀ x ∈ s.head?, isSpace x = false) (hn : ¬ "native ".toList <+: s) :
    (Regex.cat (.many (.chr .space) :: .lit "native ".toList :: rs)).m (u ++ s) g k = none := by
  rw [m_cat_cons]
  refine m_star_chr_eq_none (by simpa [CharClass.test] using hu) (by simpa [CharClass.test] using hs)
    fun j hj => ?_
  rw [m_cat_cons]
  rcases Nat.lt_or_eq_of_le hj with hj | rfl
  · rw [List.drop_eq_getElem_cons hj]
    refine m_lit_eq_none fun ⟨t, ht⟩ => ?_
    have := hu _ (List.getElem_mem hj)
    simp only [List.cons_append, show "native ".toList = 'n' :: "ative ".toList from rfl, List.cons.injEq] at ht
    simp [← ht.1, isSpace] at this
  · rw [List.drop_length, List.nil_append]
    exact m_lit_eq_none hn

theorem m_native_eq_none {s : Str} {rs : List Regex} (hs : ∀ x ∈ s.head?, isSpace x = false)
    (hn : ¬ "native ".toList <+: s) :
    (Regex.cat (.many (.chr .space) :: .lit "native ".toList :: rs)).m s g k = none :=
  m_spaces_native_eq_none (show ∀ x ∈ ([] : Str), isSpace x = true from fun x h => absurd h (List.not_mem_nil x))
    hs hn

theorem m_native_eq_none_of_head {s : Str} {rs : List Regex} (hs : ∀ x ∈ s.head?, isSpace x = false ∧ x ≠ 'n') :
    (Regex.cat (.many (.chr .space) :: .lit "native ".toList :: rs)).m s g k = none :=
  m_native_eq_none (fun x hx => (hs x hx).1) fun ⟨t, ht⟩ => (hs 'n' (by rw [← ht]; rfl)).2 rfl

theorem native_drop_head : ∀ i < 6, 0 < i → ∀ x ∈ ("native".toList.drop i).head?, isSpace x = false ∧ x ≠ 'n' := by
  decide

/-- `\w+` over the word `native` followed by a space, and then `\s*native `:
only a return type `native` lets this through. -/
theorem m_plus_word_native_eq_none {T s : Str} {rs : List Regex} {f : Str → Groups → Groups}
    (hT : T ≠ [] ∧ ∀ x ∈ T, isSpace x = false) (hT' : T ≠ "native".toList) :
    (plus (chr .word)).m ("native ".toList ++ (T ++ (" native".toList ++ s))) g
      (fun s' g' => (Regex.cat (.many (.chr .space) :: .lit "native ".toList :: rs)).m s' (f s' g') k) = none := by
  rw [show "native ".toList ++ (T ++ (" native".toList ++ s)) =
    "native".toList ++ ' ' :: (T ++ ' ' :: ("native".toList ++ s)) from rfl]
  refine m_plus_chr_eq_none (by decide) (by simp [CharClass.test, isWord]) fun i hi0 hi => ?_
  rcases Nat.lt_or_eq_of_le hi with hi | rfl
  · have hne : "native".toList.drop i ≠ [] := by simpa using hi
    exact m_native_eq_none_of_head (by
      rw [List.head?_append_of_ne_nil _ hne]
      exact native_drop_head i hi hi0)
  · rw [List.drop_length, List.nil_append]
    obtain ⟨t, T, rfl⟩ := List.exists_cons_of_ne_nil hT.1
    exact m_spaces_native_eq_none (show ∀ x ∈ [' '], isSpace x = true by decide)
      (by simpa using hT.2 t (.head _)) (not_native_prefix_of_type hT.2 hT')

/-- Two modifiers one whitespace character apart fill `\w+\s\w+`. -/
theorem reQualified_two {m1 m2 w T X P rest : Str} {c : Char} (hm1 : IsIdent m1)
    (hm2 : IsIdent m2) (hc : isSpace c = true) (hw : IsBlank w)
    (hT : ∀ x ∈ T, isSpace x = false) (hX : IsIdent X) (hP : '\n' ∉ P) (hP' : ¬ ");".toList <:+: P)
    (hk : k rest (("params", P) :: ("name", "native".toList ++ X) :: ("return_type", T) ::
      ("qualifiers", m1 ++ c :: m2) :: g) = some r) :
    (Regex.cat reQualified).m
      (m1 ++ c :: m2 ++ w ++ "native ".toList ++ T ++ " native".toList ++ X ++ "(".toList ++ P ++ ");".toList ++ rest)
      g k = some r := by
  rw [reQualified, m_cat_cons, reQualifiers, m_group, m_alt]
  refine (Option.orElse_eq_some' _ _ _).mpr (.inl ?_)
  simp only [List.append_assoc, List.cons_append]
  rw [m_cat_cons]
  refine m_plus_chr_eq_of_some (by simpa [CharClass.test] using hm1)
    (by simp [CharClass.test, isWord_eq_false_of_isSpace hc]) ?_
  rw [m_cat_cons, m_chr_cons, CharClass.test, hc, if_pos rfl, Regex.cat]
  refine m_plus_chr_eq_of_some (by simpa [CharClass.test] using hm2) (fun x hx => ?_) ?_
  · obtain ⟨y, w, rfl⟩ := List.exists_cons_of_ne_nil hw.1
    simp only [List.cons_append, List.head?_cons, Option.mem_def, Option.some.injEq] at hx
    simp [CharClass.test, ← hx, isWord_eq_false_of_isSpace (hw.2 y (.head _))]
  simp (disch := (simp only [List.length_append, List.length_cons]; omega)) only [take_length_sub_append_left,
    take_length_sub_cons, Nat.sub_self, List.take_zero, List.append_nil]
  simpa only [List.append_assoc] using reNative_native_eq hw.2 hT hX hP hP' hk

/-- One modifier fills `\w+`, once `\w+\s\w+` has failed. -/
theorem reQualified_one {m w T X P rest : Str} (hm : IsIdent m) (hw : IsBlank w)
    (hT : T ≠ [] ∧ ∀ x ∈ T, isSpace x = false) (hT' : T ≠ "native".toList) (hX : IsIdent X) (hP : '\n' ∉ P)
    (hP' : ¬ ");".toList <:+: P)
    (hk : k rest (("params", P) :: ("name", "native".toList ++ X) :: ("return_type", T) ::
      ("qualifiers", m) :: g) = some r) :
    (Regex.cat reQualified).m
      (m ++ w ++ "native ".toList ++ T ++ " native".toList ++ X ++ "(".toList ++ P ++ ");".toList ++ rest)
      g k = some r := by
  obtain ⟨y, w, rfl⟩ := List.exists_cons_of_ne_nil hw.1
  have hy := hw.2 y (.head _)
  rw [reQualified, m_cat_cons, reQualifiers, m_group, m_alt]
  simp only [List.append_assoc, List.cons_append]
  refine (Option.orElse_eq_some' _ _ _).mpr (.inr ⟨?_, ?_⟩)
  · rw [m_cat_cons]
    refine m_plus_chr_eq_none (by simpa [CharClass.test] using hm.2)
      (by simp [CharClass.test, isWord_eq_false_of_isSpace hy]) fun j _ hj => ?_
    rw [m_cat_cons]
    rcases Nat.lt_or_eq_of_le hj with hj | rfl
    · exact m_chr_drop_eq_none hj fun x hx => by
        simpa [CharClass.test] using isSpace_eq_false_of_isWord (hm.2 x hx)
    · rw [List.drop_length, List.nil_append, m_chr_cons, CharClass.test, hy, if_pos rfl, Regex.cat]
      cases w with
      | cons z w =>
        rw [List.cons_append]
        exact m_plus_word_eq_none (hw.2 z (.tail _ (.head _)))
      | nil =>
        rw [List.nil_append]
        exact m_plus_word_native_eq_none hT hT'
  · rw [m_alt]
    refine (Option.orElse_eq_some' _ _ _).mpr (.inl ?_)
    refine m_plus_chr_eq_of_some (by simpa [CharClass.test] using hm)
      (by simp [CharClass.test, isWord_eq_false_of_isSpace hy]) ?_
    simp (disch := (simp only [List.length_append, List.length_cons]; omega)) only [take_length_sub_append_left,
      Nat.sub_self, List.take_zero, List.append_nil]
    simpa only [List.append_assoc, List.cons_append] using reNative_native_eq hw.2 hT.2 hX hP hP' hk

/-- Whitespace right before `native` fills `\s+`, once the word alternatives
have failed on it. -/
theorem reQualified_zero {u T X P rest : Str} (hu : IsBlank u)
    (hT : ∀ x ∈ T, isSpace x = false) (hX : IsIdent X) (hP : '\n' ∉ P) (hP' : ¬ ");".toList <:+: P)
    (hk : k rest (("params", P) :: ("name", "native".toList ++ X) :: ("return_type", T) ::
      ("qualifiers", u) :: g) = some r) :
    (Regex.cat reQualified).m
      (u ++ "native ".toList ++ T ++ " native".toList ++ X ++ "(".toList ++ P ++ ");".toList ++ rest) g k =
      some r := by
  obtain ⟨y, u', hyu⟩ := List.exists_cons_of_ne_nil hu.1
  have hy := hu.2 y (hyu ▸ .head _)
  rw [reQualified, m_cat_cons, reQualifiers, m_group, m_alt, m_alt]
  simp only [List.append_assoc]
  refine (Option.orElse_eq_some' _ _ _).mpr (.inr ⟨?_, (Option.orElse_eq_some' _ _ _).mpr
    (.inr ⟨?_, ?_⟩)⟩)
  · rw [m_cat_cons, hyu, List.cons_append]
    exact m_plus_word_eq_none hy
  · rw [hyu, List.cons_append]
    exact m_plus_word_eq_none hy
  refine m_plus_chr_eq_of_some (by simpa [CharClass.test] using hu) (by simp [CharClass.test, isSpace]) ?_
  simp (disch := (simp only [List.length_append, List.length_cons]; omega)) only [take_length_sub_append_left,
    Nat.sub_self, List.take_zero, List.append_nil]
  simpa only [List.append_assoc, List.nil_append] using
    reNative_native_eq (fun x h => absurd h (List.not_mem_nil x) : ∀ x ∈ ([] : Str), isSpace x = true)
      hT hX hP hP' hk

theorem not_native_prefix_ident {X s : Str} (hX : IsIdent X) : ¬ "native ".toList <+: "native".toList ++ X ++ s := by
  obtain ⟨x, X, rfl⟩ := List.exists_cons_of_ne_nil hX.1
  rintro ⟨t, ht⟩
  have hx : x = ' ' := (by simpa using ht.symm : x = ' ' ∧ _).1
  simpa [hx, isWord] using hX.2 x (.head _)

/-- `\w+` over the start of a return type and then `\s*native `: only a
return type ending in `native` lets this through. -/
theorem m_plus_word_type_eq_none {T X s : Str} {rs : List Regex} {f : Str → Groups → Groups}
    (hT : ∀ x ∈ T, isSpace x = false) (hT' : ¬ "native".toList <:+ T) (hX : IsIdent X) :
    (plus (chr .word)).m (T ++ (" native".toList ++ (X ++ s))) g
      (fun s' g' => (Regex.cat (.many (.chr .space) :: .lit "native ".toList :: rs)).m s' (f s' g') k) = none := by
  obtain ⟨t1, t2, rfl, ht1, ht2⟩ : ∃ t1 t2, T = t1 ++ t2 ∧ (∀ x ∈ t1, isWord x = true) ∧
      ∀ x ∈ t2.head?, isWord x = false :=
    ⟨_, _, (List.takeWhile_append_dropWhile isWord T).symm, fun x hx => List.mem_takeWhile_imp hx, fun x hx => by
      have := List.head?_dropWhile_not isWord T
      rwa [Option.mem_def.mp hx] at this⟩
  rw [List.append_assoc, show " native".toList ++ (X ++ s) = ' ' :: ("native".toList ++ X ++ s) by simp]
  refine m_plus_chr_eq_none (by simpa [CharClass.test] using ht1) (fun x hx => ?_) fun i _ hi => ?_
  · cases t2 with
    | nil =>
      simp only [List.nil_append, List.head?_cons, Option.mem_def, Option.some.injEq] at hx
      subst hx
      rfl
    | cons y t2 =>
      simp only [List.cons_append, List.head?_cons, Option.mem_def, Option.some.injEq] at hx
      subst hx
      simpa [CharClass.test] using ht2 _ rfl
  · rw [← List.append_assoc, ← List.drop_append_of_le_length hi]
    by_cases hu : (t1 ++ t2).drop i = []
    · rw [hu, List.nil_append, ← List.singleton_append]
      exact m_spaces_native_eq_none (show ∀ x ∈ [' '], isSpace x = true by decide) (by simp [isSpace])
        (not_native_prefix_ident hX)
    · have hsp : ∀ x ∈ (t1 ++ t2).drop i, isSpace x = false := fun x hx => hT x (List.drop_subset _ _ hx)
      refine m_native_eq_none (fun x hx => ?_) (not_native_prefix_of_type hsp fun h => hT' (h ▸ List.drop_suffix _ _))
      rw [List.head?_append_of_ne_nil _ hu] at hx
      exact hsp x (List.mem_of_mem_head? hx)

/-- `\w+\s\w+` from `native` on: the second word is the start of the return type. -/
theorem m_two_words_native_eq_none {T X s : Str} {rs : List Regex} {f : Str → Groups → Groups}
    (hT : ∀ x ∈ T, isSpace x = false) (hT' : ¬ "native".toList <:+ T) (hX : IsIdent X) :
    (Regex.cat [.plus (.chr .word), .chr .space, .plus (.chr .word)]).m
      ("native ".toList ++ (T ++ (" native".toList ++ (X ++ s)))) g
      (fun s' g' => (Regex.cat (.many (.chr .space) :: .lit "native ".toList :: rs)).m s' (f s' g') k) = none := by
  rw [m_cat_cons, show "native ".toList ++ (T ++ (" native".toList ++ (X ++ s))) =
    "native".toList ++ ' ' :: (T ++ (" native".toList ++ (X ++ s))) from rfl]
  refine m_plus_chr_eq_none (by decide) (by simp [CharClass.test, isWord]) fun i _ hi => ?_
  rw [m_cat_cons]
  rcases Nat.lt_or_eq_of_le hi with hi | rfl
  · exact m_chr_drop_eq_none hi (by decide)
  · rw [List.drop_length, List.nil_append, m_chr_cons, if_pos (by decide), Regex.cat]
    exact m_plus_word_type_eq_none hT hT' hX

/-- The pattern from the qualifiers on fails at `native` itself when the return
type does not end in `native`. -/
theorem reQualified_native_eq_none {T X P rest : Str} (hT : T ≠ [] ∧ ∀ x ∈ T, isSpace x = false)
    (hT' : ¬ "native".toList <:+ T) (hX : IsIdent X) :
    (Regex.cat reQualified).m
      ("native ".toList ++ T ++ " native".toList ++ X ++ "(".toList ++ P ++ ");".toList ++ rest) g k = none := by
  rw [reQualified, m_cat_cons, reQualifiers, m_group, m_alt, m_alt]
  simp only [List.append_assoc]
  rw [m_two_words_native_eq_none hT.2 hT' hX, Option.none_orElse',
    m_plus_word_native_eq_none hT fun h => hT' (h ▸ List.suffix_refl _), Option.none_orElse']
  simp [plus, CharClass.test, isSpace]

/-- A key that starts with `c` does not start a text that does not. -/
theorem not_prefix_of_head {key s : Str} {c : Char} (hc : c ∈ key.head?) (hs : ∀ x ∈ s.head?, x ≠ c) :
    ¬ key <+: s := by
  rintro ⟨t, rfl⟩
  cases key with
  | nil => cases hc
  | cons y key => exact hs c (by simpa using hc) rfl

/-- An annotation, its argument and the whitespace after it, followed by a text
that does not start with whitespace. -/
theorem m_annotation_eq {key s : Str} {name : String} (a : AnnotationArg) (hv : '\n' ∉ a.value)
    (hs : ∀ x ∈ s.head?, isSpace x = false) (hk : k s ((name, a.value) :: g) = some r) :
    (annotationRegex key name).m (annotationText key (some a) ++ s) g k = some r := by
  simp only [annotationText, annotationRegex, Regex.cat, m_seq, List.append_assoc, m_lit_append, m_group]
  refine m_star_chr_eq_of_some (fun x hx => by
      have : x ≠ '\n' := fun h => hv (h ▸ hx)
      simpa [CharClass.test, CharClass.dot] using this)
    (fun h => by cases h) ?_ fun _ j hj => m_lit_pair_drop_eq_none (by decide) a.value_open hj
  simp only [take_length_sub_append, m_lit_append]
  exact m_plus_chr_eq_of_some (by simpa [CharClass.test] using a.sep_blank) (by simpa [CharClass.test] using hs) hk

/-- The same, when the text after the whitespace fails and the pattern has to
give the last whitespace character back. -/
theorem m_annotation_eq_last {key s : Str} {name : String} (a : AnnotationArg) (hv : '\n' ∉ a.value)
    (hsep : 2 ≤ a.sep.length) (hs : ∀ x ∈ s.head?, isSpace x = false)
    (hnone : k s ((name, a.value) :: g) = none)
    (hk : k (a.sep.getLast?.toList ++ s) ((name, a.value) :: g) = some r) :
    (annotationRegex key name).m (annotationText key (some a) ++ s) g k = some r := by
  obtain ⟨w, c, hwc⟩ := (List.eq_nil_or_concat a.sep).resolve_left a.sep_blank.1
  have hw : w ≠ [] := by
    rintro rfl
    simp [hwc] at hsep
  have hsp := a.sep_blank.2
  rw [hwc] at hsp hk
  simp only [annotationText, annotationRegex, Regex.cat, m_seq, List.append_assoc, m_lit_append, m_group, hwc]
  refine m_star_chr_eq_of_some (fun x hx => by
      have : x ≠ '\n' := fun h => hv (h ▸ hx)
      simpa [CharClass.test, CharClass.dot] using this)
    (fun h => by cases h) ?_ fun _ j hj => m_lit_pair_drop_eq_none (by decide) a.value_open hj
  simp only [take_length_sub_append, m_lit_append, List.concat_eq_append, List.append_assoc, List.singleton_append]
  refine m_plus_chr_eq_of_some_last ⟨hw, fun x hx => by simpa [CharClass.test] using hsp x (by simp [hx])⟩
    (by simpa [CharClass.test] using hsp c (by simp)) (by simpa [CharClass.test] using hs) hnone ?_
  simpa using hk

/-- An absent annotation: the text does not start with its key. -/
theorem m_opt_annotation_skip {key s : Str} {name : String} (hkey : ¬ key <+: s) :
    (Regex.opt (annotationRegex key name)).m s g k = k s g := by
  rw [m_opt, annotationRegex, m_cat_cons, m_lit_eq_none hkey]
  rfl

theorem m_opt_annotation_eq {key s : Str} {name : String} {a : Option AnnotationArg}
    (hv : '\n' ∉ annotationText key a) (hs : ∀ x ∈ s.head?, isSpace x = false) (hkey : ¬ key <+: s)
    (hk : k s (annotationGroups name a ++ g) = some r) :
    (Regex.opt (annotationRegex key name)).m (annotationText key a ++ s) g k = some r := by
  cases a with
  | none => rw [annotationText, List.nil_append, m_opt_annotation_skip hkey]; exact hk
  | some a =>
    rw [m_opt, m_annotation_eq a (fun h => hv (by simp [annotationText, h])) hs
      (by simpa [annotationGroups] using hk)]
    rfl

theorem m_opt_nativeCall_eq {s : Str} (name : String) :
    (Regex.opt (.seq (.lit "@NativeCall".toList) (annotationRegex "(\"".toList name))).m s g k =
      (Regex.opt (annotationRegex "@NativeCall(\"".toList name)).m s g k := by
  rw [m_opt, m_opt, m_nativeCall_eq]

/-- What `qualifiers` reads is words and whitespace. -/
theorem reQualifiers_eq_some {s : Str} (h : reQualifiers.m s g k = some r) :
    ∃ w rest g', s = w ++ rest ∧ (∀ x ∈ w, isWord x = true ∨ isSpace x = true) ∧ k rest g' = some r := by
  rw [reQualifiers, m_group, m_alt, m_alt] at h
  rcases (Option.orElse_eq_some' _ _ _).mp h with h | ⟨-, h⟩
  · rw [m_cat_cons] at h
    obtain ⟨w1, s1, rfl, hw1, h⟩ := m_plus_chr_eq_some h
    rw [m_cat_cons] at h
    obtain ⟨y, s2, rfl, hy, h⟩ := m_chr_eq_some h
    obtain ⟨w2, rest, rfl, hw2, h⟩ := m_plus_chr_eq_some h
    refine ⟨w1 ++ y :: w2, rest, _, by simp, fun x hx => ?_, h⟩
    simp only [List.mem_append, List.mem_cons] at hx
    rcases hx with hx | rfl | hx
    · exact .inl (by simpa [CharClass.test] using hw1 x hx)
    · exact .inr (by simpa [CharClass.test] using hy)
    · exact .inl (by simpa [CharClass.test] using hw2 x hx)
  · rcases (Option.orElse_eq_some' _ _ _).mp h with h | ⟨-, h⟩
    · obtain ⟨w, rest, rfl, hw, h⟩ := m_plus_chr_eq_some h
      exact ⟨w, rest, _, rfl, fun x hx => .inl (by simpa [CharClass.test] using hw x hx), h⟩
    · obtain ⟨w, rest, rfl, hw, h⟩ := m_plus_chr_eq_some h
      exact ⟨w, rest, _, rfl, fun x hx => .inr (by simpa [CharClass.test] using hw x hx), h⟩

/-- A match of `re_native` starts with an annotation key, or with words and
whitespace followed by `native `. -/
theorem reNative_matchPrefix_eq_some {s rest : Str} {g' : Groups} (h : reNative.matchPrefix s = some (rest, g')) :
    "@NativeClassQualifiedName(\"".toList <+: s ∨ "@NativeCall(\"".toList <+: s ∨
      ∃ w t, s = w ++ "native ".toList ++ t ∧ ∀ x ∈ w, isWord x = true ∨ isSpace x = true := by
  simp only [matchPrefix, reNative_eq, m_cat_cons, m_opt_nativeCall_eq] at h
  simp only [m_opt] at h
  rcases (Option.orElse_eq_some' _ _ _).mp h with h | ⟨-, h⟩
  · rw [annotationRegex, m_cat_cons] at h
    obtain ⟨s', rfl, -⟩ := m_lit_eq_some h
    exact .inl (List.prefix_append _ _)
  rcases (Option.orElse_eq_some' _ _ _).mp h with h | ⟨-, h⟩
  · rw [annotationRegex, m_cat_cons] at h
    obtain ⟨s', rfl, -⟩ := m_lit_eq_some h
    exact .inr (.inl (List.prefix_append _ _))
  rw [reQualified, m_cat_cons] at h
  obtain ⟨w, s1, g1, rfl, hw, h⟩ := reQualifiers_eq_some h
  rw [m_cat_cons] at h
  obtain ⟨u, s2, rfl, hu, h⟩ := m_star_chr_eq_some h
  rw [m_cat_cons] at h
  obtain ⟨t, rfl, -⟩ := m_lit_eq_some h
  refine .inr (.inr ⟨w ++ u, t, by simp, fun x hx => ?_⟩)
  rcases List.mem_append.mp hx with hx | hx
  · exact hw x hx
  · exact .inr (by simpa [CharClass.test] using hu x hx)

end Parts

/-! ## One declaration -/

theorem javaModifiers_ident : ∀ m ∈ javaModifiers, IsIdent m := by decide

theorem javaModifiers_head : ∀ m ∈ javaModifiers, ∀ x ∈ m.head?, x ≠ 'n' := by decide

theorem lastAnnotationArg_eq_none {q j : Option AnnotationArg} : lastAnnotationArg q j = none ↔ q = none ∧ j = none := by
  cases j <;> simp [lastAnnotationArg]

/-- What follows the whitespace of `@NativeClassQualifiedName`: `@NativeCall`, or
a text that starts with a word character. -/
theorem after_nativeClassName (J : Option AnnotationArg) {s : Str} (hs : ∀ x ∈ s.head?, isWord x = true) :
    (∀ x ∈ (annotationText "@NativeCall(\"".toList J ++ s).head?, isSpace x = false) ∧
      ¬ "@NativeClassQualifiedName(\"".toList <+: annotationText "@NativeCall(\"".toList J ++ s := by
  cases J with
  | none =>
    refine ⟨fun x hx => isSpace_eq_false_of_isWord (hs x hx), not_prefix_of_head (show '@' ∈ _ from rfl)
      fun x hx h => absurd (hs x hx) (by rw [h]; decide)⟩
  | some a =>
    simp only [annotationText, List.append_assoc]
    refine ⟨fun x hx => ?_, fun h => absurd (List.prefix_of_prefix_length_le (List.prefix_append _ _) h
      (by decide)) (by decide)⟩
    rw [show "@NativeCall(\"".toList = '@' :: "NativeCall(\"".toList from rfl, List.cons_append, List.head?_cons,
      Option.mem_def, Option.some.injEq] at hx
    subst hx
    rfl

namespace NativeDecl

variable (d : NativeDecl) {g : Groups} {k : Cont} {r : Str × Groups}

theorem modifierText_nil (h : d.modifiers = []) : d.modifierText = [] := if_pos h

theorem modifierText_head (hms : d.modifiers ≠ []) (s : Str) :
    ∀ x ∈ (d.modifierText ++ s).head?, isWord x = true ∧ x ≠ 'n' := by
  obtain ⟨m, ms, hm⟩ := List.exists_cons_of_ne_nil hms
  obtain ⟨t, ht⟩ := join_cons_eq [d.modifierSep] m ms
  have hmj := d.modifiers_java m (hm ▸ .head _)
  intro x hx
  rw [modifierText, if_neg hms, hm, ht, List.append_assoc, List.append_assoc,
    List.head?_append_of_ne_nil _ (javaModifiers_ident m hmj).1] at hx
  exact ⟨(javaModifiers_ident m hmj).2 x (List.mem_of_mem_head? hx), javaModifiers_head m hmj x hx⟩

theorem newline_free (hd : '\n' ∉ d.render) :
    '\n' ∉ annotationText "@NativeClassQualifiedName(\"".toList d.nativeClassName ∧
      '\n' ∉ annotationText "@NativeCall(\"".toList d.javaClassName ∧ '\n' ∉ d.params :=
  ⟨fun h => hd (by simp only [render, core, List.mem_append, h, true_or, or_true]),
    fun h => hd (by simp only [render, core, List.mem_append, h, true_or, or_true]),
    fun h => hd (by simp only [render, core, signature, List.mem_append, h, true_or, or_true])⟩

/-- From the modifiers on: one or two of them fill `qualifiers`. -/
theorem reQualified_modifiers_eq (hms : d.modifiers ≠ []) (hP : '\n' ∉ d.params) {rest : Str}
    (hk : k rest (("params", d.params) :: ("name", "native".toList ++ d.name) :: ("return_type", d.returnType) ::
      ("qualifiers", join [d.modifierSep] d.modifiers) :: g) = some r) :
    (Regex.cat reQualified).m (d.modifierText ++ ("native ".toList ++ (d.signature ++ rest))) g k = some r := by
  have hjava := d.modifiers_java
  have hlen := d.modifiers_length
  rw [modifierText, if_neg hms, signature]
  obtain ⟨m, ms, hm⟩ := List.exists_cons_of_ne_nil hms
  rw [hm] at hk hjava hlen ⊢
  have hm1 := javaModifiers_ident m (hjava m (.head _))
  rcases ms with _ | ⟨m2, _ | ⟨m3, ms⟩⟩
  · rw [join_singleton] at hk ⊢
    simpa only [List.append_assoc] using reQualified_one hm1 d.beforeNative_blank d.returnType_token
      d.returnType_ne_native d.name_ident hP d.params_open hk
  · rw [join_cons_cons, join_singleton] at hk ⊢
    simpa only [List.append_assoc, List.singleton_append] using reQualified_two hm1
      (javaModifiers_ident m2 (hjava m2 (by simp))) d.modifierSep_space d.beforeNative_blank d.returnType_token.2
      d.name_ident hP d.params_open (by simpa only [List.append_assoc, List.singleton_append] using hk)
  · simp at hlen

theorem reNative_matchPrefix_modifiers (hms : d.modifiers ≠ []) (hd : '\n' ∉ d.render) (rest : Str) :
    reNative.matchPrefix (d.core ++ rest) = some (rest, d.groups) := by
  obtain ⟨hQ, hJ, hP⟩ := d.newline_free hd
  have hm := d.modifierText_head hms ("native ".toList ++ (d.signature ++ rest))
  obtain ⟨hs, hkey⟩ := after_nativeClassName d.javaClassName fun x hx => (hm x hx).1
  simp only [matchPrefix, reNative_eq, m_cat_cons, m_opt_nativeCall_eq, core, List.append_assoc]
  refine m_opt_annotation_eq hQ hs hkey ?_
  refine m_opt_annotation_eq hJ (fun x hx => isSpace_eq_false_of_isWord (hm x hx).1)
    (not_prefix_of_head (show '@' ∈ _ from rfl) fun x hx h => absurd (hm x hx).1 (by rw [h]; decide)) ?_
  refine d.reQualified_modifiers_eq hms hP ?_
  simp [groups, d.qualifiers_modifiers hms]

theorem reNative_matchPrefix_indent (hms : d.modifiers = [])
    (hann : lastAnnotationArg d.nativeClassName d.javaClassName = none) (hd : '\n' ∉ d.render) (rest : Str) :
    reNative.matchPrefix (d.render ++ rest) = some (rest, d.groups) := by
  obtain ⟨hQ, hJ⟩ := lastAnnotationArg_eq_none.mp hann
  have hP := (d.newline_free hd).2.2
  have hat : ∀ {key : Str}, '@' ∈ key.head? → ¬ key <+: d.indent ++ ("native ".toList ++ (d.signature ++ rest)) :=
    fun hc => not_prefix_of_head hc fun x hx h => by
      rw [List.head?_append_of_ne_nil _ d.indent_blank.1] at hx
      simpa [h, isSpace] using d.indent_blank.head? x hx
  simp only [matchPrefix, reNative_eq, m_cat_cons, m_opt_nativeCall_eq, render, core, hQ, hJ, annotationText,
    d.modifierText_nil hms, List.nil_append, List.append_assoc]
  rw [m_opt_annotation_skip (hat rfl), m_opt_annotation_skip (hat rfl), signature]
  simpa only [List.append_assoc] using reQualified_zero d.indent_blank d.returnType_token.2 d.name_ident hP
    d.params_open (by simp [groups, d.qualifiers_indent hms hann, hQ, hJ, annotationGroups])

theorem reNative_matchPrefix_annotated (hms : d.modifiers = []) {a : AnnotationArg}
    (hann : lastAnnotationArg d.nativeClassName d.javaClassName = some a) (hd : '\n' ∉ d.render) (rest : Str) :
    reNative.matchPrefix (d.core ++ rest) = some (rest, d.groups) := by
  obtain ⟨hsep, hT'⟩ := d.annotation_sep hms a hann
  obtain ⟨hQ, hJ, hP⟩ := d.newline_free hd
  have hnone : ∀ {g k}, (Regex.cat reQualified).m ("native ".toList ++ (d.signature ++ rest)) g k = none := by
    intro g k
    simpa only [signature, List.append_assoc] using (reQualified_native_eq_none d.returnType_token hT' d.name_ident :
      (Regex.cat reQualified).m ("native ".toList ++ d.returnType ++ " native".toList ++ d.name ++ "(".toList ++
        d.params ++ ");".toList ++ rest) g k = none)
  obtain ⟨w, c, hwc⟩ := (List.eq_nil_or_concat a.sep).resolve_left a.sep_blank.1
  have hc : IsBlank [c] := ⟨List.cons_ne_nil _ _, by simpa using a.sep_blank.2 c (by simp [hwc])⟩
  have hlast : a.sep.getLast?.toList = [c] := by simp [hwc]
  have hsome : ∀ {g}, (Regex.cat reQualified).m (a.sep.getLast?.toList ++ ("native ".toList ++
      (d.signature ++ rest))) g (fun s g => some (s, g)) = some (rest, ("params", d.params) ::
        ("name", "native".toList ++ d.name) :: ("return_type", d.returnType) :: ("qualifiers", [c]) :: g) := by
    intro g
    simpa only [hlast, signature, List.append_assoc] using reQualified_zero hc d.returnType_token.2 d.name_ident
      hP d.params_open rfl
  have hat : ∀ {key : Str} {s : Str}, '@' ∈ key.head? → (∀ x ∈ s.head?, isWord x = true ∨ isSpace x = true) →
      ¬ key <+: s := fun hkey hs => not_prefix_of_head hkey fun x hx h => by
    rcases hs x hx with h' | h' <;> rw [h] at h' <;> exact absurd h' (by decide)
  simp only [matchPrefix, reNative_eq, m_cat_cons, m_opt_nativeCall_eq, core, d.modifierText_nil hms,
    List.nil_append, List.append_assoc]
  cases hJa : d.javaClassName with
  | some b =>
    obtain rfl : b = a := by simpa [lastAnnotationArg, hJa] using hann
    rw [hJa] at hJ
    obtain ⟨hs, hkey⟩ := after_nativeClassName (some b) (s := "native ".toList ++ (d.signature ++ rest))
      fun x hx => by simp at hx; simp [← hx, isWord]
    refine m_opt_annotation_eq hQ hs hkey ?_
    rw [m_opt, m_annotation_eq_last b (fun h => hJ (by simp [annotationText, h])) hsep
      (by simp [isSpace])]
    · rfl
    · exact hnone
    · rw [hsome]
      simp [groups, d.qualifiers_annotated hms hann, hlast, hJa, annotationGroups]
  | none =>
    have hQa : d.nativeClassName = some a := by simpa [lastAnnotationArg, hJa] using hann
    rw [hQa] at hQ ⊢
    rw [annotationText_none, List.nil_append, m_opt,
      m_annotation_eq_last a (fun h => hQ (by simp [annotationText, h])) hsep (by simp [isSpace])]
    · rfl
    · rw [m_opt_annotation_skip (hat rfl (by simp [isWord]))]
      exact hnone
    · rw [m_opt_annotation_skip (hat rfl (by simp [hlast, hc.2 c (.head _)])), hsome]
      simp [groups, d.qualifiers_annotated hms hann, hlast, hJa, hQa, annotationGroups]

/-- `re_native` matches a declaration exactly: from its first annotation or
modifier on, or from its indentation when it has neither. -/
theorem reNative_matchPrefix_matched (hd : '\n' ∉ d.render) (rest : Str) :
    reNative.matchPrefix (d.matched ++ rest) = some (rest, d.groups) := by
  rcases hms : d.modifiers with _ | ⟨m, ms⟩
  · cases hann : lastAnnotationArg d.nativeClassName d.javaClassName with
    | none =>
      rw [matched, hms, hann]
      exact d.reNative_matchPrefix_indent hms hann hd rest
    | some a =>
      rw [matched, hms, hann]
      exact d.reNative_matchPrefix_annotated hms hann hd rest
  · rw [matched, hms]
    exact d.reNative_matchPrefix_modifiers (by simp [hms]) hd rest

theorem matched_core (h : ¬ (d.modifiers = [] ∧ lastAnnotationArg d.nativeClassName d.javaClassName = none)) :
    d.matched = d.core := by
  unfold matched
  split
  · next hm ha => exact absurd ⟨hm, ha⟩ h
  · rfl

/-- A declaration that starts with an annotation or a modifier starts with
neither whitespace nor `n`. -/
theorem core_head (h : ¬ (d.modifiers = [] ∧ lastAnnotationArg d.nativeClassName d.javaClassName = none)) (s : Str) :
    ∀ x ∈ (d.core ++ s).head?, isSpace x = false ∧ x ≠ 'n' := by
  have hat : ∀ {key t : Str}, key.head? = some '@' → ∀ x ∈ (key ++ t).head?, isSpace x = false ∧ x ≠ 'n' :=
    fun hkey x hx => by
      rw [List.head?_append_of_ne_nil _ (List.ne_nil_of_mem (List.mem_of_mem_head? (Option.mem_def.mpr hkey))),
        hkey, Option.mem_def, Option.some.injEq] at hx
      subst hx
      decide
  rw [core]
  cases hQ : d.nativeClassName with
  | some a =>
    simp only [annotationText, List.append_assoc]
    exact hat rfl
  | none =>
    cases hJ : d.javaClassName with
    | some b =>
      simp only [annotationText, List.append_assoc, List.nil_append]
      exact hat rfl
    | none =>
      have hms : d.modifiers ≠ [] := fun hm => h ⟨hm, by simp [lastAnnotationArg, hQ, hJ]⟩
      intro x hx
      simp only [annotationText_none, List.nil_append, List.append_assoc] at hx
      have := d.modifierText_head hms _ x hx
      exact ⟨isSpace_eq_false_of_isWord this.1, this.2⟩

end NativeDecl

/-- No match of `re_native` starts in whitespace that is followed by neither
whitespace nor `n`. -/
theorem reNative_matchPrefix_blank_eq_none {v s : Str} (hv : IsBlank v)
    (hs : ∀ x ∈ s.head?, isSpace x = false ∧ x ≠ 'n') : reNative.matchPrefix (v ++ s) = none := by
  obtain ⟨y, v, rfl⟩ := List.exists_cons_of_ne_nil hv.1
  have hy := hv.2 y (.head _)
  have hat : ∀ {key : Str}, '@' ∈ key.head? → ¬ key <+: (y :: v) ++ s :=
    fun hc => not_prefix_of_head hc fun x hx h => by
      simp only [List.cons_append, List.head?_cons, Option.mem_def, Option.some.injEq] at hx
      subst hx
      simp [h, isSpace] at hy
  simp only [matchPrefix, reNative_eq, m_cat_cons, m_opt_nativeCall_eq]
  rw [m_opt_annotation_skip (hat rfl), m_opt_annotation_skip (hat rfl), reQualified, m_cat_cons, reQualifiers,
    m_group, m_alt, m_alt]
  refine (Option.orElse_eq_none' _ _).mpr ⟨?_, (Option.orElse_eq_none' _ _).mpr ⟨?_, ?_⟩⟩
  · rw [m_cat_cons, List.cons_append]
    exact m_plus_word_eq_none hy
  · rw [List.cons_append]
    exact m_plus_word_eq_none hy
  · refine m_plus_chr_eq_none (by simpa [CharClass.test] using hv.2)
      (fun x hx => by simpa [CharClass.test] using (hs x hx).1) fun j _ _ => ?_
    exact m_spaces_native_eq_none (fun x hx => hv.2 x (List.drop_subset _ _ hx)) (fun x hx => (hs x hx).1)
      (not_prefix_of_head (show 'n' ∈ _ from rfl) fun x hx => (hs x hx).2)

namespace NativeDecl

variable (d : NativeDecl)

/-- The search over a declaration followed by any text finds the declaration. -/
theorem reNative_search_render (hd : '\n' ∉ d.render) (rest b : Str) :
    ∃ mt, reNative.searchAux b (d.render ++ rest) = some mt ∧ mt.text ≠ [] ∧ mt.after = rest ∧
      mt.groups = d.groups := by
  have hfound : ∀ {b s : Str}, s ≠ [] → reNative.matchPrefix (s ++ rest) = some (rest, d.groups) →
      ∃ mt, reNative.searchAux b (s ++ rest) = some mt ∧ mt.text ≠ [] ∧ mt.after = rest ∧ mt.groups = d.groups :=
    fun hs h => ⟨_, searchAux_eq_some_of_matchPrefix h, by simpa using hs, rfl, rfl⟩
  have hm := d.reNative_matchPrefix_matched hd rest
  by_cases hind : d.modifiers = [] ∧ lastAnnotationArg d.nativeClassName d.javaClassName = none
  · rw [matched, hind.1, hind.2] at hm
    exact hfound (by simp [render, d.indent_blank.1]) hm
  · rw [d.matched_core hind] at hm
    rw [render, List.append_assoc, searchAux_append fun v hv hvs => reNative_matchPrefix_blank_eq_none
      ⟨hv, fun x hx => d.indent_blank.2 x (hvs.subset hx)⟩ (d.core_head hind rest)]
    exact hfound (by simp [core]) hm

theorem render_head (s : Str) : ∀ x ∈ (d.render ++ s).head?, isSpace x = true := by
  rw [render, List.append_assoc, List.head?_append_of_ne_nil _ d.indent_blank.1]
  exact fun x hx => d.indent_blank.2 x (List.mem_of_mem_head? hx)

theorem qualifiers_static : contains d.qualifiers "static".toList = decide ("static".toList ∈ d.modifiers) := by
  have hblank : ∀ {q : Str}, (∀ x ∈ q, isSpace x = true) → contains q "static".toList = false := fun hq =>
    Bool.eq_false_iff.mpr fun h => by simpa [isSpace] using hq 's' ((contains_iff.mp h).subset (by decide))
  have hjava : ∀ m ∈ javaModifiers, contains m "static".toList = decide (m = "static".toList) := by decide
  have hjava' := d.modifiers_java
  rcases hms : d.modifiers with _ | ⟨m1, _ | ⟨m2, _ | ⟨m3, ms⟩⟩⟩
  · cases hann : lastAnnotationArg d.nativeClassName d.javaClassName with
    | none => rw [d.qualifiers_indent hms hann, hblank d.indent_blank.2]; rfl
    | some a =>
      rw [d.qualifiers_annotated hms hann,
        hblank fun x hx => a.sep_blank.2 x (List.mem_of_mem_getLast? (Option.mem_toList.1 hx))]
      rfl
  · rw [hms] at hjava'
    rw [d.qualifiers_modifiers (by simp [hms]), hms, join_singleton, hjava m1 (hjava' m1 (.head _))]
    simp [eq_comm]
  · rw [hms] at hjava'
    rw [d.qualifiers_modifiers (by simp [hms]), hms, join_cons_cons, join_singleton, List.append_assoc,
      List.singleton_append, contains_append_cons (fun h => absurd d.modifierSep_space
        (by rw [(by decide : ∀ x ∈ "static".toList, isSpace x = false) _ h]; decide)),
      hjava m1 (hjava' m1 (.head _)), hjava m2 (hjava' m2 (by simp))]
    simp [eq_comm]
  · have := d.modifiers_length
    simp [hms] at this

/-- The `NativeMethod` of a match with the declaration's groups is the one the
declaration declares. -/
theorem nativeOfMatch_eq (ptrType : Str) {mt : Match} (h : mt.groups = d.groups) :
    nativeOfMatch ptrType mt = d.toNativeMethod ptrType := by
  rw [nativeOfMatch, toNativeMethod, ← d.qualifiers_static]
  cases hJ : d.javaClassName <;> cases hQ : d.nativeClassName <;>
    simp [Match.group, h, groups, hJ, hQ, annotationGroups, List.lookup_cons]

end NativeDecl

/-! ## A sequence of declarations -/

/-- A key without whitespace that is no infix of `f` starts at no suffix of `f`
followed by whitespace. -/
theorem not_prefix_of_filler {key f v t : Str} (hkey : ∀ x ∈ key, isSpace x = false) (hf : ¬ key <:+: f)
    (hvf : v <:+ f) (ht : ∀ x ∈ t.head?, isSpace x = true) : ¬ key <+: v ++ t := fun h => by
  rcases le_or_lt key.length v.length with hle | hlt
  · exact hf ((List.prefix_of_prefix_length_le h (List.prefix_append v t) hle).isInfix.trans hvf.isInfix)
  · obtain ⟨t', rfl⟩ := List.prefix_of_prefix_length_le (List.prefix_append v t) h hlt.le
    obtain ⟨x, t'', rfl⟩ := List.exists_cons_of_ne_nil (show t' ≠ [] by rintro rfl; simp at hlt)
    obtain ⟨u, rfl⟩ := (List.prefix_append_right_inj v).mp h
    simpa [ht x (by simp)] using hkey x (by simp)

/-- No match of `re_native` starts in a filler followed by whitespace or by nothing. -/
theorem reNative_matchPrefix_filler_eq_none {f t v : Str} (hf : IsFiller f) (ht : ∀ x ∈ t.head?, isSpace x = true)
    (hv : v ≠ []) (hvf : v <:+ f) : reNative.matchPrefix (v ++ t) = none := by
  cases h : reNative.matchPrefix (v ++ t) with
  | none => rfl
  | some x =>
    rcases reNative_matchPrefix_eq_some h with h | h | ⟨w, t', hs, hw⟩
    · exact absurd h (not_prefix_of_filler (by decide) hf.1 hvf ht)
    · exact absurd h (not_prefix_of_filler (by decide) hf.2.1 hvf ht)
    · obtain ⟨v0, c, rfl⟩ := (List.eq_nil_or_concat v).resolve_left hv
      rw [List.concat_eq_append] at hvf hs hv
      have hc := hf.2.2.2 c (by rw [← getLast?_of_suffix hvf hv]; simp)
      rcases List.append_eq_append_iff.mp hs with ⟨a', ha', -⟩ | ⟨c', hc', -⟩
      · have hnative : ∀ x ∈ "native ".toList, isWord x = true ∨ isSpace x = true := by decide
        have hmem : c ∈ w ++ "native ".toList := by rw [ha']; simp
        rcases List.mem_append.mp hmem with hm | hm
        · rcases hw c hm with h | h <;> simp [h] at hc
        · rcases hnative c hm with h | h <;> simp [h] at hc
      · exact (hf.2.2.1 (List.IsInfix.trans ⟨w, c', hc'.symm⟩ hvf.isInfix)).elim

/-- The text of declarations, each followed by a filler, after a leading filler. -/
def renderAll (f : Str) (ds : List (NativeDecl × Str)) : Str := f ++ (ds.map fun p => p.1.render ++ p.2).flatten

theorem reNative_matchPrefix_nil : reNative.matchPrefix [] = none := rfl

/-- `finditer` over declarations and fillers finds each declaration, in order. -/
theorem findIterAux_renderAll : ∀ (f : Str) (ds : List (NativeDecl × Str)), IsFiller f →
    (∀ p ∈ ds, '\n' ∉ p.1.render ∧ IsFiller p.2) → ∀ {n : Nat}, (renderAll f ds).length < n →
    (reNative.findIterAux n (renderAll f ds)).map Match.groups = ds.map fun p => p.1.groups
  | _, _, _, _, 0, hn => absurd hn (Nat.not_lt_zero _)
  | f, [], hf, _, n + 1, _ => by
    rw [renderAll, List.map_nil, List.flatten_nil, findIterAux, search,
      searchAux_append fun v hv hvf => reNative_matchPrefix_filler_eq_none hf (by simp) hv hvf]
    simp [searchAux, reNative_matchPrefix_nil]
  | f, (d, f') :: ds, hf, hds, n + 1, hn => by
    have hd := hds (d, f') (.head _)
    obtain ⟨mt, hmt, htext, hafter, hgroups⟩ := d.reNative_search_render hd.1 (renderAll f' ds) f.reverse
    have hn' : (renderAll f' ds).length < n := by
      have hlen : 0 < d.render.length := List.length_pos.mpr (by simp [NativeDecl.render, d.indent_blank.1])
      simp only [renderAll, List.map_cons, List.flatten_cons, List.length_append] at hn ⊢
      omega
    have htext' : renderAll f ((d, f') :: ds) = f ++ (d.render ++ renderAll f' ds) := by
      simp [renderAll]
    rw [htext', findIterAux, search, searchAux_append fun v hv hvf =>
      reNative_matchPrefix_filler_eq_none hf (d.render_head _) hv hvf, List.append_nil, hmt]
    simp only [if_neg htext, hafter, List.map_cons, hgroups]
    rw [findIterAux_renderAll f' ds hd.2 (fun p hp => hds p (.tail _ hp)) hn']

theorem mapM_nativeOfMatch (ptrType : Str) : ∀ (mts : List Match) (ds : List NativeDecl),
    mts.map Match.groups = ds.map NativeDecl.groups →
      mts.mapM (nativeOfMatch ptrType) = ds.mapM (NativeDecl.toNativeMethod ptrType)
  | [], [], _ => rfl
  | mt :: mts, d :: ds, h => by
    simp only [List.map_cons, List.cons.injEq] at h
    simp only [List.mapM_cons, d.nativeOfMatch_eq ptrType h.1, mapM_nativeOfMatch ptrType mts ds h.2]
  | [], _ :: _, h => by simp at h
  | _ :: _, [], h => by simp at h

/-- `ExtractNatives` over a text whose line-break-free form is a sequence of
declarations, each followed by a filler, after a leading filler, gives one
`NativeMethod` per declaration, in order. -/
theorem extractNatives_of_render (contents ptrType f : Str) (ds : List (NativeDecl × Str)) (hf : IsFiller f)
    (hds : ∀ p ∈ ds, IsFiller p.2) (h : contents.filter (· != '\n') = renderAll f ds) :
    extractNatives contents ptrType = (ds.map Prod.fst).mapM (NativeDecl.toNativeMethod ptrType) := by
  have hnl : ∀ p ∈ ds, '\n' ∉ p.1.render ∧ IsFiller p.2 := fun p hp => ⟨fun hn => by
    have : '\n' ∈ renderAll f ds :=
      List.mem_append_right _ (List.mem_flatten.mpr ⟨_, List.mem_map_of_mem _ hp, List.mem_append_left _ hn⟩)
    rw [← h] at this
    simp at this, hds p hp⟩
  rw [extractNatives, show "\n".toList = ['\n'] from rfl, replace_char_nil, h, findIter]
  exact mapM_nativeOfMatch ptrType _ _ (by
    rw [findIterAux_renderAll f ds hf hnl (Nat.lt_succ_self _), List.map_map]
    rfl)

set_option maxRecDepth 10000 in
/-- A class with two native declarations spread over several lines: the
annotations, the modifiers and `native` each on a line of their own. -/
theorem extractNatives_of_render_peer :
    let contents := ("class Foo \x7b\n  @NativeClassQualifiedName(\"Peer\")\n  @NativeCall(\"Bar\")\n" ++
      "  private static\n      native int nativeInit(int nativePeer);\n  @NativeCall(\"Baz\")\n" ++
      "  native void nativeDestroy();\n\x7d\n").toList
    let ds : List (NativeDecl × Str) :=
      [(⟨"  ".toList, some ⟨"Peer".toList, "  ".toList, by decide, by decide⟩,
        some ⟨"Bar".toList, "  ".toList, by decide, by decide⟩, ["private".toList, "static".toList], ' ',
        "      ".toList, "int".toList, "Init".toList, "int nativePeer".toList, by decide, by decide, by decide,
        by decide, by decide, by decide, by decide, by decide, by decide, by decide⟩, []),
      (⟨"  ".toList, none, some ⟨"Baz".toList, "  ".toList, by decide, by decide⟩, [], ' ', " ".toList,
        "void".toList, "Destroy".toList, [], by decide, by decide, by decide, by decide, by decide, by decide,
        by decide, by decide, by decide, by decide⟩, "\x7d".toList)]
    IsFiller "class Foo \x7b".toList ∧ (∀ p ∈ ds, IsFiller p.2) ∧
      contents.filter (· != '\n') = renderAll "class Foo \x7b".toList ds ∧
      extractNatives contents "int".toList = (ds.map Prod.fst).mapM (NativeDecl.toNativeMethod "int".toList) :=
  ⟨by decide, by decide, rfl, extractNatives_of_render _ _ "class Foo \x7b".toList _ (by decide) (by decide) rfl⟩

end JniGenerator
