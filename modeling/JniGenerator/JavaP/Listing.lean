import JniGenerator.JavaP

/-!
# The methods of a `javap` listing

`javap -s` prints a method as its declaration line (the indent and the
modifiers, each followed by a space, the return type, the name and the
parameter types `, ` apart) and, on the next line, its descriptor. Proved here:

* `MethodLine.matchPrefix_reMethod`: `re_method` reads a declaration line back,
  its lazy prefix stopping at the return type, since no earlier start is
  followed by a space-separated run of word characters before a `(`
  (`reMethodTail_eq_some`, `append_space_ne_call`);
* `JavaPMethodDecl.matchPrefix_reMethod_descriptorLine`: it reads nothing on
  a descriptor line, and `ParseJavaPSignature` reads the descriptor there;
* `calledByNativesOfLines_javaPMethods`: so the loop of `JNIFromJavaP` reads
  every method of such a listing back, in order, with its parameters named
  `p0`, `p1`, ... and its descriptor as its signature.
-/

namespace JniGenerator

open Regex

/-- A declaration line in the layout `javap` prints. -/
structure MethodLine where
  lead : Str
  returnType : Str
  name : Str
  params : Str
  rest : Str
  lead_spaced : ∀ c ∈ lead.getLast?, c = ' '
  lead_plain : '(' ∉ lead ∧ '\n' ∉ lead
  returnType_token : returnType ≠ [] ∧ ∀ c ∈ returnType, isSpace c = false ∧ c ≠ '('
  name_word : IsIdent name
  params_plain : ')' ∉ params ∧ '\n' ∉ params

namespace MethodLine

def text (d : MethodLine) : Str :=
  d.lead ++ (d.returnType ++ ' ' :: (d.name ++ '(' :: (d.params ++ ')' :: d.rest)))

theorem m_reMethodTail (d : MethodLine) {g : Groups} {k : Cont} {r : Str × Groups}
    (hk : k d.rest (("params", d.params) :: ("name", d.name) :: ("return_type", d.returnType) :: g) = some r) :
    (cat reMethodTail).m (d.returnType ++ ' ' :: (d.name ++ '(' :: (d.params ++ ')' :: d.rest))) g k = some r := by
  have hlit : ∀ {c : Char} {l : Str}, c ∉ l → ∀ x ∈ l, (CharClass.lit c).test x = false :=
    fun hc x hx => by simp only [CharClass.test, beq_eq_false_iff_ne]; rintro rfl; exact hc hx
  rw [reMethodTail, m_cat_cons, m_group]
  refine m_plusLazy_chr_eq_of_some ⟨d.returnType_token.1, fun x hx => ?_⟩ ?_ fun j _ hj => ?_
  · simp [CharClass.test, (d.returnType_token.2 x hx).1]
  · rw [Regex.take_length_sub_append, m_cat_cons]
    refine (m_chr_cons (.lit ' ') ' ').trans ?_
    rw [if_pos (by simp [CharClass.test]), m_cat_cons, m_group]
    refine m_plusLazy_chr_eq_of_some ⟨d.name_word.1, d.name_word.2⟩ ?_ fun j _ hj => ?_
    · rw [Regex.take_length_sub_append, m_cat_cons]
      refine (m_chr_cons (.lit '(') '(').trans ?_
      rw [if_pos (by simp [CharClass.test]), m_cat_cons, m_group]
      refine m_star_chr_eq_of_some (fun x hx => ?_) nofun ?_ fun _ j hj => ?_
      · simp only [CharClass.dot, CharClass.test, Bool.not_eq_true', beq_eq_false_iff_ne]
        rintro rfl
        exact d.params_plain.2 hx
      · rw [Regex.take_length_sub_append]
        exact (m_chr_cons (.lit ')') ')').trans (by simpa [CharClass.test] using hk)
      · rw [m_cat_cons]
        exact m_chr_drop_eq_none hj (hlit d.params_plain.1)
    · rw [m_cat_cons]
      exact m_chr_drop_eq_none hj (hlit fun h => absurd (d.name_word.2 _ h) (by decide))
  · rw [m_cat_cons]
    exact m_chr_drop_eq_none hj (hlit fun h => absurd (d.returnType_token.2 _ h).1 (by decide))

end MethodLine

/-- A run of word characters right before a `(` cannot start at a text that
has no `(` and is followed by a space. -/
theorem append_space_ne_word_paren {t y b c : Str} (ht : '(' ∉ t) (hb : ∀ x ∈ b, isWord x = true) :
    t ++ ' ' :: y ≠ b ++ '(' :: c := by
  intro h
  rcases List.append_eq_append_iff.1 h with ⟨_ | ⟨x, b'⟩, rfl, hb'⟩ | ⟨_ | ⟨x, c'⟩, rfl, hc'⟩
  · simp at hb'
  · obtain ⟨rfl, -⟩ := List.cons.inj hb'
    exact absurd (hb ' ' (by simp)) (by decide)
  · simp at hc'
  · obtain ⟨rfl, -⟩ := List.cons.inj hc'
    exact ht (by simp)

/-- On `v ++ ' ' :: (t ++ ' ' :: y)`, with no `(` in `v` or `t`, no run without
whitespace, a space and a run of word characters before a `(` starts at the
front. -/
theorem append_space_ne_call {v t y a b c : Str} (hv : '(' ∉ v) (ht : '(' ∉ t)
    (ha : ∀ x ∈ a, isSpace x = false) (hb : ∀ x ∈ b, isWord x = true) :
    v ++ ' ' :: (t ++ ' ' :: y) ≠ a ++ ' ' :: (b ++ '(' :: c) := by
  intro h
  rcases List.append_eq_append_iff.1 h with ⟨_ | ⟨x, a'⟩, rfl, ha'⟩ | ⟨_ | ⟨x, c'⟩, rfl, hc'⟩
  · exact append_space_ne_word_paren ht hb (List.cons.inj ha').2
  · obtain ⟨rfl, -⟩ := List.cons.inj ha'
    exact absurd (ha ' ' (by simp)) (by decide)
  · exact append_space_ne_word_paren ht hb (List.cons.inj hc').2.symm
  · obtain ⟨rfl, hbc⟩ := List.cons.inj hc'
    exact append_space_ne_word_paren (fun h => hv (by simp [h])) hb hbc.symm

/-- What the tail of `re_method` matches: a run without whitespace, a space,
and a run of word characters right before a `(`. -/
theorem reMethodTail_eq_some {s : Str} {g : Groups} {k : Cont} {r : Str × Groups}
    (h : (cat reMethodTail).m s g k = some r) :
    ∃ rt name rest, s = rt ++ ' ' :: (name ++ '(' :: rest) ∧ (∀ c ∈ rt, isSpace c = false) ∧
      IsIdent name := by
  rw [reMethodTail, m_cat_cons, m_group] at h
  obtain ⟨rt, s₁, rfl, -, hrt, h⟩ := m_plusLazy_chr_eq_some h
  rw [m_cat_cons] at h
  obtain ⟨x, s₂, rfl, hx, h⟩ := m_chr_eq_some (c := .lit ' ') h
  rw [m_cat_cons, m_group] at h
  obtain ⟨name, s₃, rfl, hne, hname, h⟩ := m_plusLazy_chr_eq_some h
  rw [m_cat_cons] at h
  obtain ⟨y, rest, rfl, hy, -⟩ := m_chr_eq_some (c := .lit '(') h
  simp only [CharClass.test, beq_iff_eq] at hx hy
  subst hx hy
  exact ⟨rt, name, rest, rfl, fun c hc => by simpa [CharClass.test] using hrt c hc, hne, hname⟩

theorem reMethodTail_eq_none {v t y : Str} {g : Groups} {k : Cont} (hv : '(' ∉ v) (ht : '(' ∉ t) :
    (cat reMethodTail).m (v ++ ' ' :: (t ++ ' ' :: y)) g k = none :=
  Option.eq_none_iff_forall_not_mem.2 fun _ hr => by
    obtain ⟨_, _, _, heq, hrt, hname⟩ := reMethodTail_eq_some hr
    exact append_space_ne_call hv ht hrt hname.2 heq

namespace MethodLine

/-- `re_method` reads a declaration line back: the lazy prefix stops at the
return type, since no earlier start has a space-separated run of word
characters before a `(`. -/
theorem matchPrefix_reMethod (d : MethodLine) :
    reMethod.matchPrefix d.text = some (d.rest,
      [("params", d.params), ("name", d.name), ("return_type", d.returnType), ("prefix", d.lead)]) := by
  rw [matchPrefix, reMethod, text, m_cat_cons, m_group]
  refine m_star_chr_eq_of_some (fun x hx => ?_) nofun ?_ fun _ j hj => ?_
  · simp only [CharClass.dot, CharClass.test, Bool.not_eq_true', beq_eq_false_iff_ne]
    rintro rfl
    exact d.lead_plain.2 hx
  · rw [Regex.take_length_sub_append]
    exact d.m_reMethodTail (k := fun s g => some (s, g)) rfl
  · rcases List.eq_nil_or_concat d.lead with h0 | ⟨p, b, hp⟩
    · simp [h0] at hj
    · rw [List.concat_eq_append] at hp
      obtain rfl : b = ' ' := d.lead_spaced b (by simp [hp])
      have hv : '(' ∉ p := fun h => d.lead_plain.1 (by simp [hp, h])
      have hjp : j ≤ p.length := by rw [hp, List.length_append] at hj; simp at hj; omega
      rw [hp, List.drop_append_of_le_length hjp, List.append_assoc, List.singleton_append]
      exact reMethodTail_eq_none (fun h => hv (List.mem_of_mem_drop h))
        fun h => (d.returnType_token.2 _ h).2 rfl

end MethodLine


/-- A line on which no run of word characters right after a space is followed
by `(`, such as any line without `(`. -/
def NoCallSite (line : Str) : Prop := ∀ a b c, IsIdent b → line ≠ a ++ ' ' :: (b ++ '(' :: c)

theorem noCallSite_of_not_mem {line : Str} (h : '(' ∉ line) : NoCallSite line :=
  fun _ _ _ _ heq => h (by simp [heq])

/-- `re_method` reads nothing on a line without a call site. -/
theorem matchPrefix_reMethod_eq_none {line : Str} (h : NoCallSite line) : reMethod.matchPrefix line = none := by
  rw [matchPrefix, reMethod, m_cat_cons, m_group]
  refine m_eq_none_of_cont _ fun s' _ ⟨pre, hs'⟩ => Option.eq_none_iff_forall_not_mem.2 fun _ hr => ?_
  obtain ⟨rt, name, rest, rfl, -, hname⟩ := reMethodTail_eq_some hr
  exact h (pre ++ rt) name rest hname (by rw [← hs']; simp)

theorem calledByNativesOfLines_append_of_no_match {r : Regex}
    {make : Groups → List Param → Str → CalledByNative} {rest : List Str} :
    ∀ {lines : List Str}, (∀ l ∈ lines, r.matchPrefix l = none) →
      calledByNativesOfLines r make (lines ++ rest) = calledByNativesOfLines r make rest
  | [], _ => rfl
  | line :: lines, h => by
    rw [List.cons_append, calledByNativesOfLines, h line (.head _)]
    exact calledByNativesOfLines_append_of_no_match fun l hl => h l (.tail _ hl)

/-- A descriptor line has no call site: no `(` before its last space, then a
descriptor that holds no space and starts with `(`. -/
theorem noCallSite_append_space_descriptor {v d : Str} (hv : '(' ∉ v) (hd : d.head? = some '(')
    (hsp : ' ' ∉ d) : NoCallSite (v ++ ' ' :: d) := by
  intro a b c hb h
  have hdb : d ≠ b ++ '(' :: c := by
    obtain ⟨x, b', rfl⟩ := List.exists_cons_of_ne_nil hb.1
    rintro rfl
    simp only [List.cons_append, List.head?_cons, Option.some.injEq] at hd
    exact absurd (hb.2 x (.head _)) (by rw [hd]; decide)
  rcases List.append_eq_append_iff.1 h with ⟨_ | ⟨x, a'⟩, rfl, ha'⟩ | ⟨_ | ⟨x, c'⟩, rfl, hc'⟩
  · exact hdb (List.cons.inj ha').2
  · obtain ⟨rfl, hd'⟩ := List.cons.inj ha'
    exact hsp (hd' ▸ List.mem_append_right _ (.head _))
  · exact hdb (List.cons.inj hc').2.symm
  · obtain ⟨rfl, hbc⟩ := List.cons.inj hc'
    exact append_space_ne_word_paren (fun h => hv (by simp [h])) hb.2 hbc.symm

theorem afterFind_eq_none {sub : Str} {x : Char} (hx : x ∈ sub) : ∀ {s : Str}, x ∉ s → afterFind sub s = none
  | [], _ => by rw [afterFind, if_neg (List.ne_nil_of_mem hx)]
  | c :: s, h => by
    have hpre : ¬ sub <+: c :: s := fun hp => h (hp.subset hx)
    rw [afterFind, if_neg (by simpa using hpre)]
    exact afterFind_eq_none hx fun hs => h (.tail _ hs)

/-- The descriptor line of `javap` 7 and later. -/
def descriptorLine (descriptor : Str) : Str := "    descriptor: ".toList ++ descriptor

theorem parseJavaPSignature_descriptorLine {d : Str} (hsp : ' ' ∉ d) :
    parseJavaPSignature (descriptorLine d) = .ok ('"' :: d ++ "\"".toList) := by
  have hS : afterFind "Signature: ".toList d = none := afterFind_eq_none (x := ' ') (by decide) hsp
  have h1 : afterFind "Signature: ".toList (descriptorLine d) = none := by
    simp [descriptorLine, afterFind, startswith, List.isPrefixOf]
    exact hS
  rw [parseJavaPSignature, h1]
  simp [descriptorLine, afterFind, startswith, List.isPrefixOf]

/-! ## A listing of methods -/

/-- The parameter types of a declaration line, `, ` apart, hold no `)` and no
line break. -/
theorem joinTypes_plain {ts : List Str} (h : ∀ t ∈ ts, JniParams.IsJavaPType t ∧ ')' ∉ t) :
    ')' ∉ join ", ".toList ts ∧ '\n' ∉ join ", ".toList ts := by
  constructor <;> intro hc <;> rcases mem_join hc with hc | ⟨t, ht, hc⟩
  · exact absurd hc (by decide)
  · exact (h t ht).2 hc
  · exact absurd hc (by decide)
  · exact absurd ((h t ht).1.1.2 _ hc).1 (by decide)

/-- `Parse` of the dotted types made slashed names each slashed type by its index. -/
theorem parse_replace_joinTypes {ts : List Str} (h : ∀ t ∈ ts, JniParams.IsJavaPType t) :
    JniParams.parse (replace (join ", ".toList ts) ".".toList "/".toList) =
      .ok ((ts.map fun t => replace t ".".toList "/".toList).mapIdx fun j t => ⟨t, 'p' :: (toString j).toList⟩) := by
  rw [show ".".toList = ['.'] from rfl, replace_char_join_sep _ (by decide), ← show ".".toList = ['.'] from rfl]
  exact JniParams.parse_join_types (by simpa using fun t ht => (h t ht).replace_dot)

/-- A method as `javap -s` lists it: the declaration line, with its parameter
types `, ` apart and what follows them (`;`, or a `throws` clause), then its
descriptor, then the lines that describe it (flags, code), none with a call site. -/
structure JavaPMethodDecl where
  lead : Str
  returnType : Str
  name : Str
  paramTypes : List Str
  rest : Str
  descriptor : Str
  details : List Str
  lead_spaced : ∀ c ∈ lead.getLast?, c = ' '
  lead_plain : '(' ∉ lead ∧ '\n' ∉ lead
  returnType_token : returnType ≠ [] ∧ ∀ c ∈ returnType, isSpace c = false ∧ c ≠ '('
  name_ident : IsIdent name
  paramTypes_javaP : ∀ t ∈ paramTypes, JniParams.IsJavaPType t ∧ ')' ∉ t
  descriptor_method : descriptor.head? = some '(' ∧ ' ' ∉ descriptor
  details_plain : ∀ l ∈ details, NoCallSite l

namespace JavaPMethodDecl

variable (m : JavaPMethodDecl)

theorem params_plain : ')' ∉ join ", ".toList m.paramTypes ∧ '\n' ∉ join ", ".toList m.paramTypes :=
  joinTypes_plain m.paramTypes_javaP

/-- The declaration line. -/
def methodLine : MethodLine :=
  ⟨m.lead, m.returnType, m.name, join ", ".toList m.paramTypes, m.rest, m.lead_spaced, m.lead_plain,
    m.returnType_token, m.name_ident, m.params_plain⟩

def lines : List Str := m.methodLine.text :: descriptorLine m.descriptor :: m.details

/-- The `CalledByNative` the method stands for: its parameters are its types,
slashed, named `p0`, `p1`, ..., and its signature is its descriptor, quoted. -/
def calledByNative : CalledByNative :=
  { systemClass := true, unchecked := false
    static := contains m.lead "static".toList
    javaClassName := []
    returnType := replace m.returnType ".".toList "/".toList
    name := m.name
    params := (m.paramTypes.map fun t => replace t ".".toList "/".toList).mapIdx fun j t =>
      ⟨t, 'p' :: (toString j).toList⟩
    signature := some ('"' :: m.descriptor ++ "\"".toList) }

theorem matchPrefix_reMethod_descriptorLine : reMethod.matchPrefix (descriptorLine m.descriptor) = none :=
  matchPrefix_reMethod_eq_none
    (noCallSite_append_space_descriptor (v := "    descriptor:".toList) (by decide) m.descriptor_method.1
      m.descriptor_method.2)

/-- The loop reads a method's block, then goes on with what follows it. -/
theorem calledByNativesOfLines_lines_append (rest : List Str) :
    calledByNativesOfLines reMethod javaPMethod (m.lines ++ rest) =
      (m.calledByNative :: ·) <$> calledByNativesOfLines reMethod javaPMethod rest := by
  have hrest : calledByNativesOfLines reMethod javaPMethod (descriptorLine m.descriptor :: (m.details ++ rest)) =
      calledByNativesOfLines reMethod javaPMethod rest := by
    rw [calledByNativesOfLines, m.matchPrefix_reMethod_descriptorLine,
      calledByNativesOfLines_append_of_no_match fun l hl => matchPrefix_reMethod_eq_none (m.details_plain l hl)]
  have hlookup : ∀ x y z w : Str,
      List.lookup "params" [("params", x), ("name", y), ("return_type", z), ("prefix", w)] = some x :=
    fun _ _ _ _ => rfl
  rw [lines, List.cons_append, List.cons_append, calledByNativesOfLines, m.methodLine.matchPrefix_reMethod]
  dsimp only
  rw [hlookup, Option.getD_some, show m.methodLine.params = join ", ".toList m.paramTypes from rfl,
    parse_replace_joinTypes fun t ht => (m.paramTypes_javaP t ht).1]
  simp only [bind, Except.bind, getItem, List.get?, pure, Except.pure,
    parseJavaPSignature_descriptorLine m.descriptor_method.2, hrest]
  cases calledByNativesOfLines reMethod javaPMethod rest <;> rfl

end JavaPMethodDecl

/-- The loop of `JNIFromJavaP` reads every method of a listing in the layout
`javap -s` prints back, in order: its modifiers decide `static`, its types are
slashed and named `p0`, `p1`, ..., and its descriptor is its signature. -/
theorem calledByNativesOfLines_javaPMethods : ∀ ms : List JavaPMethodDecl,
    calledByNativesOfLines reMethod javaPMethod (ms.flatMap JavaPMethodDecl.lines) =
      .ok (ms.map JavaPMethodDecl.calledByNative)
  | [] => rfl
  | m :: ms => by
    rw [List.flatMap_cons, m.calledByNativesOfLines_lines_append, calledByNativesOfLines_javaPMethods ms]
    rfl

/-- `String.valueOf(int)` as `javap -c -verbose -s` lists it. -/
example : ∃ m : JavaPMethodDecl, m.lines = ["  public static java.lang.String valueOf(int);".toList,
      "    descriptor: (I)Ljava/lang/String;".toList, "    flags: ACC_PUBLIC, ACC_STATIC".toList] ∧
    m.calledByNative.params = [⟨"int".toList, "p0".toList⟩] :=
  ⟨⟨"  public static ".toList, "java.lang.String".toList, "valueOf".toList, ["int".toList], ";".toList,
    "(I)Ljava/lang/String;".toList, ["    flags: ACC_PUBLIC, ACC_STATIC".toList], by decide, by decide, by decide,
    by decide, by decide, by decide, fun _ hl => noCallSite_of_not_mem (by rw [List.mem_singleton.1 hl]; decide)⟩,
    rfl, rfl⟩

end JniGenerator
