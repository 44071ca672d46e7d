import JniGenerator.JavaP.Listing

/-!
# The constant fields of a `javap` listing

`javap -verbose` prints a `public static final int` field as its declaration
line, then either (`javap` 6) its `Signature:` and its `Constant value:`, or
(`javap` 7 on) its `descriptor:`, its flags and its `ConstantValue:`. The loop
of `JNIFromJavaP` looks for the value two lines down, then three. Proved here:

* `matchPrefix_reConstantField`, `matchPrefix_reConstantFieldValue`: the two
  patterns read a declaration line and a value line of either layout back;
* `JavaPConstant.constantFieldsOfLines_lines_append`: so the loop reads a
  field's block and goes on after it;
* `javaPMembers_loops`: on a listing of methods and constant fields in any
  order, the method loop reads exactly the methods and the field loop exactly
  the fields.
-/

namespace JniGenerator

open Regex

/-- A lazy `.*?` in front of a literal stops right before it when nothing
before it is a line break or the literal's first character. -/
theorem m_manyLazy_dot_lit {pre cs s : Str} {c : Char} {g : Groups} {K : Cont} {r : Str × Groups}
    (hpre : ∀ x ∈ pre, x ≠ '\n' ∧ x ≠ c) (hk : K s g = some r) :
    (manyLazy (chr .dot)).m (pre ++ (c :: cs ++ s)) g (fun s' g' => (lit (c :: cs)).m s' g' K) = some r := by
  refine m_star_chr_eq_of_some (fun x hx => CharClass.test_dot_of_ne (hpre x hx).1) nofun
    (by rw [m_lit_append]; exact hk) fun _ j hj => ?_
  rw [m_lit_cons]
  exact m_chr_drop_eq_none hj fun x hx => CharClass.test_lit_of_ne (hpre x hx).2

/-- No match of `.*?` then a literal on a line that does not hold the literal. -/
theorem matchPrefix_manyLazy_lit_eq_none {l line : Str} {rs : List Regex} (h : ¬ l <:+: line) :
    (cat (manyLazy (chr .dot) :: lit l :: rs)).matchPrefix line = none := by
  rw [matchPrefix, m_cat_cons]
  refine m_eq_none_of_cont _ fun s' _ ⟨pre, hs'⟩ => ?_
  rw [m_cat_cons]
  exact m_lit_eq_none fun ⟨post, hpost⟩ => h ⟨pre, post, by rw [← hs', ← hpost, List.append_assoc]⟩

theorem not_infix_of_not_mem {s l : Str} {x : Char} (hx : x ∈ s) (hl : x ∉ l) : ¬ s <:+: l :=
  fun h => hl (h.subset hx)

/-- A text that ends in a space and is not in `a` is not in `a ++ d` either
when `d` has no space. -/
theorem not_infix_append_of_space {s a d : Str} (hs : s.getLast? = some ' ') (ha : ¬ s <:+: a)
    (hd : ' ' ∉ d) : ¬ s <:+: a ++ d := by
  rintro ⟨u, v, h⟩
  rcases List.append_eq_append_iff.1 h with ⟨a', rfl, -⟩ | ⟨c', hc', rfl⟩
  · exact ha ⟨u, a', rfl⟩
  · rcases List.eq_nil_or_concat c' with rfl | ⟨c'', x, rfl⟩
    · exact ha ⟨u, [], by simpa using hc'⟩
    · have hx : x = ' ' := by simpa [hs] using (congrArg List.getLast? hc').symm
      exact hd (by simp [hx])

/-! ## The two patterns -/

/-- `re_constant_field` reads a declaration line back: the lazy prefix stops
at the modifiers, the name at the first `;`. -/
theorem matchPrefix_reConstantField {indent name rest : Str} (hindent : ∀ c ∈ indent, c = ' ')
    (hname : ';' ∉ name ∧ '\n' ∉ name) :
    reConstantField.matchPrefix (indent ++ ("public static final int ".toList ++ (name ++ ';' :: rest))) =
      some (rest, [("name", name)]) := by
  have hne : ∀ {c x : Char} {l : Str}, c ∉ l → x ∈ l → x ≠ c := fun hc hx h => hc (h ▸ hx)
  rw [matchPrefix, reConstantField, m_cat_cons]
  simp only [m_cat_cons]
  refine m_manyLazy_dot_lit (fun x hx => by rw [hindent x hx]; decide) ?_
  rw [m_group]
  refine m_star_chr_eq_of_some (fun x hx => CharClass.test_dot_of_ne (hne hname.2 hx)) nofun ?_ fun _ j hj => ?_
  · rw [Regex.take_length_sub_append]
    rfl
  · exact m_chr_drop_eq_none hj fun x hx => CharClass.test_lit_of_ne (hne hname.1 hx)

theorem matchPrefix_reConstantField_eq_none {line : Str} {x : Char} (hx : x ∈ "public static final int ".toList)
    (hl : x ∉ line) : reConstantField.matchPrefix line = none :=
  matchPrefix_manyLazy_lit_eq_none (not_infix_of_not_mem hx hl)

/-- On a descriptor line the literal would have to end at a space of the
descriptor, which has none. -/
theorem matchPrefix_reConstantField_descriptorLine {d : Str} (hd : ' ' ∉ d) :
    reConstantField.matchPrefix (descriptorLine d) = none :=
  matchPrefix_manyLazy_lit_eq_none
    (not_infix_append_of_space rfl (not_infix_of_not_mem (x := 'u') (by decide) (by decide)) hd)

/-- An `int` as `javap` prints it: an optional minus sign and decimal digits. -/
structure IntText where
  negative : Bool
  digits : Str
  digits_digit : digits ≠ [] ∧ ∀ c ∈ digits, c.isDigit = true

namespace IntText

variable (v : IntText)

def text : Str := (if v.negative then ['-'] else []) ++ v.digits

theorem mem_text {x : Char} (hx : x ∈ v.text) : x = '-' ∨ x.isDigit = true := by
  rw [text, List.mem_append] at hx
  rcases hx with hx | hx
  · cases v.negative <;> simp_all
  · exact .inr (v.digits_digit.2 x hx)

theorem not_mem_text {x : Char} (hx : x ≠ '-') (hd : x.isDigit = false) : x ∉ v.text := fun h => by
  rcases v.mem_text h with h | h
  · exact hx h
  · rw [hd] at h; cases h

/-- `-*[0-9]+` reads the whole text. -/
theorem m_text {g : Groups} {k : Cont} {r : Str × Groups} (hk : k [] g = some r) :
    (seq (many (chr (.lit '-'))) (plus (chr .digit))).m v.text g k = some r := by
  rw [m_seq, many, text]
  refine m_star_chr_eq_of_some (fun x hx => ?_) (fun _ x hx => ?_) ?_ nofun
  · cases v.negative <;> simp_all [CharClass.test]
  · obtain ⟨d, ds, hd⟩ := List.exists_cons_of_ne_nil v.digits_digit.1
    rw [hd, List.head?_cons, Option.mem_some_iff] at hx
    have : x.isDigit = true := v.digits_digit.2 x (by simp [hd, ← hx])
    exact CharClass.test_lit_of_ne fun h => absurd this (by rw [h]; decide)
  · rw [← List.append_nil v.digits]
    exact m_plus_chr_eq_of_some v.digits_digit nofun hk

end IntText

/-- The line with a field's value: `Constant value` in `javap` 6, `ConstantValue`
from `javap` 7 on. -/
def constantValueLine (legacy : Bool) (v : IntText) : Str :=
  (if legacy then "  Constant value: int " else "    ConstantValue: int ").toList ++ v.text

/-- `re_constant_field_value` reads the value line of either layout back. -/
theorem matchPrefix_reConstantFieldValue (legacy : Bool) (v : IntText) :
    reConstantFieldValue.matchPrefix (constantValueLine legacy v) = some ([], [("value", v.text)]) := by
  rw [matchPrefix, reConstantFieldValue]
  simp only [m_cat_cons]
  cases legacy
  · rw [show constantValueLine false v =
      "    ".toList ++ ('C' :: "onstant".toList ++ ("Value".toList ++ (": int ".toList ++ v.text))) from rfl]
    refine m_manyLazy_dot_lit (by decide) ?_
    rw [m_alt, m_lit_append, m_lit_append, m_group, opt, m_alt, v.m_text rfl]
    simp
  · rw [show constantValueLine true v =
      "  ".toList ++ ('C' :: "onstant".toList ++ (" value".toList ++ (": int ".toList ++ v.text))) from rfl]
    have hV : ∀ K, (lit "Value".toList).m (" value".toList ++ (": int ".toList ++ v.text)) [] K = none :=
      fun _ => rfl
    refine m_manyLazy_dot_lit (by decide) ?_
    rw [m_alt, hV]
    dsimp only [Option.orElse]
    rw [m_lit_append, m_lit_append, m_group, opt, m_alt, v.m_text rfl]
    simp

theorem matchPrefix_reConstantField_constantValueLine (legacy : Bool) (v : IntText) :
    reConstantField.matchPrefix (constantValueLine legacy v) = none := by
  refine matchPrefix_reConstantField_eq_none (x := 'p') (by decide) fun h => ?_
  rw [constantValueLine, List.mem_append] at h
  rcases h with h | h
  · cases legacy <;> revert h <;> decide
  · exact v.not_mem_text (x := 'p') (by decide) (by decide) h

theorem noCallSite_constantValueLine (legacy : Bool) (v : IntText) : NoCallSite (constantValueLine legacy v) :=
  noCallSite_of_not_mem fun h => by
    rw [constantValueLine, List.mem_append] at h
    rcases h with h | h
    · cases legacy <;> revert h <;> decide
    · exact v.not_mem_text (x := '(') (by decide) (by decide) h

/-! ## The field loop -/

theorem constantFieldsOfLines_append_of_no_match {rest : List Str} :
    ∀ {lines : List Str}, (∀ l ∈ lines, reConstantField.matchPrefix l = none) →
      constantFieldsOfLines (lines ++ rest) = constantFieldsOfLines rest
  | [], _ => rfl
  | line :: lines, h => by
    rw [List.cons_append, constantFieldsOfLines, h line (.head _)]
    exact constantFieldsOfLines_append_of_no_match fun l hl => h l (.tail _ hl)

/-- A `public static final int` field as `javap -verbose` lists it: the
declaration line, then its signature and its value (`javap` 6, no flags), or
its descriptor, its flags and its value (`javap` 7 on), then the lines that
describe it. -/
structure JavaPConstant where
  indent : Str
  name : Str
  value : IntText
  flags : Option Str
  details : List Str
  indent_spaces : ∀ c ∈ indent, c = ' '
  name_plain : ';' ∉ name ∧ '(' ∉ name ∧ '\n' ∉ name
  flags_plain : ∀ fl ∈ flags, NoCallSite fl ∧ ¬ "public static final int ".toList <:+: fl ∧
    ¬ "Constant".toList <:+: fl
  details_plain : ∀ l ∈ details, NoCallSite l ∧ ¬ "public static final int ".toList <:+: l

namespace JavaPConstant

variable (f : JavaPConstant)

def declarationLine : Str := f.indent ++ ("public static final int ".toList ++ (f.name ++ [';']))

/-- What follows the declaration line, the value two or three lines down. -/
def afterDeclaration : List Str :=
  match f.flags with
  | none => "  Signature: I".toList :: constantValueLine true f.value :: f.details
  | some fl => descriptorLine "I".toList :: fl :: constantValueLine false f.value :: f.details

def lines : List Str := f.declarationLine :: f.afterDeclaration

def constantField : ConstantField := ⟨f.name, f.value.text⟩

theorem matchPrefix_reConstantField_afterDeclaration :
    ∀ l ∈ f.afterDeclaration, reConstantField.matchPrefix l = none := by
  have hdetails : ∀ l ∈ f.details, reConstantField.matchPrefix l = none :=
    fun l hl => matchPrefix_manyLazy_lit_eq_none (f.details_plain l hl).2
  unfold afterDeclaration
  split
  · exact List.forall_mem_cons.2 ⟨matchPrefix_reConstantField_eq_none (x := 'p') (by decide) (by decide),
      List.forall_mem_cons.2 ⟨matchPrefix_reConstantField_constantValueLine _ _, hdetails⟩⟩
  · rename_i fl hfl
    exact List.forall_mem_cons.2 ⟨matchPrefix_reConstantField_descriptorLine (by decide),
      List.forall_mem_cons.2 ⟨matchPrefix_manyLazy_lit_eq_none (f.flags_plain fl (hfl ▸ rfl)).2.1,
        List.forall_mem_cons.2 ⟨matchPrefix_reConstantField_constantValueLine _ _, hdetails⟩⟩⟩

/-- The loop reads a field's block, its value two lines down in `javap` 6 and
three lines down after the flags from `javap` 7 on, then goes on with what
follows it. -/
theorem constantFieldsOfLines_lines_append (rest : List Str) :
    constantFieldsOfLines (f.lines ++ rest) = (f.constantField :: ·) <$> constantFieldsOfLines rest := by
  have hskip : constantFieldsOfLines (f.afterDeclaration ++ rest) = constantFieldsOfLines rest :=
    constantFieldsOfLines_append_of_no_match f.matchPrefix_reConstantField_afterDeclaration
  rw [lines, List.cons_append, constantFieldsOfLines, declarationLine,
    matchPrefix_reConstantField f.indent_spaces ⟨f.name_plain.1, f.name_plain.2.2⟩]
  dsimp only
  rw [hskip]
  unfold afterDeclaration
  split
  · simp only [List.cons_append, getItem, List.get?, bind, Except.bind, pure, Except.pure,
      matchPrefix_reConstantFieldValue]
    cases constantFieldsOfLines rest <;> rfl
  · rename_i fl hfl
    have hflags : reConstantFieldValue.matchPrefix fl = none :=
      matchPrefix_manyLazy_lit_eq_none (f.flags_plain fl (hfl ▸ rfl)).2.2
    simp only [List.cons_append, getItem, List.get?, bind, Except.bind, pure, Except.pure, hflags,
      matchPrefix_reConstantFieldValue]
    cases constantFieldsOfLines rest <;> rfl

/-- No line of a field's block has a call site. -/
theorem noCallSite_lines : ∀ l ∈ f.lines, NoCallSite l := by
  have hdecl : NoCallSite f.declarationLine := noCallSite_of_not_mem fun h => by
    simp only [declarationLine, List.mem_append, List.mem_singleton] at h
    rcases h with h | h | h | h
    · exact absurd (f.indent_spaces _ h) (by decide)
    · exact absurd h (by decide)
    · exact f.name_plain.2.1 h
    · exact absurd h (by decide)
  have hdetails : ∀ l ∈ f.details, NoCallSite l := fun l hl => (f.details_plain l hl).1
  rw [lines, afterDeclaration]
  split <;> simp only [List.forall_mem_cons]
  · exact ⟨hdecl, noCallSite_of_not_mem (by decide), noCallSite_constantValueLine _ _, hdetails⟩
  · rename_i fl hfl
    exact ⟨hdecl, noCallSite_of_not_mem (by decide), (f.flags_plain fl (hfl ▸ rfl)).1,
      noCallSite_constantValueLine _ _, hdetails⟩

/-- The method loop skips a field's block. -/
theorem calledByNativesOfLines_lines_append (rest : List Str) :
    calledByNativesOfLines reMethod javaPMethod (f.lines ++ rest) = calledByNativesOfLines reMethod javaPMethod rest :=
  calledByNativesOfLines_append_of_no_match fun l hl => matchPrefix_reMethod_eq_none (f.noCallSite_lines l hl)

end JavaPConstant

/-- The field loop skips a method whose declaration and details do not hold
`public static final int `: its descriptor line cannot. -/
theorem JavaPMethodDecl.constantFieldsOfLines_lines_append (m : JavaPMethodDecl)
    (hm : ¬ "public static final int ".toList <:+: m.methodLine.text ∧
      ∀ l ∈ m.details, ¬ "public static final int ".toList <:+: l) (rest : List Str) :
    constantFieldsOfLines (m.lines ++ rest) = constantFieldsOfLines rest :=
  constantFieldsOfLines_append_of_no_match (List.forall_mem_cons.2 ⟨matchPrefix_manyLazy_lit_eq_none hm.1,
    List.forall_mem_cons.2 ⟨matchPrefix_reConstantField_descriptorLine m.descriptor_method.2,
      fun l hl => matchPrefix_manyLazy_lit_eq_none (hm.2 l hl)⟩⟩)

/-! ## A listing of methods and constant fields -/

/-- A member of a `javap` listing that the two loops read: a method whose
declaration and details do not hold `public static final int `, or a
constant field. -/
inductive JavaPMember where
  | method (m : JavaPMethodDecl)
      (not_constant : ¬ "public static final int ".toList <:+: m.methodLine.text ∧
        ∀ l ∈ m.details, ¬ "public static final int ".toList <:+: l)
  | constant (f : JavaPConstant)

namespace JavaPMember

def lines : JavaPMember → List Str
  | method m _ => m.lines
  | constant f => f.lines

def calledByNatives : JavaPMember → List CalledByNative
  | method m _ => [m.calledByNative]
  | constant _ => []

def constantFields : JavaPMember → List ConstantField
  | method _ _ => []
  | constant f => [f.constantField]

end JavaPMember

/-- On a listing of methods and constant fields in any order, the method loop
of `JNIFromJavaP` reads exactly the methods and the field loop exactly the
fields, each in the order of the listing, whichever layout each field has. -/
theorem javaPMembers_loops : ∀ ms : List JavaPMember,
    calledByNativesOfLines reMethod javaPMethod (ms.flatMap JavaPMember.lines) =
        .ok (ms.flatMap JavaPMember.calledByNatives) ∧
      constantFieldsOfLines (ms.flatMap JavaPMember.lines) = .ok (ms.flatMap JavaPMember.constantFields)
  | [] => ⟨rfl, rfl⟩
  | .method m hm :: ms => by
    obtain ⟨ih₁, ih₂⟩ := javaPMembers_loops ms
    rw [List.flatMap_cons, List.flatMap_cons, List.flatMap_cons, JavaPMember.lines,
      m.calledByNativesOfLines_lines_append, m.constantFieldsOfLines_lines_append hm, ih₁, ih₂]
    exact ⟨rfl, rfl⟩
  | .constant f :: ms => by
    obtain ⟨ih₁, ih₂⟩ := javaPMembers_loops ms
    rw [List.flatMap_cons, List.flatMap_cons, List.flatMap_cons, JavaPMember.lines,
      f.calledByNativesOfLines_lines_append, f.constantFieldsOfLines_lines_append, ih₁, ih₂]
    exact ⟨rfl, rfl⟩

/-- `Integer.MAX_VALUE` as `javap -verbose` lists it from `javap` 7 on. -/
example : ∃ f : JavaPConstant, f.lines = ["  public static final int MAX_VALUE;".toList,
      "    descriptor: I".toList, "    flags: ACC_PUBLIC, ACC_STATIC, ACC_FINAL".toList,
      "    ConstantValue: int 2147483647".toList] ∧
    f.constantField = ⟨"MAX_VALUE".toList, "2147483647".toList⟩ :=
  ⟨⟨"  ".toList, "MAX_VALUE".toList, ⟨false, "2147483647".toList, by decide⟩,
    some "    flags: ACC_PUBLIC, ACC_STATIC, ACC_FINAL".toList, [], by decide, by decide,
    fun _ h => Option.mem_some_iff.1 h ▸ ⟨noCallSite_of_not_mem (by decide),
      not_infix_of_not_mem (x := 'p') (by decide) (by decide), not_infix_of_not_mem (x := 'o') (by decide) (by decide)⟩,
    nofun⟩, rfl, rfl⟩

end JniGenerator
