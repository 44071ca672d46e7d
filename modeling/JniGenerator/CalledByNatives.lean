import JniGenerator.Natives

/-!
# The methods `ExtractCalledByNatives` finds

`RE_CALLED_BY_NATIVE` is searched for over the whole file, and every match
starts at an `@CalledByNative`. Its `prefix` group is lazy, so a match ends the
modifiers at the earliest point from which the rest of the pattern, a run
without whitespace, whitespace, a word and `(`, can be read.

* `CalledByNativeDecl`: a method in the layout the pattern reads, with the
  layout as fields; `CalledByNativeDecl.render` is its text.
* `not_callSite_modifiers`: from no point inside the modifiers can the rest of
  the pattern be read, the return type and the name both lying between that
  point and the `(`.
* `CalledByNativeDecl.m_prefix`: the lazy `prefix` group stops right after
  the modifiers.
* `CalledByNativeDecl.m_annotation`: the greedy class-string group runs to the
  end of its line and gives back to the `")` there.
* `CalledByNativeDecl.matchPrefix_render`: the pattern reads a declaration
  back, whatever follows it, with the groups `CalledByNativeDecl.groups`.
-/

namespace JniGenerator

open Regex

/-! ## Runs of a class of characters -/

/-- Two splits of a text into a run of `p` and a rest that does not start in
`p` are the same split. -/
theorem append_eq_append_of_run {p : Char → Bool} {a a' b b' : Str} (ha : ∀ x ∈ a, p x = true)
    (ha' : ∀ x ∈ a', p x = true) (hb : ∀ x ∈ b.head?, p x = false) (hb' : ∀ x ∈ b'.head?, p x = false)
    (h : a ++ b = a' ++ b') : a = a' ∧ b = b' := by
  rcases List.append_eq_append_iff.1 h with ⟨c, rfl, rfl⟩ | ⟨c, rfl, rfl⟩
  · cases c with
    | nil => simp
    | cons y c => exact absurd (ha' y (by simp)) (by simp [hb y (by simp)])
  · cases c with
    | nil => simp
    | cons y c => exact absurd (ha y (by simp)) (by simp [hb' y (by simp)])

/-- A run of whitespace in front of a text whose head is not whitespace ends
at that head. -/
theorem head_mem_of_spaces_append {q b x0 rest : Str} {c : Char} (hq : ∀ x ∈ q, isSpace x = true)
    (hb : ∀ x ∈ b.head?, isSpace x = false) (hx0 : ∀ x ∈ x0, isSpace x = true) (hc : isSpace c = false)
    (h : q ++ b = x0 ++ c :: rest) : c ∈ b.head? := by
  obtain ⟨-, rfl⟩ := append_eq_append_of_run hq hx0 hb (fun x hx => by
    obtain rfl : c = x := by simpa using hx
    exact hc) h
  rfl

theorem m_plus_chr_eq_some_ne {cls : CharClass} {s : Str} {g : Groups} {k : Cont} {r : Str × Groups}
    (h : (plus (chr cls)).m s g k = some r) :
    ∃ w rest, s = w ++ rest ∧ w ≠ [] ∧ (∀ x ∈ w, cls.test x = true) ∧ k rest g = some r := by
  rw [plus, m_seq] at h
  obtain ⟨x, s', rfl, hx, h⟩ := m_chr_eq_some h
  obtain ⟨w, rest, rfl, hw, h⟩ := m_star_chr_eq_some h
  exact ⟨x :: w, rest, rfl, List.cons_ne_nil _ _, List.forall_mem_cons.2 ⟨hx, hw⟩, h⟩

/-- A nonempty end of modifiers a space apart: maybe a space, then the rest
of one modifier and the modifiers after it. -/
theorem suffix_join_space {u : Str} (hne : u ≠ []) :
    ∀ {ms : List Str}, (∀ m ∈ ms, IsIdent m) → u <:+ join " ".toList ms →
      ∃ u0 v ms', u = u0 ++ join " ".toList (v :: ms') ∧ (∀ x ∈ u0, x = ' ') ∧ IsIdent v ∧ ∀ m ∈ ms', IsIdent m
  | [], _, hu => absurd (List.eq_nil_of_suffix_nil hu) hne
  | [m], hms, hu => by
    rw [join_singleton] at hu
    exact ⟨[], u, [], by simp [join_singleton], nofun,
      ⟨hne, fun x hx => (hms m (.head _)).2 x (hu.subset hx)⟩, nofun⟩
  | m :: m2 :: ms, hms, hu => by
    rw [join_cons_cons, List.append_assoc] at hu
    rcases suffix_append_cases hu with hu | ⟨a, ha, ham, rfl⟩
    · rcases List.suffix_cons_iff.1 hu with rfl | hu
      · exact ⟨[' '], m2, ms, rfl, by simp, hms m2 (by simp), fun m hm => hms m (by simp [hm])⟩
      · exact suffix_join_space hne (fun m hm => hms m (.tail _ hm)) hu
    · refine ⟨[], a, m2 :: ms, by simp [join_cons_cons], nofun,
        ⟨ha, fun x hx => (hms m (.head _)).2 x (ham.subset hx)⟩, fun m hm => hms m (.tail _ hm)⟩

/-! ## The layout `RE_CALLED_BY_NATIVE` reads -/

/-- A method annotated `@CalledByNative` in a layout `RE_CALLED_BY_NATIVE`
reads: `Unchecked` or not, a class string or none, whitespace (with a line
break after a class string), the modifiers a space apart and whitespace, an
annotation of the return type and whitespace, the return type, whitespace, the
name, whitespace, and the parameters in parentheses. -/
structure CalledByNativeDecl where
  unchecked : Bool
  annotation : Option Str
  sep : Str
  modifiers : List Str
  modifierSep : Str
  returnAnnotation : Option (Str × Str)
  returnType : Str
  nameSep : Str
  name : Str
  paramSep : Str
  params : Str
  annotation_line : ∀ a ∈ annotation, '\n' ∉ a ∧ '\n' ∈ sep
  sep_blank : sep ≠ [] ∧ ∀ x ∈ sep, isSpace x = true
  modifiers_java : ∀ m ∈ modifiers, m ∈ javaModifiers
  modifierSep_blank : modifierSep ≠ [] ∧ ∀ x ∈ modifierSep, isSpace x = true
  returnAnnotation_word : ∀ a ∈ returnAnnotation, IsIdent a.1 ∧ a.2 ≠ [] ∧ ∀ x ∈ a.2, isSpace x = true
  returnType_token : returnType ≠ [] ∧ ∀ x ∈ returnType, isSpace x = false ∧ x ≠ '('
  returnType_head : ∀ x ∈ returnType.head?, x ≠ '@' ∧ x ≠ ':'
  nameSep_blank : nameSep ≠ [] ∧ ∀ x ∈ nameSep, isSpace x = true
  name_word : IsIdent name
  paramSep_blank : ∀ x ∈ paramSep, isSpace x = true
  params_plain : ')' ∉ params

/-- `RE_CALLED_BY_NATIVE` after its `prefix` group. -/
def reCalledByNativeTail : List Regex := [
  .opt (.cat [.opt (.chr (.lit ':')), .many (.chr .space), .lit "@".toList, .plus (.chr .word)]),
  .many (.chr .space), .group "return_type" (.plusLazy (.chr (.neg .space))),
  .plus (.chr .space), .group "name" (.plus (.chr .word)),
  .many (.chr .space), .lit "(".toList, .group "params" (.many (.chr (.neg (.lit ')')))),
  .lit ")".toList]

theorem reCalledByNative_eq : reCalledByNative = .cat ([
    .lit "@CalledByNative".toList, .group "Unchecked" (.manyLazy (.lit "Unchecked".toList)),
    .opt (.cat [.lit "(\"".toList, .group "annotation" (.many (.chr .dot)), .lit "\")".toList]),
    .plus (.chr .space), .group "prefix" (.manyLazy (.chr (.union .word (.lit ' '))))] ++
    reCalledByNativeTail) :=
  rfl

/-- A word, whitespace and `(`: what `(?P<name>\w+)\s*\(` reads. -/
def WordParen (t : Str) : Prop :=
  ∃ nm ws rest, t = nm ++ (ws ++ '(' :: rest) ∧ IsIdent nm ∧ ∀ x ∈ ws, isSpace x = true

/-- A run without whitespace, whitespace, then a word, whitespace and `(`:
what the pattern reads from the return type on. -/
def CallSite (t : Str) : Prop :=
  ∃ rt ws u, t = rt ++ (ws ++ u) ∧ rt ≠ [] ∧ (∀ x ∈ rt, isSpace x = false) ∧ ws ≠ [] ∧
    (∀ x ∈ ws, isSpace x = true) ∧ WordParen u

theorem mem_of_mem_head?_append {a b : Str} (ha : a ≠ []) {x : Char} (hx : x ∈ (a ++ b).head?) : x ∈ a := by
  rw [List.head?_append_of_ne_nil _ ha] at hx
  exact List.mem_of_mem_head? hx

theorem dropWhile_head?_not (p : Char → Bool) (l : Str) : ∀ x ∈ (l.dropWhile p).head?, p x = false :=
  fun x hx => by simpa [Option.mem_def.1 hx] using List.head?_dropWhile_not p l

theorem WordParen.head {t : Str} (h : WordParen t) : ∀ x ∈ t.head?, isWord x = true := by
  obtain ⟨nm, ws, rest, rfl, hnm, -⟩ := h
  exact fun x hx => hnm.2 x (mem_of_mem_head?_append hnm.1 hx)

/-- After a word and a text that starts with no word character, the text is
whitespace and `(`. -/
theorem WordParen.of_append {m c : Str} (hm : IsIdent m) (hc : ∀ x ∈ c.head?, isWord x = false)
    (h : WordParen (m ++ c)) : ∃ ws rest, c = ws ++ '(' :: rest ∧ ∀ x ∈ ws, isSpace x = true := by
  obtain ⟨nm, ws, rest, heq, hnm, hws⟩ := h
  have hparen : ∀ x ∈ (ws ++ '(' :: rest).head?, isWord x = false := fun x hx => by
    cases ws with
    | nil => obtain rfl : '(' = x := by simpa using hx
             rfl
    | cons y ws => exact isWord_eq_false_of_isSpace (hws x (by simp_all))
  obtain ⟨-, rfl⟩ := append_eq_append_of_run hm.2 hnm.2 hc hparen heq
  exact ⟨ws, rest, rfl, hws⟩

/-- Whitespace then a text that starts with no whitespace, read as whitespace
and `(`: the text starts with `(`. -/
theorem head?_eq_paren {w c ws rest : Str} (hw : ∀ x ∈ w, isSpace x = true)
    (hc : ∀ x ∈ c.head?, isSpace x = false) (hws : ∀ x ∈ ws, isSpace x = true)
    (h : w ++ c = ws ++ '(' :: rest) : c.head? = some '(' := by
  obtain ⟨-, rfl⟩ := append_eq_append_of_run hw hws hc
    (fun x hx => by rw [List.head?_cons, Option.mem_some_iff] at hx; rw [← hx]; decide) h
  rfl

/-- The first run of a call site ends at the first whitespace. -/
theorem CallSite.wordParen {a w c : Str} (ha : ∀ x ∈ a, isSpace x = false)
    (hw : w ≠ [] ∧ ∀ x ∈ w, isSpace x = true) (hc : ∀ x ∈ c.head?, isSpace x = false)
    (h : CallSite (a ++ (w ++ c))) : WordParen c := by
  obtain ⟨rt, ws, u, heq, -, hrt, hws0, hws, hu⟩ := h
  have hsp : ∀ {l : Str}, l ≠ [] → (∀ x ∈ l, isSpace x = true) → ∀ t, ∀ x ∈ (l ++ t).head?, (!isSpace x) = false :=
    fun hl hl' _ x hx => by simp [hl' x (mem_of_mem_head?_append hl hx)]
  obtain ⟨-, heq⟩ := append_eq_append_of_run (p := fun x => !isSpace x) (fun x hx => by simp [ha x hx])
    (fun x hx => by simp [hrt x hx]) (hsp hw.1 hw.2 c) (hsp hws0 hws u) heq
  obtain ⟨-, rfl⟩ := append_eq_append_of_run hw.2 hws hc
    (fun x hx => isSpace_eq_false_of_isWord (hu.head x hx)) heq
  exact hu

/-- What the annotation of a return type matches: whitespace, then `:` or `@`. -/
theorem m_returnAnnotation_eq_some {s : Str} {g : Groups} {k : Cont} {r : Str × Groups}
    (h : (cat [.opt (.chr (.lit ':')), .many (.chr .space), .lit "@".toList, .plus (.chr .word)]).m s g k = some r) :
    ∃ x0 c rest, s = x0 ++ c :: rest ∧ (∀ x ∈ x0, isSpace x = true) ∧ (c = ':' ∨ c = '@') := by
  rw [m_cat_cons, m_opt, Option.orElse_eq_some'] at h
  rcases h with h | ⟨-, h⟩
  · obtain ⟨x, s', rfl, hx, -⟩ := m_chr_eq_some h
    exact ⟨[], x, s', rfl, nofun, .inl (by simpa [CharClass.test] using hx)⟩
  · rw [m_cat_cons, many] at h
    obtain ⟨w, rest, rfl, hw, h⟩ := m_star_chr_eq_some h
    rw [m_cat_cons] at h
    obtain ⟨x, s', rfl, hx, -⟩ := m_chr_eq_some (c := .lit '@') h
    exact ⟨w, x, s', rfl, fun y hy => by simpa [CharClass.test] using hw y hy,
      .inr (by simpa [CharClass.test] using hx)⟩

/-- What the tail of the pattern matches: whitespace, then `:` or `@`, or
whitespace, then a call site. -/
theorem reCalledByNativeTail_eq_some {s : Str} {g : Groups} {k : Cont} {r : Str × Groups}
    (h : (cat reCalledByNativeTail).m s g k = some r) :
    (∃ x0 c rest, s = x0 ++ c :: rest ∧ (∀ x ∈ x0, isSpace x = true) ∧ (c = ':' ∨ c = '@')) ∨
      ∃ x0 t, s = x0 ++ t ∧ (∀ x ∈ x0, isSpace x = true) ∧ CallSite t := by
  rw [reCalledByNativeTail, m_cat_cons, m_opt, Option.orElse_eq_some'] at h
  rcases h with h | ⟨-, h⟩
  · exact .inl (m_returnAnnotation_eq_some h)
  · right
    rw [m_cat_cons, many] at h
    obtain ⟨x0, s1, rfl, hx0, h⟩ := m_star_chr_eq_some h
    rw [m_cat_cons, m_group] at h
    obtain ⟨rt, s2, rfl, hrt, hrt', h⟩ := m_plusLazy_chr_eq_some h
    rw [m_cat_cons] at h
    obtain ⟨ws, s3, rfl, hws, hws', h⟩ := m_plus_chr_eq_some_ne h
    rw [m_cat_cons, m_group] at h
    obtain ⟨nm, s4, rfl, hnm, hnm', h⟩ := m_plus_chr_eq_some_ne h
    rw [m_cat_cons, many] at h
    obtain ⟨ws2, s5, rfl, hws2, h⟩ := m_star_chr_eq_some h
    rw [m_cat_cons] at h
    obtain ⟨y, rest, rfl, hy, -⟩ := m_chr_eq_some (c := .lit '(') h
    obtain rfl : y = '(' := by simpa [CharClass.test] using hy
    exact ⟨x0, _, rfl, fun x hx => by simpa [CharClass.test] using hx0 x hx,
      rt, ws, _, rfl, hrt, fun x hx => by simpa [CharClass.test] using hrt' x hx, hws,
      fun x hx => by simpa [CharClass.test] using hws' x hx,
      nm, ws2, rest, rfl, ⟨hnm, hnm'⟩, fun x hx => by simpa [CharClass.test] using hws2 x hx⟩

theorem mem_of_mem_head?_join {m t : Str} {ms : List Str} (hm : m ≠ []) {x : Char}
    (hx : x ∈ (join " ".toList (m :: ms) ++ t).head?) : x ∈ m := by
  obtain ⟨r, hr⟩ := join_cons_eq " ".toList m ms
  rw [hr, List.append_assoc] at hx
  exact mem_of_mem_head?_append hm hx

/-- From inside the modifiers no call site can be read: between that point and
the `(` lie the modifiers after it, the return type and the name, each after
whitespace. -/
theorem not_callSite_modifiers {v modSep ann rt nameSep name rest : Str} {ms : List Str} (hv : IsIdent v)
    (hms : ∀ m ∈ ms, IsIdent m) (hmodSep : modSep ≠ [] ∧ ∀ x ∈ modSep, isSpace x = true)
    (hann : ∀ x ∈ ann.head?, x = '@') (hrt : rt ≠ [] ∧ ∀ x ∈ rt, isSpace x = false ∧ x ≠ '(')
    (hnameSep : nameSep ≠ [] ∧ ∀ x ∈ nameSep, isSpace x = true) (hname : IsIdent name) :
    ¬ CallSite (join " ".toList (v :: ms) ++ (modSep ++ (ann ++ (rt ++ (nameSep ++ (name ++ rest)))))) := by
  have hsp : ∀ {x : Char}, isWord x = true → isSpace x = false := isSpace_eq_false_of_isWord
  have hY : ∀ x ∈ (ann ++ (rt ++ (nameSep ++ (name ++ rest)))).head?, isSpace x = false ∧ x ≠ '(' := by
    intro x hx
    cases ann with
    | nil => exact hrt.2 x (mem_of_mem_head?_append hrt.1 hx)
    | cons y ann =>
      obtain rfl : y = x := by simpa using hx
      obtain rfl := hann y rfl
      exact ⟨rfl, by decide⟩
  have hparen : ∀ {c : Str}, (∀ x ∈ c.head?, x ≠ '(') → c.head? ≠ some '(' := fun hc h => hc _ h rfl
  intro h
  cases ms with
  | nil =>
    rw [join_singleton] at h
    have hu := h.wordParen (fun x hx => hsp (hv.2 x hx)) hmodSep fun x hx => (hY x hx).1
    cases ann with
    | cons y ann => exact absurd (hu.head y (by simp)) (by rw [hann y rfl]; decide)
    | nil =>
      rw [List.nil_append, ← List.takeWhile_append_dropWhile (p := isWord) rt, List.append_assoc] at hu
      have hword : ∀ x ∈ rt.takeWhile isWord, isWord x = true := fun x hx => List.mem_takeWhile_imp hx
      cases hrr : rt.dropWhile isWord with
      | nil =>
        rw [hrr, List.nil_append] at hu
        have hrw : rt.takeWhile isWord ≠ [] := fun h0 => hrt.1 (by
          rw [← List.takeWhile_append_dropWhile (p := isWord) rt, h0, hrr]; rfl)
        obtain ⟨ws, rest', hc, hws⟩ := hu.of_append ⟨hrw, hword⟩
          fun x hx => isWord_eq_false_of_isSpace (hnameSep.2 x (mem_of_mem_head?_append hnameSep.1 hx))
        refine hparen (fun x hx => ?_) (head?_eq_paren hnameSep.2 (fun x hx => ?_) hws hc)
        · exact fun h => absurd (hname.2 x (mem_of_mem_head?_append hname.1 hx)) (by rw [h]; decide)
        · exact hsp (hname.2 x (mem_of_mem_head?_append hname.1 hx))
      | cons y rr =>
        rw [hrr] at hu
        have hy : y ∈ rt := (List.dropWhile_suffix isWord).subset (by rw [hrr]; exact .head _)
        have hyw : isWord y = false := dropWhile_head?_not isWord rt y (by rw [hrr]; rfl)
        by_cases hrw : rt.takeWhile isWord = []
        · rw [hrw, List.nil_append] at hu
          exact absurd (hu.head y (by simp)) (by simp [hyw])
        · obtain ⟨ws, rest', hc, hws⟩ := hu.of_append ⟨hrw, hword⟩ fun x hx => by
            obtain rfl : y = x := by simpa using hx
            exact hyw
          have hpar := head?_eq_paren (w := []) nofun (fun x hx => by
            obtain rfl : y = x := by simpa using hx
            exact (hrt.2 y hy).1) hws hc
          exact (hrt.2 y hy).2 (by simpa using hpar)
  | cons m ms =>
    rw [join_cons_cons, List.append_assoc, List.append_assoc] at h
    have hm := hms m (.head _)
    have hu := h.wordParen (fun x hx => hsp (hv.2 x hx)) ⟨by decide, by decide⟩
      fun x hx => hsp (hm.2 x (mem_of_mem_head?_join hm.1 hx))
    cases ms with
    | nil =>
      rw [join_singleton] at hu
      obtain ⟨ws, rest', hc, hws⟩ := hu.of_append hm
        fun x hx => isWord_eq_false_of_isSpace (hmodSep.2 x (mem_of_mem_head?_append hmodSep.1 hx))
      exact hparen (fun x hx => (hY x hx).2) (head?_eq_paren hmodSep.2 (fun x hx => (hY x hx).1) hws hc)
    | cons m' ms =>
      have hm' := hms m' (by simp)
      rw [join_cons_cons, List.append_assoc, List.append_assoc] at hu
      obtain ⟨ws, rest', hc, hws⟩ := hu.of_append hm fun x hx => by
        obtain rfl : ' ' = x := by simpa using hx
        rfl
      refine hparen (fun x hx h => ?_) (head?_eq_paren (w := " ".toList) (by decide)
        (fun x hx => hsp (hm'.2 x (mem_of_mem_head?_join hm'.1 hx))) hws hc)
      exact absurd (hm'.2 x (mem_of_mem_head?_join hm'.1 hx)) (by rw [h]; decide)

theorem mem_head?_append_or {a b : Str} {x : Char} (hx : x ∈ (a ++ b).head?) : x ∈ a ∨ x ∈ b.head? := by
  cases a with
  | nil => exact .inr hx
  | cons y a => exact .inl (by obtain rfl : y = x := by simpa using hx
                               exact .head _)

theorem m_chr_eq_none_of_head {c : CharClass} {s : Str} {g : Groups} {k : Cont}
    (h : ∀ x ∈ s.head?, c.test x = false) : (chr c).m s g k = none := by
  cases s with
  | nil => rfl
  | cons x s => simp [h x rfl]

/-- A lazy loop whose continuation reads the text as it is takes no iteration. -/
theorem starLoop_lazy_of_some {body : Str → Groups → Cont → Option (Str × Groups)} {n : Nat} {s : Str}
    {g : Groups} {k : Cont} {r : Str × Groups} (h : k s g = some r) : starLoop body false n s g k = some r := by
  cases n with
  | zero => exact h
  | succ n => simp [starLoop, h]

namespace CalledByNativeDecl

variable (d : CalledByNativeDecl)

def uncheckedText : Str := if d.unchecked then "Unchecked".toList else []

/-- The class string in `("` and `")`. -/
def annotationText : Str :=
  match d.annotation with
  | none => []
  | some a => "(\"".toList ++ (a ++ "\")".toList)

/-- The modifiers a space apart and the whitespace after them. -/
def qualifierText : Str := if d.modifiers = [] then [] else join " ".toList d.modifiers ++ d.modifierSep

def returnAnnotationText : Str :=
  match d.returnAnnotation with
  | none => []
  | some (a, w) => '@' :: (a ++ w)

/-- The text from the return type on. -/
def signatureText : Str :=
  d.returnType ++ (d.nameSep ++ (d.name ++ (d.paramSep ++ '(' :: (d.params ++ [')']))))

def render : Str :=
  "@CalledByNative".toList ++ (d.uncheckedText ++ (d.annotationText ++ (d.sep ++
    (d.qualifierText ++ (d.returnAnnotationText ++ d.signatureText)))))

/-- The groups of its match, the most recent first. -/
def groups : Groups :=
  [("params", d.params), ("name", d.name), ("return_type", d.returnType), ("prefix", join " ".toList d.modifiers)] ++
    ((d.annotation.map fun a => [("annotation", a)]).getD [] ++ [("Unchecked", d.uncheckedText)])

/-- The `CalledByNative` the method declares, before mangling. -/
def toCalledByNative : Except Error CalledByNative := do
  let params ← JniParams.parse d.params
  pure { systemClass := false, unchecked := d.unchecked, static := decide ("static".toList ∈ d.modifiers)
         javaClassName := d.annotation.getD [], returnType := d.returnType, name := d.name, params := params }

theorem returnType_head_space : ∀ x ∈ (d.signatureText ++ t).head?, isSpace x = false ∧ x ≠ '@' ∧ x ≠ ':' := by
  intro x hx
  rw [signatureText, List.append_assoc] at hx
  have hx' := mem_of_mem_head?_append d.returnType_token.1 hx
  rw [List.head?_append_of_ne_nil _ d.returnType_token.1] at hx
  exact ⟨(d.returnType_token.2 x hx').1, d.returnType_head x hx⟩

theorem signatureText_append (t : Str) : d.signatureText ++ t =
    d.returnType ++ (d.nameSep ++ (d.name ++ (d.paramSep ++ '(' :: (d.params ++ ')' :: t)))) := by
  simp [signatureText]

/-- From the whitespace before the return type on, the pattern reads the
return type, the name and the parameters. -/
theorem m_signature {w t : Str} {g : Groups} {k : Cont} {r : Str × Groups} (hw : ∀ x ∈ w, isSpace x = true)
    (hk : k t (("params", d.params) :: ("name", d.name) :: ("return_type", d.returnType) :: g) = some r) :
    (cat [.many (.chr .space), .group "return_type" (.plusLazy (.chr (.neg .space))),
      .plus (.chr .space), .group "name" (.plus (.chr .word)), .many (.chr .space), .lit "(".toList,
      .group "params" (.many (.chr (.neg (.lit ')')))), .lit ")".toList]).m (w ++ (d.signatureText ++ t)) g k =
      some r := by
  have hsp : ∀ {x : Char}, isSpace x = true → CharClass.space.test x = true := id
  have hparen : ∀ x ∈ (d.paramSep ++ '(' :: (d.params ++ ')' :: t)).head?, isWord x = false := fun x hx =>
    (mem_head?_append_or hx).elim (fun h => isWord_eq_false_of_isSpace (d.paramSep_blank x h)) fun h => by
      obtain rfl : '(' = x := by simpa using h
      rfl
  rw [m_cat_cons, many]
  refine m_star_chr_eq_of_some (fun x hx => hsp (hw x hx))
    (fun _ x hx => (d.returnType_head_space x hx).1) ?_ nofun
  rw [signatureText_append, m_cat_cons, m_group]
  refine m_plusLazy_chr_eq_of_some ⟨d.returnType_token.1, fun x hx => by
    simpa [CharClass.test] using (d.returnType_token.2 x hx).1⟩ ?_ fun j _ hj => ?_
  · rw [take_length_sub_append, m_cat_cons]
    refine m_plus_chr_eq_of_some ⟨d.nameSep_blank.1, fun x hx => hsp (d.nameSep_blank.2 x hx)⟩
      (fun x hx => isSpace_eq_false_of_isWord (d.name_word.2 x (mem_of_mem_head?_append d.name_word.1 hx))) ?_
    rw [m_cat_cons, m_group]
    refine m_plus_chr_eq_of_some d.name_word hparen ?_
    rw [take_length_sub_append, m_cat_cons, many]
    refine m_star_chr_eq_of_some (fun x hx => hsp (d.paramSep_blank x hx)) (fun _ x hx => ?_) ?_ nofun
    · obtain rfl : '(' = x := by simpa using hx
      rfl
    rw [m_cat_cons]
    refine (m_chr_cons (.lit '(') '(').trans ?_
    rw [if_pos (by simp [CharClass.test]), m_cat_cons, m_group]
    refine m_star_chr_eq_of_some (fun x hx => by
        simpa [CharClass.test] using fun h : x = ')' => d.params_plain (h ▸ hx)) (fun _ x hx => ?_) ?_ nofun
    · obtain rfl : ')' = x := by simpa using hx
      simp [CharClass.test]
    rw [take_length_sub_append]
    exact (m_chr_cons (.lit ')') ')').trans (by simpa [CharClass.test] using hk)
  · rw [m_cat_cons, plus, m_seq]
    exact m_chr_drop_eq_none hj fun x hx => (d.returnType_token.2 x hx).1

/-- After the modifiers the tail of the pattern reads the annotation of the
return type, if there is one, then the signature. -/
theorem m_reCalledByNativeTail {q t : Str} {g : Groups} {k : Cont} {r : Str × Groups}
    (hq : ∀ x ∈ q, isSpace x = true)
    (hk : k t (("params", d.params) :: ("name", d.name) :: ("return_type", d.returnType) :: g) = some r) :
    (cat reCalledByNativeTail).m (q ++ (d.returnAnnotationText ++ (d.signatureText ++ t))) g k = some r := by
  rw [reCalledByNativeTail, m_cat_cons, m_opt]
  cases ha : d.returnAnnotation with
  | none =>
    rw [returnAnnotationText, ha, List.nil_append, Option.orElse_eq_some']
    refine .inr ⟨Option.eq_none_iff_forall_not_mem.2 fun _ h => ?_, d.m_signature hq hk⟩
    obtain ⟨x0, c, rest, heq, hx0, hc⟩ := m_returnAnnotation_eq_some h
    have hrt := d.returnType_head_space (t := t)
    have := hrt c (head_mem_of_spaces_append hq (fun x hx => (hrt x hx).1) hx0
      (by rcases hc with rfl | rfl <;> rfl) heq)
    rcases hc with rfl | rfl
    · exact this.2.2 rfl
    · exact this.2.1 rfl
  | some p =>
    obtain ⟨a, w⟩ := p
    obtain ⟨ha', hw0, hw⟩ := d.returnAnnotation_word _ ha
    have hq' : ∀ x ∈ (q ++ '@' :: (a ++ (w ++ (d.signatureText ++ t)))).head?, (CharClass.lit ':').test x = false :=
      fun x hx => CharClass.test_lit_of_ne ((mem_head?_append_or hx).elim
        (fun h h' => absurd (hq x h) (by rw [h']; decide)) fun h h' => by
          obtain rfl : '@' = x := by simpa using h
          exact absurd h' (by decide))
    simp only [returnAnnotationText, ha, List.cons_append, List.append_assoc]
    rw [m_cat_cons, m_opt, m_chr_eq_none_of_head hq']
    refine (Option.orElse_eq_some' _ _ _).2 (.inl ?_)
    rw [m_cat_cons, many]
    refine m_star_chr_eq_of_some (fun x hx => hq x hx) (fun _ x hx => by
      obtain rfl : '@' = x := by simpa using hx
      rfl) ?_ nofun
    rw [m_cat_cons]
    refine (m_chr_cons (.lit '@') '@').trans ?_
    rw [if_pos (by simp [CharClass.test]), m_cat_cons]
    refine m_plus_chr_eq_of_some ha' (fun x hx => isWord_eq_false_of_isSpace
      (hw x (mem_of_mem_head?_append hw0 hx))) ?_
    exact d.m_signature hw hk

/-- The lazy `prefix` group stops right after the modifiers: from no point
inside them can the tail of the pattern be read. -/
theorem m_prefix {t : Str} {g : Groups} {k : Cont} {r : Str × Groups}
    (hk : k t (("params", d.params) :: ("name", d.name) :: ("return_type", d.returnType) ::
      ("prefix", join " ".toList d.modifiers) :: g) = some r) :
    (cat (.group "prefix" (.manyLazy (.chr (.union .word (.lit ' ')))) :: reCalledByNativeTail)).m
      (d.qualifierText ++ (d.returnAnnotationText ++ (d.signatureText ++ t))) g k = some r := by
  have hms : ∀ m ∈ d.modifiers, IsIdent m := fun m hm => javaModifiers_ident m (d.modifiers_java m hm)
  rw [m_cat_cons, m_group, manyLazy, qualifierText]
  by_cases hm : d.modifiers = []
  · rw [if_pos hm]
    rw [hm] at hk
    refine m_star_chr_eq_of_some (w := []) nofun nofun ?_ nofun
    rw [take_length_sub_append]
    exact d.m_reCalledByNativeTail (q := []) nofun hk
  rw [if_neg hm, List.append_assoc]
  refine m_star_chr_eq_of_some (fun x hx => ?_) nofun ?_ fun _ j hj => ?_
  · rcases mem_join hx with hx | ⟨m, hm, hx⟩
    · obtain rfl : x = ' ' := by simpa using hx
      rfl
    · simp [CharClass.test, (hms m hm).2 x hx]
  · rw [take_length_sub_append]
    exact d.m_reCalledByNativeTail d.modifierSep_blank.2 hk
  refine Option.eq_none_iff_forall_not_mem.2 fun _ h => ?_
  have hne : (join " ".toList d.modifiers).drop j ≠ [] := by simpa using hj
  obtain ⟨u0, v, ms, hsplit, hu0, hv, hms'⟩ := suffix_join_space hne hms (List.drop_suffix _ _)
  have hu0 : ∀ x ∈ u0, isSpace x = true := fun x hx => by rw [hu0 x hx]; rfl
  have hhead : ∀ x ∈ (join " ".toList (v :: ms) ++ (d.modifierSep ++ (d.returnAnnotationText ++
      (d.signatureText ++ t)))).head?, x ∈ v := fun x hx => mem_of_mem_head?_join hv.1 hx
  have hnsp : ∀ x ∈ (join " ".toList (v :: ms) ++ (d.modifierSep ++ (d.returnAnnotationText ++
      (d.signatureText ++ t)))).head?, isSpace x = false :=
    fun x hx => isSpace_eq_false_of_isWord (hv.2 x (hhead x hx))
  rw [hsplit, List.append_assoc] at h
  rcases reCalledByNativeTail_eq_some h with ⟨x0, c, rest, heq, hx0, hc⟩ | ⟨x0, u, heq, hx0, hcs⟩
  · have hcv := hv.2 c (hhead c (head_mem_of_spaces_append hu0 hnsp hx0
      (by rcases hc with rfl | rfl <;> rfl) heq))
    rcases hc with rfl | rfl <;> exact absurd hcv (by decide)
  · obtain ⟨-, heq⟩ := append_eq_append_of_run hx0 hu0 (fun x hx => by
      obtain ⟨rt, ws, u', rfl, hrt, hrt', -⟩ := hcs
      exact hrt' x (mem_of_mem_head?_append hrt hx)) hnsp heq.symm
    have hann : ∀ x ∈ d.returnAnnotationText.head?, x = '@' := by
      unfold returnAnnotationText
      split <;> simp
    rw [heq, d.signatureText_append] at hcs
    exact not_callSite_modifiers hv hms' d.modifierSep_blank hann d.returnType_token d.nameSep_blank d.name_word hcs

theorem qualifierText_head_not_space {t : Str} :
    ∀ x ∈ (d.qualifierText ++ (d.returnAnnotationText ++ (d.signatureText ++ t))).head?, isSpace x = false := by
  intro x hx
  unfold qualifierText at hx
  split at hx
  · unfold returnAnnotationText at hx
    split at hx
    · exact (d.returnType_head_space x hx).1
    · obtain rfl : '@' = x := by simpa using hx
      rfl
  · obtain ⟨m, ms, hms⟩ := List.exists_cons_of_ne_nil ‹_›
    have hm := javaModifiers_ident m (d.modifiers_java m (by rw [hms]; exact .head _))
    rw [hms, List.append_assoc] at hx
    exact isSpace_eq_false_of_isWord (hm.2 x (mem_of_mem_head?_join hm.1 hx))

/-- The whitespace after the annotation is read whole, then the modifiers. -/
theorem m_sep {t : Str} {g : Groups} {k : Cont} {r : Str × Groups}
    (hk : k t (("params", d.params) :: ("name", d.name) :: ("return_type", d.returnType) ::
      ("prefix", join " ".toList d.modifiers) :: g) = some r) :
    (cat (.plus (.chr .space) :: .group "prefix" (.manyLazy (.chr (.union .word (.lit ' ')))) ::
      reCalledByNativeTail)).m (d.sep ++ (d.qualifierText ++ (d.returnAnnotationText ++ (d.signatureText ++ t))))
      g k = some r := by
  rw [m_cat_cons]
  exact m_plus_chr_eq_of_some d.sep_blank d.qualifierText_head_not_space (d.m_prefix hk)

/-- After an annotation the whitespace splits at its first line break. -/
theorem sep_split {a : Str} (ha : d.annotation = some a) :
    ∃ s0 s1, d.sep = s0 ++ '\n' :: s1 ∧ ∀ x ∈ s0, x ≠ '\n' := by
  obtain ⟨y, s1, h⟩ : ∃ y s1, d.sep.dropWhile (· != '\n') = y :: s1 := by
    cases h : d.sep.dropWhile (· != '\n') with
    | nil =>
      rw [List.dropWhile_eq_nil_iff] at h
      simpa using h _ (d.annotation_line a ha).2
    | cons y s1 => exact ⟨y, s1, rfl⟩
  have hy : y = '\n' := by simpa using dropWhile_head?_not (· != '\n') d.sep y (by rw [h]; rfl)
  refine ⟨d.sep.takeWhile (· != '\n'), s1, ?_, fun x hx => by
    simpa using List.mem_takeWhile_imp (p := fun x => x != '\n') hx⟩
  have hs := List.takeWhile_append_dropWhile (· != '\n') d.sep
  rw [h, hy] at hs
  exact hs.symm

/-- The class string in `("` and `")` is read back: `.*` runs to the end of
the line and gives back to the last `")`, after which only whitespace
follows. -/
theorem m_annotation {t : Str} {g : Groups} {k : Cont} {r : Str × Groups}
    (hk : k t (("params", d.params) :: ("name", d.name) :: ("return_type", d.returnType) ::
      ("prefix", join " ".toList d.modifiers) :: ((d.annotation.map fun a => [("annotation", a)]).getD [] ++ g)) =
        some r) :
    (cat (.opt (.cat [.lit "(\"".toList, .group "annotation" (.many (.chr .dot)), .lit "\")".toList]) ::
      .plus (.chr .space) :: .group "prefix" (.manyLazy (.chr (.union .word (.lit ' ')))) ::
      reCalledByNativeTail)).m
      (d.annotationText ++ (d.sep ++ (d.qualifierText ++ (d.returnAnnotationText ++ (d.signatureText ++ t)))))
      g k = some r := by
  rw [m_cat_cons, m_opt]
  cases ha : d.annotation with
  | none =>
    simp only [ha, Option.map_none', Option.getD_none, List.nil_append] at hk
    simp only [annotationText, ha, List.nil_append]
    rw [m_cat_cons, m_lit_eq_none (not_prefix_of_head (c := '(') rfl fun x hx h => ?_)]
    · exact d.m_sep hk
    · rw [h] at hx
      exact absurd (d.sep_blank.2 _ (mem_of_mem_head?_append d.sep_blank.1 hx)) (by decide)
  | some a =>
    simp only [ha, Option.map_some', Option.getD_some, List.singleton_append] at hk
    have hna := (d.annotation_line a ha).1
    obtain ⟨s0, s1, hsplit, hs0⟩ := d.sep_split ha
    have hsep := d.m_sep hk
    simp only [annotationText, ha, hsplit, List.append_assoc, List.cons_append] at hsep ⊢
    refine (Option.orElse_eq_some' _ _ _).2 (.inl ?_)
    rw [m_cat_cons, m_lit_append, m_cat_cons, m_group, ← List.append_assoc "\")".toList s0]
    refine m_many_chr_eq_of_some_giveBack (fun x hx => CharClass.test_dot_of_ne ?_) (fun x hx => ?_)
      (fun j hj _ => ?_) ?_
    · have hq : "\")".toList = ['"', ')'] := rfl
      simp only [hq, List.mem_append, List.mem_cons, List.not_mem_nil, or_false] at hx
      rcases hx with hx | (rfl | rfl) | hx
      · exact fun h => hna (h ▸ hx)
      · decide
      · decide
      · exact hs0 x hx
    · obtain rfl : '\n' = x := by simpa using hx
      rfl
    · obtain ⟨j, rfl⟩ : ∃ j', j = j' + 1 := ⟨j - 1, by omega⟩
      rw [m_cat_cons, m_lit_eq_none (not_prefix_of_head (c := '"') rfl fun x hx h => ?_)]
      subst h
      rcases mem_head?_append_or hx with hx | hx
      · have hx' : '"' ∈ (')' :: s0).drop j := hx
        rcases List.mem_cons.1 (List.mem_of_mem_drop hx') with h | h
        · exact absurd h (by decide)
        · exact absurd (d.sep_blank.2 _ (by rw [hsplit]; exact List.mem_append_left _ h)) (by decide)
      · simp at hx
    · dsimp only
      rw [take_length_sub_append, m_cat_cons, List.append_assoc, m_lit_append]
      exact hsep

/-- `Unchecked` is read when it is there: the lazy loop tries no iteration
first, and the rest of the pattern cannot start at `U`. -/
theorem m_unchecked {t : Str} {k : Cont} {r : Str × Groups} (hk : k t d.groups = some r) :
    (cat (.group "Unchecked" (.manyLazy (.lit "Unchecked".toList)) ::
      .opt (.cat [.lit "(\"".toList, .group "annotation" (.many (.chr .dot)), .lit "\")".toList]) ::
      .plus (.chr .space) :: .group "prefix" (.manyLazy (.chr (.union .word (.lit ' ')))) ::
      reCalledByNativeTail)).m
      (d.uncheckedText ++ (d.annotationText ++ (d.sep ++ (d.qualifierText ++ (d.returnAnnotationText ++
        (d.signatureText ++ t)))))) [] k = some r := by
  have hann := d.m_annotation (g := [("Unchecked", d.uncheckedText)]) hk
  rw [m_cat_cons, m_group, manyLazy, m_star]
  cases hu : d.unchecked
  · have hu' : d.uncheckedText = [] := by simp [uncheckedText, hu]
    rw [hu'] at hann ⊢
    refine starLoop_lazy_of_some ?_
    simp only [Nat.sub_self, List.take_zero]
    exact hann
  · have hu' : d.uncheckedText = "Unchecked".toList := by simp [uncheckedText, hu]
    rw [hu'] at hann ⊢
    have hU : "Unchecked".toList = 'U' :: "nchecked".toList := rfl
    obtain ⟨n, hn⟩ : ∃ n, ("Unchecked".toList ++ (d.annotationText ++ (d.sep ++ (d.qualifierText ++
        (d.returnAnnotationText ++ (d.signatureText ++ t)))))).length = n + 1 := ⟨_, by rw [hU]; rfl⟩
    rw [hn, starLoop, if_neg (by decide)]
    refine (Option.orElse_eq_some' _ _ _).2 (.inr ⟨?_, ?_⟩)
    · rw [m_cat_cons, m_opt, m_cat_cons, m_lit_eq_none (not_prefix_of_head (c := '(') rfl fun x hx => ?_)]
      · rw [hU]
        dsimp only [Option.orElse]
        rw [m_cat_cons, plus, m_seq]
        exact m_chr_eq_none_of_head fun x hx => by
          obtain rfl : 'U' = x := by simpa using hx
          rfl
      · rw [hU] at hx
        obtain rfl : 'U' = x := by simpa using hx
        decide
    · rw [m_lit_append, if_pos (by simp [hU]; omega)]
      refine starLoop_lazy_of_some ?_
      rw [← hn, take_length_sub_append]
      exact hann

/-- The pattern reads a declaration back, whatever follows it, with the
groups `groups`. -/
theorem matchPrefix_render (t : Str) : reCalledByNative.matchPrefix (d.render ++ t) = some (t, d.groups) := by
  rw [matchPrefix, reCalledByNative_eq, render]
  simp only [List.cons_append, List.nil_append, List.append_assoc]
  rw [m_cat_cons, m_lit_append]
  exact d.m_unchecked rfl

end CalledByNativeDecl

end JniGenerator
